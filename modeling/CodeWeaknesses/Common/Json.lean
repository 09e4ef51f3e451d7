import Mathlib.Data.Nat.Notation
import Mathlib.Data.Int.Notation

/-!
# `JSON.stringify`

JSON values and their text as `JSON.stringify` writes it, without indentation.

* A value has numbers of a type `N` and strings of a type `S`. By default these are the integers
  and the strings of Lean: the payloads that this code base builds carry no others.
* `NumberFormat` and `StringFormat` are what the engine does with numbers and strings.
-/

namespace CodeWeaknesses

inductive Json (N : Type := ℤ) (S : Type := String) where
  | null
  | bool (b : Bool)
  | num (n : N)
  | str (s : S)
  | arr (items : List (Json N S))
  | obj (fields : List (S × Json N S))

/-- The numbers of the engine. -/
class NumberFormat (N : Type) where
  /-- `JSON.stringify(n)`: the shortest literal of a finite number, and `null` for the others. -/
  toText : N → String
  /-- The number that a literal stands for, when there is one. -/
  ofLiteral : List Char → Option N

/-- The strings of the engine. -/
class StringFormat (S : Type) where
  /-- The string as a text. -/
  text : S → String
  /-- `QuoteJSONString(s)` between its quotes. -/
  escape : S → String
  /-- The string that has these UTF-16 code units, when there is one. -/
  ofUnits : List ℕ → Option S

namespace Json

/-- A lowercase hexadecimal digit. -/
def hexDigit (n : ℕ) : Char := Char.ofNat (if n < 10 then 48 + n else 87 + n)

/-- `QuoteJSONString` on one character. -/
def escapeChar (c : Char) : String :=
  match c.toNat with
  | 34 => "\\\""
  | 92 => "\\\\"
  | 8 => "\\b"
  | 9 => "\\t"
  | 10 => "\\n"
  | 12 => "\\f"
  | 13 => "\\r"
  | n => if n < 32 then "\\u00" ++ String.ofList [hexDigit (n / 16), hexDigit (n % 16)]
         else String.singleton c

section Stringify

variable {N S : Type} [NumberFormat N] [StringFormat S]

def quote (s : S) : String := "\"" ++ StringFormat.escape s ++ "\""

mutual

/-- `JSON.stringify(value)`. -/
def stringify : Json N S → String
  | null => "null"
  | bool b => if b then "true" else "false"
  | num n => NumberFormat.toText n
  | str s => quote s
  | arr items => "[" ++ ",".intercalate (stringifyItems items) ++ "]"
  | obj fields => "\x7b" ++ ",".intercalate (stringifyFields fields) ++ "\x7d"

def stringifyItems : List (Json N S) → List String
  | [] => []
  | v :: vs => stringify v :: stringifyItems vs

def stringifyFields : List (S × Json N S) → List String
  | [] => []
  | (k, v) :: fs => (quote k ++ ":" ++ stringify v) :: stringifyFields fs

end

end Stringify

/-- `value ?? null` of an optional number. -/
def ofNum? : Option ℤ → Json
  | some n => num n
  | none => null

end Json

end CodeWeaknesses
