import CodeWeaknesses.Common.Basic
import CodeWeaknesses.Common.Json
import CodeWeaknesses.Lib.Ranking

/-!
# `JSON.parse`

The grammar of ECMA-404 and the objects that `JSON.parse` builds from it, on the characters
of the text.

* A number is its literal, and a string is its UTF-16 code units until its closing quote; what
  they stand for is up to `NumberFormat` and `StringFormat`.
* The integers have no literal with a fraction or an exponent, and the strings of Lean no lone
  surrogate: where these are the formats, such a text is refused.
* A property that is set again keeps its place; array indices come first, in order.
-/

namespace CodeWeaknesses.Json

open Lib

/-! ## Strings -/

/-- The value of a hexadecimal digit. -/
def hexValue (c : Char) : Option ℕ :=
  let n := c.toNat
  if 48 ≤ n ∧ n ≤ 57 then some (n - 48)
  else if 97 ≤ n ∧ n ≤ 102 then some (n - 87)
  else if 65 ≤ n ∧ n ≤ 70 then some (n - 55)
  else none

/-- The code unit of `\uXXXX`. -/
def hexUnit (h₁ h₂ h₃ h₄ : Char) : Option ℕ := do
  let d₁ ← hexValue h₁
  let d₂ ← hexValue h₂
  let d₃ ← hexValue h₃
  let d₄ ← hexValue h₄
  pure (((d₁ * 16 + d₂) * 16 + d₃) * 16 + d₄)

/-- The code unit of an escape of one character. -/
def escapeUnit (c : Char) : Option ℕ :=
  match c.toNat with
  | 34 => some 34
  | 92 => some 92
  | 47 => some 47
  | 98 => some 8
  | 102 => some 12
  | 110 => some 10
  | 114 => some 13
  | 116 => some 9
  | _ => none

/-- The UTF-16 code units of a character. -/
def codeUnits (c : Char) : List ℕ :=
  if c.toNat < 0x10000 then [c.toNat]
  else [0xD800 + (c.toNat - 0x10000) / 0x400, 0xDC00 + (c.toNat - 0x10000) % 0x400]

/-- The characters of a sequence of code units. -/
def fromCodeUnits : List ℕ → Option (List Char)
  | [] => some []
  | u :: us =>
    if 0xD800 ≤ u ∧ u < 0xDC00 then
      match us with
      | v :: us =>
        if 0xDC00 ≤ v ∧ v < 0xE000 then
          (fromCodeUnits us).map (Char.ofNat (0x10000 + (u - 0xD800) * 0x400 + (v - 0xDC00)) :: ·)
        else none
      | [] => none
    else if 0xDC00 ≤ u ∧ u < 0xE000 then none
    else (fromCodeUnits us).map (Char.ofNat u :: ·)

/-- The code units of a string after its opening quote, and the text after its closing one. -/
def stringBody : List Char → Option (List ℕ × List Char)
  | [] => none
  | c :: cs =>
    if c = '"' then some ([], cs)
    else if c = '\\' then
      match cs with
      | [] => none
      | e :: cs =>
        if e = 'u' then
          match cs with
          | h₁ :: h₂ :: h₃ :: h₄ :: cs =>
            (hexUnit h₁ h₂ h₃ h₄).bind fun u => (stringBody cs).map fun r => (u :: r.1, r.2)
          | _ => none
        else (escapeUnit e).bind fun u => (stringBody cs).map fun r => (u :: r.1, r.2)
    else if c.toNat < 32 then none
    else (stringBody cs).map fun r => (codeUnits c ++ r.1, r.2)

instance : StringFormat String where
  text s := s
  escape s := String.join (s.toList.map escapeChar)
  ofUnits units := (fromCodeUnits units).map String.ofList

/-- A string after its opening quote. -/
def string {S : Type} [StringFormat S] (cs : List Char) : Option (S × List Char) :=
  (stringBody cs).bind fun r => (StringFormat.ofUnits r.1).map fun s => (s, r.2)

/-! ## Numbers -/

/-- The digits of an integer, and the text after them. -/
def digits (cs : List Char) : Option (List Char × List Char) :=
  let ds := cs.takeWhile Char.isDigit
  if ds = [] ∨ ds.head? = some '0' ∧ ds ≠ ['0'] then none else some (ds, cs.dropWhile Char.isDigit)

/-- At least one digit. -/
def digitRun (cs : List Char) : Option (List Char × List Char) :=
  let ds := cs.takeWhile Char.isDigit
  if ds = [] then none else some (ds, cs.dropWhile Char.isDigit)

/-- The fraction of a number, if there is one. -/
def fraction : List Char → Option (List Char × List Char)
  | [] => some ([], [])
  | c :: cs => if c = '.' then (digitRun cs).map fun r => (c :: r.1, r.2) else some ([], c :: cs)

/-- The sign and the digits of an exponent. -/
def signedRun : List Char → Option (List Char × List Char)
  | [] => none
  | c :: cs => if c = '+' ∨ c = '-' then (digitRun cs).map fun r => (c :: r.1, r.2) else digitRun (c :: cs)

/-- The exponent of a number, if there is one. -/
def exponent : List Char → Option (List Char × List Char)
  | [] => some ([], [])
  | c :: cs => if c = 'e' ∨ c = 'E' then (signedRun cs).map fun r => (c :: r.1, r.2) else some ([], c :: cs)

/-- A literal without its sign. -/
def unsigned (cs : List Char) : Option (List Char × List Char) :=
  (digits cs).bind fun d => (fraction d.2).bind fun f => (exponent f.2).map fun e => (d.1 ++ (f.1 ++ e.1), e.2)

/-- The literal of a number, and the text after it. -/
def literal : List Char → Option (List Char × List Char)
  | [] => none
  | c :: cs => if c = '-' then (unsigned cs).map fun r => (c :: r.1, r.2) else unsigned (c :: cs)

/-- The number of the decimal digits. -/
def naturalOf (ds : List Char) : Option ℕ :=
  if ds.all Char.isDigit = true then some (Nat.ofDigitChars 10 ds 0) else none

/-- The integer of a literal without fraction and exponent. -/
def integerOf : List Char → Option ℤ
  | [] => none
  | c :: cs => if c = '-' then (naturalOf cs).map fun n => -(n : ℤ) else (naturalOf (c :: cs)).map fun n => (n : ℤ)

instance : NumberFormat ℤ where
  toText n := toString n
  ofLiteral := integerOf

def number {N : Type} [NumberFormat N] (cs : List Char) : Option (N × List Char) :=
  (literal cs).bind fun r => (NumberFormat.ofLiteral r.1).map fun n => (n, r.2)

section Values

variable {N S : Type}

/-! ## Objects -/

/-- The array index that a property name denotes. -/
def arrayIndex? [StringFormat S] (key : S) : Option ℕ :=
  match digits (StringFormat.text key).toList with
  | some (ds, []) => let n := Nat.ofDigitChars 10 ds 0
                     if n < 4294967295 then some n else none
  | _ => none

/-- `object[key] = value`. -/
def setProperty [DecidableEq S] (fields : List (S × Json N S)) (field : S × Json N S) : List (S × Json N S) :=
  if ∃ f ∈ fields, f.1 = field.1 then fields.map fun f => if f.1 = field.1 then field else f
  else fields ++ [field]

/-- The properties of the object that gets `fields` one after another, in their order. -/
def ownProperties [StringFormat S] [DecidableEq S] (fields : List (S × Json N S)) : List (S × Json N S) :=
  let properties := fields.foldl setProperty []
  sortBy (fun a b => ((arrayIndex? a.1).getD 0 : ℤ) - (arrayIndex? b.1).getD 0)
      (properties.filter fun f => (arrayIndex? f.1).isSome) ++
    properties.filter fun f => (arrayIndex? f.1).isNone

/-! ## Values -/

def isWhitespace (c : Char) : Bool := c = ' ' || c = '\t' || c = '\n' || c = '\r'

def skipWhitespace (cs : List Char) : List Char := cs.dropWhile isWhitespace

/-- The text after a keyword. -/
def keyword (word : List Char) (value : Json N S) (cs : List Char) : Option (Json N S × List Char) :=
  if word <+: cs then some (value, cs.drop word.length) else none

/-- The text after the character `c`. -/
def punctuator (c : Char) (cs : List Char) : Option (List Char) :=
  match skipWhitespace cs with
  | [] => none
  | c' :: cs => if c' = c then some cs else none

variable [NumberFormat N] [StringFormat S] [DecidableEq S]

mutual

/-- A value and the text after it; the first argument bounds the depth of the recursion. -/
def readValue : ℕ → List Char → Option (Json N S × List Char)
  | 0, _ => none
  | fuel + 1, cs =>
    match skipWhitespace cs with
    | [] => none
    | c :: cs =>
      if c = '"' then (string cs).map fun r => (.str r.1, r.2)
      else if c = '[' then
        match punctuator ']' cs with
        | some cs => some (.arr [], cs)
        | none => (readItems fuel cs).map fun r => (.arr r.1, r.2)
      else if c = '\x7b' then
        match punctuator '\x7d' cs with
        | some cs => some (.obj [], cs)
        | none => (readFields fuel cs).map fun r => (.obj (ownProperties r.1), r.2)
      else if c = 'n' then keyword ['u', 'l', 'l'] .null cs
      else if c = 't' then keyword ['r', 'u', 'e'] (.bool true) cs
      else if c = 'f' then keyword ['a', 'l', 's', 'e'] (.bool false) cs
      else (number (c :: cs)).map fun r => (.num r.1, r.2)

/-- The items of an array, of which there is at least one. -/
def readItems : ℕ → List Char → Option (List (Json N S) × List Char)
  | 0, _ => none
  | fuel + 1, cs => do
    let (item, cs) ← readValue fuel cs
    match punctuator ',' cs with
    | some cs => (readItems fuel cs).map fun r => (item :: r.1, r.2)
    | none => (punctuator ']' cs).map fun cs => ([item], cs)

/-- The fields of an object, of which there is at least one. -/
def readFields : ℕ → List Char → Option (List (S × Json N S) × List Char)
  | 0, _ => none
  | fuel + 1, cs => do
    let cs ← punctuator '"' cs
    let (key, cs) ← string cs
    let cs ← punctuator ':' cs
    let (value, cs) ← readValue fuel cs
    match punctuator ',' cs with
    | some cs => (readFields fuel cs).map fun r => ((key, value) :: r.1, r.2)
    | none => (punctuator '\x7d' cs).map fun cs => ([(key, value)], cs)

end

def syntaxError : Err := .error "Unexpected token in JSON"

/-- `JSON.parse(text)`, with numbers of `N` and strings of `S`. -/
def parseAs (N S : Type) [NumberFormat N] [StringFormat S] [DecidableEq S] (text : String) : Except Err (Json N S) :=
  match readValue (text.toList.length + 1) text.toList with
  | some (value, cs) => if skipWhitespace cs = [] then .ok value else .error syntaxError
  | none => .error syntaxError

end Values

/-- `JSON.parse(text)`. -/
def parse (text : String) : Except Err Json := parseAs ℤ String text

end CodeWeaknesses.Json
