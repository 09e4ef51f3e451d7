import CodeWeaknesses.Common.Basic

/-!
# Execution results and output comparison

The `ExecutionResult` of `submissions/judge/judge-engine.service.ts` and its
`compareOutput`, with the JavaScript string functions that the judge and the
processor use. Texts are compared as lists of characters.
-/

namespace CodeWeaknesses.Submissions

/-! ## JavaScript strings -/

/-- ECMAScript white space and line terminators, which `trim` removes. -/
def isJsSpace (c : Char) : Bool :=
  [0x09, 0x0A, 0x0B, 0x0C, 0x0D, 0x20, 0xA0, 0x1680, 0x2028, 0x2029, 0x202F, 0x205F, 0x3000,
    0xFEFF].contains c.toNat || (0x2000 ≤ c.toNat && c.toNat ≤ 0x200A)

/-- `String.prototype.trim`. -/
def jsTrim (s : List Char) : List Char :=
  ((s.dropWhile isJsSpace).reverse.dropWhile isJsSpace).reverse

/-- `text.toLowerCase().includes('time')`. The ASCII capitals are the only characters
    that `toLowerCase` turns into one of these four letters alone. -/
def mentionsTime (text : String) : Bool :=
  decide ("time".toList <:+: text.toList.map Char.toLower)

/-! ## The judge -/

/-- `ExecutionResult` (lines 6–14); `error` is `none` when it is `undefined`. -/
structure ExecutionResult where
  success : Bool
  output : String
  error : Option String
  executionTime : ℤ
  memoryUsed : ℕ
  timedOut : Bool
  memoryExceeded : Bool
  deriving DecidableEq, Repr

/-- `normalizeOutput` (lines 199–206): the non-empty trimmed lines, joined by newlines. -/
def normalizeOutput (str : List Char) : List Char :=
  let lines := (((jsTrim str).splitOn '\n').map jsTrim).filter fun line => line.length > 0
  List.intercalate ['\n'] lines

/-- `compareOutput` (lines 197–212). -/
def compareOutput (actual expected : String) : Bool :=
  normalizeOutput actual.toList = normalizeOutput expected.toList

end CodeWeaknesses.Submissions
