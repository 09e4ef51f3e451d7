import Mathlib

/-!
# Entities and shared vocabulary

The TypeORM entities, enumerations and exceptions shared by the models of the
services, gateways and processors under `src/`.

* Ids are UUID strings. The code only compares them and uses them as map keys.
* A `Date` is its `getTime()`: milliseconds since the epoch.
* A nullable column and a relation that may not be loaded are `Option`s.
* `createdAt` and `updatedAt` (`timestamp.entity.ts`) are never read and left
  out; `deletedAt` is kept where a query filters on it.
-/

namespace CodeWeaknesses

abbrev Id := String

/-- `Date.prototype.getTime()`. -/
abbrev Date := ℤ

/-- Exceptions that leave a service method, with their message. -/
inductive Err where
  | error (message : String)
  | notFound (message : String)
  | badRequest (message : String)
  | forbidden (message : String)
  deriving DecidableEq, Repr

/-- `error.message`. -/
def Err.message : Err → String
  | .error m => m
  | .notFound m => m
  | .badRequest m => m
  | .forbidden m => m

/-! ## Numbers -/

/-- `Math.round(num / den)` in exact arithmetic: the nearest integer, halves up. -/
def mathRoundDiv (num : ℤ) (den : ℕ) : ℤ := (2 * num + den) / (2 * den)

/-- `mathRoundDiv` is `⌊num / den + 1/2⌋`. -/
theorem mathRoundDiv_eq_floor (num : ℤ) {den : ℕ} (hden : 0 < den) :
    mathRoundDiv num den = ⌊(num : ℚ) / den + 1 / 2⌋ := by
  have hd : (den : ℚ) ≠ 0 := by exact_mod_cast hden.ne'
  have hq : (num : ℚ) / den + 1 / 2 = ((2 * num + den : ℤ) : ℚ) / ((2 * den : ℕ) : ℚ) := by
    push_cast
    field_simp
  rw [hq, Rat.floor_intCast_div_natCast, mathRoundDiv]
  push_cast
  rfl

/-- `Math.floor(num / den)`. -/
def mathFloorDiv (num : ℤ) (den : ℕ) : ℤ := num / den

/-! ## Enumerations -/

/-- `SubmissionStatus` (`submission.entity.ts:7-16`). -/
inductive SubmissionStatus where
  | pending
  | running
  | accepted
  | wrong
  | tle
  | mle
  | runtimeError
  | compilationError
  deriving DecidableEq, Repr

/-- `SubmissionLanguage` (`submission.entity.ts:18-26`). -/
inductive SubmissionLanguage where
  | javascript
  | python
  | python3
  | cpp
  | c
  | java
  | bash
  deriving DecidableEq, Repr

/-- `Role` (`user.entity.ts:4-8`). -/
inductive Role where
  | admin
  | editor
  | user
  deriving DecidableEq, Repr

/-- The caller of a request: what the JWT strategy puts in `req.user`
    (`jwt-user.interface.ts`). -/
structure JwtUser where
  userId : Id
  name : String
  role : Role
  deriving DecidableEq, Repr

/-! ## Entities -/

/-- `User` (`user.entity.ts:10-24`). -/
structure User where
  id : Id
  name : String
  passwordHash : String
  role : Role
  deriving DecidableEq, Repr

/-- `Contest` (`contest.entity.ts:5-21`) without its `problems` relation. -/
structure Contest where
  id : Id
  title : String
  startTime : Date
  endTime : Date
  finishedAt : Option Date
  deletedAt : Option Date
  deriving DecidableEq, Repr

/-- `Problem` (`problem.entity.ts:5-18`); `contest` is the id of the related
    contest, `none` when the problem has no contest. -/
structure Problem where
  id : Id
  title : String
  description : String
  timeLimitMs : ℕ
  contest : Option Id
  deriving DecidableEq, Repr

/-- `TestCase` (`test-case.entity.ts:5-25`). -/
structure TestCase where
  id : Id
  problemId : Id
  input : String
  expectedOutput : String
  isHidden : Bool
  orderIndex : ℕ
  deriving DecidableEq, Repr

/-- `TestResult` (`test-result.entity.ts:5-37`). -/
structure TestResult where
  id : Id
  submissionId : Id
  testCaseId : Id
  passed : Bool
  isHidden : Bool
  output : Option String
  expectedOutput : Option String
  error : Option String
  executionTime : Option ℤ
  memoryUsed : Option ℕ
  deriving DecidableEq, Repr

/-- `Submission` (`submission.entity.ts:28-82`). The relations `user`, `problem`
    and `testResults` are `none` when the query did not load them. -/
structure Submission where
  id : Id
  code : String
  language : SubmissionLanguage
  status : SubmissionStatus
  userId : Id
  problemId : Id
  contestId : Id
  submittedAt : Option Date
  startedAt : Option Date
  completedAt : Option Date
  score : ℤ
  executionTime : Option ℤ
  memoryUsed : Option ℕ
  user : Option User
  problem : Option Problem
  testResults : Option (List TestResult)
  deriving DecidableEq, Repr

end CodeWeaknesses
