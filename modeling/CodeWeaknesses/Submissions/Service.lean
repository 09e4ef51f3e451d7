import CodeWeaknesses.Lib.Ranking
import CodeWeaknesses.Lib.Table
import CodeWeaknesses.Sse.Service

/-!
# `SubmissionsService`: the reads

The tables of the submissions subsystem, and the read methods of
`submissions/submissions.service.ts` on them. Each method is one repository call
followed by `sanitizeSubmissionResults`.
-/

namespace CodeWeaknesses.Submissions

open Lib Sse

/-! ## The tables -/

/-- The tables and the SSE registry that the submissions code reads and writes.
    `submissions` holds columns only: the relations of its rows are not loaded. -/
structure World where
  users : Table User Id User.id
  problems : Table Problem Id Problem.id
  submissions : Table Submission Id Submission.id
  testCases : Table TestCase Id TestCase.id
  testResults : Table TestResult Id TestResult.id
  sse : SubmissionSseService
  broadcasts : List Id
  nullsFirst : Bool

namespace World

/-- `relations: { user: true }`. -/
def withUser (w : World) (s : Submission) : Submission := { s with user := w.users.find? s.userId }

/-- `relations: { problem: true }`. -/
def withProblem (w : World) (s : Submission) : Submission :=
  { s with problem := w.problems.find? s.problemId }

/-- `relations: { testResults: true }`: the results in insertion order. -/
def withTestResults (w : World) (s : Submission) : Submission :=
  { s with testResults := some (w.testResults.rows.filter fun r => r.submissionId = s.id) }

end World

/-- Descending order of a nullable date. -/
def compareNullableDesc (nullsFirst : Bool) : Option Date → Option Date → ℤ
  | some a, some b => b - a
  | none, none => 0
  | none, some _ => if nullsFirst then 1 else -1
  | some _, none => if nullsFirst then -1 else 1

/-- `order: { submittedAt: 'DESC' }`. -/
def orderBySubmittedAtDesc (w : World) (rows : List Submission) : List Submission :=
  sortBy (fun a b => compareNullableDesc w.nullsFirst a.submittedAt b.submittedAt) rows

/-! ## Sanitizing -/

/-- Lines 187–194 of `sanitizeSubmissionResults`. -/
def sanitizeTestResult (r : TestResult) : TestResult :=
  if !r.isHidden then r else { r with output := none, expectedOutput := none }

/-- `sanitizeSubmissionResults` (lines 182–198). -/
def sanitizeSubmissionResults (submission : Submission) : Submission :=
  match submission.testResults with
  | none => submission
  | some results => { submission with testResults := some (results.map sanitizeTestResult) }

/-! ## Reads -/

/-- `findOne` (lines 99–112). -/
def findOne (w : World) (id : Id) : Except Err Submission :=
  match w.submissions.find? id with
  | none => .error (.notFound "Submission not found")
  | some submission =>
    .ok (sanitizeSubmissionResults (w.withTestResults (w.withProblem (w.withUser submission))))

/-- `findByUser` (lines 114–126). -/
def findByUser (w : World) (userId : Id) : List Submission :=
  (orderBySubmittedAtDesc w (w.submissions.rows.filter fun s => s.userId = userId)).map fun s =>
    sanitizeSubmissionResults (w.withTestResults (w.withProblem s))

/-- `findByProblem` (lines 128–140). -/
def findByProblem (w : World) (problemId : Id) : List Submission :=
  (orderBySubmittedAtDesc w (w.submissions.rows.filter fun s => s.problemId = problemId)).map fun s =>
    sanitizeSubmissionResults (w.withTestResults (w.withUser s))

/-- `findByContest` (lines 142–155). -/
def findByContest (w : World) (contestId : Id) : List Submission :=
  (orderBySubmittedAtDesc w (w.submissions.rows.filter fun s => s.contestId = contestId)).map fun s =>
    sanitizeSubmissionResults (w.withTestResults (w.withProblem (w.withUser s)))

end CodeWeaknesses.Submissions
