import CodeWeaknesses.Lib.Prog
import CodeWeaknesses.Submissions.Service

/-!
# `SseController`

Model of `sse/sse.controller.ts`. `stream` is a `Prog`: the read of the submission is
awaited, `getOrCreate` runs when the read has returned, and the framework subscribes to
the returned stream after that. The cleanup on disconnect is not part of `stream`.
-/

namespace CodeWeaknesses.Sse

open Lib Submissions

/-- `isFinalStatus` (lines 32–41). -/
def isFinalStatus (status : SubmissionStatus) : Bool :=
  [SubmissionStatus.accepted, .wrong, .tle, .mle, .runtimeError, .compilationError].contains status

/-! ## The replay -/

/-- `tr.error && tr.error.includes('timeout')`. -/
def mentionsTimeout (error : Option String) : Bool :=
  match error with
  | some text => decide ("timeout".toList <:+: text.toList)
  | none => false

/-- The replayed event of the stored result `tr` at `index` (lines 96–116). -/
def replayTestResult (submissionId : Id) (isAdmin : Bool) (index : ℕ) (tr : TestResult) : SseEvent :=
  let event : TestResultEvent :=
    { submissionId := submissionId
      testCaseIndex := index
      testCaseId := tr.testCaseId
      verdict := if tr.passed then .pass else if mentionsTimeout tr.error then .tle else .fail
      executionMs := tr.executionTime.getD 0
      isHidden := tr.isHidden
      output := some tr.output
      expectedOutput := some tr.expectedOutput }
  .testResult (if tr.isHidden && !isAdmin then event.strip else event)

/-- `buildReplayEvents` (lines 89–136). -/
def buildReplayEvents (submission : Submission) (isAdmin : Bool) : List SseEvent :=
  let testResults := submission.testResults.getD []
  testResults.mapIdx (replayTestResult submission.id isAdmin) ++
    [.submissionCompleted
      { submissionId := submission.id
        finalVerdict := submission.status
        score := submission.score
        totalExecutionMs := submission.executionTime.getD 0
        passedCount := (testResults.filter fun tr => tr.passed).length
        totalCount := testResults.length }]

/-! ## The stream -/

/-- The calls of `stream`. -/
inductive StreamOp where
  | findOne (id : Id)
  | getOrCreate (id : Id)
  | subscribe (ref : SubjectRef) (o : Observer)

/-- What a call returns. -/
@[reducible] def StreamRes : StreamOp → Type
  | .findOne _ => Submission
  | .getOrCreate _ => SubjectRef
  | .subscribe .. => Unit

/-- How a request ends: with the replay or with a subscription to the live stream. -/
inductive StreamResult where
  | replay (events : List SseEvent)
  | live
  deriving DecidableEq

/-- The calls of `stream`. -/
abbrev StreamM := Prog StreamOp StreamRes Err

/-- `await` of one call. -/
abbrev awaitStream (o : StreamOp) : StreamM (StreamRes o) := Prog.await o

/-- `stream` (lines 45–87) for the connection `client` of the caller `user`. -/
def stream (id : Id) (user : JwtUser) (client : ℕ) : StreamM StreamResult := do
  let submission ← awaitStream (.findOne id)
  if submission.userId ≠ user.userId ∧ user.role ≠ .admin then
    throw (.forbidden "You do not have access to this submission stream")
  let isAdmin : Bool := user.role = .admin
  if isFinalStatus submission.status then
    pure (.replay (buildReplayEvents submission isAdmin))
  else
    let ref ← awaitStream (.getOrCreate id)
    awaitStream (.subscribe ref { client := client, isAdmin := isAdmin })
    pure .live

/-- The answer to a call of `stream`; its read does not fail. -/
def streamAnswer : Backend StreamOp StreamRes Err Unit World := fun o _ w =>
  match o with
  | .findOne id => (findOne w id, w)
  | .getOrCreate id => (.ok (w.sse.getOrCreate id).1, { w with sse := (w.sse.getOrCreate id).2 })
  | .subscribe ref o => (.ok (), { w with sse := w.sse.subscribe ref o })

end CodeWeaknesses.Sse
