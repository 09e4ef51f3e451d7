import CodeWeaknesses.Lib.Prog
import CodeWeaknesses.Submissions.Judge
import CodeWeaknesses.Submissions.Service

/-!
# `SubmissionProcessor`

Model of `submissions/processors/submission.processor.ts` and of the queue that runs
its jobs. Every repository, judge, clock and SSE call is a call of a `Prog`; `answer`
says what it does to the `World`.

* A repository or judge call may throw at any time (`Choice.fails`). A call that throws
  has no effect.
* Clients may connect and disconnect before every call (`Choice.clients`).
* The relations that `findOne` loads are not read and left out; `console.log` too.
* `broadcastLeaderboard` is not awaited and its failure is caught: the call is recorded.
-/

namespace CodeWeaknesses.Submissions

open Lib Lib.Prog Sse

/-! ## The environment -/

/-- `job.data` of the submissions queue. -/
structure JobData where
  submissionId : Id
  code : String
  language : SubmissionLanguage
  problemId : Id

/-- The calls of the processor and of its queue. -/
inductive Op where
  | takeJob (submissionId : Id)
  | findSubmission (id : Id)
  | saveSubmission (submission : Submission)
  | findTestCases (problemId : Id)
  | executeCode (language : SubmissionLanguage) (code : String) (input : String)
  | saveTestResult (submissionId testCaseId : Id) (passed isHidden : Bool) (output expectedOutput : String)
      (error : Option String) (executionTime : ℤ) (memoryUsed : ℕ)
  | newDate
  | push (submissionId : Id) (event : SseEvent)
  | complete (submissionId : Id)
  | error (submissionId : Id) (message : String)
  | broadcastLeaderboard (contestId : Id)

/-- What a call returns. -/
@[reducible] def Res : Op → Type
  | .takeJob _ => Unit
  | .findSubmission _ => Option Submission
  | .saveSubmission _ => Unit
  | .findTestCases _ => List TestCase
  | .executeCode .. => ExecutionResult
  | .saveTestResult .. => Unit
  | .newDate => Date
  | .push .. => Unit
  | .complete _ => Unit
  | .error .. => Unit
  | .broadcastLeaderboard _ => Unit

/-- Whether the call may throw. -/
def Op.mayThrow : Op → Bool
  | .findSubmission _ => true
  | .saveSubmission _ => true
  | .findTestCases _ => true
  | .executeCode .. => true
  | .saveTestResult .. => true
  | _ => false

/-- A client of a submission's stream connects or disconnects. -/
inductive ClientAction where
  | connect (submissionId : Id) (o : Observer)
  | disconnect (submissionId : Id) (o : Observer)

/-- What the model leaves open about a call: whether it throws, the uuid of a new
    row, the time, the result of an execution, and the clients before the call. -/
structure Choice where
  fails : Option String
  uuid : Id
  now : Date
  result : ExecutionResult
  clients : List ClientAction

/-- A client reaches the live stream, or goes away. -/
def ClientAction.apply (s : SubmissionSseService) : ClientAction → SubmissionSseService
  | .connect submissionId o =>
    let (ref, s) := s.getOrCreate submissionId
    s.subscribe ref o
  | .disconnect submissionId o =>
    (match s.streams.get? submissionId with
      | some ref => s.unsubscribe ref o
      | none => s).cleanup submissionId

/-- The world after the clients' actions. -/
def World.clients (w : World) (actions : List ClientAction) : World :=
  { w with sse := actions.foldl ClientAction.apply w.sse }

/-- The row of a new test result. -/
def testResultRow (id submissionId testCaseId : Id) (passed isHidden : Bool)
    (output expectedOutput : String) (error : Option String) (executionTime : ℤ) (memoryUsed : ℕ) :
    TestResult :=
  { id := id, submissionId := submissionId, testCaseId := testCaseId, passed := passed,
    isHidden := isHidden, output := some output, expectedOutput := some expectedOutput, error := error,
    executionTime := some executionTime, memoryUsed := some memoryUsed }

/-- A call that does not throw. -/
def answerOk (c : Choice) (w : World) : (o : Op) → Except Err (Res o) × World
  | .takeJob _ => (.ok (), w)
  | .findSubmission id => (.ok (w.submissions.find? id), w)
  | .saveSubmission submission => (.ok (), { w with submissions := w.submissions.upsert submission })
  | .findTestCases problemId =>
    (.ok (sortBy (fun a b => (a.orderIndex : ℤ) - b.orderIndex)
      (w.testCases.rows.filter fun t => t.problemId = problemId)), w)
  | .executeCode .. => (.ok c.result, w)
  | .saveTestResult submissionId testCaseId passed isHidden output expectedOutput error executionTime
      memoryUsed =>
    if (w.testResults.find? c.uuid).isSome then
      (.error (.error "duplicate key value violates unique constraint"), w)
    else
      (.ok (), { w with testResults := w.testResults.upsert (testResultRow c.uuid submissionId testCaseId
        passed isHidden output expectedOutput error executionTime memoryUsed) })
  | .newDate => (.ok c.now, w)
  | .push submissionId event => (.ok (), { w with sse := w.sse.push submissionId event })
  | .complete submissionId => (.ok (), { w with sse := w.sse.complete submissionId })
  | .error submissionId message => (.ok (), { w with sse := w.sse.error submissionId message })
  | .broadcastLeaderboard contestId => (.ok (), { w with broadcasts := w.broadcasts ++ [contestId] })

/-- The answer to a call, after the clients' actions. -/
def answer : Backend Op Res Err Choice World := fun o c w =>
  let w := w.clients c.clients
  match c.fails with
  | some message => if o.mayThrow then (.error (.error message), w) else answerOk c w o
  | none => answerOk c w o

/-- The calls of the processor. -/
abbrev M := Prog Op Res Err

/-- `await` of one call. -/
abbrev await (o : Op) : M (Res o) := Prog.await o

/-! ## Judging -/

/-- The counters of `processSubmission` (lines 62–64). -/
structure Totals where
  passedCount : ℕ
  totalExecutionTime : ℤ
  maxMemoryUsed : ℕ

/-- The `verdict` of a live test result (lines 125–129). -/
def verdictOf (passed : Bool) (result : ExecutionResult) : Verdict :=
  if passed then .pass
  else
    match result.error with
    | some error => if mentionsTime error then .tle else .fail
    | none => .fail

/-- The `output` of a live test result (line 132); an empty text is falsy. -/
def outputOf (result : ExecutionResult) : String :=
  match result.error with
  | some error =>
    if error = "" then result.output
    else if result.output = "" then error
    else result.output ++ "\n[STDERR]:\n" ++ error
  | none => result.output

/-- `runTestCase` (lines 71–137) on the counters `t`. -/
def runTestCase (job : JobData) (t : Totals) (testCase : TestCase) (index : ℕ) : M (Bool × Totals) := do
  let result ← await (.executeCode job.language job.code testCase.input)
  let passed := result.success && compareOutput result.output testCase.expectedOutput
  let t : Totals :=
    { passedCount := if passed then t.passedCount + 1 else t.passedCount
      totalExecutionTime := t.totalExecutionTime + result.executionTime
      maxMemoryUsed := max t.maxMemoryUsed result.memoryUsed }
  await (.saveTestResult job.submissionId testCase.id passed testCase.isHidden result.output
    testCase.expectedOutput result.error result.executionTime result.memoryUsed)
  await (.push job.submissionId (.testResult
    { submissionId := job.submissionId
      testCaseIndex := index
      testCaseId := testCase.id
      verdict := verdictOf passed result
      executionMs := result.executionTime
      isHidden := testCase.isHidden
      output := some (some (outputOf result))
      expectedOutput := some (some testCase.expectedOutput) }))
  pure (passed, t)

/-- The loop over the visible tests (lines 139–145): `visibleCasesPassed`, the next
    index and the counters. -/
def runVisible (job : JobData) : List TestCase → Bool → ℕ → Totals → M (Bool × ℕ × Totals)
  | [], visibleCasesPassed, currentIndex, t => pure (visibleCasesPassed, currentIndex, t)
  | testCase :: rest, visibleCasesPassed, currentIndex, t => do
    let (passed, t) ← runTestCase job t testCase currentIndex
    runVisible job rest (visibleCasesPassed && passed) (currentIndex + 1) t

/-- The loop over the hidden tests (lines 153–163), which breaks at the first failure. -/
def runHidden (job : JobData) : List TestCase → ℕ → Totals → M Totals
  | [], _, t => pure t
  | testCase :: rest, currentIndex, t => do
    let (passed, t) ← runTestCase job t testCase currentIndex
    if passed then runHidden job rest (currentIndex + 1) t else pure t

/-- Lines 50–163: the test cases of the problem and the counters after judging. -/
def runTestCases (job : JobData) : M (List TestCase × Totals) := do
  let testCases ← await (.findTestCases job.problemId)
  let visibleTestCases := testCases.filter fun testCase => !testCase.isHidden
  let hiddenTestCases := testCases.filter fun testCase => testCase.isHidden
  if testCases.length = 0 then throw (.error "No test cases found for this problem")
  let (visibleCasesPassed, currentIndex, t) ← runVisible job visibleTestCases true 0 ⟨0, 0, 0⟩
  if visibleCasesPassed then
    let t ← runHidden job hiddenTestCases currentIndex t
    pure (testCases, t)
  else pure (testCases, t)

/-! ## Score and final status -/

/-- Lines 166–169, in exact arithmetic. -/
def scoreOf (passedCount total : ℕ) : ℤ := if total > 0 then mathRoundDiv (passedCount * 100) total else 100

/-- Lines 170–176. -/
def finalStatusOf (passedCount total : ℕ) : SubmissionStatus :=
  if passedCount = 0 ∧ total > 0 then .wrong
  else if passedCount < total then .wrong
  else .accepted

/-- What `processSubmission` returns (line 212). -/
structure JobResult where
  success : Bool
  submissionId : Id
  score : ℤ
  passedCount : ℕ

/-- Lines 178–183: the submission with its results. -/
def judged (submission : Submission) (total : ℕ) (t : Totals) (completedAt : Date) : Submission :=
  { submission with
    status := finalStatusOf t.passedCount total
    score := scoreOf t.passedCount total
    executionTime := some t.totalExecutionTime
    memoryUsed := some t.maxMemoryUsed
    completedAt := some completedAt }

/-- Lines 165–212. -/
def finish (job : JobData) (submission : Submission) (testCases : List TestCase) (t : Totals) :
    M JobResult := do
  let now ← await .newDate
  let submission := judged submission testCases.length t now
  await (.saveSubmission submission)
  await (.push job.submissionId (.submissionCompleted
    { submissionId := job.submissionId
      finalVerdict := submission.status
      score := submission.score
      totalExecutionMs := t.totalExecutionTime
      passedCount := t.passedCount
      totalCount := testCases.length }))
  await (.complete job.submissionId)
  if submission.contestId ≠ "" then await (.broadcastLeaderboard submission.contestId)
  pure { success := true, submissionId := job.submissionId, score := submission.score,
         passedCount := t.passedCount }

/-- Lines 33–48: the submission, now RUNNING. -/
def start (job : JobData) : M Submission := do
  match ← await (.findSubmission job.submissionId) with
  | none => throw (.error ("Submission " ++ job.submissionId ++ " not found"))
  | some submission =>
    let now ← await .newDate
    let submission := { submission with status := .running, startedAt := some now }
    await (.saveSubmission submission)
    pure submission

/-- The `catch` block (lines 213–230). -/
def recover (job : JobData) (error : Err) : M JobResult := do
  await (.error job.submissionId (if error.message = "" then "Internal error" else error.message))
  match ← await (.findSubmission job.submissionId) with
  | none => throw error
  | some submission =>
    let now ← await .newDate
    await (.saveSubmission { submission with status := .runtimeError, completedAt := some now })
    throw error

/-- `processSubmission` (lines 27–231). -/
def processSubmission (job : JobData) : M JobResult :=
  tryCatch
    (do
      let submission ← start job
      let (testCases, t) ← runTestCases job
      finish job submission testCases t)
    (recover job)

/-- A job with `attempts` attempts left: the queue runs it again when it throws. -/
def runAttempts (job : JobData) : ℕ → M JobResult
  | 0 => throw (.error "no attempts left")
  | attempts + 1 => do
    await (.takeJob job.submissionId)
    tryCatch (processSubmission job) fun error =>
      if attempts = 0 then throw error else runAttempts job attempts

/-- A submission job of `QueueService.getOrCreateQueue`: `attempts: 3`
    (`queue.service.ts:127-138`). -/
def runJob (job : JobData) : M JobResult := runAttempts job 3

/-! ## Frames -/

/-- Whether the call writes the submissions table. -/
def Op.writesSubmission : Op → Bool
  | .saveSubmission _ => true
  | _ => false

/-- Only `saveSubmission` writes submissions. -/
theorem submissions_answer {o : Op} (ho : o.writesSubmission = false) (c : Choice) (w : World) :
    (answer o c w).2.submissions = w.submissions := by
  have hok : ∀ w' : World, (answerOk c w' o).2.submissions = w'.submissions := by
    intro w'
    cases o with
    | saveSubmission s => cases ho
    | saveTestResult =>
      simp only [answerOk]
      split_ifs <;> rfl
    | _ => rfl
  unfold answer
  cases c.fails with
  | none => exact hok _
  | some message =>
    simp only
    split_ifs
    · rfl
    · exact hok _

/-- A row that was saved. -/
theorem submissions_save {s : Submission} {c : Choice} {w w' : World} {u : Unit}
    (h : answer (.saveSubmission s) c w = (.ok u, w')) :
    w' = { w.clients c.clients with submissions := w.submissions.upsert s } := by
  unfold answer at h
  cases hf : c.fails with
  | none =>
    simp only [hf, answerOk] at h
    cases h
    rfl
  | some message => simp [hf, Op.mayThrow] at h

/-- A call that cannot throw. -/
theorem answer_of_not_mayThrow {o : Op} (ho : o.mayThrow = false) (c : Choice) (w : World) :
    answer o c w = answerOk c (w.clients c.clients) o := by
  unfold answer
  cases c.fails with
  | none => rfl
  | some message => simp [ho]

theorem not_error_of_not_mayThrow {o : Op} (ho : o.mayThrow = false) {c : Choice} {w w' : World} {e : Err} :
    answer o c w ≠ (.error e, w') := by
  rw [answer_of_not_mayThrow ho]
  intro h
  cases o <;> first | cases h | cases ho

/-- The row that `findOne` returned. -/
theorem find?_of_findSubmission {id : Id} {s : Submission} {c : Choice} {w w' : World}
    (h : answer (.findSubmission id) c w = (.ok (some s), w')) : w.submissions.find? id = some s := by
  unfold answer at h
  cases hf : c.fails with
  | none =>
    simp only [hf, answerOk, Prod.mk.injEq, Except.ok.injEq] at h
    exact h.1
  | some message => simp [hf, Op.mayThrow] at h

/-! ## The calls of judging -/

/-- The calls that lines 50–163 can make. -/
def Op.OfTests : Op → Prop
  | .findTestCases _ => True
  | .executeCode .. => True
  | .saveTestResult .. => True
  | .push _ event => event.isTerminal = false
  | _ => False

theorem onlyCalls_runTestCase (job : JobData) (t : Totals) (testCase : TestCase) (index : ℕ) :
    OnlyCalls Op.OfTests (runTestCase job t testCase index) := by
  unfold runTestCase
  refine (onlyCalls_await trivial).bind fun result => ?_
  refine (onlyCalls_await trivial).bind fun _ => ?_
  exact OnlyCalls.bind (onlyCalls_await (by rfl)) fun _ => trivial

theorem onlyCalls_runVisible (job : JobData) (testCases : List TestCase) :
    ∀ (visibleCasesPassed : Bool) (index : ℕ) (t : Totals),
      OnlyCalls Op.OfTests (runVisible job testCases visibleCasesPassed index t) := by
  induction testCases with
  | nil => exact fun _ _ _ => trivial
  | cons testCase rest ih =>
    intro visibleCasesPassed index t
    exact (onlyCalls_runTestCase job t testCase index).bind fun r => ih _ _ _

theorem onlyCalls_runHidden (job : JobData) (testCases : List TestCase) :
    ∀ (index : ℕ) (t : Totals), OnlyCalls Op.OfTests (runHidden job testCases index t) := by
  induction testCases with
  | nil => exact fun _ _ => trivial
  | cons testCase rest ih =>
    intro index t
    refine (onlyCalls_runTestCase job t testCase index).bind fun r => ?_
    show OnlyCalls Op.OfTests (if r.1 then runHidden job rest (index + 1) r.2 else pure r.2)
    split_ifs
    · exact ih _ _
    · trivial

theorem onlyCalls_runTestCases (job : JobData) : OnlyCalls Op.OfTests (runTestCases job) := by
  unfold runTestCases
  refine (onlyCalls_await trivial).bind fun testCases => ?_
  simp only
  split_ifs
  · trivial
  · refine (onlyCalls_runVisible job _ _ _ _).bind fun r => ?_
    show OnlyCalls Op.OfTests (if r.1 then _ else _)
    split_ifs
    · exact (onlyCalls_runHidden job _ _ _).bind fun _ => trivial
    · trivial

end CodeWeaknesses.Submissions
