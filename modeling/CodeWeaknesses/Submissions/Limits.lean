import CodeWeaknesses.Submissions.Engine
import CodeWeaknesses.Submissions.Verdict

/-!
# Time limits and the `tle` verdict

What a test result says about time, when its execution is one of `executeCode`. The timer of
`executeCode` runs for the configured timeout, whatever the problem's `timeLimitMs`, and the
processor looks for a timeout in the text of the error.

Results:
* `Outcome.passed_iff`: which executions pass.
* `timeLimit_respected_iff`: **exactly when a passed test kept the problem's time limit, and what
  follows for an accepted run.**
* `verdictOf_tle_iff`: when the verdict is `tle`.
* `runTestCase_tle_iff`: **exactly when the pushed `tle` means a timeout.**
-/

namespace CodeWeaknesses.Submissions

open Lib Lib.Prog Sse

variable {cfg : JudgeConfig} {d : Docker} {options : CreateOptions} {result : ExecutionResult}

/-! ## Passed tests -/

/-- The container prints, or leaves `executeCode` with, `output` and nothing on stderr. -/
def LeavesOutput (d : Docker) (output : String) : Prop :=
  race d = .ok (.texts output "") ∨ Swallowed d ∧ output = ""

/-- An execution that passes a test with this expected output. -/
structure Passes (cfg : JudgeConfig) (d : Docker) (options : CreateOptions) (expected : String) : Prop where
  started : Started d options
  memory : ∃ n, memoryUsage d = .ok n ∧ n ≤ cfg.memoryLimit
  output : ∃ output, LeavesOutput d output ∧ compareOutput (trim output) expected = true

/-- The clock advances by no more than `limit` in an execution that passes. -/
def WithinLimit (cfg : JudgeConfig) (d : Docker) (options : CreateOptions) (expected : String) (limit : ℕ) : Prop :=
  Passes cfg d options expected → d.endTime - d.startTime ≤ limit

/-- A success is a `finishedResult` with nothing on stderr. -/
theorem Outcome.of_success (h : Outcome cfg d options result) (hsuccess : result.success = true) :
    Started d options ∧ ∃ output n, LeavesOutput d output ∧ memoryUsage d = .ok n ∧ n ≤ cfg.memoryLimit ∧
      result = finishedResult cfg d output "" n := by
  cases h with
  | refused err h => cases hsuccess
  | timedOut h hrace hkill => cases hsuccess
  | noStats err h hrace hstats => cases hsuccess
  | finished output error n h hrace hstats =>
    obtain ⟨rfl, hle⟩ := finishedResult_success_iff.mp hsuccess
    exact ⟨h, output, n, .inl hrace, hstats, hle, rfl⟩
  | swallowed n h hswallowed hstats =>
    exact ⟨h, "", n, .inr ⟨hswallowed, rfl⟩, hstats, (finishedResult_success_iff.mp hsuccess).2, rfl⟩

/-- What `executeCode` leaves with is determined by what the container does. -/
theorem Outcome.eq_of_leavesOutput (h : Outcome cfg d options result) (hs : Started d options) {output : String}
    {n : ℕ} (houtput : LeavesOutput d output) (hstats : memoryUsage d = .ok n) :
    result = finishedResult cfg d output "" n := by
  have hnotKilled : race d = .ok .timeout → d.kill ≠ .ok () := by
    intro htimeout hkill
    rcases houtput with htexts | ⟨⟨err, herr⟩ | ⟨_, err, herr⟩, _⟩
    · cases htexts.symm.trans htimeout
    · cases herr.symm.trans htimeout
    · cases herr.symm.trans hkill
  cases h with
  | refused err h => exact absurd hs h
  | timedOut h hrace hkill => exact absurd hkill (hnotKilled hrace)
  | noStats err h hrace hstats' => cases hstats.symm.trans hstats'
  | finished output' error n' h hrace hstats' =>
    cases hstats.symm.trans hstats'
    rcases houtput with htexts | ⟨⟨err, herr⟩ | ⟨htimeout, _⟩, _⟩
    · cases htexts.symm.trans hrace
      rfl
    · cases herr.symm.trans hrace
    · cases htimeout.symm.trans hrace
  | swallowed n' h hswallowed hstats' =>
    cases hstats.symm.trans hstats'
    rcases houtput with htexts | ⟨_, rfl⟩
    · rcases hswallowed with ⟨err, herr⟩ | ⟨htimeout, _⟩
      · cases herr.symm.trans htexts
      · cases htimeout.symm.trans htexts
    · rfl

/-- Which executions pass, and what they record. -/
theorem Outcome.passed_iff (h : Outcome cfg d options result) (testCase : TestCase) :
    Execution.passed ⟨testCase, result⟩ = true ↔ Passes cfg d options testCase.expectedOutput := by
  unfold Execution.passed
  rw [Bool.and_eq_true]
  constructor
  · rintro ⟨hsuccess, hcompare⟩
    obtain ⟨hs, output, n, houtput, hstats, hle, rfl⟩ := h.of_success hsuccess
    exact ⟨hs, ⟨n, hstats, hle⟩, output, houtput, hcompare⟩
  · rintro ⟨hs, ⟨n, hstats, hle⟩, output, houtput, hcompare⟩
    rw [h.eq_of_leavesOutput hs houtput hstats]
    exact ⟨finishedResult_success_iff.mpr ⟨rfl, hle⟩, hcompare⟩

/-- A passed test records the time between the two readings of the clock. -/
theorem Outcome.executionTime_of_passed (h : Outcome cfg d options result) {testCase : TestCase}
    (hpassed : Execution.passed ⟨testCase, result⟩ = true) : result.executionTime = d.endTime - d.startTime := by
  unfold Execution.passed at hpassed
  rw [Bool.and_eq_true] at hpassed
  obtain ⟨_, output, n, _, _, _, rfl⟩ := h.of_success hpassed.1
  rfl

theorem Outcome.withinLimit_iff (h : Outcome cfg d options result) (testCase : TestCase) (limit : ℕ) :
    (Execution.passed ⟨testCase, result⟩ = true → result.executionTime ≤ limit) ↔
      WithinLimit cfg d options testCase.expectedOutput limit := by
  unfold WithinLimit
  rw [← h.passed_iff testCase]
  constructor
  · intro hlimit hpassed
    rw [← h.executionTime_of_passed hpassed]
    exact hlimit hpassed
  · intro hlimit hpassed
    rw [h.executionTime_of_passed hpassed]
    exact hlimit hpassed

/-! ## An accepted run -/

/-- In an accepted run every executed test passed. -/
theorem passed_of_accepted {job : JobData} {w : World} (hne : testCasesOf w job.problemId ≠ []) {cs : ℕ → Choice}
    {s : Submission} (h : (judgedBy job w cs s).status = .accepted) :
    ∀ e ∈ executedBy job w cs, e.passed = true := by
  have hall := (judgedBy_status_iff hne cs s).mp h
  have hcount := (countP_executed_eq_iff (nodup_testCasesOf w job.problemId) (returnedBy (skip 4 cs))).mpr hall
  have hle := length_executed_le (testCasesOf w job.problemId) (returnedBy (skip 4 cs))
  have hge := List.countP_le_length (p := Execution.passed)
    (l := executed (testCasesOf w job.problemId) (returnedBy (skip 4 cs)))
  exact List.countP_eq_length.mp (Nat.le_antisymm hge (hcount ▸ hle))

/-- A passed test took no longer than `limit`, and in an accepted run no test did. -/
structure KeepsLimit (limit : ℕ) (rows : List TestResult) (submission : Submission) : Prop where
  passed : ∀ r ∈ rows, r.passed = true → ∃ t ∈ r.executionTime, t ≤ limit
  accepted : submission.status = .accepted → ∀ r ∈ rows, ∃ t ∈ r.executionTime, t ≤ limit

/-- A property of the stored rows, as one of the executions. -/
theorem forall_rows_iff {job : JobData} {es : List Execution} {rows : List TestResult}
    (h : List.Forall₂ (fun e r => r = e.row job r.id) es rows) {P : TestResult → Prop} {R : Execution → Prop}
    (hPR : ∀ e id, P (e.row job id) ↔ R e) : (∀ r ∈ rows, P r) ↔ ∀ e ∈ es, R e := by
  induction h with
  | nil => simp
  | cons hr _ ih =>
    rw [List.forall_mem_cons, List.forall_mem_cons, ih, hr, hPR]

/-- The rows of a completed run keep the limit iff its executions do. -/
theorem Judges.keepsLimit_iff {job : JobData} {w w' : World} {cs : ℕ → Choice} {res : JobResult} {os : List Op}
    {s : Submission} (h : Judges job w cs res w' os s) {docker : Execution → Docker}
    (hdocker : ∀ e ∈ executedBy job w cs,
      executeCode cfg (docker e) job.language job.code e.testCase.input = .ok e.result)
    {rows : List TestResult} (hrows : List.Forall₂ (fun e r => r = e.row job r.id) (executedBy job w cs) rows)
    (limit : ℕ) : KeepsLimit limit rows (judgedBy job w cs s) ↔
      ∀ e ∈ executedBy job w cs, WithinLimit cfg (docker e)
        (createOptions cfg job.language job.code e.testCase.input) e.testCase.expectedOutput limit := by
  have htime : ∀ (e : Execution) id, (∃ t ∈ (e.row job id).executionTime, t ≤ (limit : ℤ)) ↔
      e.result.executionTime ≤ limit := fun e id => by simp [Execution.row, testResultRow]
  have hpassed := forall_rows_iff hrows (P := fun r => r.passed = true → ∃ t ∈ r.executionTime, t ≤ (limit : ℤ))
    (R := fun e => e.passed = true → e.result.executionTime ≤ limit) fun e id => imp_congr Iff.rfl (htime e id)
  have hwithin : ∀ e ∈ executedBy job w cs, (e.passed = true → e.result.executionTime ≤ limit) ↔
      WithinLimit cfg (docker e) (createOptions cfg job.language job.code e.testCase.input)
        e.testCase.expectedOutput limit := by
    intro e he
    obtain ⟨result, hresult, houtcome⟩ := executeCode_outcome cfg (docker e) job.language job.code e.testCase.input
    cases (hdocker e he).symm.trans hresult
    exact houtcome.withinLimit_iff e.testCase limit
  constructor
  · intro hkeeps e he
    exact (hwithin e he).mp (hpassed.mp hkeeps.passed e he)
  · intro hall
    refine ⟨hpassed.mpr fun e he => (hwithin e he).mpr (hall e he), fun haccepted => ?_⟩
    refine (forall_rows_iff hrows htime).mpr fun e he => ?_
    exact (hwithin e he).mpr (hall e he) (passed_of_accepted h.nonempty haccepted e he)

/-- A problem with a limit of one second. -/
def oneSecond : Problem := ⟨"p1", "Answer", "Print the answer.", 1000, some "c1"⟩

/-- Its submission waits. -/
def pendingSecond : World := { pendingOne with problems := Table.empty.upsert oneSecond }

/-- What `executeCode` returns for a program that prints 42 after `elapsed` milliseconds. -/
def printed42 (elapsed : ℤ) : ExecutionResult := finishedResult defaults (printing "42" elapsed) "42" "" 1048576

/-- The text of a timeout says so. -/
theorem mentionsTime_timeout (n : ℕ) :
    mentionsTime ("Execution timeout exceeded " ++ toString n ++ "ms") = true := by
  have hhead : "Execution timeout exceeded ".toList.map Char.toLower =
      "execution ".toList ++ "time".toList ++ "out exceeded ".toList := by decide
  unfold mentionsTime
  rw [decide_eq_true_eq, String.toList_append, String.toList_append, List.map_append, List.map_append, hhead]
  refine ⟨"execution ".toList, "out exceeded ".toList ++ ((toString n).toList.map Char.toLower ++
    "ms".toList.map Char.toLower), ?_⟩
  simp only [List.append_assoc]

theorem verdictOf_pass_iff {passed : Bool} : verdictOf passed result = .pass ↔ passed = true := by
  unfold verdictOf
  split_ifs with h
  · simp [h]
  · cases result.error with
    | none => simp [h]
    | some error => by_cases ht : mentionsTime error = true <;> simp [h, ht]

/-- The verdict is `tle` for a failed test whose error mentions time. -/
theorem verdictOf_tle_iff {passed : Bool} :
    verdictOf passed result = .tle ↔ passed = false ∧ ∃ error ∈ result.error, mentionsTime error = true := by
  unfold verdictOf
  split_ifs with h
  · simp [h]
  · cases result.error with
    | none => simp
    | some error => by_cases ht : mentionsTime error = true <;> simp [h, ht]

/-- Nothing but a timeout mentions time in its error. -/
def OnlyTimeoutsMentionTime (result : ExecutionResult) : Prop :=
  result.timedOut = true ∨ ∀ error ∈ result.error, mentionsTime error = false

/-- A timeout is no success and its error mentions time. -/
theorem Outcome.of_timedOut (h : Outcome cfg d options result) (htimedOut : result.timedOut = true) :
    result = timeoutResult cfg := by
  cases h with
  | timedOut h hrace hkill => rfl
  | refused err h => cases htimedOut
  | noStats err h hrace hstats => cases htimedOut
  | finished output error n h hrace hstats => cases htimedOut
  | swallowed n h hswallowed hstats => cases htimedOut

theorem Outcome.tle_iff (h : Outcome cfg d options result) (testCase : TestCase) :
    (verdictOf (Execution.passed ⟨testCase, result⟩) result = .tle ↔ result.timedOut = true) ↔
      OnlyTimeoutsMentionTime result := by
  rw [verdictOf_tle_iff]
  unfold OnlyTimeoutsMentionTime
  by_cases htimedOut : result.timedOut = true
  · rw [h.of_timedOut htimedOut]
    refine ⟨fun _ => .inl rfl, fun _ => ⟨fun _ => rfl, fun _ => ⟨rfl, _, rfl, mentionsTime_timeout _⟩⟩⟩
  · constructor
    · intro hiff
      refine .inr fun error herror => Bool.not_eq_true _ ▸ fun htime => ?_
      -- a passed test has no error
      have hpassed : Execution.passed ⟨testCase, result⟩ = true := by
        by_contra hfailed
        exact htimedOut (hiff.mp ⟨Bool.not_eq_true _ ▸ hfailed, error, herror, htime⟩)
      unfold Execution.passed at hpassed
      rw [Bool.and_eq_true] at hpassed
      obtain ⟨_, output, n, _, _, hle, rfl⟩ := h.of_success hpassed.1
      have hfits : ¬ n > cfg.memoryLimit := not_lt.mpr hle
      simp [finishedResult, hfits] at herror
    · rintro (hyes | hnone)
      · exact absurd hyes htimedOut
      · refine ⟨fun htle => ?_, fun hyes => absurd hyes htimedOut⟩
        obtain ⟨_, error, herror, htime⟩ := htle
        rw [hnone error herror] at htime
        cases htime

/-- **Main**: for a test that ran, on an execution of `executeCode`, one row is stored and one event
    pushed; its verdict is `pass` iff the row passed, and it tells the timeouts by `tle` iff nothing
    but a timeout mentions time in its error. -/
theorem runTestCase_tle_iff {job : JobData} {t : Totals} {testCase : TestCase} {index : ℕ} {w w' : World}
    {cs : ℕ → Choice} {r : Bool × Totals} {os : List Op}
    (h : Executes answer (runTestCase job t testCase index) w cs (.ok r) w' os)
    (hresult : executeCode cfg d job.language job.code testCase.input = .ok (cs 0).result) :
    ∃ row event, w'.testResults.rows = w.testResults.rows ++ [row] ∧
      os.filterMap Op.pushed = [(job.submissionId, .testResult event)] ∧
      (event.verdict = .pass ↔ row.passed = true) ∧
      ((event.verdict = .tle ↔ (cs 0).result.timedOut = true) ↔ OnlyTimeoutsMentionTime (cs 0).result) := by
  obtain ⟨result, hok, houtcome⟩ := executeCode_outcome cfg d job.language job.code testCase.input
  cases hresult.symm.trans hok
  obtain ⟨_, rfl, hstores⟩ := runTestCase_executes h
  obtain ⟨rows, hrows, hforall⟩ := hstores.rows
  obtain ⟨row, rest, hrow, hrest, rfl⟩ := List.forall₂_cons_left_iff.mp hforall
  cases List.forall₂_nil_left_iff.mp hrest
  refine ⟨row, _, hrows, rfl, ?_, houtcome.tle_iff testCase⟩
  rw [hrow]
  exact verdictOf_pass_iff

/-- A program that stops with an exception. -/
def raising : Docker := { printing "" 12 with stream := .ended "" "RuntimeError: no input" }

/-- What `executeCode` returns for it. -/
def raised : ExecutionResult := finishedResult defaults raising "" "RuntimeError: no input" 1048576

/-- The exception is no timeout, but `RuntimeError` mentions time: the verdict is `tle`. -/
theorem raised_tle :
    executeCode defaults raising .python "print(42)" "" = .ok raised ∧ raised.timedOut = false ∧
    ∃ event, (calls answer (runTestCase jobOne ⟨0, 0, 0⟩ ⟨"t1", "p1", "", "42", false, 0⟩ 0) pendingOne
      fun _ => { answered with result := raised }).filterMap Op.pushed = [("s1", .testResult event)] ∧
      event.verdict = .tle := by
  refine ⟨rfl, rfl, _, rfl, ?_⟩
  decide +kernel

/-- A timeout is told by `tle`. -/
theorem runTestCase_tle_timeout : ∃ row event,
    (eval answer (runTestCase jobOne ⟨0, 0, 0⟩ ⟨"t1", "p1", "", "42", false, 0⟩ 0) pendingOne
      fun _ => { answered with result := timeoutResult defaults }).2.testResults.rows = [row] ∧
    (calls answer (runTestCase jobOne ⟨0, 0, 0⟩ ⟨"t1", "p1", "", "42", false, 0⟩ 0) pendingOne
      fun _ => { answered with result := timeoutResult defaults }).filterMap Op.pushed =
        [("s1", .testResult event)] ∧
    event.verdict = .tle ∧ row.passed = false := by
  have hresult : executeCode defaults { unkillable with kill := .ok () } .python "print(42)" "" =
      .ok (timeoutResult defaults) := rfl
  have hexecutes : Executes answer (runTestCase jobOne ⟨0, 0, 0⟩ ⟨"t1", "p1", "", "42", false, 0⟩ 0) pendingOne
      (fun _ => { answered with result := timeoutResult defaults }) _ _ _ := executes_eval ..
  obtain ⟨row, event, hrow, hevent, hpass, htle⟩ := runTestCase_tle_iff hexecutes hresult
  have hverdict : event.verdict = .tle := (htle.mpr (.inl rfl)).mpr rfl
  refine ⟨row, event, hrow, hevent, hverdict, Bool.eq_false_iff.mpr fun hpassed => ?_⟩
  cases hverdict.symm.trans (hpass.mpr hpassed)

end CodeWeaknesses.Submissions
