import CodeWeaknesses.Submissions.Attempts
import CodeWeaknesses.Submissions.Judging

/-!
# The verdict of a completed run

A run of `processSubmission` on an existing submission with at least one test case
completes when no call fails. Its verdict, its counters and its events follow from the
executed tests alone.

Results:
* `processSubmission_completes`: a flawless run completes.
* `processSubmission_judges`: **the executed tests, the stored rows, the events and the
  verdict of a flawless run.**
-/

namespace CodeWeaknesses.Submissions

open Lib Lib.Prog Sse

/-! ## Flawless runs -/

/-- When no call fails, the program ends without an error in a state that satisfies `P`. -/
abbrev Succeeds {α : Type} (P : World → Prop) (p : M α) (w : World) : Prop :=
  Ensures answer (Flawless answer) (fun _ _ => True) (fun r w' => (∃ a, r = .ok a) ∧ P w') p w

theorem succeeds_ret {α : Type} {P : World → Prop} {a : α} {w : World} (h : P w) :
    Succeeds P (pure a : M α) w := ⟨⟨a, rfl⟩, h⟩

theorem succeeds_await_bind {α : Type} {P : World → Prop} {o : Op} {f : Res o → M α} {w : World}
    (hok : ∀ c a w', answer o c w = (.ok a, w') → Succeeds P (f a) w') :
    Succeeds P (await o >>= f) w :=
  ensures_await_bind_flawless fun c a w' h => ⟨trivial, hok c a w' h⟩

theorem Succeeds.bind {α β : Type} {P R : World → Prop} {p : M α} {f : α → M β} {w : World}
    (hp : Succeeds R p w) (hf : ∀ a w', R w' → Succeeds P (f a) w') : Succeeds P (p >>= f) w := by
  refine Ensures.bind (fun a w' h => hf a w' h.2) ?_ hp
  rintro e w' ⟨⟨a, ha⟩, _⟩
  cases ha

theorem runTestCase_succeeds (job : JobData) (t : Totals) (testCase : TestCase) (index : ℕ) (w : World) :
    Succeeds (fun _ => True) (runTestCase job t testCase index) w :=
  succeeds_await_bind fun _ _ _ _ => succeeds_await_bind fun _ _ _ _ =>
    succeeds_await_bind fun _ _ _ _ => succeeds_ret trivial

theorem runVisible_succeeds (job : JobData) (testCases : List TestCase) :
    ∀ (visibleCasesPassed : Bool) (index : ℕ) (t : Totals) (w : World),
      Succeeds (fun _ => True) (runVisible job testCases visibleCasesPassed index t) w := by
  induction testCases with
  | nil => exact fun _ _ _ _ => succeeds_ret trivial
  | cons testCase rest ih =>
    intro visibleCasesPassed index t w
    exact (runTestCase_succeeds job t testCase index w).bind fun r w' _ => ih _ _ _ _

theorem runHidden_succeeds (job : JobData) (testCases : List TestCase) :
    ∀ (index : ℕ) (t : Totals) (w : World),
      Succeeds (fun _ => True) (runHidden job testCases index t) w := by
  induction testCases with
  | nil => exact fun _ _ _ => succeeds_ret trivial
  | cons testCase rest ih =>
    intro index t w
    refine (runTestCase_succeeds job t testCase index w).bind fun r w' _ => ?_
    show Succeeds _ (if r.1 then _ else _) w'
    split_ifs
    · exact ih _ _ _
    · exact succeeds_ret trivial

theorem runTestCases_succeeds {job : JobData} {w : World} (hne : testCasesOf w job.problemId ≠ []) :
    Succeeds (fun _ => True) (runTestCases job) w := by
  refine succeeds_await_bind fun c testCases w₁ h => ?_
  obtain rfl : testCases = testCasesOf w job.problemId := by
    cases answerOk_of_answer h
    rfl
  simp only
  split_ifs with hempty
  · exact absurd (List.eq_nil_of_length_eq_zero hempty) hne
  · refine (runVisible_succeeds job _ _ _ _ _).bind fun r w₂ _ => ?_
    show Succeeds _ (if r.1 then _ else _) w₂
    split_ifs
    · exact (runHidden_succeeds job _ _ _ _).bind fun t w₃ _ => succeeds_ret trivial
    · exact succeeds_ret trivial

theorem start_succeeds {job : JobData} {w : World} {s : Submission}
    (hs : w.submissions.find? job.submissionId = some s) :
    Succeeds (fun w' => w'.testCases = w.testCases) (start job) w := by
  refine succeeds_await_bind fun c found w₁ h => ?_
  obtain ⟨rfl, rfl⟩ : found = some s ∧ w₁ = w.clients c.clients := by
    cases answerOk_of_answer h
    exact ⟨hs, rfl⟩
  refine succeeds_await_bind fun c₁ now w₂ h₁ => ?_
  cases answerOk_of_answer h₁
  refine succeeds_await_bind fun c₂ u w₃ h₂ => ?_
  cases answerOk_of_answer h₂
  exact succeeds_ret rfl

theorem finish_succeeds (job : JobData) (s : Submission) (testCases : List TestCase) (t : Totals) (w : World) :
    Succeeds (fun _ => True) (finish job s testCases t) w := by
  refine succeeds_await_bind fun _ _ _ _ => succeeds_await_bind fun _ _ _ _ =>
    succeeds_await_bind fun _ _ _ _ => succeeds_await_bind fun _ _ _ _ => ?_
  split_ifs
  · exact succeeds_await_bind fun _ _ _ _ => succeeds_ret trivial
  · exact succeeds_ret trivial

/-- A flawless run on a submission with test cases completes. -/
theorem processSubmission_completes {job : JobData} {w : World} {s : Submission} {cs : ℕ → Choice}
    (hs : w.submissions.find? job.submissionId = some s) (hne : testCasesOf w job.problemId ≠ [])
    (hcs : EvalGuarded answer (Flawless answer) (processSubmission job) w cs) :
    ∃ res, (eval answer (processSubmission job) w cs).1 = .ok res := by
  have hbody : Succeeds (fun _ => True) (processSubmission job) w := by
    refine Ensures.tryCatch (fun _ _ h => h) ?_ ((start_succeeds hs).bind fun s' w₁ h₁ => ?_)
    · rintro e w' ⟨⟨a, ha⟩, _⟩
      cases ha
    · have htests : testCasesOf w₁ job.problemId = testCasesOf w job.problemId := by
        rw [testCasesOf, h₁, testCasesOf]
      exact (runTestCases_succeeds (htests ▸ hne)).bind fun r w₂ _ => finish_succeeds job s' r.1 r.2 w₂
  exact (hbody.eval hcs).1

/-- No call fails, and the ids of new rows are new. -/
structure Smooth (w : World) (cs : ℕ → Choice) : Prop where
  fails : ∀ n, (cs n).fails = none
  fresh : ∀ n, w.testResults.find? (cs n).uuid = none
  inj : Function.Injective fun n => (cs n).uuid

/-- Only a row under the id of the call is added. -/
theorem find?_testResults_answer {o : Op} {c : Choice} {w : World} {id : Id} (hid : id ≠ c.uuid) :
    (answer o c w).2.testResults.find? id = w.testResults.find? id := by
  have hok : ∀ w' : World, (answerOk c w' o).2.testResults.find? id = w'.testResults.find? id := by
    intro w'
    cases o with
    | saveTestResult =>
      simp only [answerOk]
      split_ifs
      · rfl
      · rw [Table.find?_upsert]
        exact if_neg hid
    | _ => rfl
  unfold answer
  cases c.fails with
  | none => exact hok _
  | some message =>
    simp only
    split_ifs
    · rfl
    · exact hok _

theorem Smooth.step {w : World} {cs : ℕ → Choice} (h : Smooth w cs) (o : Op) :
    Smooth (answer o (cs 0) w).2 (skip 1 cs) where
  fails := fun n => h.fails (n + 1)
  fresh := by
    intro n
    have hne : (skip 1 cs n).uuid ≠ (cs 0).uuid := fun heq => Nat.succ_ne_zero n (h.inj heq)
    rw [find?_testResults_answer hne]
    exact h.fresh (n + 1)
  inj := fun m n hmn => Nat.succ_injective (h.inj hmn)

/-- Every call of a smooth execution is answered. -/
theorem Smooth.flawless {α : Type} (p : M α) : ∀ {w : World} {cs : ℕ → Choice}, Smooth w cs →
    EvalGuarded answer (Flawless answer) p w cs := by
  induction p with
  | ret a => exact fun _ => trivial
  | raise e => exact fun _ => trivial
  | call o k ih =>
    intro w cs h
    refine ⟨?_, ih _ (h.step o)⟩
    unfold Flawless answer
    simp only [h.fails 0]
    cases o with
    | saveTestResult =>
      have hnew : ((w.clients (cs 0).clients).testResults.find? (cs 0).uuid).isSome = false := by
        rw [show (w.clients (cs 0).clients).testResults = w.testResults from rfl, h.fresh 0]
        rfl
      simp [answerOk, hnew]
    | _ => exact ⟨_, rfl⟩

/-! ## Calls by kind -/

/-- `executeCode`. -/
def Op.isExecution : Op → Bool
  | .executeCode .. => true
  | _ => false

/-- The event that the call hands to a stream, with its submission. -/
def Op.pushed : Op → Option (Id × SseEvent)
  | .push submissionId event => some (submissionId, event)
  | .error submissionId message => some (submissionId, .submissionError message)
  | _ => none

theorem filter_isExecution_callsOf (job : JobData) (es : List Execution) : ∀ index,
    (callsOf job index es).filter Op.isExecution =
      es.map fun e => .executeCode job.language job.code e.testCase.input := by
  induction es with
  | nil => exact fun _ => rfl
  | cons e es ih =>
    intro index
    rw [callsOf, List.filter_append, ih]
    rfl

theorem pushed_callsOf (job : JobData) (es : List Execution) : ∀ index,
    (callsOf job index es).filterMap Op.pushed =
      es.mapIdx fun i e => (job.submissionId, e.event job (index + i)) := by
  induction es with
  | nil => exact fun _ => rfl
  | cons e es ih =>
    intro index
    rw [callsOf, List.filterMap_append, ih, List.mapIdx_cons]
    simp only [Nat.add_zero, Nat.add_assoc, Nat.add_comm 1]
    rfl

theorem filter_isExecution_finishCalls (job : JobData) (row : Submission) (t : Totals) (total : ℕ) :
    (finishCalls job row t total).filter Op.isExecution = [] := by
  unfold finishCalls
  split_ifs <;> rfl

theorem pushed_finishCalls (job : JobData) (row : Submission) (t : Totals) (total : ℕ) :
    (finishCalls job row t total).filterMap Op.pushed =
      [(job.submissionId, completedEvent job row t total)] := by
  unfold finishCalls
  split_ifs <;> rfl

/-- A list of rows stored for the executions has as many passed ones. -/
theorem countP_rows {job : JobData} {es : List Execution} {rows : List TestResult}
    (h : List.Forall₂ (fun e r => r = e.row job r.id) es rows) :
    rows.countP (fun r => r.passed) = es.countP Execution.passed := by
  induction h with
  | nil => rfl
  | cons hr _ ih =>
    rw [List.countP_cons, List.countP_cons, ih, hr]
    rfl

theorem submissionId_rows {job : JobData} {es : List Execution} {rows : List TestResult}
    (h : List.Forall₂ (fun e r => r = e.row job r.id) es rows) :
    ∀ r ∈ rows, r.submissionId = job.submissionId := by
  induction h with
  | nil => simp
  | cons hr _ ih =>
    intro r hmem
    rcases List.mem_cons.mp hmem with rfl | hmem
    · rw [hr]
      rfl
    · exact ih r hmem

/-! ## The verdict -/

/-- What one run of `processSubmission` should do, if it stores `rows` and saves `row`:
    execute the tests in their order, store one row and push one event for each, push
    the completion, and save a verdict that follows from the executed tests. -/
structure JudgesInOrder (job : JobData) (w : World) (cs : ℕ → Choice) (rows : List TestResult)
    (row : Submission) : Prop where
  completes : ∃ res, (eval answer (processSubmission job) w cs).1 = .ok res
  executions : (calls answer (processSubmission job) w cs).filter Op.isExecution =
    (executedBy job w cs).map fun e => .executeCode job.language job.code e.testCase.input
  stored : (eval answer (processSubmission job) w cs).2.testResults.rows = w.testResults.rows ++ rows
  one_row : List.Forall₂ (fun e r => r = e.row job r.id) (executedBy job w cs) rows
  events : (calls answer (processSubmission job) w cs).filterMap Op.pushed =
    ((executedBy job w cs).mapIdx fun index e => (job.submissionId, e.event job index)) ++
      [(job.submissionId, .submissionCompleted
        { submissionId := job.submissionId
          finalVerdict := row.status
          score := row.score
          totalExecutionMs := ((executedBy job w cs).map fun e => e.result.executionTime).sum
          passedCount := rows.countP fun r => r.passed
          totalCount := (testCasesOf w job.problemId).length })]
  saved : (eval answer (processSubmission job) w cs).2.submissions.find? job.submissionId = some row
  accepted_or_wrong : row.status = .accepted ∨ row.status = .wrong
  accepted_iff : row.status = .accepted ↔ ∀ testCase ∈ testCasesOf w job.problemId,
    ∃ e ∈ executedBy job w cs, e.testCase = testCase ∧ e.passed = true
  executionTime_eq :
    row.executionTime = some ((executedBy job w cs).map fun e => e.result.executionTime).sum
  memoryUsed_eq : ∃ m, row.memoryUsed = some m ∧
    IsGreatest {m | ∃ e ∈ executedBy job w cs, e.result.memoryUsed = m} m

theorem nodup_testCasesOf (w : World) (problemId : Id) : (testCasesOf w problemId).Nodup := by
  refine (sortBy_perm _ _).nodup_iff.mpr (List.Nodup.filter _ ?_)
  exact List.Nodup.of_map _ w.testCases.nodup

theorem untilFailure_eq_nil {es : List Execution} (h : untilFailure es = []) : es = [] := by
  cases es with
  | nil => rfl
  | cons e es =>
    rw [untilFailure] at h
    split_ifs at h

/-- At least one test is executed. -/
theorem executed_ne_nil {testCases : List TestCase} (hne : testCases ≠ [])
    (results : ℕ → ExecutionResult) : executed testCases results ≠ [] := by
  have hnone : ∀ (tests : List TestCase) (rs : ℕ → ExecutionResult), executions rs tests = [] → tests = [] := by
    intro tests rs h
    rw [← map_testCase_executions tests rs, h, List.map_nil]
  intro h
  unfold executed at h
  simp only at h
  split_ifs at h with hall
  · obtain ⟨hvisible, hhidden⟩ := List.append_eq_nil_iff.mp h
    have hperm := filter_append_perm testCases
    rw [hnone _ _ hvisible, hnone _ _ (untilFailure_eq_nil hhidden)] at hperm
    exact hne hperm.nil_eq.symm
  · exact hall (by rw [h]; rfl)

/-- The row that a completed run saved. -/
theorem Judges.find?_eq {job : JobData} {w w' : World} {cs : ℕ → Choice} {res : JobResult} {os : List Op}
    {s : Submission} (h : Judges job w cs res w' os s) :
    w'.submissions.find? job.submissionId = some (judgedBy job w cs s) := by
  have hid : (judgedBy job w cs s).id = job.submissionId := (Table.find?_eq_some_iff.mp h.found).2
  rw [h.frame, ← hid]
  exact Table.find?_upsert_self _ _

/-- The verdict of a completed run: ACCEPTED if every test case was executed and passed,
    WRONG otherwise. -/
theorem judgedBy_status_iff {job : JobData} {w : World} (hne : testCasesOf w job.problemId ≠ [])
    (cs : ℕ → Choice) (s : Submission) :
    (judgedBy job w cs s).status = .accepted ↔ ∀ testCase ∈ testCasesOf w job.problemId,
      ∃ e ∈ executedBy job w cs, e.testCase = testCase ∧ e.passed = true := by
  have hcount := passedCount_totalsOf (executedBy job w cs)
  have hle : (executedBy job w cs).countP Execution.passed ≤ (testCasesOf w job.problemId).length :=
    le_trans List.countP_le_length (length_executed_le _ _)
  have hiff := countP_executed_eq_iff (nodup_testCasesOf w job.problemId) (returnedBy (skip 4 cs))
  refine Iff.trans ?_ hiff
  show finalStatusOf (totalsOf (executedBy job w cs)).passedCount _ = _ ↔ _
  rw [hcount]
  exact finalStatusOf_eq_accepted_iff (List.length_pos_of_ne_nil hne) hle

/-- **Main**: one flawless run of `processSubmission` judges the submission in order. -/
theorem processSubmission_judges {job : JobData} {w : World} {s : Submission} {cs : ℕ → Choice}
    (hs : w.submissions.find? job.submissionId = some s) (hne : testCasesOf w job.problemId ≠ [])
    (hcs : EvalGuarded answer (Flawless answer) (processSubmission job) w cs) :
    ∃ rows row, JudgesInOrder job w cs rows row := by
  obtain ⟨res, hres⟩ := processSubmission_completes hs hne hcs
  have hexec := executes_eval answer (processSubmission job) w cs
  rw [hres] at hexec
  obtain ⟨s', hjudges⟩ := processSubmission_executes hexec
  obtain ⟨rows, hrows, hforall⟩ := hjudges.rows
  refine ⟨rows, judgedBy job w cs s', ⟨res, hres⟩, ?_, hrows, hforall, ?_, hjudges.find?_eq, ?_,
    judgedBy_status_iff hne cs s', ?_, _, rfl, isGreatest_maxMemoryUsed (executed_ne_nil hne _)⟩
  · rw [hjudges.calls, List.filter_append, List.filter_append, filter_isExecution_callsOf,
      filter_isExecution_finishCalls, List.append_nil]
    rfl
  · rw [hjudges.calls, List.filterMap_append, List.filterMap_append, pushed_callsOf, pushed_finishCalls,
      completedEvent, passedCount_totalsOf, totalExecutionTime_totalsOf, countP_rows hforall]
    simp only [Nat.zero_add]
    rfl
  · show finalStatusOf _ _ = _ ∨ finalStatusOf _ _ = _
    unfold finalStatusOf
    split_ifs <;> simp
  · show some (totalsOf (executedBy job w cs)).totalExecutionTime = _
    rw [totalExecutionTime_totalsOf]

/-! ## A visible and a hidden test -/

/-- A text of its own for each number. -/
def unary (n : ℕ) : String := String.ofList (List.replicate n 'a')

theorem unary_injective : Function.Injective unary := by
  intro m n h
  have hlists := String.ofList_injective h
  simpa using congrArg List.length hlists

/-- No call fails; every execution returns `result`. -/
def smoothly (result : ℕ → ExecutionResult) (n : ℕ) : Choice :=
  { answered with uuid := unary n, result := result n }

theorem smooth_smoothly {w : World} (hw : w.testResults = .empty) (result : ℕ → ExecutionResult) :
    Smooth w (smoothly result) where
  fails := fun _ => rfl
  fresh := by
    intro n
    rw [hw]
    rfl
  inj := unary_injective

/-- The submission of a problem with a visible and a hidden test. -/
def pendingTwo : World :=
  { pendingOne with
    testCases := pendingOne.testCases.upsert
      { id := "t0", problemId := "p1", input := "7", expectedOutput := "49", isHidden := true, orderIndex := 0 } }

/-- The program prints 42 for both tests and fails the hidden one. -/
theorem processSubmission_judges_two :
    ∃ rows row, JudgesInOrder jobOne pendingTwo (smoothly fun _ => answered.result) rows row :=
  processSubmission_judges (s := (pendingTwo.submissions.find? "s1").get rfl) rfl
    (List.ne_nil_of_mem (mem_sortBy.mpr (List.mem_filter.mpr ⟨.head _, rfl⟩)))
    ((smooth_smoothly rfl _).flawless _)

end CodeWeaknesses.Submissions
