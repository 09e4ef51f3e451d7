import CodeWeaknesses.Submissions.Written

/-!
# One attempt, test case by test case

What a completed run of `processSubmission` did: which tests it executed, the calls it
made for them, the rows it stored and the submission it saved. A completed run makes its
calls in a fixed order, so its `k`-th execution is the call `4 + 3 * k`.

Results:
* `countP_executed_eq_iff`: when every test case was executed and passed.
* `runVisible_executes`, `runHidden_executes`: the two loops.
* `processSubmission_executes`: a completed run.
-/

namespace CodeWeaknesses.Submissions

open Lib Lib.Prog Sse

/-! ## Executed tests -/

/-- A test case and what its execution returned. -/
structure Execution where
  testCase : TestCase
  result : ExecutionResult

namespace Execution

/-- `passed` (lines 88–94). -/
def passed (e : Execution) : Bool :=
  e.result.success && compareOutput e.result.output e.testCase.expectedOutput

/-- The call that stores the result. -/
def save (job : JobData) (e : Execution) : Op :=
  .saveTestResult job.submissionId e.testCase.id e.passed e.testCase.isHidden e.result.output
    e.testCase.expectedOutput e.result.error e.result.executionTime e.result.memoryUsed

/-- The stored row. -/
def row (job : JobData) (e : Execution) (id : Id) : TestResult :=
  testResultRow id job.submissionId e.testCase.id e.passed e.testCase.isHidden e.result.output
    e.testCase.expectedOutput e.result.error e.result.executionTime e.result.memoryUsed

/-- The live event of the execution at `index`. -/
def event (job : JobData) (e : Execution) (index : ℕ) : SseEvent :=
  .testResult
    { submissionId := job.submissionId
      testCaseIndex := index
      testCaseId := e.testCase.id
      verdict := verdictOf e.passed e.result
      executionMs := e.result.executionTime
      isHidden := e.testCase.isHidden
      output := some (some (outputOf e.result))
      expectedOutput := some (some e.testCase.expectedOutput) }

/-- The calls of `runTestCase`. -/
def calls (job : JobData) (e : Execution) (index : ℕ) : List Op :=
  [.executeCode job.language job.code e.testCase.input, e.save job,
    .push job.submissionId (e.event job index)]

end Execution

/-- The executions of the test cases in turn. -/
def executions (results : ℕ → ExecutionResult) : List TestCase → List Execution
  | [] => []
  | testCase :: rest => ⟨testCase, results 0⟩ :: executions (skip 1 results) rest

/-- The executions up to and including the first failing one. -/
def untilFailure : List Execution → List Execution
  | [] => []
  | e :: es => if e.passed then e :: untilFailure es else [e]

/-- All visible tests and, if they all pass, the hidden tests up to and including the
    first failing one; `results k` is what the `k`-th execution returns. -/
def executed (testCases : List TestCase) (results : ℕ → ExecutionResult) : List Execution :=
  let visible := executions results (testCases.filter fun testCase => !testCase.isHidden)
  if visible.all Execution.passed then
    visible ++ untilFailure
      (executions (skip visible.length results) (testCases.filter fun testCase => testCase.isHidden))
  else visible

@[simp] theorem length_executions (testCases : List TestCase) :
    ∀ results : ℕ → ExecutionResult, (executions results testCases).length = testCases.length := by
  induction testCases with
  | nil => exact fun _ => rfl
  | cons testCase rest ih => exact fun results => congrArg (· + 1) (ih _)

/-- The counters after one more execution. -/
def Totals.add (t : Totals) (e : Execution) : Totals :=
  { passedCount := if e.passed then t.passedCount + 1 else t.passedCount
    totalExecutionTime := t.totalExecutionTime + e.result.executionTime
    maxMemoryUsed := max t.maxMemoryUsed e.result.memoryUsed }

/-- The counters after the executions. -/
def Totals.addAll (t : Totals) (es : List Execution) : Totals := es.foldl Totals.add t

/-- The counters after a run that executed `es`. -/
def totalsOf (es : List Execution) : Totals := Totals.addAll ⟨0, 0, 0⟩ es

theorem Totals.addAll_append (t : Totals) (es es' : List Execution) :
    t.addAll (es ++ es') = (t.addAll es).addAll es' := List.foldl_append

/-- The calls for the executions, the first of them at `index`. -/
def callsOf (job : JobData) : ℕ → List Execution → List Op
  | _, [] => []
  | index, e :: es => e.calls job index ++ callsOf job (index + 1) es

@[simp] theorem length_callsOf (job : JobData) (es : List Execution) :
    ∀ index, (callsOf job index es).length = 3 * es.length := by
  induction es with
  | nil => exact fun _ => rfl
  | cons e es ih =>
    intro index
    rw [callsOf, List.length_append, ih, List.length_cons]
    show 3 + 3 * es.length = _
    omega

theorem callsOf_append (job : JobData) (es es' : List Execution) :
    ∀ index, callsOf job index (es ++ es') = callsOf job index es ++ callsOf job (index + es.length) es' := by
  induction es with
  | nil => exact fun _ => rfl
  | cons e es ih =>
    intro index
    rw [List.cons_append, callsOf, ih, callsOf, List.append_assoc, List.length_cons, Nat.add_assoc,
      Nat.add_comm 1]

/-! ## What is counted -/

theorem passedCount_totalsOf (es : List Execution) :
    (totalsOf es).passedCount = es.countP Execution.passed := by
  have hadd : ∀ (es : List Execution) (t : Totals),
      (t.addAll es).passedCount = t.passedCount + es.countP Execution.passed := by
    intro es
    induction es with
    | nil => exact fun _ => rfl
    | cons e es ih =>
      intro t
      show ((t.add e).addAll es).passedCount = _
      rw [ih, List.countP_cons]
      simp only [Totals.add]
      split_ifs <;> omega
  have h := hadd es ⟨0, 0, 0⟩
  rwa [zero_add] at h

theorem totalExecutionTime_totalsOf (es : List Execution) :
    (totalsOf es).totalExecutionTime = (es.map fun e => e.result.executionTime).sum := by
  have hadd : ∀ (es : List Execution) (t : Totals),
      (t.addAll es).totalExecutionTime =
        t.totalExecutionTime + (es.map fun e => e.result.executionTime).sum := by
    intro es
    induction es with
    | nil => exact fun t => (Int.add_zero t.totalExecutionTime).symm
    | cons e es ih =>
      intro t
      show ((t.add e).addAll es).totalExecutionTime = _
      rw [ih, List.map_cons, List.sum_cons, ← add_assoc]
      rfl
  have h := hadd es ⟨0, 0, 0⟩
  rwa [zero_add] at h

/-- The counted memory is the largest one, once a test was executed. -/
theorem isGreatest_maxMemoryUsed {es : List Execution} (hes : es ≠ []) :
    IsGreatest {m | ∃ e ∈ es, e.result.memoryUsed = m} (totalsOf es).maxMemoryUsed := by
  have hadd : ∀ (es : List Execution) (t : Totals),
      ((t.addAll es).maxMemoryUsed = t.maxMemoryUsed ∨
        ∃ e ∈ es, e.result.memoryUsed = (t.addAll es).maxMemoryUsed) ∧
      t.maxMemoryUsed ≤ (t.addAll es).maxMemoryUsed ∧
      ∀ e ∈ es, e.result.memoryUsed ≤ (t.addAll es).maxMemoryUsed := by
    intro es
    induction es with
    | nil => exact fun t => ⟨.inl rfl, Nat.le_refl _, by simp⟩
    | cons e es ih =>
      intro t
      obtain ⟨hmem, hge, hall⟩ := ih (t.add e)
      have hle : max t.maxMemoryUsed e.result.memoryUsed ≤ ((t.add e).addAll es).maxMemoryUsed := hge
      refine ⟨?_, le_trans (le_max_left _ _) hle, ?_⟩
      · rcases hmem with h | ⟨e', he', h⟩
        · have hmax : (t.addAll (e :: es)).maxMemoryUsed = max t.maxMemoryUsed e.result.memoryUsed := h
          rw [hmax]
          rcases max_choice t.maxMemoryUsed e.result.memoryUsed with h | h
          · exact .inl h
          · exact .inr ⟨e, List.mem_cons_self, h.symm⟩
        · exact .inr ⟨e', List.mem_cons_of_mem _ he', h⟩
      · intro e' he'
        rcases List.mem_cons.mp he' with rfl | he'
        · exact le_trans (le_max_right _ _) hle
        · exact hall e' he'
  obtain ⟨hmem, _, hall⟩ := hadd es ⟨0, 0, 0⟩
  constructor
  · rcases hmem with h | h
    · -- a maximum of 0 is reached by every execution
      obtain ⟨e, he⟩ := List.exists_mem_of_ne_nil es hes
      have hle := hall e he
      have hzero : (totalsOf es).maxMemoryUsed = 0 := h
      exact ⟨e, he, Nat.le_antisymm hle (by rw [hzero]; exact Nat.zero_le _)⟩
    · exact h
  · rintro m ⟨e, he, rfl⟩
    exact hall e he

/-! ## Which tests are executed -/

theorem map_testCase_executions (testCases : List TestCase) :
    ∀ results : ℕ → ExecutionResult, (executions results testCases).map Execution.testCase = testCases := by
  induction testCases with
  | nil => exact fun _ => rfl
  | cons testCase rest ih => exact fun results => congrArg (testCase :: ·) (ih _)

theorem untilFailure_initial (es : List Execution) : untilFailure es <+: es := by
  induction es with
  | nil => exact List.prefix_rfl
  | cons e es ih =>
    rw [untilFailure]
    split_ifs
    · exact (List.prefix_cons_inj e).mpr ih
    · exact ⟨es, rfl⟩

/-- The executed tests: the visible ones and some of the hidden ones, each once. -/
theorem map_testCase_executed_initial (testCases : List TestCase) (results : ℕ → ExecutionResult) :
    (executed testCases results).map Execution.testCase <+:
      (testCases.filter fun testCase => !testCase.isHidden) ++
        testCases.filter fun testCase => testCase.isHidden := by
  unfold executed
  simp only
  split_ifs
  · rw [List.map_append, map_testCase_executions]
    refine (List.prefix_append_right_inj _).mpr ?_
    have hinitial := (untilFailure_initial (executions
      (skip (executions results (testCases.filter fun testCase => !testCase.isHidden)).length results)
      (testCases.filter fun testCase => testCase.isHidden))).map Execution.testCase
    rwa [map_testCase_executions] at hinitial
  · rw [map_testCase_executions]
    exact List.prefix_append _ _

theorem filter_append_perm (testCases : List TestCase) :
    ((testCases.filter fun testCase => !testCase.isHidden) ++
      testCases.filter fun testCase => testCase.isHidden).Perm testCases :=
  List.perm_append_comm.trans (List.filter_append_perm (fun testCase => testCase.isHidden) testCases)

theorem length_executed_le (testCases : List TestCase) (results : ℕ → ExecutionResult) :
    (executed testCases results).length ≤ testCases.length := by
  have hinitial := (map_testCase_executed_initial testCases results).length_le
  rw [List.length_map, (filter_append_perm testCases).length_eq] at hinitial
  exact hinitial

/-- Every test passed iff as many executed tests passed as there are tests. -/
theorem countP_executed_eq_iff {testCases : List TestCase} (hnodup : testCases.Nodup)
    (results : ℕ → ExecutionResult) :
    (executed testCases results).countP Execution.passed = testCases.length ↔
      ∀ testCase ∈ testCases, ∃ e ∈ executed testCases results,
        e.testCase = testCase ∧ e.passed = true := by
  have hle := length_executed_le testCases results
  have hcount := List.countP_le_length (p := Execution.passed) (l := executed testCases results)
  constructor
  · intro h testCase htest
    have hall := List.countP_eq_length.mp (Nat.le_antisymm hcount (h ▸ hle))
    -- as long as the whole list, the executed tests are the whole list
    have hinitial := map_testCase_executed_initial testCases results
    have heq := hinitial.eq_of_length_le (by
      rw [List.length_map, (filter_append_perm testCases).length_eq]
      omega)
    have hmem : testCase ∈ (executed testCases results).map Execution.testCase := by
      rw [heq]
      exact (filter_append_perm testCases).mem_iff.mpr htest
    obtain ⟨e, he, rfl⟩ := List.mem_map.mp hmem
    exact ⟨e, he, rfl, hall e he⟩
  · intro h
    have hsub : testCases ⊆ ((executed testCases results).filter Execution.passed).map Execution.testCase := by
      intro testCase htest
      obtain ⟨e, he, rfl, hpassed⟩ := h testCase htest
      exact List.mem_map_of_mem (List.mem_filter.mpr ⟨he, hpassed⟩)
    have hlen := (hnodup.subperm hsub).length_le
    rw [List.length_map, ← List.countP_eq_length_filter] at hlen
    omega

/-! ## Answers -/

/-- What the executions of a loop return, when the loop starts with the choices `cs`. -/
def returnedBy (cs : ℕ → Choice) : ℕ → ExecutionResult := fun k => (cs (3 * k)).result

theorem resultsOf_skip (cs : ℕ → Choice) (n : ℕ) : returnedBy (skip (3 * n) cs) = skip n (returnedBy cs) := by
  funext k
  show (cs (3 * k + 3 * n)).result = (cs (3 * (k + n))).result
  rw [Nat.mul_add]

/-- A call that returned. -/
theorem answerOk_of_answer {o : Op} {c : Choice} {w w' : World} {a : Res o}
    (h : answer o c w = (.ok a, w')) : answerOk c (w.clients c.clients) o = (.ok a, w') := by
  unfold answer at h
  cases hf : c.fails with
  | none => simpa only [hf] using h
  | some message =>
    simp only [hf] at h
    split_ifs at h
    · cases h
    · exact h

/-- The executions `es` were stored, one row each and in their order. Nothing else
    changed but the live streams. -/
structure Stores (job : JobData) (es : List Execution) (w w' : World) : Prop where
  rows : ∃ rows, w'.testResults.rows = w.testResults.rows ++ rows ∧
    List.Forall₂ (fun e r => r = e.row job r.id) es rows
  frame : w' = { w with testResults := w'.testResults, sse := w'.sse }

theorem Stores.refl (job : JobData) (w : World) : Stores job [] w w :=
  ⟨⟨[], by simp, .nil⟩, rfl⟩

theorem Stores.trans {job : JobData} {es es' : List Execution} {w w₁ w₂ : World}
    (h : Stores job es w w₁) (h' : Stores job es' w₁ w₂) : Stores job (es ++ es') w w₂ := by
  obtain ⟨rows, hrows, hall⟩ := h.rows
  obtain ⟨rows', hrows', hall'⟩ := h'.rows
  refine ⟨⟨rows ++ rows', by rw [hrows', hrows, List.append_assoc], ?_⟩, ?_⟩
  · exact List.rel_append hall hall'
  · have hframe := h'.frame
    rw [h.frame] at hframe
    exact hframe

/-- The result of an execution that was stored. -/
theorem answer_save {job : JobData} {e : Execution} {c : Choice} {w w' : World} {u : Unit}
    (h : answer (e.save job) c w = (.ok u, w')) : Stores job [e] w w' := by
  have hok := answerOk_of_answer h
  unfold Execution.save answerOk at hok
  simp only at hok
  split_ifs at hok with hdup
  · cases hok
  · cases hok
    have hfresh : w.testResults.find? (e.row job c.uuid).id = none := by
      show w.testResults.find? c.uuid = none
      exact Option.not_isSome_iff_eq_none.mp hdup
    refine ⟨⟨[e.row job c.uuid], ?_, .cons rfl .nil⟩, rfl⟩
    exact Table.rows_upsert_of_find?_eq_none hfresh

/-- A call that reads, or that reaches the live streams only. -/
theorem Stores.of_sse {job : JobData} {w w' : World} (h : w' = { w with sse := w'.sse }) :
    Stores job [] w w' := by
  rw [h]
  exact ⟨⟨[], by simp, .nil⟩, rfl⟩

/-! ## The loops -/

variable {job : JobData} {w w' : World} {cs : ℕ → Choice} {os : List Op}

/-- A completed `runTestCase`. -/
theorem runTestCase_executes {t : Totals} {testCase : TestCase} {index : ℕ} {r : Bool × Totals}
    (h : Executes answer (runTestCase job t testCase index) w cs (.ok r) w' os) :
    r = (Execution.passed ⟨testCase, (cs 0).result⟩, t.add ⟨testCase, (cs 0).result⟩) ∧
      os = Execution.calls job ⟨testCase, (cs 0).result⟩ index ∧
      Stores job [⟨testCase, (cs 0).result⟩] w w' := by
  obtain ⟨result, w₁, os₁, hexec, h₁, rfl⟩ := h.of_await_bind
  cases answerOk_of_answer hexec
  obtain ⟨u, w₂, os₂, hsave, h₂, rfl⟩ := h₁.of_await_bind
  obtain ⟨u', w₃, os₃, hpush, h₃, rfl⟩ := h₂.of_await_bind
  cases answerOk_of_answer hpush
  obtain ⟨hr, rfl, rfl⟩ := h₃.of_ret
  cases hr
  have hfirst : Stores job [] w (w.clients (cs 0).clients) := .of_sse rfl
  have hsaved : Stores job [⟨testCase, (cs 0).result⟩] (w.clients (cs 0).clients) w₂ := answer_save hsave
  refine ⟨rfl, rfl, ?_⟩
  exact (hfirst.trans hsaved).trans (.of_sse rfl)

/-- A completed loop over the visible tests executes them all. -/
theorem runVisible_executes (testCases : List TestCase) :
    ∀ {visibleCasesPassed : Bool} {index : ℕ} {t : Totals} {w : World} {cs : ℕ → Choice} {os : List Op}
      {r : Bool × ℕ × Totals},
      Executes answer (runVisible job testCases visibleCasesPassed index t) w cs (.ok r) w' os →
        r = (visibleCasesPassed && (executions (returnedBy cs) testCases).all Execution.passed,
            index + testCases.length, t.addAll (executions (returnedBy cs) testCases)) ∧
          os = callsOf job index (executions (returnedBy cs) testCases) ∧
          Stores job (executions (returnedBy cs) testCases) w w' := by
  induction testCases with
  | nil =>
    intro visibleCasesPassed index t w cs os r h
    obtain ⟨hr, rfl, rfl⟩ := h.of_ret
    cases hr
    exact ⟨by simp [executions, Totals.addAll], rfl, .refl job w'⟩
  | cons testCase rest ih =>
    intro visibleCasesPassed index t w cs os r h
    obtain ⟨r₁, w₁, os₁, os₂, hfirst, hrest, rfl⟩ := h.of_bind
    obtain ⟨rfl, rfl, hstored⟩ := runTestCase_executes hfirst
    obtain ⟨rfl, rfl, hstored'⟩ := ih hrest
    have hresults : returnedBy (skip (Execution.calls job ⟨testCase, (cs 0).result⟩ index).length cs) =
        skip 1 (returnedBy cs) := resultsOf_skip cs 1
    rw [hresults] at hstored' ⊢
    refine ⟨?_, rfl, hstored.trans hstored'⟩
    rw [executions, List.all_cons, List.length_cons, Bool.and_assoc, Nat.add_assoc, Nat.add_comm 1]
    rfl

/-- A completed loop over the hidden tests executes them up to the first failing one. -/
theorem runHidden_executes (testCases : List TestCase) :
    ∀ {index : ℕ} {t : Totals} {w : World} {cs : ℕ → Choice} {os : List Op} {r : Totals},
      Executes answer (runHidden job testCases index t) w cs (.ok r) w' os →
        r = t.addAll (untilFailure (executions (returnedBy cs) testCases)) ∧
          os = callsOf job index (untilFailure (executions (returnedBy cs) testCases)) ∧
          Stores job (untilFailure (executions (returnedBy cs) testCases)) w w' := by
  induction testCases with
  | nil =>
    intro index t w cs os r h
    obtain ⟨hr, rfl, rfl⟩ := h.of_ret
    cases hr
    exact ⟨rfl, rfl, .refl job w'⟩
  | cons testCase rest ih =>
    intro index t w cs os r h
    obtain ⟨r₁, w₁, os₁, os₂, hfirst, hrest, rfl⟩ := h.of_bind
    obtain ⟨rfl, rfl, hstored⟩ := runTestCase_executes hfirst
    have hresults : returnedBy (skip (Execution.calls job ⟨testCase, (cs 0).result⟩ index).length cs) =
        skip 1 (returnedBy cs) := resultsOf_skip cs 1
    have hpassed : (⟨testCase, returnedBy cs 0⟩ : Execution).passed =
        Execution.passed ⟨testCase, (cs 0).result⟩ := rfl
    rw [executions, untilFailure]
    simp only at hrest
    split_ifs at hrest with hp
    · obtain ⟨rfl, rfl, hstored'⟩ := ih hrest
      rw [hresults] at hstored' ⊢
      rw [if_pos (hpassed.trans hp)]
      exact ⟨rfl, rfl, hstored.trans hstored'⟩
    · obtain ⟨hr, rfl, rfl⟩ := hrest.of_ret
      cases hr
      rw [if_neg (by rw [hpassed]; exact hp)]
      exact ⟨rfl, by rw [List.append_nil, callsOf, callsOf, List.append_nil]; rfl, hstored⟩

/-! ## A completed run -/

/-- The test cases of a problem, in the order in which `find` returns them. -/
def testCasesOf (w : World) (problemId : Id) : List TestCase :=
  sortBy (fun a b => (a.orderIndex : ℤ) - b.orderIndex)
    (w.testCases.rows.filter fun t => t.problemId = problemId)

/-- A completed `runTestCases`. -/
theorem runTestCases_executes {r : List TestCase × Totals}
    (h : Executes answer (runTestCases job) w cs (.ok r) w' os) :
    testCasesOf w job.problemId ≠ [] ∧
      r = (testCasesOf w job.problemId,
        totalsOf (executed (testCasesOf w job.problemId) (returnedBy (skip 1 cs)))) ∧
      os = .findTestCases job.problemId ::
        callsOf job 0 (executed (testCasesOf w job.problemId) (returnedBy (skip 1 cs))) ∧
      Stores job (executed (testCasesOf w job.problemId) (returnedBy (skip 1 cs))) w w' := by
  obtain ⟨testCases, w₁, os₁, hfind, h₁, rfl⟩ := h.of_await_bind
  have hfind := answerOk_of_answer hfind
  obtain ⟨rfl, rfl⟩ : testCases = testCasesOf w job.problemId ∧ w₁ = w.clients (cs 0).clients := by
    cases hfind
    exact ⟨rfl, rfl⟩
  have hclients : Stores job [] w (w.clients (cs 0).clients) := .of_sse rfl
  simp only at h₁
  split_ifs at h₁ with hempty
  · cases h₁.of_raise.1
  · obtain ⟨rv, w₂, os₂, os₃, hvisible, hrest, rfl⟩ := h₁.of_bind
    obtain ⟨rfl, rfl, hstored⟩ := runVisible_executes _ hvisible
    refine ⟨fun hnil => hempty (by rw [hnil]; rfl), ?_⟩
    unfold executed
    simp only [Bool.true_and] at hrest
    simp only [length_executions]
    split_ifs at hrest with hall
    · obtain ⟨t, w₃, os₄, os₅, hhidden, hret, rfl⟩ := hrest.of_bind
      obtain ⟨rfl, rfl, hstored'⟩ := runHidden_executes _ hhidden
      obtain ⟨hr, rfl, rfl⟩ := hret.of_ret
      cases hr
      rw [length_callsOf, length_executions, resultsOf_skip] at hstored' ⊢
      rw [if_pos hall]
      refine ⟨?_, ?_, (hclients.trans hstored).trans hstored'⟩
      · rw [totalsOf, Totals.addAll_append]
      · rw [callsOf_append, length_executions, List.append_nil]
    · obtain ⟨hr, rfl, rfl⟩ := hrest.of_ret
      cases hr
      rw [if_neg hall]
      exact ⟨rfl, by rw [List.append_nil], hclients.trans hstored⟩

/-- The RUNNING row of a submission that was found (lines 46–47). -/
def running (s : Submission) (startedAt : Date) : Submission :=
  { s with status := .running, startedAt := some startedAt }

/-- A completed `start`. -/
theorem start_executes {s' : Submission} (h : Executes answer (start job) w cs (.ok s') w' os) :
    ∃ s, w.submissions.find? job.submissionId = some s ∧ s' = running s (cs 1).now ∧
      os = [.findSubmission job.submissionId, .newDate, .saveSubmission s'] ∧
      w' = { w with submissions := w.submissions.upsert s', sse := w'.sse } := by
  obtain ⟨found, w₁, os₁, hfind, h₁, rfl⟩ := h.of_await_bind
  have hok := answerOk_of_answer hfind
  obtain ⟨hfound, rfl⟩ : w.submissions.find? job.submissionId = found ∧ w₁ = w.clients (cs 0).clients := by
    cases hok
    exact ⟨rfl, rfl⟩
  cases found with
  | none => cases h₁.of_raise.1
  | some s =>
    obtain ⟨now, w₂, os₂, hnow, h₂, rfl⟩ := h₁.of_await_bind
    cases answerOk_of_answer hnow
    obtain ⟨u, w₃, os₃, hsave, h₃, rfl⟩ := h₂.of_await_bind
    cases answerOk_of_answer hsave
    obtain ⟨hr, rfl, rfl⟩ := h₃.of_ret
    cases hr
    exact ⟨s, hfound, rfl, rfl, rfl⟩

/-- The event that completes a stream (lines 188–195). -/
def completedEvent (job : JobData) (row : Submission) (t : Totals) (total : ℕ) : SseEvent :=
  .submissionCompleted
    { submissionId := job.submissionId
      finalVerdict := row.status
      score := row.score
      totalExecutionMs := t.totalExecutionTime
      passedCount := t.passedCount
      totalCount := total }

/-- The calls of a completed `finish` that saves `row`. -/
def finishCalls (job : JobData) (row : Submission) (t : Totals) (total : ℕ) : List Op :=
  [.newDate, .saveSubmission row, .push job.submissionId (completedEvent job row t total),
    .complete job.submissionId] ++
  if row.contestId ≠ "" then [.broadcastLeaderboard row.contestId] else []

/-- A completed `finish`. -/
theorem finish_executes {s : Submission} {testCases : List TestCase} {t : Totals} {res : JobResult}
    (h : Executes answer (finish job s testCases t) w cs (.ok res) w' os) :
    res = ⟨true, job.submissionId, scoreOf t.passedCount testCases.length, t.passedCount⟩ ∧
      os = finishCalls job (judged s testCases.length t (cs 0).now) t testCases.length ∧
      w' = { w with
        submissions := w.submissions.upsert (judged s testCases.length t (cs 0).now)
        sse := w'.sse
        broadcasts := w'.broadcasts } := by
  obtain ⟨now, w₁, os₁, hnow, h₁, rfl⟩ := h.of_await_bind
  cases answerOk_of_answer hnow
  obtain ⟨u, w₂, os₂, hsave, h₂, rfl⟩ := h₁.of_await_bind
  cases answerOk_of_answer hsave
  obtain ⟨u, w₃, os₃, hpush, h₃, rfl⟩ := h₂.of_await_bind
  cases answerOk_of_answer hpush
  obtain ⟨u, w₄, os₄, hcomplete, h₄, rfl⟩ := h₃.of_await_bind
  cases answerOk_of_answer hcomplete
  unfold finishCalls
  split_ifs at h₄ ⊢ with hcontest
  · obtain ⟨u, w₅, os₅, hbroadcast, h₅, rfl⟩ := h₄.of_await_bind
    cases answerOk_of_answer hbroadcast
    obtain ⟨hr, rfl, rfl⟩ := h₅.of_ret
    cases hr
    exact ⟨rfl, rfl, rfl⟩
  · obtain ⟨hr, rfl, rfl⟩ := h₄.of_ret
    cases hr
    exact ⟨rfl, rfl, rfl⟩

/-- The tests that a run from `w` with the choices `cs` executes. -/
def executedBy (job : JobData) (w : World) (cs : ℕ → Choice) : List Execution :=
  executed (testCasesOf w job.problemId) (returnedBy (skip 4 cs))

/-- The row that the run saves last, for the submission `s`. -/
def judgedBy (job : JobData) (w : World) (cs : ℕ → Choice) (s : Submission) : Submission :=
  judged (running s (cs 1).now) (testCasesOf w job.problemId).length (totalsOf (executedBy job w cs))
    (cs (4 + 3 * (executedBy job w cs).length)).now

/-- What a completed run from `w` with the choices `cs` did. -/
structure Judges (job : JobData) (w : World) (cs : ℕ → Choice) (res : JobResult) (w' : World)
    (os : List Op) (s : Submission) : Prop where
  found : w.submissions.find? job.submissionId = some s
  nonempty : testCasesOf w job.problemId ≠ []
  result : res = ⟨true, job.submissionId, (judgedBy job w cs s).score,
    (totalsOf (executedBy job w cs)).passedCount⟩
  calls : os =
    [.findSubmission job.submissionId, .newDate, .saveSubmission (running s (cs 1).now),
      .findTestCases job.problemId] ++
    callsOf job 0 (executedBy job w cs) ++
    finishCalls job (judgedBy job w cs s) (totalsOf (executedBy job w cs))
      (testCasesOf w job.problemId).length
  rows : ∃ rows, w'.testResults.rows = w.testResults.rows ++ rows ∧
    List.Forall₂ (fun e r => r = e.row job r.id) (executedBy job w cs) rows
  frame : w' = { w with
    submissions := (w.submissions.upsert (running s (cs 1).now)).upsert (judgedBy job w cs s)
    testResults := w'.testResults
    sse := w'.sse
    broadcasts := w'.broadcasts }

/-- **Main**: what a completed run of `processSubmission` did. -/
theorem processSubmission_executes {res : JobResult}
    (h : Executes answer (processSubmission job) w cs (.ok res) w' os) :
    ∃ s, Judges job w cs res w' os s := by
  rcases h.of_tryCatch with ⟨a, ha, hbody⟩ | ⟨e, w₁, os₁, os₂, _, hrecover, _⟩
  · cases ha
    obtain ⟨s', w₁, os₁, os₂, hstart, h₁, rfl⟩ := hbody.of_bind
    obtain ⟨s, hfound, rfl, rfl, hw₁⟩ := start_executes hstart
    obtain ⟨r, w₂, os₃, os₄, hrun, h₂, rfl⟩ := h₁.of_bind
    obtain ⟨hnonempty, rfl, rfl, hstored⟩ := runTestCases_executes hrun
    obtain ⟨rfl, rfl, hw'⟩ := finish_executes h₂
    have htests : testCasesOf w₁ job.problemId = testCasesOf w job.problemId := by rw [hw₁]; rfl
    have hexecuted : executed (testCasesOf w₁ job.problemId)
        (returnedBy (skip 1 (skip [Op.findSubmission job.submissionId, .newDate,
          .saveSubmission (running s (cs 1).now)].length cs))) = executedBy job w cs := by
      rw [htests]
      rfl
    rw [hexecuted] at hstored hw' ⊢
    rw [htests] at hnonempty hw' ⊢
    have hdate : (skip (Op.findTestCases job.problemId :: callsOf job 0 (executedBy job w cs)).length
        (skip [Op.findSubmission job.submissionId, .newDate,
          .saveSubmission (running s (cs 1).now)].length cs)) 0 =
        cs (4 + 3 * (executedBy job w cs).length) := by
      show cs (0 + ((callsOf job 0 (executedBy job w cs)).length + 1) + 3) = _
      rw [length_callsOf]
      congr 1
      omega
    rw [hdate] at hw' ⊢
    have hframe := hstored.frame
    rw [hw₁] at hframe
    refine ⟨s, hfound, hnonempty, rfl, by simp [judgedBy], ?_, ?_⟩
    · rw [hw']
      have hrows := hstored.rows
      rw [hw₁] at hrows
      exact hrows
    · rw [hframe] at hw'
      rw [hw']
      rfl
  · exact ((recover_throws job e).executes hrecover).elim

end CodeWeaknesses.Submissions
