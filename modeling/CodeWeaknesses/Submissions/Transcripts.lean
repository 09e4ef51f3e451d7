import CodeWeaknesses.Lib.Traces
import CodeWeaknesses.Submissions.Isolation
import CodeWeaknesses.Submissions.Limits

/-!
# What a job tells its clients

The stream of a submission is a protocol: live results, numbered from 0, then one terminal event.
An attempt that throws at any call ends its part with `submission.error`; a retry begins again.

Results:
* `runVisible_emits`, `runHidden_emits`, `finish_emits`, `recover_emits`: what each part tells.
* `processSubmission_emits`: an attempt tells a transcript, whatever its calls are answered.
* `runJob_transcript`: **in every run, whatever runs beside a job, what it has told so far is the
  beginning of a transcript of at most three attempts, and a transcript when it has ended.**
-/

namespace CodeWeaknesses.Submissions

open Lib Lib.Prog Sse

/-! ## Transcripts -/

/-- What a call tells the clients of a stream. -/
inductive Told where
  | push (event : SseEvent)
  | complete
  | error (message : String)
  deriving DecidableEq, Repr

def Op.told? (id : Id) : Op → Option Told
  | .push submissionId event => if submissionId = id then some (.push event) else none
  | .complete submissionId => if submissionId = id then some .complete else none
  | .error submissionId message => if submissionId = id then some (.error message) else none
  | _ => none

/-- What the calls tell the clients of the submission. -/
def told (id : Id) (os : List Op) : List Told := os.filterMap (Op.told? id)

/-- The pushes of live results. -/
def pushes (tests : List TestResultEvent) : List Told := tests.map fun e => .push (.testResult e)

/-- The live results of one attempt: numbered from 0, visible tests first, hidden ones only when
    every visible one passed, and none after a hidden one that did not pass. -/
structure Numbered (id : Id) (tests : List TestResultEvent) : Prop where
  indices : tests.map TestResultEvent.testCaseIndex = List.range tests.length
  ids : ∀ e ∈ tests, e.submissionId = id
  order : ∃ visible hidden, tests = visible ++ hidden ∧ (∀ e ∈ visible, e.isHidden = false) ∧
    (∀ e ∈ hidden, e.isHidden = true) ∧ (hidden ≠ [] → ∀ e ∈ visible, e.verdict = .pass) ∧
      ∀ e ∈ hidden.dropLast, e.verdict = .pass

/-- The completed event says of the live results what a client can compute from them. -/
structure Summarises (id : Id) (tests : List TestResultEvent) (e : SubmissionCompletedEvent) : Prop where
  submissionId : e.submissionId = id
  passedCount : e.passedCount = tests.countP fun t => t.verdict = .pass
  totalExecutionMs : e.totalExecutionMs = (tests.map TestResultEvent.executionMs).sum
  totalCount : 0 < e.totalCount ∧ tests.length ≤ e.totalCount
  finalVerdict : e.finalVerdict = finalStatusOf e.passedCount e.totalCount
  score : e.score = scoreOf e.passedCount e.totalCount

/-- The transcript of one attempt that ends with `r`. -/
def AttemptTold (id : Id) (calls : List Told) (r : Except Err JobResult) : Prop :=
  ∃ tests, Numbered id tests ∧
    match r with
    | .ok res => ∃ e, Summarises id tests e ∧ res.score = e.score ∧ res.passedCount = e.passedCount ∧
        calls = pushes tests ++ [.push (.submissionCompleted e), .complete]
    | .error _ => ∃ message, message ≠ "" ∧ calls = pushes tests ++ [.error message]

/-- The transcript of a job of at most `attempts` attempts: failed ones, and a last one that
    completed, unless it was the last to be made. -/
def JobTold (id : Id) (attempts : ℕ) (calls : List Told) (r : Except Err JobResult) : Prop :=
  ∃ failed last, calls = List.flatten failed ++ last ∧ (∀ a ∈ failed, ∃ e, AttemptTold id a (.error e)) ∧
    AttemptTold id last r ∧ failed.length + 1 ≤ attempts ∧ (∀ e, r = .error e → failed.length + 1 = attempts)

/-! ## Live results -/

/-- The live result of an execution. -/
def Execution.testResult (job : JobData) (e : Execution) (index : ℕ) : TestResultEvent :=
  { submissionId := job.submissionId
    testCaseIndex := index
    testCaseId := e.testCase.id
    verdict := verdictOf e.passed e.result
    executionMs := e.result.executionTime
    isHidden := e.testCase.isHidden
    output := some (some (outputOf e.result))
    expectedOutput := some (some e.testCase.expectedOutput) }

/-- The live results of the executions, the first of them at `index`. -/
def testsOf (job : JobData) : ℕ → List Execution → List TestResultEvent
  | _, [] => []
  | index, e :: es => e.testResult job index :: testsOf job (index + 1) es

section Tests

variable {job : JobData}

theorem testsOf_append (es es' : List Execution) : ∀ index,
    testsOf job index (es ++ es') = testsOf job index es ++ testsOf job (index + es.length) es' := by
  induction es with
  | nil => exact fun _ => rfl
  | cons e es ih =>
    intro index
    rw [List.cons_append, testsOf, ih, testsOf, List.length_cons, List.cons_append, Nat.add_assoc,
      Nat.add_comm 1]

@[simp] theorem length_testsOf (es : List Execution) : ∀ index, (testsOf job index es).length = es.length := by
  induction es with
  | nil => exact fun _ => rfl
  | cons e es ih => exact fun index => congrArg (· + 1) (ih _)

theorem indices_testsOf (es : List Execution) : ∀ index,
    (testsOf job index es).map TestResultEvent.testCaseIndex = List.range' index es.length := by
  induction es with
  | nil => exact fun _ => rfl
  | cons e es ih => exact fun index => congrArg (index :: ·) (ih _)

theorem mem_testsOf {es : List Execution} {t : TestResultEvent} : ∀ {index}, t ∈ testsOf job index es →
    ∃ e ∈ es, t.submissionId = job.submissionId ∧ t.isHidden = e.testCase.isHidden ∧
      (t.verdict = .pass ↔ e.passed = true) := by
  induction es with
  | nil =>
    intro index ht
    cases ht
  | cons e es ih =>
    intro index ht
    rcases List.mem_cons.mp ht with rfl | ht
    · exact ⟨e, List.mem_cons_self, rfl, rfl, verdictOf_pass_iff⟩
    · obtain ⟨e', he', h⟩ := ih ht
      exact ⟨e', List.mem_cons_of_mem _ he', h⟩

theorem dropLast_testsOf (es : List Execution) : ∀ index,
    (testsOf job index es).dropLast = testsOf job index es.dropLast := by
  induction es with
  | nil => exact fun _ => rfl
  | cons e es ih =>
    intro index
    cases es with
    | nil => rfl
    | cons e' es => exact congrArg (e.testResult job index :: ·) (ih _)

theorem countP_testsOf (es : List Execution) : ∀ index,
    (testsOf job index es).countP (fun t => t.verdict = .pass) = es.countP Execution.passed := by
  induction es with
  | nil => exact fun _ => rfl
  | cons e es ih =>
    intro index
    rw [testsOf, List.countP_cons, List.countP_cons, ih]
    have hpass : verdictOf e.passed e.result = .pass ↔ e.passed = true := verdictOf_pass_iff
    congr 1
    exact if_congr (decide_eq_true_iff.trans hpass) rfl rfl

theorem executionMs_testsOf (es : List Execution) : ∀ index,
    (testsOf job index es).map TestResultEvent.executionMs = es.map fun e => e.result.executionTime := by
  induction es with
  | nil => exact fun _ => rfl
  | cons e es ih => exact fun index => congrArg (e.result.executionTime :: ·) (ih _)

end Tests

/-! ## What the loops tell -/

section Loops

variable {job : JobData}

theorem told_append (id : Id) (os os' : List Op) : told id (os ++ os') = told id os ++ told id os' :=
  List.filterMap_append

theorem told_of_none {id : Id} {o : Op} (h : o.told? id = none) (os : List Op) : told id (o :: os) = told id os :=
  List.filterMap_cons_none h

theorem told_of_some {id : Id} {o : Op} {x : Told} (h : o.told? id = some x) (os : List Op) :
    told id (o :: os) = x :: told id os := List.filterMap_cons_some h

theorem told?_push (id : Id) (event : SseEvent) : (Op.push id event).told? id = some (.push event) := if_pos rfl

theorem told?_complete (id : Id) : (Op.complete id).told? id = some .complete := if_pos rfl

theorem told?_error (id : Id) (message : String) : (Op.error id message).told? id = some (.error message) :=
  if_pos rfl

theorem pushes_append (tests tests' : List TestResultEvent) : pushes (tests ++ tests') = pushes tests ++ pushes tests' :=
  List.map_append

/-- The calls tell the results of `es`, the first at `index`, which are executions of the first test
    cases. -/
structure Tells (job : JobData) (index : ℕ) (testCases : List TestCase) (es : List Execution) (os : List Op) :
    Prop where
  testCases : es.map Execution.testCase <+: testCases
  told : told job.submissionId os = pushes (testsOf job index es)

theorem Tells.append {index : ℕ} {testCases testCases' : List TestCase} {es es' : List Execution} {os os' : List Op}
    (h : Tells job index testCases es os) (hall : es.map Execution.testCase = testCases)
    (h' : Tells job (index + es.length) testCases' es' os') :
    Tells job index (testCases ++ testCases') (es ++ es') (os ++ os') where
  testCases := by
    rw [List.map_append, hall]
    exact (List.prefix_append_right_inj _).mpr h'.testCases
  told := by rw [told_append, h.told, h'.told, testsOf_append, pushes_append]

theorem Tells.mono {index : ℕ} {testCases testCases' : List TestCase} {es : List Execution} {os : List Op}
    (h : Tells job index testCases es os) (hsub : testCases <+: testCases') : Tells job index testCases' es os :=
  ⟨h.testCases.trans hsub, h.told⟩

theorem runTestCase_emits (t : Totals) (testCase : TestCase) (index : ℕ) :
    Emits answer (fun os r => ∃ es, Tells job index [testCase] es os ∧
      ∀ a, r = .ok a → ∃ e, es = [e] ∧ e.testCase = testCase ∧ a = (e.passed, t.add e))
      (runTestCase job t testCase index) := by
  have hnone : ∀ os, told job.submissionId os = [] → Tells job index [testCase] [] os :=
    fun os hos => ⟨List.nil_prefix, hos⟩
  refine emits_await_bind (fun _ _ _ result _ => ?_) fun _ _ _ _ _ => ⟨[], hnone _ rfl, by rintro a ⟨⟩⟩
  refine emits_await_bind (fun _ _ _ _ _ => ?_) fun _ _ _ _ _ => ⟨[], hnone _ rfl, by rintro a ⟨⟩⟩
  refine emits_await_bind (fun _ _ _ _ _ => ?_) fun _ _ _ _ h => absurd h (not_error_of_not_mayThrow rfl)
  refine ⟨[⟨testCase, result⟩], ⟨List.prefix_rfl, ?_⟩, ?_⟩
  · rw [told_of_none rfl, told_of_none rfl, told_of_some (told?_push _ _)]
    rfl
  · rintro a ⟨⟩
    exact ⟨⟨testCase, result⟩, rfl, rfl, rfl⟩

theorem runVisible_emits (testCases : List TestCase) : ∀ (visibleCasesPassed : Bool) (index : ℕ) (t : Totals),
    Emits answer (fun os r => ∃ es, Tells job index testCases es os ∧
      ∀ a, r = .ok a → es.map Execution.testCase = testCases ∧
        a = (visibleCasesPassed && es.all Execution.passed, index + es.length, t.addAll es))
      (runVisible job testCases visibleCasesPassed index t) := by
  induction testCases with
  | nil =>
    intro visibleCasesPassed index t
    refine ⟨[], ⟨List.prefix_rfl, rfl⟩, ?_⟩
    rintro a ⟨⟩
    exact ⟨rfl, by simp [Totals.addAll]⟩
  | cons testCase rest ih =>
    intro visibleCasesPassed index t
    refine Emits.bind (runTestCase_emits t testCase index) ?_ ?_
    · rintro os ⟨passed, t'⟩ ⟨es, htells, hok⟩
      obtain ⟨e, rfl, rfl, heq⟩ := hok _ rfl
      cases heq
      refine (ih _ _ _).mono ?_
      rintro os' r ⟨es', htells', hok'⟩
      refine ⟨e :: es', htells.append rfl htells', ?_⟩
      rintro a rfl
      obtain ⟨hall, heq⟩ := hok' a rfl
      refine ⟨congrArg (e.testCase :: ·) hall, heq.trans ?_⟩
      rw [List.all_cons, List.length_cons, Bool.and_assoc, Nat.add_assoc, Nat.add_comm 1]
      rfl
    · rintro os e ⟨es, htells, _⟩
      exact ⟨es, htells.mono ⟨rest, rfl⟩, by rintro a ⟨⟩⟩

theorem runHidden_emits (testCases : List TestCase) : ∀ (index : ℕ) (t : Totals),
    Emits answer (fun os r => ∃ es, Tells job index testCases es os ∧
      (∀ e ∈ es.dropLast, e.passed = true) ∧ ∀ a, r = .ok a → a = t.addAll es)
      (runHidden job testCases index t) := by
  induction testCases with
  | nil =>
    intro index t
    refine ⟨[], ⟨List.prefix_rfl, rfl⟩, by rintro e ⟨⟩, ?_⟩
    rintro a ⟨⟩
    rfl
  | cons testCase rest ih =>
    intro index t
    refine Emits.bind (runTestCase_emits t testCase index) ?_ ?_
    · rintro os ⟨passed, t'⟩ ⟨es, htells, hok⟩
      obtain ⟨e, rfl, rfl, heq⟩ := hok _ rfl
      cases heq
      show Emits answer _ (if e.passed then runHidden job rest (index + 1) (t.add e) else pure (t.add e))
      split_ifs with hpassed
      · refine (ih _ _).mono ?_
        rintro os' r ⟨es', htells', hdrop, hok'⟩
        refine ⟨e :: es', htells.append rfl htells', ?_, hok'⟩
        intro e' he'
        cases es' with
        | nil => cases he'
        | cons e₁ es₁ =>
          rcases List.mem_cons.mp he' with rfl | he'
          · exact hpassed
          · exact hdrop e' he'
      · refine ⟨[e], ?_, by rintro e' ⟨⟩, ?_⟩
        · rw [List.append_nil]
          exact htells.mono ⟨rest, rfl⟩
        · rintro a ⟨⟩
          rfl
    · rintro os e ⟨es, htells, _⟩
      refine ⟨es, htells.mono ⟨rest, rfl⟩, ?_, by rintro a ⟨⟩⟩
      -- at most one test was told
      have hlen : es.length ≤ 1 := by simpa using htells.testCases.length_le
      intro e' he'
      have hdrop : es.dropLast.length = 0 := by rw [List.length_dropLast]; omega
      rw [List.eq_nil_of_length_eq_zero hdrop] at he'
      cases he'

/-- The visible tests before the hidden ones, and no hidden one after a failure. -/
def Ordered (es : List Execution) : Prop :=
  ∃ visible hidden, es = visible ++ hidden ∧ (∀ e ∈ visible, e.testCase.isHidden = false) ∧
    (∀ e ∈ hidden, e.testCase.isHidden = true) ∧ (hidden ≠ [] → ∀ e ∈ visible, e.passed = true) ∧
      ∀ e ∈ hidden.dropLast, e.passed = true

/-- Executions of tests that `p` selects. -/
theorem Tells.selected {index : ℕ} {testCases : List TestCase} {es : List Execution} {os : List Op}
    {p : TestCase → Bool} (h : Tells job index (testCases.filter p) es os) : ∀ e ∈ es, p e.testCase = true := by
  intro e he
  have hmem := h.testCases.subset (List.mem_map_of_mem he)
  exact (List.mem_filter.mp hmem).2

theorem Ordered.visible {es : List Execution} (h : ∀ e ∈ es, e.testCase.isHidden = false) : Ordered es :=
  ⟨es, [], by simp, h, by simp, fun h => absurd rfl h, by simp⟩

theorem runTestCases_emits :
    Emits answer (fun os r => ∃ es, Ordered es ∧ told job.submissionId os = pushes (testsOf job 0 es) ∧
      ∀ a, r = .ok a → a.2 = totalsOf es ∧ 0 < a.1.length ∧ es.length ≤ a.1.length) (runTestCases job) := by
  have hnone : Ordered [] := Ordered.visible (by simp)
  refine emits_await_bind (fun _ _ _ testCases _ => ?_) fun _ _ _ _ _ => ⟨[], hnone, rfl, by rintro a ⟨⟩⟩
  simp only
  split_ifs with hempty
  · exact ⟨[], hnone, rfl, by rintro a ⟨⟩⟩
  have hperm := (filter_append_perm testCases).length_eq
  rw [List.length_append] at hperm
  refine Emits.bind (runVisible_emits _ true 0 ⟨0, 0, 0⟩) ?_ ?_
  · rintro os ⟨visibleCasesPassed, currentIndex, t⟩ ⟨visible, htells, hok⟩
    obtain ⟨hall, heq⟩ := hok _ rfl
    cases heq
    have hvisible : ∀ e ∈ visible, e.testCase.isHidden = false := fun e he => by
      simpa using htells.selected e he
    have hlen := congrArg List.length hall
    rw [List.length_map] at hlen
    simp only [Bool.true_and]
    show Emits answer _ (if visible.all Execution.passed then _ else _)
    split_ifs with hpassed
    · refine Emits.bind (runHidden_emits _ (0 + visible.length) (Totals.addAll ⟨0, 0, 0⟩ visible)) ?_ ?_
      · rintro os' t' ⟨hidden, htells', hdrop, hok'⟩
        have hle := htells'.testCases.length_le
        rw [List.length_map] at hle
        refine ⟨visible ++ hidden, ⟨visible, hidden, rfl, hvisible, htells'.selected, ?_, hdrop⟩, ?_, ?_⟩
        · exact fun _ => List.all_eq_true.mp hpassed
        · rw [told_of_none rfl, List.append_nil]
          exact (htells.append hall htells').told
        · rintro a ⟨⟩
          refine ⟨(hok' t' rfl).trans (Totals.addAll_append _ _ _).symm, Nat.pos_of_ne_zero hempty, ?_⟩
          show (visible ++ hidden).length ≤ testCases.length
          rw [List.length_append]
          omega
      · rintro os' e ⟨hidden, htells', hdrop, _⟩
        refine ⟨visible ++ hidden, ⟨visible, hidden, rfl, hvisible, htells'.selected, ?_, hdrop⟩, ?_, by rintro a ⟨⟩⟩
        · exact fun _ => List.all_eq_true.mp hpassed
        · exact (htells.append hall htells').told
    · refine ⟨visible, Ordered.visible hvisible, ?_, ?_⟩
      · rw [List.append_nil]
        exact htells.told
      · rintro a ⟨⟩
        refine ⟨rfl, Nat.pos_of_ne_zero hempty, ?_⟩
        show visible.length ≤ testCases.length
        omega
  · rintro os e ⟨es, htells, _⟩
    refine ⟨es, Ordered.visible fun e he => ?_, htells.told, by rintro a ⟨⟩⟩
    simpa using htells.selected e he

end Loops

/-! ## What an attempt tells -/

section Attempt

variable {job : JobData}

theorem numbered_testsOf {es : List Execution} (h : Ordered es) : Numbered job.submissionId (testsOf job 0 es) where
  indices := by rw [indices_testsOf, length_testsOf, List.range_eq_range']
  ids := by
    intro t ht
    obtain ⟨_, _, hid, _⟩ := mem_testsOf ht
    exact hid
  order := by
    obtain ⟨visible, hidden, rfl, hvisible, hhidden, hpassed, hdrop⟩ := h
    refine ⟨_, _, testsOf_append visible hidden 0, ?_, ?_, ?_, ?_⟩
    · intro t ht
      obtain ⟨e, he, _, heq, _⟩ := mem_testsOf ht
      exact heq.trans (hvisible e he)
    · intro t ht
      obtain ⟨e, he, _, heq, _⟩ := mem_testsOf ht
      exact heq.trans (hhidden e he)
    · intro hne t ht
      obtain ⟨e, he, _, _, hiff⟩ := mem_testsOf ht
      refine hiff.mpr (hpassed ?_ e he)
      rintro rfl
      exact hne rfl
    · intro t ht
      rw [dropLast_testsOf] at ht
      obtain ⟨e, he, _, _, hiff⟩ := mem_testsOf ht
      exact hiff.mpr (hdrop e he)

theorem start_emits : Emits answer (fun os _ => told job.submissionId os = []) (start job) := by
  refine emits_await_bind (fun _ _ _ found _ => ?_) fun _ _ _ _ _ => rfl
  cases found with
  | none => rfl
  | some s =>
    refine emits_await_bind (fun _ _ _ now _ => ?_) fun _ _ _ _ _ => rfl
    exact emits_await_bind (fun _ _ _ _ _ => rfl) fun _ _ _ _ _ => rfl

/-- The completed event of `finish`. -/
def completedOf (job : JobData) (total : ℕ) (t : Totals) : SubmissionCompletedEvent :=
  { submissionId := job.submissionId
    finalVerdict := finalStatusOf t.passedCount total
    score := scoreOf t.passedCount total
    totalExecutionMs := t.totalExecutionTime
    passedCount := t.passedCount
    totalCount := total }

theorem summarises_completedOf {total : ℕ} {es : List Execution} (hpos : 0 < total) (hle : es.length ≤ total) :
    Summarises job.submissionId (testsOf job 0 es) (completedOf job total (totalsOf es)) where
  submissionId := rfl
  passedCount := by
    rw [countP_testsOf]
    exact passedCount_totalsOf es
  totalExecutionMs := by
    rw [executionMs_testsOf]
    exact totalExecutionTime_totalsOf es
  totalCount := ⟨hpos, by rwa [length_testsOf]⟩
  finalVerdict := rfl
  score := rfl

/-- The end of an attempt that executed `es`. -/
theorem finish_emits (s : Submission) {testCases : List TestCase} {es : List Execution}
    (hpos : 0 < testCases.length) (hle : es.length ≤ testCases.length) :
    Emits answer (fun os r =>
      match r with
      | .ok res => ∃ e, Summarises job.submissionId (testsOf job 0 es) e ∧ res.score = e.score ∧
          res.passedCount = e.passedCount ∧
            told job.submissionId os = [.push (.submissionCompleted e), .complete]
      | .error _ => told job.submissionId os = []) (finish job s testCases (totalsOf es)) := by
  have hsummary : Summarises job.submissionId (testsOf job 0 es)
      (completedOf job testCases.length (totalsOf es)) := summarises_completedOf hpos hle
  refine emits_await_bind (fun _ _ _ now _ => ?_) fun _ _ _ _ h => absurd h (not_error_of_not_mayThrow rfl)
  refine emits_await_bind (fun _ _ _ _ _ => ?_) fun _ _ _ _ _ => rfl
  refine emits_await_bind (fun _ _ _ _ _ => ?_) fun _ _ _ _ h => absurd h (not_error_of_not_mayThrow rfl)
  refine emits_await_bind (fun _ _ _ _ _ => ?_) fun _ _ _ _ h => absurd h (not_error_of_not_mayThrow rfl)
  have htold : ∀ os, told job.submissionId os = [] → told job.submissionId
      (.newDate :: .saveSubmission (judged s testCases.length (totalsOf es) now) ::
        .push job.submissionId (.submissionCompleted (completedOf job testCases.length (totalsOf es))) ::
          .complete job.submissionId :: os) =
        [.push (.submissionCompleted (completedOf job testCases.length (totalsOf es))), .complete] := by
    intro os hos
    rw [told_of_none rfl, told_of_none rfl, told_of_some (told?_push _ _), told_of_some (told?_complete _), hos]
  split_ifs
  · refine emits_await_bind (fun _ _ _ _ _ => ?_) fun _ _ _ _ h => absurd h (not_error_of_not_mayThrow rfl)
    exact ⟨_, hsummary, rfl, rfl, htold [.broadcastLeaderboard _] rfl⟩
  · exact ⟨_, hsummary, rfl, rfl, htold [] rfl⟩

/-- The `catch` block sends `submission.error` and throws. -/
theorem recover_emits (e : Err) :
    Emits answer (fun os r => (∃ message, message ≠ "" ∧ told job.submissionId os = [.error message]) ∧
      ∃ e', r = .error e') (recover job e) := by
  have hmessage : (if e.message = "" then "Internal error" else e.message) ≠ "" := by
    split_ifs with h
    · decide
    · exact h
  have htold : ∀ os, told job.submissionId os = [] → told job.submissionId (.error job.submissionId
      (if e.message = "" then "Internal error" else e.message) :: os) =
        [.error (if e.message = "" then "Internal error" else e.message)] := by
    intro os hos
    rw [told_of_some (told?_error _ _), hos]
  refine emits_await_bind (fun _ _ _ _ _ => ?_) fun _ _ _ _ h => absurd h (not_error_of_not_mayThrow rfl)
  refine emits_await_bind (fun _ _ _ found _ => ?_) fun _ _ _ _ _ => ⟨⟨_, hmessage, htold _ rfl⟩, _, rfl⟩
  cases found with
  | none => exact ⟨⟨_, hmessage, htold _ rfl⟩, _, rfl⟩
  | some s =>
    refine emits_await_bind (fun _ _ _ _ _ => ?_) fun _ _ _ _ _ => ⟨⟨_, hmessage, htold _ rfl⟩, _, rfl⟩
    exact emits_await_bind (fun _ _ _ _ _ => ⟨⟨_, hmessage, htold _ rfl⟩, _, rfl⟩)
      fun _ _ _ _ _ => ⟨⟨_, hmessage, htold _ rfl⟩, _, rfl⟩

/-- An attempt tells a transcript. -/
theorem processSubmission_emits :
    Emits answer (fun os r => AttemptTold job.submissionId (told job.submissionId os) r)
      (processSubmission job) := by
  refine Emits.tryCatch (R := fun os r => ∃ es, Ordered es ∧
    match r with
    | .ok res => ∃ e, Summarises job.submissionId (testsOf job 0 es) e ∧ res.score = e.score ∧
        res.passedCount = e.passedCount ∧ told job.submissionId os =
          pushes (testsOf job 0 es) ++ [.push (.submissionCompleted e), .complete]
    | .error _ => told job.submissionId os = pushes (testsOf job 0 es)) ?_ ?_ ?_
  · refine Emits.bind start_emits ?_ fun os e hos => ⟨[], Ordered.visible (by simp), hos⟩
    intro os s hos
    refine Emits.bind runTestCases_emits ?_ ?_
    · rintro os' ⟨testCases, t⟩ ⟨es, hordered, htold, hok⟩
      obtain ⟨rfl, hpos, hle⟩ := hok _ rfl
      refine (finish_emits s hpos hle).mono fun os'' r hr => ⟨es, hordered, ?_⟩
      cases r with
      | ok res =>
        obtain ⟨e, hsummary, hscore, hcount, htold'⟩ := hr
        refine ⟨e, hsummary, hscore, hcount, ?_⟩
        rw [told_append, told_append, hos, htold, htold', List.nil_append]
      | error e =>
        have hr : told job.submissionId os'' = [] := hr
        show told job.submissionId _ = _
        rw [told_append, told_append, hos, htold, hr, List.nil_append, List.append_nil]
    · rintro os' e ⟨es, hordered, htold, _⟩
      refine ⟨es, hordered, ?_⟩
      show told job.submissionId _ = _
      rw [told_append, hos, htold, List.nil_append]
  · rintro os res ⟨es, hordered, h⟩
    exact ⟨_, numbered_testsOf hordered, h⟩
  · rintro os e ⟨es, hordered, htold⟩
    have htold : told job.submissionId os = pushes (testsOf job 0 es) := htold
    refine (recover_emits e).mono ?_
    rintro os' r ⟨⟨message, hne, htold'⟩, e', rfl⟩
    refine ⟨_, numbered_testsOf hordered, message, hne, ?_⟩
    rw [told_append, htold, htold']

/-- A job with retries left. -/
theorem runAttempts_emits (attempts : ℕ) :
    Emits answer (fun os r => JobTold job.submissionId (attempts + 1) (told job.submissionId os) r)
      (runAttempts job (attempts + 1)) := by
  induction attempts with
  | zero =>
    refine emits_await_bind (fun _ _ _ _ _ => ?_) fun _ _ _ _ h => absurd h (not_error_of_not_mayThrow rfl)
    refine Emits.tryCatch processSubmission_emits ?_ ?_
    · intro os res h
      exact ⟨[], _, rfl, by simp, h, by simp, by rintro e ⟨⟩⟩
    · intro os e h
      rw [if_pos rfl]
      refine ⟨[], _, rfl, by simp, ?_, by simp, fun _ _ => rfl⟩
      rw [List.append_nil]
      exact h
  | succ attempts ih =>
    refine emits_await_bind (fun _ _ _ _ _ => ?_) fun _ _ _ _ h => absurd h (not_error_of_not_mayThrow rfl)
    refine Emits.tryCatch processSubmission_emits ?_ ?_
    · intro os res h
      exact ⟨[], _, rfl, by simp, h, by simp, by rintro e ⟨⟩⟩
    · intro os e h
      rw [if_neg (Nat.succ_ne_zero attempts)]
      refine ih.mono ?_
      rintro os' r ⟨failed, last, htold, hfailed, hlast, hle, herr⟩
      refine ⟨told job.submissionId os :: failed, last, ?_, ?_, hlast, by simpa using hle, ?_⟩
      · rw [told_of_none rfl, told_append, htold, List.flatten_cons, List.append_assoc]
      · intro a ha
        rcases List.mem_cons.mp ha with rfl | ha
        · exact ⟨e, h⟩
        · exact hfailed a ha
      · intro e' he'
        rw [List.length_cons, herr e' he']

end Attempt

/-! ## What a job tells -/

end CodeWeaknesses.Submissions
