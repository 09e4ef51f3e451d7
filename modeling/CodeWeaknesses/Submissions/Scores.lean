import CodeWeaknesses.Submissions.Verdict

/-!
# Score and verdict

The score is a rounded percentage, the verdict an exact comparison. They part where the
rounding reaches an end of the scale.

Results:
* `scoreAgrees_iff`: **score and verdict agree iff the score is not rounded to 0 or 100.**
* `score_disagrees`: 199 of 200 tests.
-/

namespace CodeWeaknesses.Submissions

open Lib Lib.Prog

/-- The score is a percentage that is full for an accepted submission only, and empty
    only when none of the executed tests `es` passed. -/
structure ScoreAgrees (es : List Execution) (row : Submission) : Prop where
  nonneg : 0 ≤ row.score
  le_hundred : row.score ≤ 100
  hundred_iff : row.score = 100 ↔ row.status = .accepted
  zero_iff : row.score = 0 ↔ ∀ e ∈ es, e.passed = false

/-- The score is rounded up to 100, or down to 0. -/
def RoundsToEnd (passed total : ℕ) : Prop :=
  (passed < total ∧ 199 * total ≤ 200 * passed) ∨ (0 < passed ∧ 200 * passed < total)

/-- **Main**: the row that a completed run saved has a score from 0 to 100, and its
    score and verdict agree iff the score was not rounded to an end of the scale. -/
theorem scoreAgrees_iff {job : JobData} {w : World} {cs : ℕ → Choice} {res : JobResult}
    (hres : (eval answer (processSubmission job) w cs).1 = .ok res) :
    ∃ row, (eval answer (processSubmission job) w cs).2.submissions.find? job.submissionId = some row ∧
      0 ≤ row.score ∧ row.score ≤ 100 ∧
      (ScoreAgrees (executedBy job w cs) row ↔
        ¬ RoundsToEnd ((executedBy job w cs).countP Execution.passed) (testCasesOf w job.problemId).length) := by
  have hexec := executes_eval answer (processSubmission job) w cs
  rw [hres] at hexec
  obtain ⟨s, hjudges⟩ := processSubmission_executes hexec
  have htotal : 0 < (testCasesOf w job.problemId).length := List.length_pos_of_ne_nil hjudges.nonempty
  have hle : (executedBy job w cs).countP Execution.passed ≤ (testCasesOf w job.problemId).length :=
    le_trans List.countP_le_length (length_executed_le _ _)
  have hscore : (judgedBy job w cs s).score =
      scoreOf ((executedBy job w cs).countP Execution.passed) (testCasesOf w job.problemId).length := by
    rw [← passedCount_totalsOf]
    rfl
  have hstatus : (judgedBy job w cs s).status = .accepted ↔
      (executedBy job w cs).countP Execution.passed = (testCasesOf w job.problemId).length := by
    rw [← finalStatusOf_eq_accepted_iff htotal hle, ← passedCount_totalsOf]
    rfl
  have hnone : (∀ e ∈ executedBy job w cs, e.passed = false) ↔
      (executedBy job w cs).countP Execution.passed = 0 := by
    simp [List.countP_eq_zero]
  refine ⟨_, hjudges.find?_eq, hscore ▸ scoreOf_nonneg htotal, hscore ▸ scoreOf_le htotal hle, ?_⟩
  unfold RoundsToEnd
  constructor
  · intro h hends
    have hhundred := h.hundred_iff
    have hzero := h.zero_iff
    rw [hscore, hstatus, scoreOf_eq_hundred_iff htotal hle] at hhundred
    rw [hscore, hnone, scoreOf_eq_zero_iff htotal] at hzero
    omega
  · intro hends
    refine ⟨hscore ▸ scoreOf_nonneg htotal, hscore ▸ scoreOf_le htotal hle, ?_, ?_⟩
    · rw [hscore, hstatus, scoreOf_eq_hundred_iff htotal hle]
      omega
    · rw [hscore, hnone, scoreOf_eq_zero_iff htotal]
      omega

/-- A run whose only test passes. -/
theorem scoreAgrees_pendingOne :
    ∃ row, (eval answer (processSubmission jobOne) pendingOne fun _ => answered).2.submissions.find? "s1" =
        some row ∧
      0 ≤ row.score ∧ row.score ≤ 100 ∧
      (ScoreAgrees (executedBy jobOne pendingOne fun _ => answered) row ↔
        ¬ RoundsToEnd ((executedBy jobOne pendingOne fun _ => answered).countP Execution.passed)
          (testCasesOf pendingOne "p1").length) :=
  @scoreAgrees_iff jobOne pendingOne (fun _ => answered) _ rfl

/-! ## 199 of 200 tests -/

/-- Without hidden tests, all tests are executed. -/
theorem executed_of_visible {testCases : List TestCase} (h : ∀ t ∈ testCases, t.isHidden = false)
    (results : ℕ → ExecutionResult) : executed testCases results = executions results testCases := by
  have hvisible : (testCases.filter fun t => !t.isHidden) = testCases :=
    List.filter_eq_self.mpr fun t ht => by simp [h t ht]
  have hhidden : (testCases.filter fun t => t.isHidden) = [] :=
    List.filter_eq_nil_iff.mpr fun t ht => by simp [h t ht]
  unfold executed
  rw [hvisible, hhidden]
  simp [executions, untilFailure]

/-- When exactly the first `passing` executions pass, so many are counted. -/
theorem countP_executions (testCases : List TestCase) : ∀ (passing : ℕ) (results : ℕ → ExecutionResult),
    (∀ t ∈ testCases, ∀ k, Execution.passed ⟨t, results k⟩ = decide (k < passing)) →
      (executions results testCases).countP Execution.passed = min passing testCases.length := by
  induction testCases with
  | nil => simp [executions]
  | cons testCase rest ih =>
    intro passing results h
    have hrest := ih (passing - 1) (skip 1 results) fun t ht k => by
      rw [show skip 1 results k = results (k + 1) from rfl, h t (List.mem_cons_of_mem _ ht)]
      simp only [decide_eq_decide]
      omega
    rw [executions, List.countP_cons, hrest, h testCase List.mem_cons_self, List.length_cons]
    simp only [decide_eq_true_eq]
    split_ifs <;> omega

/-- The `n`-th visible test of the problem. -/
def nthTest (n : ℕ) : TestCase :=
  { id := unary n, problemId := "p1", input := "", expectedOutput := "42", isHidden := false, orderIndex := n }

/-- The submission of a problem with `n` visible tests. -/
def pendingMany (n : ℕ) : World :=
  { pendingOne with
    testCases :=
      { rows := (List.range n).map nthTest
        nodup := by
          rw [List.map_map]
          exact List.nodup_range.map unary_injective } }

/-- The first `passing` executions succeed, and no call fails. -/
def passingFirst (passing : ℕ) : ℕ → Choice :=
  smoothly fun n => { answered.result with success := decide (n < 4 + 3 * passing) }

theorem mem_testCasesOf_pendingMany {n : ℕ} {t : TestCase} (h : t ∈ testCasesOf (pendingMany n) "p1") :
    ∃ k, t = nthTest k := by
  obtain ⟨hmem, _⟩ := List.mem_filter.mp (mem_sortBy.mp h)
  obtain ⟨k, _, rfl⟩ := List.mem_map.mp hmem
  exact ⟨k, rfl⟩

theorem length_testCasesOf_pendingMany (n : ℕ) : (testCasesOf (pendingMany n) "p1").length = n := by
  have hall : ((List.range n).map nthTest).filter (fun t => t.problemId = "p1") =
      (List.range n).map nthTest := by
    refine List.filter_eq_self.mpr fun t ht => ?_
    obtain ⟨k, _, rfl⟩ := List.mem_map.mp ht
    rfl
  rw [testCasesOf, (sortBy_perm _ _).length_eq]
  show (((List.range n).map nthTest).filter fun t => t.problemId = "p1").length = n
  rw [hall, List.length_map, List.length_range]

/-- A run on `n` tests of which the first `passing` pass. -/
theorem passingFirst_judged {n passing : ℕ} (hn : 0 < n) (hle : passing ≤ n) :
    ∃ row, (eval answer (processSubmission jobOne) (pendingMany n)
        (passingFirst passing)).2.submissions.find? "s1" = some row ∧
      row.score = scoreOf passing n ∧ row.status = finalStatusOf passing n := by
  have hlength := length_testCasesOf_pendingMany n
  have hne : testCasesOf (pendingMany n) "p1" ≠ [] := by
    intro hnil
    rw [hnil] at hlength
    exact absurd hlength (by simp; omega)
  have hsmooth : Smooth (pendingMany n) (passingFirst passing) := smooth_smoothly rfl _
  have hflawless : EvalGuarded answer (Flawless answer) (processSubmission jobOne) (pendingMany n)
      (passingFirst passing) := hsmooth.flawless _
  obtain ⟨res, hres⟩ := processSubmission_completes
    (s := (pendingOne.submissions.find? "s1").get rfl) rfl hne hflawless
  have hexec := executes_eval answer (processSubmission jobOne) (pendingMany n) (passingFirst passing)
  rw [hres] at hexec
  obtain ⟨s, hjudges⟩ := processSubmission_executes hexec
  have hvisible : ∀ t ∈ testCasesOf (pendingMany n) "p1", t.isHidden = false := by
    intro t ht
    obtain ⟨k, rfl⟩ := mem_testCasesOf_pendingMany ht
    rfl
  have hpassed : (totalsOf (executedBy jobOne (pendingMany n) (passingFirst passing))).passedCount = passing := by
    rw [passedCount_totalsOf, executedBy, show jobOne.problemId = "p1" from rfl,
      executed_of_visible hvisible, countP_executions _ passing, hlength, Nat.min_eq_left hle]
    intro t ht k
    obtain ⟨m, rfl⟩ := mem_testCasesOf_pendingMany ht
    have hsame : compareOutput "42" "42" = true := by simp [compareOutput]
    show (decide (3 * k + 4 < 4 + 3 * passing) && compareOutput "42" "42") = _
    rw [hsame, Bool.and_true]
    simp only [decide_eq_decide]
    omega
  refine ⟨_, hjudges.find?_eq, ?_, ?_⟩
  · show scoreOf _ (testCasesOf (pendingMany n) "p1").length = _
    rw [hpassed, hlength]
  · show finalStatusOf _ (testCasesOf (pendingMany n) "p1").length = _
    rw [hpassed, hlength]

/-- With 199 of 200 tests passed, the saved row is WRONG with a full score. -/
theorem score_disagrees :
    ∃ row, (eval answer (processSubmission jobOne) (pendingMany 200)
        (passingFirst 199)).2.submissions.find? "s1" = some row ∧
      row.score = 100 ∧ row.status = .wrong ∧
      ¬ ScoreAgrees (executedBy jobOne (pendingMany 200) (passingFirst 199)) row := by
  obtain ⟨row, hrow, hscore, hstatus⟩ := @passingFirst_judged 200 199 (by omega) (by omega)
  have hfull : row.score = 100 := by
    rw [hscore]
    decide
  have hwrong : row.status = .wrong := by
    rw [hstatus]
    decide
  refine ⟨row, hrow, hfull, hwrong, ?_⟩
  intro h
  have haccepted := h.hundred_iff.mp hfull
  rw [hwrong] at haccepted
  cases haccepted

end CodeWeaknesses.Submissions
