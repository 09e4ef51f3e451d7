import CodeWeaknesses.Submissions.Processor

/-!
# The rows that submissions leave

A row of the submissions table was stored by `SubmissionsService.create`, or saved at
the end of a completed run of `processSubmission`, whose score and status come from the
number of passed tests and the number of tests.

Results:
* `scoreOf_le`, `scoreOf_eq_hundred_iff`, `scoreOf_eq_zero_iff`: the rounded score of a
  run. It is 100 also when at most one test in 200 failed.
* `processSubmission_written`: a completed run leaves a judged row.
-/

namespace CodeWeaknesses.Submissions

open Lib Lib.Prog

/-! ## Rounded scores -/

theorem scoreOf_le {passed total : ℕ} (htotal : 0 < total) (hle : passed ≤ total) :
    scoreOf passed total ≤ 100 := by
  rw [scoreOf, if_pos htotal, mathRoundDiv, ← Int.lt_add_one_iff, Int.ediv_lt_iff_lt_mul (by omega)]
  omega

/-- The score rounds to 100 iff at most one test in 200 failed. -/
theorem scoreOf_eq_hundred_iff {passed total : ℕ} (htotal : 0 < total) (hle : passed ≤ total) :
    scoreOf passed total = 100 ↔ 199 * total ≤ 200 * passed := by
  have hge : 100 ≤ scoreOf passed total ↔ 199 * total ≤ 200 * passed := by
    rw [scoreOf, if_pos htotal, mathRoundDiv, Int.le_ediv_iff_mul_le (by omega)]
    omega
  have hmax := scoreOf_le htotal hle
  rw [← hge]
  omega

theorem scoreOf_nonneg {passed total : ℕ} (htotal : 0 < total) : 0 ≤ scoreOf passed total := by
  rw [scoreOf, if_pos htotal, mathRoundDiv]
  exact Int.ediv_nonneg (by omega) (by omega)

/-- The score rounds to 0 iff fewer than one test in 200 passed. -/
theorem scoreOf_eq_zero_iff {passed total : ℕ} (htotal : 0 < total) :
    scoreOf passed total = 0 ↔ 200 * passed < total := by
  have hlt : scoreOf passed total < 1 ↔ 200 * passed < total := by
    rw [scoreOf, if_pos htotal, mathRoundDiv, Int.ediv_lt_iff_lt_mul (by omega)]
    omega
  have hmin := @scoreOf_nonneg passed total htotal
  rw [← hlt]
  omega

theorem finalStatusOf_eq_accepted_iff {passed total : ℕ} (htotal : 0 < total) (hle : passed ≤ total) :
    finalStatusOf passed total = .accepted ↔ passed = total := by
  unfold finalStatusOf
  split_ifs
  · simp; omega
  · simp; omega
  · simp; omega

/-! ## Provenance -/

/-- Who wrote the row last. -/
inductive Provenance where
  | created
  | judged (passed total : ℕ)

/-- The row as its writer left it. -/
def WrittenBy : Provenance → Submission → Prop
  | .created, s => s.status = .pending ∧ s.score = 0 ∧ s.submittedAt.isSome = true
  | .judged passed total, s => 0 < total ∧ passed ≤ total ∧ s.status = finalStatusOf passed total ∧
      s.score = scoreOf passed total ∧ s.submittedAt.isSome = true

/-- A row judged WRONG whose score rounds up to 100: at most one test in 200 failed. -/
def RoundsUp : Provenance → Prop
  | .created => False
  | .judged passed total => passed < total ∧ 199 * total ≤ 200 * passed

theorem WrittenBy.submittedAt {w : Provenance} {s : Submission} (h : WrittenBy w s) :
    s.submittedAt.isSome = true := by
  cases w with
  | created => exact h.2.2
  | judged passed total => exact h.2.2.2.2

theorem WrittenBy.score_le {w : Provenance} {s : Submission} (h : WrittenBy w s) : s.score ≤ 100 := by
  cases w with
  | created => rw [h.2.1]; omega
  | judged passed total =>
    obtain ⟨htotal, hle, _, hscore, _⟩ := h
    rw [hscore]
    exact scoreOf_le htotal hle

/-- A row has score 100 iff it is accepted or rounds up. -/
theorem WrittenBy.score_eq_hundred_iff {w : Provenance} {s : Submission} (h : WrittenBy w s) :
    s.score = 100 ↔ s.status = .accepted ∨ RoundsUp w := by
  cases w with
  | created =>
    obtain ⟨hstatus, hscore, _⟩ := h
    simp [hstatus, hscore, RoundsUp]
  | judged passed total =>
    obtain ⟨htotal, hle, hstatus, hscore, _⟩ := h
    rw [hscore, hstatus, scoreOf_eq_hundred_iff htotal hle, finalStatusOf_eq_accepted_iff htotal hle, RoundsUp]
    omega

/-! ## A completed run -/

/-- Whatever the environment does, the program ends as `Q` says. -/
abbrev Ends {α : Type} (Q : Except Err α → World → Prop) (p : M α) (w : World) : Prop :=
  Ensures answer (fun _ _ _ => True) (fun _ _ => True) Q p w

theorem returns_runTestCase (job : JobData) (t : Totals) (testCase : TestCase) (index : ℕ) :
    Returns (fun r => r.2.passedCount ≤ t.passedCount + 1) (runTestCase job t testCase index) := by
  unfold runTestCase
  refine returns_await_bind fun result => returns_await_bind fun _ => returns_await_bind fun _ => ?_
  show (if (_ : Bool) = true then t.passedCount + 1 else t.passedCount) ≤ t.passedCount + 1
  split_ifs <;> omega

theorem returns_runVisible (job : JobData) (testCases : List TestCase) :
    ∀ (visibleCasesPassed : Bool) (index : ℕ) (t : Totals),
      Returns (fun r => r.2.2.passedCount ≤ t.passedCount + testCases.length)
        (runVisible job testCases visibleCasesPassed index t) := by
  induction testCases with
  | nil => exact fun _ _ t => Nat.le_refl t.passedCount
  | cons testCase rest ih =>
    intro visibleCasesPassed index t
    refine (returns_runTestCase job t testCase index).bind fun r hr => ?_
    refine (ih (visibleCasesPassed && r.1) (index + 1) r.2).mono fun r' hr' => ?_
    rw [List.length_cons]
    omega

theorem returns_runHidden (job : JobData) (testCases : List TestCase) :
    ∀ (index : ℕ) (t : Totals),
      Returns (fun t' => t'.passedCount ≤ t.passedCount + testCases.length)
        (runHidden job testCases index t) := by
  induction testCases with
  | nil => exact fun _ t => Nat.le_refl t.passedCount
  | cons testCase rest ih =>
    intro index t
    refine (returns_runTestCase job t testCase index).bind fun r hr => ?_
    show Returns _ (if r.1 then runHidden job rest (index + 1) r.2 else pure r.2)
    rw [List.length_cons]
    split_ifs
    · refine (ih (index + 1) r.2).mono fun t' ht' => ?_
      omega
    · show r.2.passedCount ≤ _
      omega

/-- Judging counts at most one passed test a test case, and there is a test case. -/
theorem returns_runTestCases (job : JobData) :
    Returns (fun r => 0 < r.1.length ∧ r.2.passedCount ≤ r.1.length) (runTestCases job) := by
  unfold runTestCases
  refine returns_await_bind fun testCases => ?_
  simp only
  split_ifs with hempty
  · trivial
  · have hlen := List.length_eq_length_filter_add (l := testCases) fun testCase => testCase.isHidden
    have hpos : 0 < testCases.length := Nat.pos_of_ne_zero hempty
    refine (returns_runVisible job _ _ _ _).bind fun r hr => ?_
    show Returns _ (if r.1 then _ else _)
    split_ifs
    · refine (returns_runHidden job _ _ _).bind fun t ht => ⟨hpos, ?_⟩
      show t.passedCount ≤ testCases.length
      have hr : r.2.2.passedCount ≤ 0 + _ := hr
      have ht : t.passedCount ≤ r.2.2.passedCount + _ := ht
      omega
    · refine ⟨hpos, ?_⟩
      show r.2.2.passedCount ≤ testCases.length
      have hr : r.2.2.passedCount ≤ 0 + _ := hr
      omega

/-- The submission that `start` returns has the job's id and its `submittedAt`. -/
theorem start_returns {job : JobData} {w : World} {s : Submission}
    (hs : w.submissions.find? job.submissionId = some s) :
    Ends (fun r _ => ∀ s', r = .ok s' → s'.id = job.submissionId ∧ s'.submittedAt = s.submittedAt)
      (start job) w := by
  have herr : ∀ (e : Err) (s' : Submission), Except.error e = .ok s' →
      s'.id = job.submissionId ∧ s'.submittedAt = s.submittedAt := fun e s' h => by cases h
  refine ensures_await_bind ?_ fun c e w' _ _ => ⟨trivial, herr e⟩
  intro c found w₁ _ hfind
  refine ⟨trivial, ?_⟩
  cases found with
  | none => exact herr _
  | some found =>
    cases hs.symm.trans (find?_of_findSubmission hfind)
    have hid := (Table.find?_eq_some_iff.mp hs).2
    refine ensures_await_bind ?_ fun c e w' _ _ => ⟨trivial, herr e⟩
    intro c now w₂ _ _
    refine ⟨trivial, ensures_await_bind ?_ fun c e w' _ _ => ⟨trivial, herr e⟩⟩
    rintro c u w₃ _ _
    refine ⟨trivial, ?_⟩
    rintro s' ⟨⟩
    exact ⟨hid, rfl⟩

/-- What `finish` saves stays until it returns. -/
theorem finish_writes {job : JobData} {s : Submission} {testCases : List TestCase} {t : Totals} {w : World}
    (hsub : s.submittedAt.isSome = true) (hpos : 0 < testCases.length)
    (hle : t.passedCount ≤ testCases.length) :
    Ends (fun r w' => ∀ res, r = .ok res → ∃ row, w'.submissions.find? s.id = some row ∧
        WrittenBy (.judged t.passedCount testCases.length) row)
      (finish job s testCases t) w := by
  have herr : ∀ (e : Err) (w' : World) (res : JobResult), Except.error e = .ok res →
      ∃ row, w'.submissions.find? s.id = some row ∧
        WrittenBy (.judged t.passedCount testCases.length) row := fun e w' res h => by cases h
  refine ensures_await_bind ?_ fun c e w' _ _ => ⟨trivial, herr e w'⟩
  intro c now w₁ _ _
  refine ⟨trivial, ensures_await_bind ?_ fun c e w' _ _ => ⟨trivial, herr e w'⟩⟩
  intro c u w₂ _ hsave
  have hrow : w₂.submissions.find? s.id = some (judged s testCases.length t now) := by
    rw [submissions_save hsave]
    exact Table.find?_upsert_self _ (judged s testCases.length t now)
  have hwritten : WrittenBy (.judged t.passedCount testCases.length) (judged s testCases.length t now) :=
    ⟨hpos, hle, rfl, rfl, hsub⟩
  -- the calls after the save write no submission
  have hrest : ∀ p : M JobResult, OnlyCalls (fun o => o.writesSubmission = false) p →
      Ends (fun r w' => ∀ res, r = .ok res → ∃ row, w'.submissions.find? s.id = some row ∧
        WrittenBy (.judged t.passedCount testCases.length) row) p w₂ := by
    intro p hp
    refine (hp.ensures (I := fun w' => w'.submissions.find? s.id = _) ?_ hrow).mono (fun _ _ h => h) ?_
    · intro o c w' ho _ hw'
      exact ⟨trivial, by rw [submissions_answer ho]; exact hw'⟩
    · exact fun r w' hw' _ _ => ⟨_, hw', hwritten⟩
  refine ⟨trivial, hrest _ ?_⟩
  refine (onlyCalls_await (by rfl)).bind fun _ => (onlyCalls_await (by rfl)).bind fun _ => ?_
  split_ifs
  · exact (onlyCalls_await (by rfl)).bind fun _ => trivial
  · trivial

/-- The catch block throws. -/
theorem recover_throws (job : JobData) (error : Err) : Returns (fun _ => False) (recover job error) := by
  unfold recover
  refine returns_await_bind fun _ => returns_await_bind fun found => ?_
  cases found with
  | none => trivial
  | some s => exact returns_await_bind fun _ => returns_await_bind fun _ => trivial

/-- A completed run leaves a row judged from the number of passed tests. -/
theorem processSubmission_written {job : JobData} {w : World} {s : Submission}
    (hs : w.submissions.find? job.submissionId = some s) (hsub : s.submittedAt.isSome = true) :
    Ends (fun r w' => ∀ res, r = .ok res → ∃ passed total row,
        w'.submissions.find? job.submissionId = some row ∧ WrittenBy (.judged passed total) row)
      (processSubmission job) w := by
  unfold processSubmission
  refine Ensures.tryCatch (fun _ _ h => h) ?_ ?_
  · intro e w' _
    refine (Returns.ensures (recover_throws job e) w').mono (fun _ _ h => h) ?_
    intro r w'' h res hr
    exact (h res hr).elim
  · refine (start_returns hs).bind ?_ fun e w' _ res hr => by cases hr
    intro s' w₁ h₁
    obtain ⟨hid, hdate⟩ := h₁ s' rfl
    refine (Returns.ensures (returns_runTestCases job) w₁).bind ?_ fun e w' _ res hr => by cases hr
    intro r w₂ h₂
    obtain ⟨hpos, hle⟩ := h₂ r rfl
    refine (finish_writes (hdate ▸ hsub) hpos hle).mono (fun _ _ h => h) ?_
    intro res w' hw' a ha
    obtain ⟨row, hrow, hwritten⟩ := hw' a ha
    exact ⟨_, _, row, hid ▸ hrow, hwritten⟩

end CodeWeaknesses.Submissions
