import CodeWeaknesses.Submissions.HiddenTexts
import CodeWeaknesses.Submissions.Verdict

/-!
# The stored results of a job

Rows are stored one by one and never deleted, so what an attempt stored before it threw
stays. The rows after a completed job are those before its last attempt and one row for
each test that the last attempt executed.

Results:
* `runAttempts_lastAttempt`: a completed job is a completed last attempt.
* `oneRowEach_iff`: **a completed job leaves exactly one row for each executed test iff
  every attempt started on a submission without rows.**
* `rows_duplicated`: the first attempt stores a row and throws.
-/

namespace CodeWeaknesses.Submissions

open Lib Lib.Prog

/-! ## Attempts -/

/-- The state and the choices with which the last attempt of a job starts. -/
def lastAttempt (job : JobData) : ℕ → World → (ℕ → Choice) → World × (ℕ → Choice)
  | 0, w, cs => (w, cs)
  | attempts + 1, w, cs =>
    let w := (answer (.takeJob job.submissionId) (cs 0) w).2
    let cs := skip 1 cs
    match (eval answer (processSubmission job) w cs).1 with
    | .ok _ => (w, cs)
    | .error _ =>
      if attempts = 0 then (w, cs)
      else
        lastAttempt job attempts (eval answer (processSubmission job) w cs).2
          (skip (calls answer (processSubmission job) w cs).length cs)

/-- Every attempt starts on a submission without stored results. -/
def StartsClean (id : Id) (o : Op) (_ : Choice) (w : World) : Prop := o = .takeJob id → resultsOf w id = []

/-- The call does not start an attempt. -/
def Op.InAttempt (o : Op) : Prop := ∀ id, o ≠ .takeJob id

theorem inAttempt_of_ofTests {o : Op} (ho : o.OfTests) : o.InAttempt := by
  rintro id rfl
  exact ho

theorem onlyCalls_start (job : JobData) : OnlyCalls Op.InAttempt (start job) := by
  refine (onlyCalls_await nofun).bind fun found => ?_
  cases found with
  | none => trivial
  | some s => exact (onlyCalls_await nofun).bind fun _ => (onlyCalls_await nofun).bind fun _ => trivial

theorem onlyCalls_finish (job : JobData) (s : Submission) (testCases : List TestCase) (t : Totals) :
    OnlyCalls Op.InAttempt (finish job s testCases t) := by
  refine (onlyCalls_await nofun).bind fun _ => (onlyCalls_await nofun).bind fun _ =>
    (onlyCalls_await nofun).bind fun _ => (onlyCalls_await nofun).bind fun _ => ?_
  split_ifs
  · exact (onlyCalls_await nofun).bind fun _ => trivial
  · trivial

theorem onlyCalls_recover (job : JobData) (error : Err) :
    OnlyCalls Op.InAttempt (recover job error) := by
  refine (onlyCalls_await nofun).bind fun _ => (onlyCalls_await nofun).bind fun found => ?_
  cases found with
  | none => trivial
  | some s => exact (onlyCalls_await nofun).bind fun _ => (onlyCalls_await nofun).bind fun _ => trivial

theorem onlyCalls_processSubmission (job : JobData) :
    OnlyCalls Op.InAttempt (processSubmission job) := by
  refine OnlyCalls.tryCatch ?_ (onlyCalls_recover job)
  refine (onlyCalls_start job).bind fun s => ?_
  refine ((onlyCalls_runTestCases job).mono fun _ => inAttempt_of_ofTests).bind fun r => ?_
  exact onlyCalls_finish job s r.1 r.2

/-! ## Rows are only added -/

/-- A submission with a stored result keeps one. -/
theorem resultsOf_answer_ne_nil {id : Id} (o : Op) (c : Choice) (w : World) (h : resultsOf w id ≠ []) :
    resultsOf (answer o c w).2 id ≠ [] := by
  have hok : ∀ w' : World, resultsOf w' id ≠ [] → resultsOf (answerOk c w' o).2 id ≠ [] := by
    intro w' hw'
    cases o with
    | saveTestResult =>
      simp only [answerOk]
      split_ifs with hdup
      · exact hw'
      · have hfresh : w'.testResults.find? c.uuid = none := Option.not_isSome_iff_eq_none.mp hdup
        unfold resultsOf
        simp only
        rw [Table.rows_upsert_of_find?_eq_none hfresh, List.filter_append]
        exact List.append_ne_nil_of_left_ne_nil hw' _
    | _ => exact hw'
  unfold answer
  cases c.fails with
  | none => exact hok _ h
  | some message =>
    simp only
    split_ifs
    · exact h
    · exact hok _ h

/-! ## A completed job -/

/-- A completed job: its last attempt completed, and every attempt started clean iff
    the last one did. -/
theorem runAttempts_lastAttempt {job : JobData} {res : JobResult} {w' : World} (attempts : ℕ) :
    ∀ {w : World} {cs : ℕ → Choice}, eval answer (runAttempts job attempts) w cs = (.ok res, w') →
      eval answer (processSubmission job) (lastAttempt job attempts w cs).1
        (lastAttempt job attempts w cs).2 = (.ok res, w') ∧
      (EvalGuarded answer (StartsClean job.submissionId) (runAttempts job attempts) w cs ↔
        resultsOf (lastAttempt job attempts w cs).1 job.submissionId = []) := by
  induction attempts with
  | zero =>
    intro w cs h
    cases h
  | succ attempts ih =>
    intro w cs h
    have hexec : Executes answer (runAttempts job (attempts + 1)) w cs (.ok res) w' _ := ⟨h, rfl⟩
    obtain ⟨u, w₁, os, htake, hrest, -⟩ := hexec.of_await_bind
    have hw₁ : (answer (.takeJob job.submissionId) (cs 0) w).2 = w₁ := by rw [htake]
    have hclean : resultsOf w₁ job.submissionId = resultsOf w job.submissionId := by
      cases answerOk_of_answer htake
      rfl
    have hguard : EvalGuarded answer (StartsClean job.submissionId) (runAttempts job (attempts + 1)) w cs ↔
        resultsOf w₁ job.submissionId = [] ∧
          EvalGuarded answer (StartsClean job.submissionId)
            (Prog.tryCatch (processSubmission job) fun error =>
              if attempts = 0 then throw error else runAttempts job attempts) w₁ (skip 1 cs) := by
      have hcall : EvalGuarded answer (StartsClean job.submissionId) (runAttempts job (attempts + 1)) w cs ↔
          StartsClean job.submissionId (.takeJob job.submissionId) (cs 0) w ∧
            EvalGuarded answer (StartsClean job.submissionId)
              (Prog.answered (answer (.takeJob job.submissionId) (cs 0) w).1 >>= fun _ =>
                Prog.tryCatch (processSubmission job) fun error =>
                  if attempts = 0 then throw error else runAttempts job attempts)
              (answer (.takeJob job.submissionId) (cs 0) w).2 (skip 1 cs) := Iff.rfl
      rw [hcall, htake, hclean]
      simp [StartsClean]
    have hattempt : EvalGuarded answer (StartsClean job.submissionId) (processSubmission job) w₁ (skip 1 cs) :=
      (onlyCalls_processSubmission job).evalGuarded fun o c w ho htake => absurd htake (ho _)
    rw [hguard, evalGuarded_tryCatch, lastAttempt, hw₁]
    rcases hrest.of_tryCatch with ⟨a, ha, hok⟩ | ⟨e, w₂, os₁, os₂, herr, hhandler, -⟩
    · cases ha
      simp only [hok.eval_eq]
      refine ⟨trivial, fun h => h.1, fun h => ⟨h, hattempt, ?_⟩⟩
      intro e s₁ os₁ he
      have hsame := hok.eval_eq.symm.trans he.eval_eq
      cases hsame
    · simp only [herr.eval_eq, herr.calls_eq]
      by_cases hlast : attempts = 0
      · rw [if_pos hlast] at hhandler
        cases hhandler.of_raise.1
      · rw [if_neg hlast] at hhandler ⊢
        obtain ⟨hres, hiff⟩ := ih hhandler.eval_eq
        refine ⟨hres, ?_⟩
        rw [← hiff]
        constructor
        · intro h
          have hnext := h.2.2 e w₂ os₁ herr
          rwa [if_neg hlast] at hnext
        · intro hnext
          -- the next attempt starts clean, so this one started clean and stored nothing
          have hclean₂ : resultsOf w₂ job.submissionId = [] := by
            obtain ⟨k, rfl⟩ := Nat.exists_eq_succ_of_ne_zero hlast
            exact hnext.1 rfl
          have hclean₁ : resultsOf w₁ job.submissionId = [] := by
            by_contra hne
            have hkept := eval_keeps (p := processSubmission job)
              (@resultsOf_answer_ne_nil job.submissionId) (skip 1 cs) hne
            rw [herr.eval_eq] at hkept
            exact hkept hclean₂
          refine ⟨hclean₁, hattempt, ?_⟩
          intro e' s₁ os₁' he'
          have hsame := herr.eval_eq.symm.trans he'.eval_eq
          cases hsame
          rw [if_neg hlast, ← he'.calls_eq, herr.calls_eq]
          exact hnext

/-- The results that a job which returned `res` should leave: one row for each test that
    the last attempt executed, and as many passed rows as it counted passed tests. -/
structure OneRowEach (job : JobData) (w : World) (cs : ℕ → Choice) (res : JobResult) : Prop where
  rows : List.Forall₂ (fun e r => r = e.row job r.id)
    (executedBy job (lastAttempt job 3 w cs).1 (lastAttempt job 3 w cs).2)
    (resultsOf (eval answer (runJob job) w cs).2 job.submissionId)
  passedCount_eq : (resultsOf (eval answer (runJob job) w cs).2 job.submissionId).countP
    (fun r => r.passed) = res.passedCount

/-- The rows of a submission after a completed attempt. -/
theorem Judges.resultsOf_eq {job : JobData} {w w' : World} {cs : ℕ → Choice} {res : JobResult}
    {os : List Op} {s : Submission} (h : Judges job w cs res w' os s) :
    ∃ rows, resultsOf w' job.submissionId = resultsOf w job.submissionId ++ rows ∧
      List.Forall₂ (fun e r => r = e.row job r.id) (executedBy job w cs) rows := by
  obtain ⟨rows, hrows, hforall⟩ := h.rows
  refine ⟨rows, ?_, hforall⟩
  have hall : rows.filter (fun r => r.submissionId = job.submissionId) = rows :=
    List.filter_eq_self.mpr fun r hr => decide_eq_true (submissionId_rows hforall r hr)
  unfold resultsOf
  rw [hrows, List.filter_append, hall]

/-- **Main**: a completed job saves the score of the tests that its last attempt counted
    as passed, and it leaves exactly one row for each executed test iff every attempt
    started on a submission without rows. -/
theorem oneRowEach_iff {job : JobData} {w : World} {cs : ℕ → Choice} {res : JobResult}
    (hres : (eval answer (runJob job) w cs).1 = .ok res) :
    (∃ row, (eval answer (runJob job) w cs).2.submissions.find? job.submissionId = some row ∧
      row.score = scoreOf res.passedCount (testCasesOf (lastAttempt job 3 w cs).1 job.problemId).length) ∧
    (OneRowEach job w cs res ↔ EvalGuarded answer (StartsClean job.submissionId) (runJob job) w cs) := by
  have heval : eval answer (runJob job) w cs = (.ok res, (eval answer (runJob job) w cs).2) := by
    rw [← hres]
  obtain ⟨hlast, hguard⟩ := runAttempts_lastAttempt 3 heval
  obtain ⟨s, hjudges⟩ := processSubmission_executes ⟨hlast, rfl⟩
  obtain ⟨rows, hrows, hforall⟩ := hjudges.resultsOf_eq
  refine ⟨⟨_, hjudges.find?_eq, by rw [hjudges.result]; rfl⟩, ?_⟩
  have hpassed : res.passedCount = rows.countP fun r => r.passed := by
    rw [hjudges.result, countP_rows hforall, passedCount_totalsOf]
  show _ ↔ EvalGuarded answer _ (runAttempts job 3) w cs
  rw [hguard]
  constructor
  · intro h
    have hlength := h.rows.length_eq
    rw [hrows, List.length_append, hforall.length_eq] at hlength
    exact List.eq_nil_of_length_eq_zero (by omega)
  · intro hclean
    rw [hclean, List.nil_append] at hrows
    exact ⟨by rw [hrows]; exact hforall, by rw [hrows, hpassed]⟩

/-- A job that completes in its first attempt. -/
theorem oneRowEach_smooth :
    OneRowEach jobOne pendingOne (smoothly fun _ => answered.result) ⟨true, "s1", 100, 1⟩ :=
  (oneRowEach_iff rfl).2.mpr
    ⟨fun _ => rfl, nofun, nofun, nofun, nofun, nofun, nofun, nofun, nofun, nofun, nofun, nofun, nofun,
      trivial⟩

/-! ## An attempt that throws after a test -/

/-- The save of the verdict throws in the first attempt; every later call is answered. -/
def lostVerdict (n : ℕ) : Choice :=
  { smoothly (fun _ => answered.result) n with fails := if n = 9 then some "Connection terminated" else none }

/-- Both attempts store the result of the only test. -/
theorem rows_duplicated :
    (eval answer (runJob jobOne) pendingOne lostVerdict).1 = .ok ⟨true, "s1", 100, 1⟩ ∧
      (resultsOf (eval answer (runJob jobOne) pendingOne lostVerdict).2 "s1").map TestResult.testCaseId =
        ["t1", "t1"] ∧
      ¬ OneRowEach jobOne pendingOne lostVerdict ⟨true, "s1", 100, 1⟩ := by
  refine ⟨rfl, rfl, ?_⟩
  intro h
  have hcount := h.passedCount_eq
  revert hcount
  decide

end CodeWeaknesses.Submissions
