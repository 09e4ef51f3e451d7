import CodeWeaknesses.Submissions.Isolation
import CodeWeaknesses.Submissions.Judging

/-!
# What the completed jobs decide

A job may throw, be run again and run beside other jobs. If it returns in the end, the status it
has stored says what its program does: `Runs` gives the outcome of a program on an input, the rest
of an execution (its time, its memory, the texts on stderr) stays open.

Results:
* `runTestCases_decides`: as many passed tests as there are iff the program passes them all.
* `runJob_decides`: a job that returns has decided.
* `together_decides`: **so has each of the jobs that run at the same time.**
* `together_settled`: the submissions when all jobs have returned.
-/

namespace CodeWeaknesses.Submissions

open Lib Lib.Prog

/-! ## Programs that are judged -/

/-- What the programs do: whether the execution on an input succeeds, and the output. -/
abbrev Runs := SubmissionLanguage → String → String → Bool × String

/-- An execution that returns has the outcome of its program. -/
def ByRuns (runs : Runs) : Op → Choice → World → Prop
  | .executeCode language code input, c, _ =>
    c.fails = none → (c.result.success, c.result.output) = runs language code input
  | _, _, _ => True

instance (runs : Runs) : ∀ (o : Op) (c : Choice) (w : World), Decidable (ByRuns runs o c w)
  | .executeCode language code input, c, _ =>
    inferInstanceAs (Decidable (c.fails = none → (c.result.success, c.result.output) = runs language code input))
  | .takeJob _, _, _ => .isTrue trivial
  | .findSubmission _, _, _ => .isTrue trivial
  | .saveSubmission _, _, _ => .isTrue trivial
  | .findTestCases _, _, _ => .isTrue trivial
  | .saveTestResult .., _, _ => .isTrue trivial
  | .newDate, _, _ => .isTrue trivial
  | .push .., _, _ => .isTrue trivial
  | .complete _, _, _ => .isTrue trivial
  | .error .., _, _ => .isTrue trivial
  | .broadcastLeaderboard _, _, _ => .isTrue trivial

/-- The program prints what the test case expects. -/
def passes (runs : Runs) (job : JobData) (testCase : TestCase) : Bool :=
  (runs job.language job.code testCase.input).1 &&
    compareOutput (runs job.language job.code testCase.input).2 testCase.expectedOutput

/-- The status that the program earns on the test cases. -/
def decided (runs : Runs) (job : JobData) (testCases : List TestCase) : SubmissionStatus :=
  if testCases.all (passes runs job) then .accepted else .wrong

/-! ## What an attempt keeps -/

/-- What `create` stored and no job changes. -/
structure SameTask (s s' : Submission) : Prop where
  userId_eq : s'.userId = s.userId
  problemId_eq : s'.problemId = s.problemId
  contestId_eq : s'.contestId = s.contestId
  submittedAt_eq : s'.submittedAt = s.submittedAt

theorem SameTask.refl (s : Submission) : SameTask s s := ⟨rfl, rfl, rfl, rfl⟩

theorem SameTask.trans {s s' s'' : Submission} (h : SameTask s s') (h' : SameTask s' s'') : SameTask s s'' where
  userId_eq := h'.userId_eq.trans h.userId_eq
  problemId_eq := h'.problemId_eq.trans h.problemId_eq
  contestId_eq := h'.contestId_eq.trans h.contestId_eq
  submittedAt_eq := h'.submittedAt_eq.trans h.submittedAt_eq

/-- The submission `s` of the job is stored, with any status; the test cases are `testCases`. -/
structure Stored (job : JobData) (s : Submission) (testCases : List TestCase) (w : World) : Prop where
  found : ∃ s', w.submissions.find? job.submissionId = some s' ∧ SameTask s s'
  tests : testCasesOf w job.problemId = testCases

/-- A saved row is one of the submission `s`. -/
def Op.Saves (s : Submission) : Op → Prop
  | .saveSubmission s' => SameTask s s'
  | _ => True

theorem testCases_answer (o : Op) (c : Choice) (w : World) : (answer o c w).2.testCases = w.testCases := by
  have hok : ∀ w : World, (answerOk c w o).2.testCases = w.testCases := by
    intro w
    cases o with
    | saveTestResult =>
      simp only [answerOk]
      split_ifs <;> rfl
    | _ => rfl
  unfold answer
  cases c.fails with
  | none => exact hok _
  | some message =>
    dsimp only
    split_ifs
    · rfl
    · exact hok _

section Attempt

variable {runs : Runs} {job : JobData} {s : Submission} {testCases : List TestCase} {w : World}

theorem Stored.answer (h : Stored job s testCases w) {o : Op} (ho : o.Saves s) (c : Choice) :
    Stored job s testCases (answer o c w).2 := by
  obtain ⟨⟨s', hs', htask⟩, htests⟩ := h
  refine ⟨?_, ?_⟩
  · cases hw : o.writesSubmission with
    | false =>
      rw [submissions_answer hw]
      exact ⟨s', hs', htask⟩
    | true =>
      cases o with
      | saveSubmission row =>
        rcases hr : Submissions.answer (.saveSubmission row) c w with ⟨r, w'⟩
        cases r with
        | ok u =>
          rw [submissions_save hr]
          show ∃ s', (w.submissions.upsert row).find? job.submissionId = some s' ∧ _
          rw [Table.find?_upsert]
          split_ifs
          · exact ⟨row, rfl, ho⟩
          · exact ⟨s', hs', htask⟩
        | error e =>
          have hsame : w'.submissions = w.submissions := by
            unfold Submissions.answer at hr
            cases hf : c.fails with
            | none =>
              rw [hf] at hr
              cases hr
            | some message =>
              rw [hf] at hr
              cases hr
              rfl
          rw [hsame]
          exact ⟨s', hs', htask⟩
      | _ => cases hw
  · unfold testCasesOf at *
    rw [testCases_answer, htests]

/-- Along all executions of programs that do what `runs` says, the submission stays stored, and
    what the program `p` returns satisfies `P`. -/
abbrev Decides {α : Type} (runs : Runs) (job : JobData) (s : Submission) (testCases : List TestCase)
    (P : α → World → Prop) (p : M α) (w : World) : Prop :=
  Ensures answer (ByRuns runs) (fun _ _ => True)
    (fun r w' => Stored job s testCases w' ∧ ∀ a, r = .ok a → P a w') p w

theorem decides_ret {α : Type} {P : α → World → Prop} {a : α} (hw : Stored job s testCases w) (h : P a w) :
    Decides runs job s testCases P (pure a : M α) w := by
  refine ⟨hw, ?_⟩
  rintro _ ⟨⟩
  exact h

theorem decides_throw {α : Type} {P : α → World → Prop} {e : Err} (hw : Stored job s testCases w) :
    Decides runs job s testCases P (throw e : M α) w := by
  refine ⟨hw, ?_⟩
  rintro _ ⟨⟩

/-- The rule for `let a ← await o; f a`. -/
theorem decides_await_bind {α : Type} {P : α → World → Prop} {o : Op} {f : Res o → M α}
    (hw : Stored job s testCases w) (ho : o.Saves s)
    (hok : ∀ c a w', ByRuns runs o c w → answer o c w = (.ok a, w') → Stored job s testCases w' →
      Decides runs job s testCases P (f a) w') :
    Decides runs job s testCases P (await o >>= f) w := by
  refine ensures_await_bind ?_ ?_
  · intro c a w' hA hr
    have hw' := hw.answer ho c
    rw [hr] at hw'
    exact ⟨trivial, hok c a w' hA hr hw'⟩
  · intro c e w' _ hr
    have hw' := hw.answer ho c
    rw [hr] at hw'
    refine ⟨trivial, hw', ?_⟩
    rintro _ ⟨⟩

theorem Decides.bind {α β : Type} {R : α → World → Prop} {P : β → World → Prop} {p : M α} {f : α → M β}
    (hp : Decides runs job s testCases R p w)
    (hf : ∀ a w', Stored job s testCases w' → R a w' → Decides runs job s testCases P (f a) w') :
    Decides runs job s testCases P (p >>= f) w := by
  refine Ensures.bind ?_ ?_ hp
  · intro a w' h
    exact hf a w' h.1 (h.2 a rfl)
  · intro e w' h
    refine ⟨h.1, ?_⟩
    rintro _ ⟨⟩

/-! ## The tests -/

theorem runTestCase_decides (hw : Stored job s testCases w) (t : Totals) (testCase : TestCase) (index : ℕ) :
    Decides runs job s testCases (fun r _ => r.1 = passes runs job testCase ∧
        r.2.passedCount = t.passedCount + if passes runs job testCase then 1 else 0)
      (runTestCase job t testCase index) w := by
  unfold runTestCase
  refine decides_await_bind hw trivial fun c result w₁ hrun hr hw₁ => ?_
  obtain ⟨hnone, rfl⟩ : c.fails = none ∧ result = c.result := by
    unfold Submissions.answer at hr
    cases hf : c.fails with
    | none =>
      rw [hf] at hr
      cases hr
      exact ⟨rfl, rfl⟩
    | some message =>
      rw [hf] at hr
      cases hr
  have hpasses : (c.result.success && compareOutput c.result.output testCase.expectedOutput) =
      passes runs job testCase := by
    unfold passes
    rw [← hrun hnone]
  refine decides_await_bind hw₁ trivial fun _ _ w₂ _ _ hw₂ => ?_
  refine decides_await_bind hw₂ trivial fun _ _ w₃ _ _ hw₃ => ?_
  refine decides_ret hw₃ ⟨hpasses, ?_⟩
  show (if c.result.success && compareOutput c.result.output testCase.expectedOutput then _ else _) = _
  rw [hpasses]
  split_ifs <;> rfl

/-- The visible tests are all executed. -/
theorem runVisible_decides (visible : List TestCase) :
    ∀ {w : World} (visibleCasesPassed : Bool) (index : ℕ) (t : Totals), Stored job s testCases w →
      Decides runs job s testCases (fun r _ => r.1 = (visibleCasesPassed && visible.all (passes runs job)) ∧
          r.2.2.passedCount = t.passedCount + visible.countP (passes runs job))
        (runVisible job visible visibleCasesPassed index t) w := by
  induction visible with
  | nil =>
    intro w visibleCasesPassed index t hw
    exact decides_ret hw ⟨(Bool.and_true _).symm, rfl⟩
  | cons testCase rest ih =>
    intro w visibleCasesPassed index t hw
    refine (runTestCase_decides hw t testCase index).bind fun r w₁ hw₁ hr => ?_
    obtain ⟨hpassed, hcount⟩ := hr
    refine Ensures.mono (fun _ _ h => h) ?_ (ih (visibleCasesPassed && r.1) (index + 1) r.2 hw₁)
    intro out w' h
    refine ⟨h.1, fun a ha => ?_⟩
    obtain ⟨hall, htotal⟩ := h.2 a ha
    refine ⟨?_, ?_⟩
    · rw [hall, hpassed, List.all_cons, Bool.and_assoc]
    · rw [htotal, hcount, List.countP_cons]
      omega

/-- The hidden tests are executed up to the first that fails. -/
theorem runHidden_decides (hidden : List TestCase) :
    ∀ {w : World} (index : ℕ) (t : Totals), Stored job s testCases w →
      Decides runs job s testCases (fun r _ => r.passedCount ≤ t.passedCount + hidden.length ∧
          (r.passedCount = t.passedCount + hidden.length ↔ hidden.all (passes runs job) = true))
        (runHidden job hidden index t) w := by
  induction hidden with
  | nil =>
    intro w index t hw
    exact decides_ret hw ⟨le_rfl, iff_of_true rfl rfl⟩
  | cons testCase rest ih =>
    intro w index t hw
    refine (runTestCase_decides hw t testCase index).bind fun r w₁ hw₁ hr => ?_
    obtain ⟨hpassed, hcount⟩ := hr
    show Decides runs job s testCases _ (if r.1 then runHidden job rest (index + 1) r.2 else pure r.2) w₁
    rw [hpassed]
    split_ifs with hp
    · rw [if_pos hp] at hcount
      refine Ensures.mono (fun _ _ h => h) ?_ (ih (index + 1) r.2 hw₁)
      intro out w' h
      refine ⟨h.1, fun a ha => ?_⟩
      obtain ⟨hle, hiff⟩ := h.2 a ha
      rw [List.length_cons, List.all_cons, hp, Bool.true_and, ← hiff]
      omega
    · rw [if_neg hp] at hcount
      refine decides_ret hw₁ ⟨?_, ?_⟩
      · rw [List.length_cons]
        omega
      · have hfails : passes runs job testCase = false := Bool.eq_false_of_not_eq_true hp
        rw [List.length_cons, List.all_cons, hfails, Bool.false_and]
        refine iff_of_false ?_ Bool.false_ne_true
        omega

/-- The loops over the tests of the problem. -/
theorem runTestCases_decides (hw : Stored job s testCases w) :
    Decides runs job s testCases (fun r _ => r.1 = testCases ∧ testCases ≠ [] ∧
        r.2.passedCount ≤ testCases.length ∧
        (r.2.passedCount = testCases.length ↔ testCases.all (passes runs job) = true))
      (runTestCases job) w := by
  unfold runTestCases
  refine decides_await_bind hw trivial fun c found w₁ _ hr hw₁ => ?_
  obtain rfl : found = testCases := by
    rw [← hw.tests]
    cases answerOk_of_answer hr
    rfl
  simp only
  split_ifs with hempty
  · exact decides_throw hw₁
  · have hne : found ≠ [] := fun hnil => hempty (by rw [hnil]; rfl)
    set visible := found.filter fun testCase => !testCase.isHidden with hvisible
    set hidden := found.filter fun testCase => testCase.isHidden with hhidden
    have hperm : (visible ++ hidden).Perm found := filter_append_perm found
    have hlength : visible.length + hidden.length = found.length := by
      rw [← List.length_append, hperm.length_eq]
    have hall : found.all (passes runs job) = (visible.all (passes runs job) && hidden.all (passes runs job)) := by
      rw [← List.all_append]
      exact hperm.symm.all_eq
    refine (runVisible_decides visible true 0 ⟨0, 0, 0⟩ hw₁).bind fun r w₂ hw₂ hr₂ => ?_
    obtain ⟨hpassed, hcount⟩ := hr₂
    rw [Bool.true_and] at hpassed
    replace hcount : r.2.2.passedCount = visible.countP (passes runs job) := by
      rw [hcount]
      exact Nat.zero_add _
    show Decides runs job s found _ (if r.1 then _ else _) w₂
    split_ifs with hv
    · rw [hv] at hpassed
      have hvall : visible.countP (passes runs job) = visible.length :=
        List.countP_eq_length.mpr (List.all_eq_true.mp hpassed.symm)
      refine (runHidden_decides hidden r.2.1 r.2.2 hw₂).bind fun t w₃ hw₃ ht => ?_
      obtain ⟨hle, hiff⟩ := ht
      rw [hcount, hvall, hlength] at hle hiff
      refine decides_ret hw₃ ⟨rfl, hne, hle, ?_⟩
      rw [hall, ← hpassed, Bool.true_and]
      exact hiff
    · have hvnot : visible.all (passes runs job) = false := by
        rw [← hpassed]
        exact Bool.eq_false_of_not_eq_true hv
      have hlt : visible.countP (passes runs job) < visible.length := by
        refine lt_of_le_of_ne List.countP_le_length fun heq => ?_
        rw [List.all_eq_true.mpr (List.countP_eq_length.mp heq)] at hvnot
        cases hvnot
      refine decides_ret hw₂ ⟨rfl, hne, ?_, ?_⟩
      · show r.2.2.passedCount ≤ found.length
        omega
      · show r.2.2.passedCount = found.length ↔ _
        rw [hall, hvnot, Bool.false_and]
        refine iff_of_false ?_ Bool.false_ne_true
        omega

/-! ## One attempt -/

/-- The row of the job has the status that its program earns. -/
def HasDecided (runs : Runs) (job : JobData) (testCases : List TestCase) (w : World) : Prop :=
  ∃ s', w.submissions.find? job.submissionId = some s' ∧ s'.status = decided runs job testCases

theorem HasDecided.of_answer {o : Op} {c : Choice} {w' : World} {r : Except Err (Res o)}
    (h : HasDecided runs job testCases w) (ho : o.writesSubmission = false) (hr : answer o c w = (r, w')) :
    HasDecided runs job testCases w' := by
  have hsame := submissions_answer ho c w
  rw [hr] at hsame
  unfold HasDecided
  rw [hsame]
  exact h

/-- The final status is the one that the program earns. -/
theorem finalStatusOf_eq_decided {t : Totals} (hne : testCases ≠ []) (hle : t.passedCount ≤ testCases.length)
    (hiff : t.passedCount = testCases.length ↔ testCases.all (passes runs job) = true) :
    finalStatusOf t.passedCount testCases.length = decided runs job testCases := by
  have haccepted := (finalStatusOf_eq_accepted_iff (List.length_pos_of_ne_nil hne) hle).trans hiff
  have hwrong : finalStatusOf t.passedCount testCases.length = .accepted ∨
      finalStatusOf t.passedCount testCases.length = .wrong := by
    unfold finalStatusOf
    split_ifs <;> simp
  unfold decided
  split_ifs with hall
  · exact haccepted.mpr hall
  · exact hwrong.resolve_left fun h => hall (haccepted.mp h)

theorem finish_decides (hw : Stored job s testCases w) {row : Submission} (hid : row.id = job.submissionId)
    (hrow : SameTask s row) {t : Totals} (hne : testCases ≠ []) (hle : t.passedCount ≤ testCases.length)
    (hiff : t.passedCount = testCases.length ↔ testCases.all (passes runs job) = true) :
    Decides runs job s testCases (fun _ w' => HasDecided runs job testCases w')
      (finish job row testCases t) w := by
  unfold finish
  refine decides_await_bind hw trivial fun _ now w₁ _ _ hw₁ => ?_
  have hjudged : SameTask s (judged row testCases.length t now) := hrow.trans ⟨rfl, rfl, rfl, rfl⟩
  refine decides_await_bind hw₁ hjudged fun c _ w₂ _ hr hw₂ => ?_
  have hdecided : HasDecided runs job testCases w₂ := by
    rw [submissions_save hr]
    refine ⟨judged row testCases.length t now, ?_, finalStatusOf_eq_decided hne hle hiff⟩
    show (w₁.submissions.upsert (judged row testCases.length t now)).find? job.submissionId = _
    rw [← hid]
    exact Table.find?_upsert_self _ _
  refine decides_await_bind hw₂ trivial fun _ _ w₃ _ hr₃ hw₃ => ?_
  replace hdecided := hdecided.of_answer rfl hr₃
  refine decides_await_bind hw₃ trivial fun _ _ w₄ _ hr₄ hw₄ => ?_
  replace hdecided := hdecided.of_answer rfl hr₄
  split_ifs
  · refine decides_await_bind hw₄ trivial fun _ _ w₅ _ hr₅ hw₅ => ?_
    exact decides_ret hw₅ (hdecided.of_answer rfl hr₅)
  · exact decides_ret hw₄ hdecided

/-- The row that a job finds. -/
theorem Stored.of_findSubmission (hw : Stored job s testCases w) {c : Choice} {s' : Submission} {w' : World}
    (hr : Submissions.answer (.findSubmission job.submissionId) c w = (.ok (some s'), w')) :
    s'.id = job.submissionId ∧ SameTask s s' := by
  obtain ⟨s'', hs'', htask⟩ := hw.found
  have hfound := find?_of_findSubmission hr
  rw [hfound] at hs''
  cases hs''
  exact ⟨(Table.find?_eq_some_iff.mp hfound).2, htask⟩

theorem start_decides (hw : Stored job s testCases w) :
    Decides runs job s testCases (fun s' _ => s'.id = job.submissionId ∧ SameTask s s') (start job) w := by
  unfold start
  refine decides_await_bind hw trivial fun c found w₁ _ hr hw₁ => ?_
  cases found with
  | none => exact decides_throw hw₁
  | some s' =>
    obtain ⟨hid, htask⟩ := hw.of_findSubmission hr
    refine decides_await_bind hw₁ trivial fun _ now w₂ _ _ hw₂ => ?_
    have hrunning : SameTask s { s' with status := .running, startedAt := some now } :=
      htask.trans ⟨rfl, rfl, rfl, rfl⟩
    refine decides_await_bind hw₂ hrunning fun _ _ w₃ _ _ hw₃ => ?_
    exact decides_ret hw₃ ⟨hid, hrunning⟩

/-- The error path returns nothing. -/
theorem recover_decides {P : JobResult → World → Prop} (hw : Stored job s testCases w) (e : Err) :
    Decides runs job s testCases P (recover job e) w := by
  unfold recover
  refine decides_await_bind hw trivial fun _ _ w₁ _ _ hw₁ => ?_
  refine decides_await_bind hw₁ trivial fun c found w₂ _ hr hw₂ => ?_
  cases found with
  | none => exact decides_throw hw₂
  | some s' =>
    obtain ⟨_, htask⟩ := hw₁.of_findSubmission hr
    refine decides_await_bind hw₂ trivial fun _ now w₃ _ _ hw₃ => ?_
    have herror : SameTask s { s' with status := .runtimeError, completedAt := some now } :=
      htask.trans ⟨rfl, rfl, rfl, rfl⟩
    exact decides_await_bind hw₃ herror fun _ _ w₄ _ _ hw₄ => decides_throw hw₄

theorem processSubmission_decides (hw : Stored job s testCases w) :
    Decides runs job s testCases (fun _ w' => HasDecided runs job testCases w') (processSubmission job) w := by
  unfold processSubmission
  refine Ensures.tryCatch (fun _ _ h => h) (fun e w' h => recover_decides h.1 e) ?_
  refine (start_decides hw).bind fun row w₁ hw₁ hrow => ?_
  refine (runTestCases_decides hw₁).bind fun r w₂ hw₂ hr => ?_
  obtain ⟨htests, hne, hle, hiff⟩ := hr
  obtain ⟨tests, t⟩ := r
  obtain rfl : tests = testCases := htests
  exact finish_decides hw₂ hrow.1 hrow.2 hne hle hiff

/-! ## A job -/

theorem runAttempts_decides (attempts : ℕ) : ∀ {w : World}, Stored job s testCases w →
    Decides runs job s testCases (fun _ w' => HasDecided runs job testCases w') (runAttempts job attempts) w := by
  induction attempts with
  | zero => exact fun hw => decides_throw hw
  | succ attempts ih =>
    intro w hw
    unfold runAttempts
    refine decides_await_bind hw trivial fun _ _ w₁ _ _ hw₁ => ?_
    refine Ensures.tryCatch (fun _ _ h => h) (fun e w' h => ?_) (processSubmission_decides hw₁)
    split_ifs
    · exact decides_throw h.1
    · exact ih h.1

/-- A job that returns has decided, however often it was run. -/
theorem runJob_decides (hs : w.submissions.find? job.submissionId = some s) :
    Decides runs job s (testCasesOf w job.problemId)
      (fun _ w' => HasDecided runs job (testCasesOf w job.problemId) w') (runJob job) w :=
  runAttempts_decides 3 ⟨⟨s, hs, SameTask.refl s⟩, rfl⟩

end Attempt

/-! ## Jobs that run at the same time -/

section Jobs

variable {ι : Type} {jobs : ι → JobData} {w : World} {runs : Runs}

/-- The job that `create` adds for a submission (`submissions.service.ts:87-94`). -/
def jobFor (s : Submission) : JobData :=
  { submissionId := s.id, code := s.code, language := s.language, problemId := s.problemId }

/-- The jobs are those of the pending submissions, one each. -/
structure Queued (jobs : ι → JobData) (w : World) : Prop where
  distinct : Function.Injective fun i => (jobs i).submissionId
  sound : ∀ i, ∃ s ∈ w.submissions.rows, s.status = .pending ∧ jobs i = jobFor s
  complete : ∀ s ∈ w.submissions.rows, s.status = .pending → ∃ i, jobs i = jobFor s

theorem Queued.stored (hqueued : Queued jobs w) (i : ι) :
    (w.submissions.find? (jobs i).submissionId).isSome := by
  obtain ⟨s, hs, _, hjob⟩ := hqueued.sound i
  rw [hjob]
  show (w.submissions.find? s.id).isSome
  rw [Table.find?_key hs]
  rfl

variable [DecidableEq ι]

/-- The executions of the schedule have the outcomes of the programs. -/
def AllByRuns (runs : Runs) (jobs : ι → JobData) (w : World) (sched : List (ι × Choice)) : Prop :=
  Pool.Guarded (Pool.programs answer) (Pool.Admitted (ByRuns runs)) sched (startJobs jobs w)

/-- **Main**: whatever fails and whatever else runs, a job that has returned has stored the status
    that its program earns on the test cases of its problem. -/
theorem together_decides (hdistinct : Function.Injective fun i => (jobs i).submissionId)
    {sched : List (ι × Choice)} (hfresh : FreshIds jobs w sched) (hruns : AllByRuns runs jobs w sched) {i : ι}
    {s : Submission} (hs : w.submissions.find? (jobs i).submissionId = some s) {res : JobResult}
    (hdone : (together jobs w sched).tasks i = .ret res) :
    ∃ s', (together jobs w sched).state.submissions.find? (jobs i).submissionId = some s' ∧ SameTask s s' ∧
      s'.status = decided runs (jobs i) (testCasesOf w (jobs i).problemId) := by
  have hsim : SameFor (jobs i).submissionId w w := SameFor.refl _ w
  have hsee : ∀ (id : Id) (o : Op) (c : Choice) (v v' : World), o.Of id → SameFor id v v' →
      ByRuns runs o c v → ByRuns runs o c v' := by
    intro id o c v v' _ _ h
    cases o with
    | executeCode => exact h
    | _ => trivial
  have halone := separates_answer.guarded_alone hdistinct hsee i sched startJobs_confined hfresh hruns hsim
  obtain ⟨hpoint, hrows, _⟩ := separates_answer.run_alone hdistinct i sched startJobs_confined hfresh hsim
  have hend := (runJob_decides hs).run halone
  rw [hpoint.trans hdone] at hend
  obtain ⟨⟨⟨s', hs', htask⟩, _⟩, hdecides⟩ := hend
  obtain ⟨s'', hs'', hstatus⟩ := hdecides res rfl
  have hsame : s' = s'' := Option.some_injective _ (hs'.symm.trans hs'')
  refine ⟨s', ?_, htask, hsame ▸ hstatus⟩
  exact hrows.submission.symm.trans hs'

/-- The submission once it has the status that its program earns. -/
def settled (runs : Runs) (w : World) (s : Submission) : Submission :=
  if s.status = .pending then { s with status := decided runs (jobFor s) (testCasesOf w s.problemId) } else s

theorem settled_id (s : Submission) : (settled runs w s).id = s.id := by
  unfold settled
  split_ifs <;> rfl

theorem settled_sameTask (s : Submission) : SameTask s (settled runs w s) := by
  unfold settled
  split_ifs <;> exact ⟨rfl, rfl, rfl, rfl⟩

/-- When all jobs have returned, every submission is settled. -/
theorem together_settled (hqueued : Queued jobs w) {sched : List (ι × Choice)} (hfresh : FreshIds jobs w sched)
    (hruns : AllByRuns runs jobs w sched) (hdone : ∀ i, ∃ res, (together jobs w sched).tasks i = .ret res)
    {s s' : Submission} (hs : s ∈ w.submissions.rows) (hs' : s' ∈ (together jobs w sched).state.submissions.rows)
    (hid : s'.id = s.id) : SameTask s s' ∧ s'.status = (settled runs w s).status := by
  have hfind : w.submissions.find? s.id = some s := Table.find?_key hs
  have hfind' : (together jobs w sched).state.submissions.find? s.id = some s' := hid ▸ Table.find?_key hs'
  by_cases hpending : s.status = .pending
  · obtain ⟨i, hi⟩ := hqueued.complete s hs hpending
    have hjob : (jobs i).submissionId = s.id := by
      rw [hi]
      rfl
    obtain ⟨res, hres⟩ := hdone i
    obtain ⟨s'', hs'', htask, hstatus⟩ := together_decides hqueued.distinct hfresh hruns (hjob ▸ hfind) hres
    rw [hjob, hfind'] at hs''
    cases hs''
    refine ⟨htask, ?_⟩
    rw [hstatus, settled, if_pos hpending, hi]
    rfl
  · -- no job writes the row
    have hnone : ∀ i, (jobs i).submissionId ≠ s.id := by
      intro i hi
      obtain ⟨s₀, hs₀, hpending₀, hjob⟩ := hqueued.sound i
      rw [hjob] at hi
      have hsame : w.submissions.find? s.id = some s₀ := hi ▸ Table.find?_key hs₀
      rw [hfind] at hsame
      cases hsame
      exact hpending hpending₀
    have hhidden := separates_answer.run_hidden hnone sched startJobs_confined hfresh (SameFor.refl s.id w)
    have hrow : w.submissions.find? s.id = (together jobs w sched).state.submissions.find? s.id :=
      hhidden.submission
    rw [hfind, hfind'] at hrow
    cases hrow
    refine ⟨SameTask.refl s, ?_⟩
    rw [settled, if_neg hpending]

end Jobs

end CodeWeaknesses.Submissions
