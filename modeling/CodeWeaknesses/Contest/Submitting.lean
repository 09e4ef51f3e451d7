import CodeWeaknesses.Contest.Window

/-!
# Submitting is all or nothing

`create` saves the row and adds its job in two calls to two stores. Every check stands before
the first of them, so what can come apart is the pair of effects.

Results:
* `settles_await_bind`: a call before the effects does not matter.
* `create_allOrNothing_iff`: **`create` is all or nothing iff its queue call does not throw.**
* `enqueue_fails`: a row without a job.
-/

namespace CodeWeaknesses.Contests

open Lib Lib.Prog Submissions

/-! ## All or nothing -/

/-- The job that `create` adds for the new row. -/
def jobOf (dto : CreateSubmissionDto) (userId : Id) (submission : Submission) : SubmissionJob :=
  { submissionId := submission.id, code := dto.code, language := dto.language,
    problemId := dto.problemId, contestId := dto.contestId, userId := userId }

/-- One new PENDING row with the data of the request is stored, and one job is added for it. -/
structure Submitted (dto : CreateSubmissionDto) (userId : Id) (w w' : World) (submission : Submission) : Prop where
  new : w.submissions.find? submission.id = none
  row : ∃ submittedAt, submission = newSubmission submission.id dto.code dto.language dto.problemId
    dto.contestId userId .pending submittedAt
  rows : w'.submissions.rows = w.submissions.rows ++ [submission]
  unqueued : ∀ j ∈ w.submissionQueue, j.submissionId ≠ submission.id
  job : w'.submissionQueue = w.submissionQueue ++ [jobOf dto userId submission]

/-- What a call of `create` from `w` should come to. -/
def AllOrNothing (dto : CreateSubmissionDto) (userId : Id) (w : World) : Except Err Submission × World → Prop
  | (.ok submission, w') => Submitted dto userId w w' submission
  | (.error _, w') => w'.submissions = w.submissions ∧ w'.submissionQueue = w.submissionQueue

/-- A queue call does not throw, and the job id is new to the queue. -/
def Enqueues (o : Op) (c : Choice) (w : World) : Prop :=
  ∀ id data, o = .enqueueSubmission id data →
    c.fails = none ∧ ∀ j ∈ w.submissionQueue, j.submissionId ≠ data.submissionId

/-- The program is all or nothing exactly when its queue calls do what they should. -/
def Settles (dto : CreateSubmissionDto) (userId : Id) (p : M Submission) : Prop :=
  ∀ w cs, AllOrNothing dto userId w (eval answer p w cs) ↔ EvalGuarded answer Enqueues p w cs

/-! ## Before the effects -/

/-- Whether the call adds a job. -/
def Op.enqueues : Op → Bool
  | .enqueueSubmission .. => true
  | _ => false

theorem submissionQueue_answer {o : Op} (ho : o.enqueues = false) (c : Choice) (w : World) :
    (answer o c w).2.submissionQueue = w.submissionQueue := by
  refine answer_keeps (f := World.submissionQueue) (fun _ _ => rfl) ?_ c w
  intro c w
  cases o with
  | enqueueSubmission => cases ho
  | saveSubmission =>
    simp only [answerOk]
    split_ifs <;> rfl
  | _ => rfl

/-- A call that threw changed neither store. -/
theorem answer_error {o : Op} {c : Choice} {w w' : World} {e : Err} (h : answer o c w = (.error e, w')) :
    w'.submissions = w.submissions ∧ w'.submissionQueue = w.submissionQueue := by
  have hok : ∀ w : World, answerOk c w o = (.error e, w') →
      w'.submissions = w.submissions ∧ w'.submissionQueue = w.submissionQueue := by
    intro w h
    cases o with
    | saveSubmission =>
      simp only [answerOk] at h
      split_ifs at h
      · cases h
        exact ⟨rfl, rfl⟩
      · cases h
    | _ => cases h
  unfold answer at h
  cases hf : c.fails with
  | none =>
    simp only [hf] at h
    have hkept := hok _ h
    exact hkept
  | some message =>
    simp only [hf] at h
    split_ifs at h
    · cases h
      exact ⟨rfl, rfl⟩
    · have hkept := hok _ h
      exact hkept

theorem AllOrNothing.congr {dto : CreateSubmissionDto} {userId : Id} {w w₁ : World} {r : Except Err Submission × World}
    (hsubmissions : w₁.submissions = w.submissions) (hqueue : w₁.submissionQueue = w.submissionQueue) :
    AllOrNothing dto userId w₁ r ↔ AllOrNothing dto userId w r := by
  obtain ⟨r, w'⟩ := r
  cases r with
  | error e =>
    unfold AllOrNothing
    rw [hsubmissions, hqueue]
  | ok submission =>
    constructor
    · rintro ⟨hnew, hrow, hrows, hunqueued, hjob⟩
      rw [hsubmissions] at hnew hrows
      rw [hqueue] at hunqueued hjob
      exact ⟨hnew, hrow, hrows, hunqueued, hjob⟩
    · rintro ⟨hnew, hrow, hrows, hunqueued, hjob⟩
      rw [← hsubmissions] at hnew hrows
      rw [← hqueue] at hunqueued hjob
      exact ⟨hnew, hrow, hrows, hunqueued, hjob⟩

variable {dto : CreateSubmissionDto} {userId : Id}

/-- A check that turns the request down. -/
theorem settles_raise (e : Err) : Settles dto userId (throw e) := by
  intro w cs
  exact ⟨fun _ => trivial, fun _ => ⟨rfl, rfl⟩⟩

/-- A guarded `let a ← await o; f a`. -/
theorem evalGuarded_await_bind {o : Op} {f : Res o → M Submission} {w : World} {cs : ℕ → Choice} :
    EvalGuarded answer Enqueues (await o >>= f) w cs ↔ Enqueues o (cs 0) w ∧
      ∀ a w₁, answer o (cs 0) w = (.ok a, w₁) → EvalGuarded answer Enqueues (f a) w₁ (skip 1 cs) := by
  show Enqueues o (cs 0) w ∧ EvalGuarded answer Enqueues
    (answered (answer o (cs 0) w).1 >>= f) (answer o (cs 0) w).2 (skip 1 cs) ↔ _
  rcases hr : answer o (cs 0) w with ⟨r, w₁⟩
  cases r with
  | error e =>
    refine and_congr_right fun _ => ⟨fun _ a w₂ h => ?_, fun _ => trivial⟩
    cases h
  | ok a =>
    refine and_congr_right fun _ => ⟨fun h a' w₂ h' => ?_, fun h => h a w₁ rfl⟩
    cases h'
    exact h

/-- A call that reaches neither store does not matter. -/
theorem settles_await_bind {o : Op} {f : Res o → M Submission} (hsave : o.writesSubmission = false)
    (henqueue : o.enqueues = false) (hf : ∀ a, Settles dto userId (f a)) : Settles dto userId (await o >>= f) := by
  intro w cs
  have hguard : Enqueues o (cs 0) w := by
    rintro id data rfl
    cases henqueue
  have hsubmissions := submissions_answer hsave (cs 0) w
  have hqueue := submissionQueue_answer henqueue (cs 0) w
  rw [evalGuarded_await_bind]
  rcases hr : answer o (cs 0) w with ⟨r, w₁⟩
  rw [hr] at hsubmissions hqueue
  cases r with
  | error e =>
    rw [eval_await_bind_error hr]
    refine ⟨fun _ => ⟨hguard, fun a w₂ h => ?_⟩, fun _ => ⟨hsubmissions, hqueue⟩⟩
    cases h
  | ok a =>
    rw [eval_await_bind_ok hr, ← AllOrNothing.congr hsubmissions hqueue, hf a w₁ (skip 1 cs)]
    refine ⟨fun h => ⟨hguard, fun a' w₂ h' => ?_⟩, fun h => h.2 a w₁ rfl⟩
    cases h'
    exact h

/-! ## The effects -/

/-- A save that returned: the row is new and stored last. -/
theorem answer_save {submittedAt : Date} {c : Choice} {w w₁ : World} {submission : Submission}
    (h : answer (.saveSubmission dto.code dto.language dto.problemId dto.contestId userId .pending submittedAt)
      c w = (.ok submission, w₁)) :
    w.submissions.find? submission.id = none ∧
      submission = newSubmission submission.id dto.code dto.language dto.problemId dto.contestId userId
        .pending submittedAt ∧
      w₁.submissions.rows = w.submissions.rows ++ [submission] ∧ w₁.submissionQueue = w.submissionQueue := by
  have hok := answerOk_of_answer h
  simp only [answerOk] at hok
  split_ifs at hok with hstored
  · cases hok
  · cases hok
    have hnone : w.submissions.find? c.uuid = none := Option.not_isSome_iff_eq_none.mp hstored
    exact ⟨hnone, rfl, Table.rows_upsert_of_find?_eq_none hnone, rfl⟩

/-- The queue call, after the row was saved: without its job, the row is half of a submission. -/
theorem enqueueing_iff {w w₁ : World} {submission : Submission} {submittedAt : Date} (cs : ℕ → Choice)
    (hnew : w.submissions.find? submission.id = none)
    (hrow : submission = newSubmission submission.id dto.code dto.language dto.problemId dto.contestId userId
      .pending submittedAt)
    (hrows : w₁.submissions.rows = w.submissions.rows ++ [submission])
    (hqueue : w₁.submissionQueue = w.submissionQueue) :
    AllOrNothing dto userId w (eval answer
        (await (.enqueueSubmission submission.id (jobOf dto userId submission)) >>= fun _ => pure submission) w₁ cs) ↔
      Enqueues (.enqueueSubmission submission.id (jobOf dto userId submission)) (cs 0) w₁ := by
  rcases henqueue : answer (.enqueueSubmission submission.id (jobOf dto userId submission)) (cs 0) w₁
    with ⟨r, w₂⟩
  cases r with
  | error e =>
    rw [eval_await_bind_error henqueue]
    constructor
    · rintro ⟨hsubmissions, _⟩
      rw [← (answer_error henqueue).1, hsubmissions] at hrows
      simp at hrows
    · intro henqueues
      obtain ⟨hfails, _⟩ := henqueues _ _ rfl
      unfold answer at henqueue
      simp only [hfails] at henqueue
      cases henqueue
  | ok u =>
    rw [eval_await_bind_ok henqueue]
    have hsubmissions : w₂.submissions = w₁.submissions := by
      have hkept := submissions_answer (o := .enqueueSubmission submission.id (jobOf dto userId submission)) rfl
        (cs 0) w₁
      rwa [henqueue] at hkept
    have hadded : World.addJob { w₁ with clock := w₁.clock + (cs 0).elapsed } (jobOf dto userId submission) = w₂ :=
      congrArg Prod.snd (answerOk_of_answer henqueue)
    unfold World.addJob at hadded
    split_ifs at hadded with hheld
    · -- the queue ignores the job
      have hsame : w₂.submissionQueue = w.submissionQueue := by
        rw [← hadded]
        exact hqueue
      constructor
      · rintro ⟨_, _, _, _, hjob⟩
        rw [hsame] at hjob
        simp at hjob
      · intro henqueues
        obtain ⟨j, hj, hid⟩ := hheld
        exact absurd hid ((henqueues _ _ rfl).2 j hj)
    · have hunqueued : ∀ j ∈ w₁.submissionQueue, j.submissionId ≠ submission.id :=
        fun j hj hid => hheld ⟨j, hj, hid⟩
      have hfails : (cs 0).fails = none := by
        cases hf : (cs 0).fails with
        | none => rfl
        | some message =>
          unfold answer at henqueue
          simp only [hf] at henqueue
          cases henqueue
      constructor
      · intro _ id data h
        cases h
        exact ⟨hfails, hunqueued⟩
      · refine fun _ => ⟨hnew, ⟨submittedAt, hrow⟩, hsubmissions ▸ hrows, hqueue ▸ hunqueued, ?_⟩
        rw [← hadded, ← hqueue]

/-- The save and the queue call. -/
theorem settles_storing (submittedAt : Date) : Settles dto userId
    (await (.saveSubmission dto.code dto.language dto.problemId dto.contestId userId .pending submittedAt) >>=
      fun submission => await (.enqueueSubmission submission.id (jobOf dto userId submission)) >>=
        fun _ => pure submission) := by
  intro w cs
  have hguard : Enqueues (.saveSubmission dto.code dto.language dto.problemId dto.contestId userId .pending
      submittedAt) (cs 0) w := by
    intro id data h
    cases h
  rw [evalGuarded_await_bind]
  rcases hsave : answer (.saveSubmission dto.code dto.language dto.problemId dto.contestId userId .pending
    submittedAt) (cs 0) w with ⟨r, w₁⟩
  cases r with
  | error e =>
    rw [eval_await_bind_error hsave]
    refine ⟨fun _ => ⟨hguard, fun a w₂ h => ?_⟩, fun _ => answer_error hsave⟩
    cases h
  | ok submission =>
    obtain ⟨hnew, hrow, hrows, hqueue⟩ := answer_save hsave
    rw [eval_await_bind_ok hsave, enqueueing_iff (skip 1 cs) hnew hrow hrows hqueue]
    constructor
    · refine fun h => ⟨hguard, fun a w₂ hr => ?_⟩
      cases hr
      exact evalGuarded_await_bind.mpr ⟨h, fun _ _ _ => trivial⟩
    · rintro ⟨_, h⟩
      exact (evalGuarded_await_bind.mp (h submission w₁ rfl)).1

/-! ## Main theorem -/

/-- **Main**: from any state, a call of `create` is all or nothing iff its queue call, when it comes
    to that, does not throw and finds no job under the id of the new row. -/
theorem create_allOrNothing_iff (dto : CreateSubmissionDto) (userId : Id) (w : World) (cs : ℕ → Choice) :
    AllOrNothing dto userId w (eval answer (create dto userId) w cs) ↔
      EvalGuarded answer Enqueues (create dto userId) w cs := by
  have hstore : Settles dto userId (store dto userId) :=
    settles_await_bind rfl rfl fun submittedAt => settles_storing submittedAt
  have hcheckUser : Settles dto userId (checkUser dto userId) := by
    refine settles_await_bind rfl rfl fun user? => ?_
    cases user? with
    | none => exact settles_raise _
    | some user =>
      show Settles dto userId (if isBlank dto.code then throw _ else store dto userId)
      split_ifs
      · exact settles_raise _
      · exact hstore
  have hcheckWindow : ∀ contest, Settles dto userId (checkWindow dto userId contest) := by
    intro contest
    refine settles_await_bind rfl rfl fun now => ?_
    split_ifs
    · exact settles_raise _
    · exact settles_raise _
    · exact hcheckUser
  have hcreate : Settles dto userId (create dto userId) := by
    refine settles_await_bind rfl rfl fun problem? => ?_
    cases problem? with
    | none => exact settles_raise _
    | some problem =>
      refine settles_await_bind rfl rfl fun contest? => ?_
      cases contest? with
      | none => exact settles_raise _
      | some contest =>
        show Settles dto userId (if problem.contest ≠ some dto.contestId then throw _ else checkWindow dto userId contest)
        split_ifs
        · exact settles_raise _
        · exact hcheckWindow contest
  exact hcreate w cs

/-- Every call is answered but the seventh, which adds the job. -/
def queueDown (n : ℕ) : Choice := ⟨if n = 6 then some "Connection is closed." else none, "s1", 1⟩

/-- The queue call throws: the request fails, and its row stays without a job. -/
theorem enqueue_fails :
    ∃ e w', eval answer (create answerDto "u1") duringContest queueDown = (.error e, w') ∧
      w'.submissions.rows.map (fun s => (s.id, s.status)) = [("s1", .pending)] ∧ w'.submissionQueue = [] ∧
      ¬ AllOrNothing answerDto "u1" duringContest
        (eval answer (create answerDto "u1") duringContest queueDown) := by
  refine ⟨_, _, rfl, rfl, rfl, fun h => ?_⟩
  have hlength := congrArg (fun table : Table Submission Id Submission.id => table.rows.length) h.1
  exact Nat.one_ne_zero hlength

end CodeWeaknesses.Contests
