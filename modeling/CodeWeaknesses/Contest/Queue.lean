import CodeWeaknesses.Contest.Submitting
import CodeWeaknesses.Submissions.Outcomes

/-!
# Rows and jobs

`create` stores the row of a submission and adds its job in two calls to two stores. Any number of
requests run at once and any call may throw.

Results:
* `next_effect`: what a step does to the rows and to the queue.
* `Ledger.step`: which job belongs to which row, one step of a request at a time.
* `jobs_accounted`: **no job is added twice or without its row, and each new row has its job, or a
  request is about to add it, or the call that would have added it threw.**
-/

namespace CodeWeaknesses.Contests

open Lib Lib.Prog Submissions

/-! ## Jobs that are added and jobs that are lost -/

/-- The submission whose job the next call adds. -/
def adding : M Outcome → Option Id
  | .call (.enqueueSubmission id _) _ => some id
  | _ => none

/-- The submission whose job is lost in the step: the call that would add it throws. -/
def lostBy (x : ℕ × Choice) (pool : Pool ℕ (fun _ => M Outcome) World) : Option Id :=
  if x.2.fails.isSome then adding (pool.tasks x.1) else none

/-- The submissions whose jobs are lost along the schedule. -/
def lost : List (ℕ × Choice) → Pool ℕ (fun _ => M Outcome) World → List Id
  | [], _ => []
  | x :: sched, pool => (lostBy x pool).toList ++ lost sched (Pool.step requestStep x pool)

/-- The job of a stored row. -/
def jobOfRow (s : Submission) : SubmissionJob :=
  { submissionId := s.id, code := s.code, language := s.language, problemId := s.problemId,
    contestId := s.contestId, userId := s.userId }

/-- The queue holds a job of the submission. -/
def HasJob (w : World) (id : Id) : Prop := ∃ j ∈ w.submissionQueue, j.submissionId = id

/-- A request is about to add the job of the submission. -/
def Awaits (pool : Pool ℕ (fun _ => M Outcome) World) (id : Id) : Prop := ∃ i, adding (pool.tasks i) = some id

/-- What becomes of the job of a row: exactly one of three. -/
inductive Fate (pool : Pool ℕ (fun _ => M Outcome) World) (gone : List Id) (id : Id) : Prop where
  | queued (hjob : HasJob pool.state id) (hawaits : ¬ Awaits pool id) (hgone : id ∉ gone)
  | awaited (hjob : ¬ HasJob pool.state id) (hawaits : Awaits pool id) (hgone : id ∉ gone)
  | lost (hjob : ¬ HasJob pool.state id) (hawaits : ¬ Awaits pool id) (hgone : id ∈ gone)

/-- Every job is of a row, no two of the same one, and every row since the start has one fate. -/
structure Accounted (start : World) (gone : List Id) (pool : Pool ℕ (fun _ => M Outcome) World) : Prop where
  once : (pool.state.submissionQueue.map SubmissionJob.submissionId).Nodup
  genuine : ∀ j ∈ pool.state.submissionQueue,
    j ∈ start.submissionQueue ∨ ∃ s ∈ pool.state.submissions.rows, s.status = .pending ∧ j = jobOfRow s
  fate : ∀ s ∈ pool.state.submissions.rows, s ∈ start.submissions.rows ∨ Fate pool gone s.id

/-- The jobs in the queue are of stored rows, no two of the same one. -/
structure JobsStored (w : World) : Prop where
  once : (w.submissionQueue.map SubmissionJob.submissionId).Nodup
  stored : ∀ j ∈ w.submissionQueue, j.submissionId ∈ w.submissions.rows.map Submission.id

/-! ## One step -/

/-- The submission whose job a point adds. -/
def addingAt : Point → Option Id
  | .enqueueing _ _ submission => some submission.id
  | _ => none

theorem adding_code (p : Point) : adding (code p) = addingAt p := by
  cases p with
  | looping now contests => cases contests <;> rfl
  | _ => rfl

/-- What a step from `p` does to the rows and the queue. -/
inductive Effect (c : Choice) (w : World) (p : Point) : Point × World → Prop where
  | quiet {p' : Point} {w' : World} (hp : addingAt p = none) (hp' : addingAt p' = none)
      (hrows : w'.submissions = w.submissions) (hqueue : w'.submissionQueue = w.submissionQueue) :
      Effect c w p (p', w')
  | stores {dto : CreateSubmissionDto} {userId : Id} {submission : Submission} {w' : World} {submittedAt : Date}
      (hp : p = .storing dto userId submittedAt) (hnew : w.submissions.find? submission.id = none)
      (hrow : submission = newSubmission submission.id dto.code dto.language dto.problemId dto.contestId userId
        .pending submittedAt)
      (hrows : w'.submissions.rows = w.submissions.rows ++ [submission])
      (hqueue : w'.submissionQueue = w.submissionQueue) : Effect c w p (.enqueueing dto userId submission, w')
  | adds {dto : CreateSubmissionDto} {userId : Id} {submission : Submission} {p' : Point} {w' : World}
      (hp : p = .enqueueing dto userId submission) (hfails : c.fails.isSome = false) (hp' : addingAt p' = none)
      (hrows : w'.submissions = w.submissions)
      (hqueue : w'.submissionQueue = (w.addJob (jobOf dto userId submission)).submissionQueue) :
      Effect c w p (p', w')
  | loses {dto : CreateSubmissionDto} {userId : Id} {submission : Submission} {p' : Point} {w' : World}
      (hp : p = .enqueueing dto userId submission) (hfails : c.fails.isSome = true) (hp' : addingAt p' = none)
      (hrows : w'.submissions = w.submissions) (hqueue : w'.submissionQueue = w.submissionQueue) :
      Effect c w p (p', w')

/-- A call that reaches neither store. -/
theorem effect_goOn {c : Choice} {w : World} {p : Point} (o : Op) (hsave : o.writesSubmission = false)
    (henqueue : o.enqueues = false) (hp : addingAt p = none) {f : Res o → Point}
    (hf : ∀ a, addingAt (f a) = none) : Effect c w p (goOn f (answer o c w)) := by
  have hrows := submissions_answer hsave c w
  have hqueue := submissionQueue_answer henqueue c w
  rcases hr : answer o c w with ⟨r, w'⟩
  rw [hr] at hrows hqueue
  cases r with
  | ok a => exact .quiet hp (hf a) hrows hqueue
  | error e => exact .quiet hp rfl hrows hqueue

theorem next_effect (c : Choice) (p : Point) (w : World) : Effect c w p (next c (p, w)) := by
  cases p with
  | finishing id =>
    refine effect_goOn (.findContest id) rfl rfl rfl fun contest? => ?_
    cases contest? with
    | none => rfl
    | some contest =>
      show addingAt (if contest.finishedAt.isSome then _ else _) = none
      split_ifs <;> rfl
  | looping now contests =>
    cases contests with
    | nil => exact .quiet rfl rfl rfl rfl
    | cons contest rest => exact effect_goOn (.saveContest _) rfl rfl rfl fun _ => rfl
  | creating dto userId =>
    refine effect_goOn (.findProblem dto.problemId) rfl rfl rfl fun problem? => ?_
    cases problem? <;> rfl
  | readingContest dto userId problem =>
    refine effect_goOn (.findContest dto.contestId) rfl rfl rfl fun contest? => ?_
    cases contest? with
    | none => rfl
    | some contest =>
      show addingAt (if problem.contest ≠ some dto.contestId then _ else _) = none
      split_ifs <;> rfl
  | checkingWindow dto userId contest =>
    refine effect_goOn .newDate rfl rfl rfl fun now => ?_
    unfold afterWindow
    split_ifs <;> rfl
  | checkingUser dto userId =>
    refine effect_goOn (.findUser userId) rfl rfl rfl fun user? => ?_
    cases user? with
    | none => rfl
    | some user =>
      show addingAt (if isBlank dto.code then _ else _) = none
      split_ifs <;> rfl
  | storing dto userId submittedAt =>
    show Effect c w _ (goOn (.enqueueing dto userId) (answer (.saveSubmission dto.code dto.language dto.problemId
      dto.contestId userId .pending submittedAt) c w))
    rcases hr : answer (.saveSubmission dto.code dto.language dto.problemId dto.contestId userId .pending
      submittedAt) c w with ⟨r, w'⟩
    cases r with
    | ok submission =>
      obtain ⟨hnew, hrow, hrows, hqueue⟩ := answer_save hr
      exact .stores rfl hnew hrow hrows hqueue
    | error e =>
      obtain ⟨hrows, hqueue⟩ := answer_error hr
      exact .quiet rfl rfl hrows hqueue
  | enqueueing dto userId submission =>
    show Effect c w _ (goOn (fun _ => .returned (.submission submission))
      (answer (.enqueueSubmission submission.id (jobOf dto userId submission)) c w))
    unfold answer
    cases hf : c.fails with
    | none =>
      refine .adds rfl (by rw [hf]; rfl) rfl ?_ ?_
      · exact addJob_keeps (f := World.submissions) (fun _ _ => rfl) _ _
      · show (World.addJob { w with clock := w.clock + c.elapsed } (jobOf dto userId submission)).submissionQueue = _
        unfold World.addJob
        split_ifs <;> rfl
    | some message => exact .loses rfl (by rw [hf]; rfl) rfl rfl rfl
  | returned outcome => exact .quiet rfl rfl rfl rfl
  | raised e => exact .quiet rfl rfl rfl rfl
  | dating contest => exact effect_goOn .newDate rfl rfl rfl fun _ => rfl
  | saving contest => exact effect_goOn (.saveContest contest) rfl rfl rfl fun _ => rfl
  | emitting contest => exact effect_goOn (.emitFinished contest.id) rfl rfl rfl fun _ => rfl
  | ticking => exact effect_goOn .newDate rfl rfl rfl fun _ => rfl
  | finding now => exact effect_goOn (.findExpired now) rfl rfl rfl fun _ => rfl
  | loopEmitting now contest rest => exact effect_goOn (.emitFinished contest.id) rfl rfl rfl fun _ => rfl
  | stamping dto userId => exact effect_goOn .newDate rfl rfl rfl fun _ => rfl

/-! ## Runs -/

theorem adding_of_eq {p : Point} {dto : CreateSubmissionDto} {userId : Id} {submission : Submission}
    (h : p = .enqueueing dto userId submission) : addingAt p = some submission.id := by
  rw [h]
  rfl

theorem addingAt_eq_some {p : Point} {id : Id} (h : addingAt p = some id) :
    ∃ dto userId submission, p = .enqueueing dto userId submission ∧ submission.id = id := by
  cases p with
  | enqueueing dto userId submission => exact ⟨dto, userId, submission, rfl, Option.some.inj h⟩
  | _ => cases h

/-- What is kept of rows, jobs and requests, when the jobs of `gone` have been lost. -/
structure Ledger (start : World) (gone : List Id) (w : World) (points : ℕ → Point) : Prop where
  once : (w.submissionQueue.map SubmissionJob.submissionId).Nodup
  stored : ∀ j ∈ w.submissionQueue, j.submissionId ∈ w.submissions.rows.map Submission.id
  genuine : ∀ j ∈ w.submissionQueue,
    j ∈ start.submissionQueue ∨ ∃ s ∈ w.submissions.rows, s.status = .pending ∧ j = jobOfRow s
  awaited : ∀ i dto userId s, points i = .enqueueing dto userId s → s ∈ w.submissions.rows ∧
    (s.status = .pending ∧ jobOf dto userId s = jobOfRow s) ∧ ¬ HasJob w s.id ∧ s.id ∉ gone
  one : ∀ i i' id, addingAt (points i) = some id → addingAt (points i') = some id → i = i'
  missing : ∀ id ∈ gone, id ∈ w.submissions.rows.map Submission.id ∧ ¬ HasJob w id
  account : ∀ s ∈ w.submissions.rows, s ∈ start.submissions.rows ∨ HasJob w s.id ∨
    (∃ i, addingAt (points i) = some s.id) ∨ s.id ∈ gone
  pending : ∀ s ∈ w.submissions.rows, s ∈ start.submissions.rows ∨ s.status = .pending

section Steps

variable {start : World} {gone : List Id} {w w' : World} {points points' : ℕ → Point} {i : ℕ}

theorem Ledger.awaited_of_adding (h : Ledger start gone w points) {id : Id} (hadding : addingAt (points i) = some id) :
    id ∈ w.submissions.rows.map Submission.id ∧ ¬ HasJob w id ∧ id ∉ gone := by
  obtain ⟨dto, userId, s, hp, rfl⟩ := addingAt_eq_some hadding
  obtain ⟨hs, _, hjob, hgone⟩ := h.awaited i dto userId s hp
  exact ⟨List.mem_map_of_mem hs, hjob, hgone⟩

theorem hasJob_congr (hqueue : w'.submissionQueue = w.submissionQueue) (id : Id) : HasJob w' id ↔ HasJob w id := by
  rw [HasJob, HasJob, hqueue]

/-- If request `i` adds no job after its step, the requests that do have not moved. -/
theorem eq_of_adding (hafter : addingAt (points' i) = none) (hother : ∀ k, k ≠ i → points' k = points k) {k : ℕ}
    {id : Id} (hk : addingAt (points' k) = some id) : k ≠ i ∧ points' k = points k := by
  have hne : k ≠ i := by
    rintro rfl
    rw [hafter] at hk
    cases hk
  exact ⟨hne, hother k hne⟩

/-- No two requests add one job. -/
theorem Ledger.one_after (h : Ledger start gone w points) (hafter : addingAt (points' i) = none)
    (hother : ∀ k, k ≠ i → points' k = points k) (k k' : ℕ) (id : Id) (hk : addingAt (points' k) = some id)
    (hk' : addingAt (points' k') = some id) : k = k' := by
  have hsame := (eq_of_adding hafter hother hk).2
  have hsame' := (eq_of_adding hafter hother hk').2
  rw [hsame] at hk
  rw [hsame'] at hk'
  exact h.one k k' id hk hk'

/-- A step that reaches neither store. -/
theorem Ledger.quiet (h : Ledger start gone w points) (hbefore : addingAt (points i) = none)
    (hafter : addingAt (points' i) = none) (hother : ∀ k, k ≠ i → points' k = points k)
    (hrows : w'.submissions = w.submissions) (hqueue : w'.submissionQueue = w.submissionQueue) :
    Ledger start gone w' points' := by
  have hadding : ∀ k, addingAt (points' k) = addingAt (points k) := by
    intro k
    by_cases hk : k = i
    · rw [hk, hafter, hbefore]
    · rw [hother k hk]
  have hjob := hasJob_congr hqueue
  constructor
  · rw [hqueue]
    exact h.once
  · rw [hqueue, hrows]
    exact h.stored
  · rw [hqueue, hrows]
    exact h.genuine
  · intro k dto userId s hk
    rw [(eq_of_adding hafter hother (adding_of_eq hk)).2] at hk
    rw [hrows, hjob]
    exact h.awaited k dto userId s hk
  · exact h.one_after hafter hother
  · intro id hid
    rw [hrows, hjob]
    exact h.missing id hid
  · intro s hs
    rw [hrows] at hs
    simp only [hjob, hadding]
    exact h.account s hs
  · intro s hs
    rw [hrows] at hs
    exact h.pending s hs

/-- A new row is PENDING, and its job is that of the row. -/
theorem pending_of_new {dto : CreateSubmissionDto} {userId : Id} {s : Submission} {submittedAt : Date}
    (hrow : s = newSubmission s.id dto.code dto.language dto.problemId dto.contestId userId .pending submittedAt) :
    s.status = .pending ∧ jobOf dto userId s = jobOfRow s := by
  constructor
  · rw [hrow]
    rfl
  · unfold jobOf jobOfRow
    rw [hrow]
    rfl

/-- Nobody else adds the job of a row that was not stored before. -/
theorem Ledger.one_stores (h : Ledger start gone w points) {new : Id} (hself : addingAt (points' i) = some new)
    (hfresh : new ∉ w.submissions.rows.map Submission.id) (hother : ∀ k, k ≠ i → points' k = points k) (k k' : ℕ)
    (id : Id) (hk : addingAt (points' k) = some id) (hk' : addingAt (points' k') = some id) : k = k' := by
  have hdiffer : ∀ k, k ≠ i → addingAt (points' k) ≠ some new := by
    intro k hk hadding
    rw [hother k hk] at hadding
    exact hfresh (h.awaited_of_adding hadding).1
  by_cases hki : k = i
  · rw [hki, hself] at hk
    by_contra hne
    exact hdiffer k' (fun heq => hne (hki.trans heq.symm)) (hk'.trans hk.symm)
  · by_cases hki' : k' = i
    · rw [hki', hself] at hk'
      exact absurd (hk.trans hk'.symm) (hdiffer k hki)
    · rw [hother k hki] at hk
      rw [hother k' hki'] at hk'
      exact h.one k k' id hk hk'

/-- The new row waits for its job. -/
theorem Ledger.stores (h : Ledger start gone w points) {dto : CreateSubmissionDto} {userId : Id} {s : Submission}
    {submittedAt : Date} (hbefore : addingAt (points i) = none) (hafter : points' i = .enqueueing dto userId s)
    (hother : ∀ k, k ≠ i → points' k = points k) (hnew : w.submissions.find? s.id = none)
    (hrow : s = newSubmission s.id dto.code dto.language dto.problemId dto.contestId userId .pending submittedAt)
    (hrows : w'.submissions.rows = w.submissions.rows ++ [s]) (hqueue : w'.submissionQueue = w.submissionQueue) :
    Ledger start gone w' points' := by
  have hfresh : s.id ∉ w.submissions.rows.map Submission.id := by
    intro hmem
    have hsome := Table.find?_isSome_iff.mpr hmem
    rw [hnew] at hsome
    cases hsome
  have hmono : ∀ id, id ∈ w.submissions.rows.map Submission.id → id ∈ w'.submissions.rows.map Submission.id := by
    intro id hid
    rw [hrows, List.map_append]
    exact List.mem_append_left _ hid
  have hmem : ∀ r, r ∈ w.submissions.rows → r ∈ w'.submissions.rows := by
    intro r hr
    rw [hrows]
    exact List.mem_append_left _ hr
  have hmem' : ∀ r ∈ w'.submissions.rows, r ∈ w.submissions.rows ∨ r = s := by
    intro r hr
    rw [hrows] at hr
    exact (List.mem_append.mp hr).imp_right List.mem_singleton.mp
  have hjob := hasJob_congr hqueue
  have hself := adding_of_eq hafter
  constructor
  · rw [hqueue]
    exact h.once
  · rw [hqueue]
    exact fun j hj => hmono _ (h.stored j hj)
  · rw [hqueue]
    exact fun j hj => (h.genuine j hj).imp_right fun ⟨r, hr, hjr⟩ => ⟨r, hmem r hr, hjr⟩
  · intro k dto' userId' r hk
    rw [hjob]
    by_cases hki : k = i
    · rw [hki, hafter] at hk
      cases hk
      refine ⟨?_, pending_of_new hrow, ?_, fun hgone => hfresh (h.missing _ hgone).1⟩
      · rw [hrows]
        exact List.mem_append_right _ (List.mem_singleton_self s)
      · rintro ⟨j, hj, hid⟩
        exact hfresh (hid ▸ h.stored j hj)
    · rw [hother k hki] at hk
      obtain ⟨hr, hkept⟩ := h.awaited k dto' userId' r hk
      exact ⟨hmem r hr, hkept⟩
  · exact h.one_stores hself hfresh hother
  · intro id hid
    rw [hjob]
    exact ⟨hmono id (h.missing id hid).1, (h.missing id hid).2⟩
  · intro r hr
    rw [hjob]
    rcases hmem' r hr with hr | rfl
    · refine (h.account r hr).imp_right (Or.imp_right (Or.imp_left ?_))
      rintro ⟨k, hk⟩
      refine ⟨k, ?_⟩
      rw [hother k]
      · exact hk
      · rintro rfl
        rw [hbefore] at hk
        cases hk
    · exact .inr (.inr (.inl ⟨i, hself⟩))
  · intro r hr
    rcases hmem' r hr with hr | rfl
    · exact h.pending r hr
    · exact .inr (pending_of_new hrow).1

/-- The job is added: it is new to the queue. -/
theorem Ledger.adds (h : Ledger start gone w points) {dto : CreateSubmissionDto} {userId : Id} {s : Submission}
    (hbefore : points i = .enqueueing dto userId s) (hafter : addingAt (points' i) = none)
    (hother : ∀ k, k ≠ i → points' k = points k) (hrows : w'.submissions = w.submissions)
    (hqueue : w'.submissionQueue = (w.addJob (jobOf dto userId s)).submissionQueue) :
    Ledger start gone w' points' := by
  obtain ⟨hs, hjobOf, hnojob, hnotgone⟩ := h.awaited i dto userId s hbefore
  have hadd : w'.submissionQueue = w.submissionQueue ++ [jobOf dto userId s] := by
    have hnew : ¬ ∃ j ∈ w.submissionQueue, j.submissionId = (jobOf dto userId s).submissionId := hnojob
    rw [hqueue, World.addJob, if_neg hnew]
  have hself := adding_of_eq hbefore
  have hjob : ∀ id, HasJob w' id ↔ HasJob w id ∨ id = s.id := by
    intro id
    unfold HasJob
    rw [hadd]
    constructor
    · rintro ⟨j, hj, hid⟩
      rcases List.mem_append.mp hj with hj | hj
      · exact .inl ⟨j, hj, hid⟩
      · rw [List.mem_singleton.mp hj] at hid
        exact .inr hid.symm
    · rintro (⟨j, hj, hid⟩ | rfl)
      · exact ⟨j, List.mem_append_left _ hj, hid⟩
      · exact ⟨_, List.mem_append_right _ (List.mem_singleton_self _), rfl⟩
  have hdiffer : ∀ k id, k ≠ i → addingAt (points k) = some id → id ≠ s.id := by
    rintro k id hk hadding rfl
    exact hk (h.one k i _ hadding hself)
  constructor
  · rw [hadd, List.map_append]
    refine List.nodup_append.mpr ⟨h.once, List.nodup_singleton _, ?_⟩
    intro id hid id' hid' heq
    obtain ⟨j, hj, rfl⟩ := List.mem_map.mp hid
    rw [List.mem_singleton.mp hid'] at heq
    exact hnojob ⟨j, hj, heq⟩
  · intro j hj
    rw [hrows]
    rw [hadd] at hj
    rcases List.mem_append.mp hj with hj | hj
    · exact h.stored j hj
    · rw [List.mem_singleton.mp hj]
      exact List.mem_map_of_mem hs
  · intro j hj
    rw [hrows]
    rw [hadd] at hj
    rcases List.mem_append.mp hj with hj | hj
    · exact h.genuine j hj
    · exact .inr ⟨s, hs, hjobOf.1, (List.mem_singleton.mp hj).trans hjobOf.2⟩
  · intro k dto' userId' r hk
    obtain ⟨hki, hsame⟩ := eq_of_adding hafter hother (adding_of_eq hk)
    rw [hsame] at hk
    obtain ⟨hr, hjr, hnojr, hnotgoner⟩ := h.awaited k dto' userId' r hk
    have hne : r.id ≠ s.id := hdiffer k r.id hki (adding_of_eq hk)
    rw [hrows, hjob]
    exact ⟨hr, hjr, fun hcases => hcases.elim hnojr hne, hnotgoner⟩
  · exact h.one_after hafter hother
  · intro id hid
    obtain ⟨hmem, hnone⟩ := h.missing id hid
    rw [hrows, hjob]
    refine ⟨hmem, ?_⟩
    rintro (hold | rfl)
    · exact hnone hold
    · exact hnotgone hid
  · intro r hr
    rw [hrows] at hr
    rw [hjob]
    rcases h.account r hr with hold | hold | ⟨k, hk⟩ | hgone
    · exact .inl hold
    · exact .inr (.inl (.inl hold))
    · by_cases hki : k = i
      · rw [hki, hself] at hk
        exact .inr (.inl (.inr (Option.some.inj hk).symm))
      · exact .inr (.inr (.inl ⟨k, by rw [hother k hki]; exact hk⟩))
    · exact .inr (.inr (.inr hgone))
  · intro r hr
    rw [hrows] at hr
    exact h.pending r hr

/-- The call that would add the job throws. -/
theorem Ledger.loses (h : Ledger start gone w points) {dto : CreateSubmissionDto} {userId : Id} {s : Submission}
    (hbefore : points i = .enqueueing dto userId s) (hafter : addingAt (points' i) = none)
    (hother : ∀ k, k ≠ i → points' k = points k) (hrows : w'.submissions = w.submissions)
    (hqueue : w'.submissionQueue = w.submissionQueue) : Ledger start (gone ++ [s.id]) w' points' := by
  obtain ⟨hs, _, hnojob, _⟩ := h.awaited i dto userId s hbefore
  have hself := adding_of_eq hbefore
  have hjob := hasJob_congr hqueue
  constructor
  · rw [hqueue]
    exact h.once
  · rw [hqueue, hrows]
    exact h.stored
  · rw [hqueue, hrows]
    exact h.genuine
  · intro k dto' userId' r hk
    obtain ⟨hki, hsame⟩ := eq_of_adding hafter hother (adding_of_eq hk)
    rw [hsame] at hk
    obtain ⟨hr, hjr, hnojr, hnotgoner⟩ := h.awaited k dto' userId' r hk
    have hadding := adding_of_eq hk
    rw [hrows, hjob]
    refine ⟨hr, hjr, hnojr, ?_⟩
    intro hmem
    rcases List.mem_append.mp hmem with hmem | hmem
    · exact hnotgoner hmem
    · rw [List.mem_singleton.mp hmem] at hadding
      exact hki (h.one k i _ hadding hself)
  · exact h.one_after hafter hother
  · intro id hid
    rw [hrows, hjob]
    rcases List.mem_append.mp hid with hid | hid
    · exact h.missing id hid
    · rw [List.mem_singleton.mp hid]
      exact ⟨List.mem_map_of_mem hs, hnojob⟩
  · intro r hr
    rw [hrows] at hr
    rw [hjob]
    rcases h.account r hr with hold | hold | ⟨k, hk⟩ | hgone
    · exact .inl hold
    · exact .inr (.inl hold)
    · by_cases hki : k = i
      · rw [hki, hself] at hk
        refine .inr (.inr (.inr (List.mem_append_right _ (List.mem_singleton.mpr ?_))))
        exact (Option.some.inj hk).symm
      · exact .inr (.inr (.inl ⟨k, by rw [hother k hki]; exact hk⟩))
    · exact .inr (.inr (.inr (List.mem_append_left _ hgone)))
  · intro r hr
    rw [hrows] at hr
    exact h.pending r hr

end Steps

section Runs

variable {start : World} {gone : List Id}

theorem Ledger.step {pool : Pool ℕ (fun _ => Point) World} (h : Ledger start gone pool.state pool.tasks)
    (x : ℕ × Choice) :
    Ledger start (gone ++ (lostBy x (Pool.map (fun _ => code) pool)).toList)
      (Pool.step pointStep x pool).state (Pool.step pointStep x pool).tasks := by
  have heffect := next_effect x.2 (pool.tasks x.1) pool.state
  have hself : (Pool.step pointStep x pool).tasks x.1 = (next x.2 (pool.tasks x.1, pool.state)).1 :=
    Pool.step_tasks_self x pool
  have hother : ∀ i, i ≠ x.1 → (Pool.step pointStep x pool).tasks i = pool.tasks i :=
    fun i hi => Pool.step_tasks_of_ne hi pool
  have hstate : (Pool.step pointStep x pool).state = (next x.2 (pool.tasks x.1, pool.state)).2 := rfl
  have hlost : lostBy x (Pool.map (fun _ => code) pool) =
      if x.2.fails.isSome then addingAt (pool.tasks x.1) else none := by
    unfold lostBy
    rw [show (Pool.map (fun _ => code) pool).tasks x.1 = code (pool.tasks x.1) from rfl, adding_code]
  rw [hlost]
  generalize next x.2 (pool.tasks x.1, pool.state) = out at heffect hself hstate
  cases heffect with
  | quiet hp hp' hrows hqueue =>
    rw [hp, ite_self, Option.toList_none, List.append_nil]
    rw [hstate]
    exact h.quiet hp (hself ▸ hp') hother hrows hqueue
  | stores hp hnew hrow hrows hqueue =>
    have hnone : addingAt (pool.tasks x.1) = none := by
      rw [hp]
      rfl
    rw [hnone, ite_self, Option.toList_none, List.append_nil]
    rw [hstate]
    exact h.stores hnone hself hother hnew hrow hrows hqueue
  | adds hp hfails hp' hrows hqueue =>
    rw [hfails, if_neg Bool.false_ne_true, Option.toList_none, List.append_nil]
    rw [hstate]
    exact h.adds hp (hself ▸ hp') hother hrows hqueue
  | loses hp hfails hp' hrows hqueue =>
    rw [hfails, if_pos rfl, hp]
    rw [hstate]
    exact h.loses hp (hself ▸ hp') hother hrows hqueue

theorem Ledger.run (sched : List (ℕ × Choice)) : ∀ {gone : List Id} {pool : Pool ℕ (fun _ => Point) World},
    Ledger start gone pool.state pool.tasks →
      Ledger start (gone ++ lost sched (Pool.map (fun _ => code) pool)) (Pool.run pointStep sched pool).state
        (Pool.run pointStep sched pool).tasks := by
  induction sched with
  | nil =>
    intro gone pool h
    rw [lost, List.append_nil]
    exact h
  | cons x sched ih =>
    intro gone pool h
    have hrest := ih (h.step x)
    rw [List.append_assoc] at hrest
    rw [lost, Pool.step_map simulates]
    exact hrest

theorem ledger_start (hstart : JobsStored start) (requests : ℕ → Request) :
    Ledger start [] (startPoints requests start).state (startPoints requests start).tasks := by
  have hnone : ∀ i, addingAt ((startPoints requests start).tasks i) = none := by
    intro i
    show addingAt (startPoint (requests i)) = none
    cases requests i <;> rfl
  refine ⟨hstart.once, hstart.stored, fun j hj => .inl hj, ?_, ?_, ?_, fun s hs => .inl hs, fun s hs => .inl hs⟩
  · intro i dto userId s hp
    have hadding := hnone i
    rw [hp] at hadding
    cases hadding
  · intro i i' id hi
    rw [hnone] at hi
    cases hi
  · intro id hid
    cases hid

/-- What the ledger says of the requests. -/
theorem Ledger.accounted {pool : Pool ℕ (fun _ => Point) World} (h : Ledger start gone pool.state pool.tasks) :
    Accounted start gone (Pool.map (fun _ => code) pool) := by
  have hawaits : ∀ id, Awaits (Pool.map (fun _ => code) pool) id ↔ ∃ i, addingAt (pool.tasks i) = some id := by
    intro id
    refine exists_congr fun i => ?_
    show adding (code (pool.tasks i)) = some id ↔ _
    rw [adding_code]
  refine ⟨h.once, h.genuine, ?_⟩
  intro s hs
  refine (h.account s hs).imp_right ?_
  rintro (hjob | ⟨i, hi⟩ | hgone)
  · refine .queued hjob ?_ fun hgone => (h.missing _ hgone).2 hjob
    rw [hawaits]
    rintro ⟨i, hi⟩
    exact (h.awaited_of_adding hi).2.1 hjob
  · obtain ⟨_, hnojob, hnotgone⟩ := h.awaited_of_adding hi
    exact .awaited hnojob ((hawaits _).mpr ⟨i, hi⟩) hnotgone
  · refine .lost (h.missing _ hgone).2 ?_ hgone
    rw [hawaits]
    rintro ⟨i, hi⟩
    exact (h.awaited_of_adding hi).2.2 hgone

end Runs

/-! ## The jobs that the workers take -/

/-- What `processSubmission` reads of a job. -/
def SubmissionJob.data (j : SubmissionJob) : JobData :=
  { submissionId := j.submissionId, code := j.code, language := j.language, problemId := j.problemId }

/-- The jobs in the queue, in its order. -/
def queuedJobs (w : World) (n : Fin w.submissionQueue.length) : JobData := (w.submissionQueue.get n).data

/-- When every row has its job, the queue holds what the workers need: one job for each pending row. -/
theorem Ledger.queued {start w : World} {points : ℕ → Point} (h : Ledger start [] w points)
    (hqueue : start.submissionQueue = []) (hpending : ∀ s ∈ start.submissions.rows, s.status ≠ .pending)
    (hnone : ∀ i, addingAt (points i) = none) {v : Submissions.World} (hv : v.submissions = w.submissions) :
    Submissions.Queued (queuedJobs w) v := by
  have hgenuine : ∀ j ∈ w.submissionQueue, ∃ s ∈ w.submissions.rows, s.status = .pending ∧ j = jobOfRow s := by
    intro j hj
    refine (h.genuine j hj).resolve_left ?_
    rw [hqueue]
    exact List.not_mem_nil
  constructor
  · intro n n' hn
    have hinj := List.nodup_iff_injective_get.mp h.once
    have hlength : (w.submissionQueue.map SubmissionJob.submissionId).length = w.submissionQueue.length :=
      List.length_map ..
    have hsame : n.cast hlength.symm = n'.cast hlength.symm := by
      refine hinj ?_
      rw [List.get_eq_getElem, List.get_eq_getElem, List.getElem_map, List.getElem_map]
      exact hn
    exact Fin.cast_injective _ hsame
  · intro n
    obtain ⟨s, hs, hstatus, hj⟩ := hgenuine _ (List.get_mem w.submissionQueue n)
    refine ⟨s, hv ▸ hs, hstatus, ?_⟩
    show (w.submissionQueue.get n).data = jobFor s
    rw [hj]
    rfl
  · intro s hs hstatus
    rw [hv] at hs
    have hjob : HasJob w s.id := by
      rcases h.account s hs with hold | hjob | ⟨i, hi⟩ | hgone
      · exact absurd hstatus (hpending s hold)
      · exact hjob
      · rw [hnone] at hi
        cases hi
      · cases hgone
    obtain ⟨j, hj, hid⟩ := hjob
    obtain ⟨s', hs', _, rfl⟩ := hgenuine j hj
    -- rows with one id are one row
    have hsame : s' = s := by
      have hfind := Table.find?_key hs'
      rw [show s'.id = s.id from hid, Table.find?_key hs] at hfind
      exact (Option.some.inj hfind).symm
    obtain ⟨n, hn⟩ := List.get_of_mem hj
    refine ⟨n, ?_⟩
    show (w.submissionQueue.get n).data = jobFor s
    rw [hn, hsame]
    rfl

/-- **Main**: in every run of requests, whatever fails, no job is added twice or without its row; each
    new row has its job, or a request is about to add it, or the call that would have added it threw;
    and when no request is about to and no call threw, the queue is complete. -/
theorem jobs_accounted (requests : ℕ → Request) {start : World} (hstart : JobsStored start)
    (sched : List (ℕ × Choice)) :
    Accounted start (lost sched (startRequests requests start))
        (Pool.run requestStep sched (startRequests requests start)) ∧
      (start.submissionQueue = [] → (∀ s ∈ start.submissions.rows, s.status ≠ .pending) →
        lost sched (startRequests requests start) = [] →
          (∀ id, ¬ Awaits (Pool.run requestStep sched (startRequests requests start)) id) →
            ∀ v : Submissions.World,
              v.submissions = (Pool.run requestStep sched (startRequests requests start)).state.submissions →
                Submissions.Queued (queuedJobs (Pool.run requestStep sched (startRequests requests start)).state) v) := by
  have hledger := (ledger_start hstart requests).run sched
  rw [List.nil_append, map_startPoints] at hledger
  have hrun : Pool.run requestStep sched (startRequests requests start) =
      Pool.map (fun _ => code) (Pool.run pointStep sched (startPoints requests start)) := by
    rw [← map_startPoints, Pool.run_map simulates]
  rw [hrun]
  refine ⟨hledger.accounted, ?_⟩
  intro hqueue hpending hlost hawaits v hv
  rw [hlost] at hledger
  refine hledger.queued hqueue hpending ?_ hv
  intro i
  cases hi : addingAt ((Pool.run pointStep sched (startPoints requests start)).tasks i) with
  | none => rfl
  | some id => exact absurd ⟨i, (adding_code _).trans hi⟩ (hawaits id)

/-! ## Two requests at once -/

/-- Two requests take turns; the queue call of the second one throws. -/
def closedInBetween : List (ℕ × Choice) :=
  (List.range 7).flatMap fun n =>
    [(0, ⟨none, "s1", 1⟩), (1, ⟨if n = 6 then some "Connection is closed." else none, "s2", 1⟩)]

/-- The job of the second row is lost; that of the first one is in the queue. -/
theorem jobs_accounted_closed :
    lost closedInBetween (startRequests (fun _ => .create answerDto "u1") duringContest) = ["s2"] ∧
      Accounted duringContest ["s2"]
        (Pool.run requestStep closedInBetween (startRequests (fun _ => .create answerDto "u1") duringContest)) := by
  have hlost : lost closedInBetween (startRequests (fun _ => .create answerDto "u1") duringContest) = ["s2"] := by
    decide +kernel
  have hstart : JobsStored duringContest := by
    refine ⟨List.nodup_nil, ?_⟩
    intro j hj
    cases hj
  refine ⟨hlost, ?_⟩
  have haccounted := (jobs_accounted (fun _ => .create answerDto "u1") hstart closedInBetween).1
  rw [hlost] at haccounted
  exact haccounted

end CodeWeaknesses.Contests
