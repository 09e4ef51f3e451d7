import CodeWeaknesses.Contest.Finished
import CodeWeaknesses.Submissions.Written

/-!
# Submissions and the window of their contest

`create` accepts a submission by the start and end times of the contest; a manual finish
sets `finishedAt`, which `create` does not read. The clock is read twice: once for the
check and once for `submittedAt`.

Results:
* `created_run`: what `create` stores is a row as it was created.
* `Kept.step`: what a run keeps about windows and rows, one step of a request at a time.
* `Rejecting.step`: a `create` that found its contest finished goes on to an error.
* `window_kept`: **in a run whose `create`s find no finished contest inside its window, and
  read `submittedAt` before its end, every submission is in the window, and a finished
  contest takes none.**
* `window_missed`: a contest that is finished by hand, and a late second reading.
-/

namespace CodeWeaknesses.Contests

open Lib Submissions

/-! ## The condition -/

/-- A time inside the window of the contest. -/
def Within (contest : Contest) (t : Date) : Prop := contest.startTime ≤ t ∧ t ≤ contest.endTime

instance (contest : Contest) (t : Date) : Decidable (Within contest t) := by
  unfold Within; infer_instance

/-- The stored contest is finished. -/
def Finished (w : World) (id : Id) : Prop :=
  ∃ contest, w.contests.find? id = some contest ∧ contest.finishedAt.isSome = true

/-- A `create` that checks the window of a contest which is finished by then is outside the
    window, or will find no user or no code; and one that reads the clock for `submittedAt`
    reads no later than the end time. -/
structure InTime (x : ℕ × Choice) (pool : Pool ℕ (fun _ => M Outcome) World) : Prop where
  closed : ∀ dto userId contest, pool.tasks x.1 = returnSubmission (checkWindow dto userId contest) →
    Finished pool.state dto.contestId → ¬ Within contest (pool.state.clock + x.2.elapsed) ∨
      pool.state.users.find? userId = none ∨ isBlank dto.code = true
  stamped : ∀ dto userId contest, pool.tasks x.1 = returnSubmission (store dto userId) →
    pool.state.contests.find? dto.contestId = some contest →
      pool.state.clock + x.2.elapsed ≤ contest.endTime

/-- The row was submitted in the window of its contest. -/
def InWindow (w : World) (row : Submission) : Prop :=
  ∃ contest, w.contests.find? row.contestId = some contest ∧
    ∃ submittedAt, row.submittedAt = some submittedAt ∧ Within contest submittedAt

/-- Every row that `w'` has and `w` has not was submitted in its window. -/
def RowsInWindow (w w' : World) : Prop :=
  ∀ row ∈ w'.submissions.rows, row ∈ w.submissions.rows ∨ InWindow w' row

/-- No step of request `i` stores a submission, and when `i` has ended it has raised an error. -/
def TurnedDown (i : ℕ) (sched : List (ℕ × Choice)) (pool : Pool ℕ (fun _ => M Outcome) World) : Prop :=
  (∀ mid c rest, sched = mid ++ (i, c) :: rest →
    (Pool.run requestStep (mid ++ [(i, c)]) pool).state.submissions =
      (Pool.run requestStep mid pool).state.submissions) ∧
  (((Pool.run requestStep sched pool).tasks i).ended = true →
    ∃ e, (Pool.run requestStep sched pool).tasks i = .raise e)

/-! ## Windows -/

/-- The start and end times of the stored contest. -/
def windowOf (w : World) (id : Id) : Option (Date × Date) :=
  (w.contests.find? id).map fun contest => (contest.startTime, contest.endTime)

/-- The contest has the window that `w₀` stores for it. -/
def Known (w₀ : World) (contest : Contest) : Prop :=
  windowOf w₀ contest.id = some (contest.startTime, contest.endTime)

/-- The contest has started by `t`. -/
def Started (w₀ : World) (id : Id) (t : Date) : Prop :=
  ∃ window, windowOf w₀ id = some window ∧ window.1 ≤ t

/-- `t` is in the window of the contest. -/
def Timely (w₀ : World) (id : Id) (t : Date) : Prop :=
  ∃ window, windowOf w₀ id = some window ∧ window.1 ≤ t ∧ t ≤ window.2

/-- Saving a contest with its stored window changes no window. -/
theorem windowOf_save {w : World} {contest : Contest} (h : Known w contest) (c : Choice) (id : Id) :
    windowOf (answer (.saveContest contest) c w).2 id = windowOf w id := by
  unfold answer
  cases c.fails with
  | some message => rfl
  | none =>
    show ((w.contests.upsert contest).find? id).map _ = _
    rw [Table.find?_upsert]
    split_ifs with hid
    · rw [hid]
      exact h.symm
    · rfl

theorem windowOf_answer {o : Op} (ho : o.writesContest = false) (c : Choice) (w : World) (id : Id) :
    windowOf (answer o c w).2 id = windowOf w id := by
  rw [windowOf, contests_answer ho, windowOf]

/-- A contest that is read has the stored window. -/
theorem known_of_find? {w : World} {id : Id} {contest : Contest} (h : w.contests.find? id = some contest) :
    Known w contest ∧ contest.id = id := by
  have hid := (Table.find?_eq_some_iff.mp h).2
  refine ⟨?_, hid⟩
  rw [Known, windowOf, hid, h]
  rfl

/-! ## What a run keeps -/

/-- What a request at the point knows at the time `now`. -/
def PointOk (w₀ : World) (now : Date) : Point → Prop
  | .dating contest => Known w₀ contest
  | .saving contest => Known w₀ contest
  | .looping _ contests => ∀ contest ∈ contests, Known w₀ contest
  | .loopEmitting _ _ rest => ∀ contest ∈ rest, Known w₀ contest
  | .checkingWindow dto _ contest => contest.id = dto.contestId ∧ Known w₀ contest
  | .checkingUser dto _ => Started w₀ dto.contestId now
  | .stamping dto _ => Started w₀ dto.contestId now
  | .storing dto _ submittedAt => Timely w₀ dto.contestId submittedAt
  | _ => True

theorem Started.later {w₀ : World} {id : Id} {t t' : Date} (h : Started w₀ id t) (ht : t ≤ t') :
    Started w₀ id t' := by
  obtain ⟨window, hwindow, hle⟩ := h
  exact ⟨window, hwindow, hle.trans ht⟩

theorem PointOk.later {w₀ : World} {now now' : Date} {p : Point} (h : PointOk w₀ now p) (ht : now ≤ now') :
    PointOk w₀ now' p := by
  cases p with
  | checkingUser dto userId => exact Started.later h ht
  | stamping dto userId => exact Started.later h ht
  | _ => exact h

/-- The windows of `w₀` are kept, and the rows that `w₀` does not have are in their window. -/
structure Kept (w₀ : World) (pool : Pool ℕ (fun _ => Point) World) : Prop where
  points : ∀ i, PointOk w₀ pool.state.clock (pool.tasks i)
  windows : ∀ id, windowOf pool.state id = windowOf w₀ id
  rows : ∀ row ∈ pool.state.submissions.rows, row ∈ w₀.submissions.rows ∨
    ∃ submittedAt, row.submittedAt = some submittedAt ∧ Timely w₀ row.contestId submittedAt

section Steps

variable {w₀ w : World} {c : Choice}

theorem le_elapsed (t : Date) (c : Choice) : t ≤ t + c.elapsed :=
  Int.le_add_of_nonneg_right (Int.natCast_nonneg _)

theorem clock_next (c : Choice) (p : Point) (w : World) : w.clock ≤ (next c (p, w)).2.clock := by
  rw [next_state]
  cases callOf p with
  | none => exact le_rfl
  | some o =>
    show w.clock ≤ (answer o c w).2.clock
    rw [clock_answer]
    exact le_elapsed _ c

/-- A step changes no window. -/
theorem windowOf_next {p : Point} (hp : PointOk w₀ w.clock p) (hw : ∀ id, windowOf w id = windowOf w₀ id)
    (id : Id) : windowOf (next c (p, w)).2 id = windowOf w id := by
  rw [next_state]
  cases p with
  | saving contest => exact windowOf_save ((hw _).trans hp) c id
  | looping now contests =>
    cases contests with
    | nil => rfl
    | cons contest rest =>
      have hcontest : Known w { contest with finishedAt := some now } :=
        (hw _).trans (hp contest List.mem_cons_self)
      exact windowOf_save hcontest c id
  | returned outcome => rfl
  | raised e => rfl
  | _ => exact windowOf_answer rfl c w id

/-- A step stores a row only from `storing`, with the time that was read. -/
theorem rows_next {p : Point} {row : Submission} (h : row ∈ (next c (p, w)).2.submissions.rows) :
    row ∈ w.submissions.rows ∨ ∃ dto userId submittedAt, p = .storing dto userId submittedAt ∧
      row = newSubmission c.uuid dto.code dto.language dto.problemId dto.contestId userId .pending
        submittedAt := by
  rw [next_state] at h
  have hkept : ∀ {o : Op}, o.writesSubmission = false → row ∈ (answer o c w).2.submissions.rows →
      row ∈ w.submissions.rows := by
    intro o ho hrow
    rwa [submissions_answer ho] at hrow
  cases p with
  | storing dto userId submittedAt =>
    simp only [callOf, Option.elim, answer] at h
    cases hf : c.fails with
    | some message =>
      rw [hf] at h
      exact .inl h
    | none =>
      rw [hf] at h
      simp only [answerOk] at h
      split_ifs at h
      · exact .inl h
      · rcases Table.mem_upsert.mp h with rfl | ⟨hrow, _⟩
        · exact .inr ⟨dto, userId, submittedAt, rfl, rfl⟩
        · exact .inl hrow
  | looping now contests =>
    cases contests with
    | nil => exact .inl h
    | cons contest rest => exact .inl (hkept rfl h)
  | returned outcome => exact .inl h
  | raised e => exact .inl h
  | _ => exact .inl (hkept rfl h)

/-- A step by a call whose answer leads to a point that is right. -/
theorem pointOk_goOn (o : Op) {f : Res o → Point}
    (hf : ∀ a, answerOk c { w with clock := w.clock + c.elapsed } o = (.ok a, (answer o c w).2) →
      PointOk w₀ (w.clock + c.elapsed) (f a)) :
    PointOk w₀ (goOn f (answer o c w)).2.clock (goOn f (answer o c w)).1 := by
  rw [goOn_state, clock_answer]
  rcases hr : answer o c w with ⟨r, w'⟩
  cases r with
  | error e => trivial
  | ok a =>
    refine hf a ?_
    rw [hr]
    exact answerOk_of_answer hr

/-- One step, when `submittedAt` is read before the end time. -/
theorem PointOk.next {p : Point} (hp : PointOk w₀ w.clock p) (hw : ∀ id, windowOf w id = windowOf w₀ id)
    (hstamp : ∀ dto userId contest, p = .stamping dto userId →
      w.contests.find? dto.contestId = some contest → w.clock + c.elapsed ≤ contest.endTime) :
    PointOk w₀ (next c (p, w)).2.clock (next c (p, w)).1 := by
  have hknown : ∀ {id contest}, w.contests.find? id = some contest →
      Known w₀ contest ∧ contest.id = id := by
    intro id contest hfind
    obtain ⟨hcontest, hid⟩ := known_of_find? hfind
    exact ⟨(hw _).symm.trans hcontest, hid⟩
  cases p with
  | finishing id =>
    refine pointOk_goOn (.findContest id) fun contest? hread => ?_
    simp only [answerOk, Prod.mk.injEq, Except.ok.injEq] at hread
    cases contest? with
    | none => trivial
    | some contest =>
      have hcontest := hknown (Option.filter_eq_some_iff.mp hread.1).1
      show PointOk w₀ _ (if contest.finishedAt.isSome then _ else _)
      split_ifs
      · trivial
      · exact hcontest.1
  | dating contest =>
    exact pointOk_goOn .newDate fun now _ => hp
  | saving contest => exact pointOk_goOn (.saveContest contest) fun _ _ => trivial
  | emitting contest => exact pointOk_goOn (.emitFinished contest.id) fun _ _ => trivial
  | ticking => exact pointOk_goOn .newDate fun _ _ => trivial
  | finding now =>
    refine pointOk_goOn (.findExpired now) fun contests hread => ?_
    simp only [answerOk, Prod.mk.injEq, Except.ok.injEq] at hread
    intro contest hmem
    rw [← hread.1] at hmem
    have hrow := (List.mem_filter.mp hmem).1
    exact (hknown (Table.find?_key hrow)).1
  | looping now contests =>
    cases contests with
    | nil => exact hp
    | cons contest rest =>
      exact pointOk_goOn (.saveContest _) fun _ _ contest' hmem => hp contest' (List.mem_cons_of_mem _ hmem)
  | loopEmitting now contest rest => exact pointOk_goOn (.emitFinished contest.id) fun _ _ => hp
  | creating dto userId =>
    refine pointOk_goOn (.findProblem dto.problemId) fun problem? _ => ?_
    cases problem? <;> trivial
  | readingContest dto userId problem =>
    refine pointOk_goOn (.findContest dto.contestId) fun contest? hread => ?_
    simp only [answerOk, Prod.mk.injEq, Except.ok.injEq] at hread
    cases contest? with
    | none => trivial
    | some contest =>
      obtain ⟨hcontest, hid⟩ := hknown (Option.filter_eq_some_iff.mp hread.1).1
      show PointOk w₀ _ (if problem.contest ≠ some dto.contestId then _ else _)
      split_ifs
      · trivial
      · exact ⟨hid, hcontest⟩
  | checkingWindow dto userId contest =>
    obtain ⟨hid, hcontest⟩ := hp
    refine pointOk_goOn .newDate fun now hread => ?_
    simp only [answerOk, Prod.mk.injEq, Except.ok.injEq] at hread
    unfold afterWindow
    split_ifs with hstart
    · trivial
    · trivial
    · refine ⟨(contest.startTime, contest.endTime), ?_, ?_⟩
      · rw [← hid]
        exact hcontest
      · rw [hread.1]
        exact not_lt.mp hstart
  | checkingUser dto userId =>
    refine pointOk_goOn (.findUser userId) fun user? _ => ?_
    cases user? with
    | none => trivial
    | some user =>
      show PointOk w₀ _ (if isBlank dto.code then _ else _)
      split_ifs
      · trivial
      · exact Started.later hp (le_elapsed _ c)
  | stamping dto userId =>
    refine pointOk_goOn .newDate fun now hread => ?_
    simp only [answerOk, Prod.mk.injEq, Except.ok.injEq] at hread
    obtain ⟨window, hwindow, hstart⟩ := hp
    refine ⟨window, hwindow, ?_, ?_⟩
    · rw [← hread.1]
      exact hstart.trans (le_elapsed _ c)
    · rw [← hread.1]
      obtain ⟨contest, hfind, rfl⟩ := Option.map_eq_some_iff.mp ((hw dto.contestId).trans hwindow)
      exact hstamp dto userId contest rfl hfind
  | storing dto userId submittedAt => exact pointOk_goOn (.saveSubmission ..) fun _ _ => trivial
  | enqueueing dto userId submission => exact pointOk_goOn (.enqueueSubmission ..) fun _ _ => trivial
  | returned outcome => trivial
  | raised e => trivial

end Steps

/-- What one step of a request keeps. -/
theorem Kept.step {w₀ : World} {pool : Pool ℕ (fun _ => Point) World} (h : Kept w₀ pool) {x : ℕ × Choice}
    (hstamp : ∀ dto userId contest, pool.tasks x.1 = .stamping dto userId →
      pool.state.contests.find? dto.contestId = some contest →
        pool.state.clock + x.2.elapsed ≤ contest.endTime) :
    Kept w₀ (Pool.step pointStep x pool) := by
  constructor
  · intro i
    by_cases hi : i = x.1
    · rw [hi, Pool.step_tasks_self]
      exact (h.points x.1).next h.windows hstamp
    · rw [Pool.step_tasks_of_ne hi]
      exact (h.points i).later (clock_next x.2 _ _)
  · intro id
    exact (windowOf_next (h.points x.1) h.windows id).trans (h.windows id)
  · intro row hrow
    rcases rows_next hrow with hrow | ⟨dto, userId, submittedAt, hp, rfl⟩
    · exact h.rows row hrow
    · have hpoint := h.points x.1
      rw [hp] at hpoint
      exact .inr ⟨submittedAt, rfl, hpoint⟩

/-- What the requests of a run store are rows as they were created. -/
theorem created_run (requests : ℕ → Request) (w : World) (sched : List (ℕ × Choice)) {row : Submission}
    (h : row ∈ (Pool.run requestStep sched (startRequests requests w)).state.submissions.rows) :
    row ∈ w.submissions.rows ∨ WrittenBy .created row := by
  rw [← map_startPoints, Pool.run_map simulates] at h
  have hrun : ∀ row ∈ (Pool.run pointStep sched (startPoints requests w)).state.submissions.rows,
      row ∈ w.submissions.rows ∨ WrittenBy .created row := by
    refine Pool.run_keeps (I := fun pool : Pool ℕ (fun _ => Point) World =>
      ∀ row ∈ pool.state.submissions.rows, row ∈ w.submissions.rows ∨ WrittenBy .created row) ?_ sched
      fun row hrow => .inl hrow
    intro x pool hpool row hrow
    rcases rows_next hrow with hrow | ⟨dto, userId, submittedAt, _, rfl⟩
    · exact hpool row hrow
    · exact .inr ⟨rfl, rfl, rfl⟩
  exact hrun row h

/-! ## A finished contest -/

/-- A contest is finished iff it is stored and not unfinished. -/
theorem finished_iff {w : World} {id : Id} :
    Finished w id ↔ (windowOf w id).isSome ∧ ¬ Unfinished w id := by
  rw [windowOf, Option.isSome_map]
  constructor
  · rintro ⟨contest, hfind, hfinished⟩
    refine ⟨by rw [hfind]; rfl, ?_⟩
    rintro ⟨contest', hfind', hnone⟩
    have hsame : contest' = contest := Option.some.inj (hfind'.symm.trans hfind)
    rw [← hsame, hnone] at hfinished
    cases hfinished
  · rintro ⟨hstored, hnot⟩
    obtain ⟨contest, hfind⟩ := Option.isSome_iff_exists.mp hstored
    refine ⟨contest, hfind, Option.isSome_iff_ne_none.mpr fun hnone => hnot ⟨contest, hfind, hnone⟩⟩

/-- Where a `create` is that will not store, as its contest is finished. -/
def Rejecting (w : World) : Point → Prop
  | .creating dto _ => Finished w dto.contestId
  | .readingContest dto _ _ => Finished w dto.contestId
  | .checkingWindow dto _ _ => Finished w dto.contestId
  | .checkingUser dto userId => w.users.find? userId = none ∨ isBlank dto.code = true
  | .raised _ => True
  | _ => False

/-- A state with the same users, in which no finished contest is open again. -/
theorem Rejecting.of_later {w w' : World} {p : Point} (h : Rejecting w p) (husers : w'.users = w.users)
    (hfinished : ∀ id, Finished w id → Finished w' id) : Rejecting w' p := by
  cases p with
  | creating dto userId => exact hfinished _ h
  | readingContest dto userId problem => exact hfinished _ h
  | checkingWindow dto userId contest => exact hfinished _ h
  | checkingUser dto userId =>
    show w'.users.find? userId = none ∨ _
    rw [husers]
    exact h
  | raised e => trivial
  | _ => exact h.elim

/-- It stores nothing in its next step. -/
theorem Rejecting.submissions {w : World} {c : Choice} {p : Point} (h : Rejecting w p) :
    (next c (p, w)).2.submissions = w.submissions := by
  rw [next_state]
  cases p with
  | creating | readingContest | checkingWindow | checkingUser => exact submissions_answer rfl c w
  | raised e => rfl
  | _ => exact h.elim

/-- A step by a call that leads on to a rejection. -/
theorem rejecting_goOn (o : Op) {w : World} {c : Choice} {f : Res o → Point}
    (hf : ∀ a, answerOk c { w with clock := w.clock + c.elapsed } o = (.ok a, (answer o c w).2) →
      Rejecting w (f a)) : Rejecting w (goOn f (answer o c w)).1 := by
  rcases hr : answer o c w with ⟨r, w'⟩
  cases r with
  | error e => trivial
  | ok a =>
    refine hf a ?_
    rw [hr]
    exact answerOk_of_answer hr

/-- It goes on to its error, if another check turns down what it checks. -/
theorem Rejecting.next {w : World} {c : Choice} {p : Point} (h : Rejecting w p)
    (hclosed : ∀ dto userId contest, p = .checkingWindow dto userId contest →
      Finished w dto.contestId → ¬ Within contest (w.clock + c.elapsed) ∨
        w.users.find? userId = none ∨ isBlank dto.code = true) :
    Rejecting w (next c (p, w)).1 := by
  cases p with
  | creating dto userId =>
    refine rejecting_goOn (.findProblem dto.problemId) fun problem? _ => ?_
    cases problem? with
    | none => trivial
    | some problem => exact h
  | readingContest dto userId problem =>
    refine rejecting_goOn (.findContest dto.contestId) fun contest? _ => ?_
    cases contest? with
    | none => trivial
    | some contest =>
      show Rejecting w (if problem.contest ≠ some dto.contestId then _ else _)
      split_ifs
      · trivial
      · exact h
  | checkingWindow dto userId contest =>
    refine rejecting_goOn .newDate fun now hread => ?_
    simp only [answerOk, Prod.mk.injEq, Except.ok.injEq] at hread
    unfold afterWindow
    split_ifs with hstart hend
    · trivial
    · trivial
    · have hwithin : Within contest (w.clock + c.elapsed) :=
        hread.1 ▸ ⟨not_lt.mp hstart, not_lt.mp hend⟩
      exact (hclosed dto userId contest rfl h).resolve_left fun hnot => hnot hwithin
  | checkingUser dto userId =>
    refine rejecting_goOn (.findUser userId) fun user? hread => ?_
    simp only [answerOk, Prod.mk.injEq, Except.ok.injEq] at hread
    cases user? with
    | none => trivial
    | some user =>
      rcases h with hnone | hblank
      · rw [hread.1] at hnone
        cases hnone
      · rw [show afterUser dto userId (some user) = .raised (.badRequest "Code cannot be empty") from
          if_pos hblank]
        trivial
  | raised e => trivial
  | _ => exact h.elim

/-- One step of any request, while request `i` is rejecting. -/
theorem Rejecting.step {w₀ : World} {i : ℕ} {pool : Pool ℕ (fun _ => Point) World} {x : ℕ × Choice}
    (h : Rejecting pool.state (pool.tasks i)) (hkept : Kept w₀ pool) (hwf : WellFormed (pool.tasks x.1))
    (hclosed : ∀ dto userId contest, pool.tasks x.1 = .checkingWindow dto userId contest →
      Finished pool.state dto.contestId → ¬ Within contest (pool.state.clock + x.2.elapsed) ∨
        pool.state.users.find? userId = none ∨ isBlank dto.code = true) :
    Rejecting (Pool.step pointStep x pool).state ((Pool.step pointStep x pool).tasks i) := by
  have husers : (Contests.next x.2 (pool.tasks x.1, pool.state)).2.users = pool.state.users := by
    rw [next_state]
    cases callOf (pool.tasks x.1) with
    | none => rfl
    | some o => exact users_answer o x.2 pool.state
  have hfinished : ∀ id, Finished pool.state id →
      Finished (Contests.next x.2 (pool.tasks x.1, pool.state)).2 id := by
    intro id hid
    rw [finished_iff] at hid ⊢
    rw [windowOf_next (hkept.points x.1) hkept.windows]
    exact ⟨hid.1, fun hu => hid.2 ((next_moved hwf x.2 pool.state).unfinished id hu)⟩
  refine Rejecting.of_later ?_ husers hfinished
  by_cases hi : i = x.1
  · subst hi
    rw [Pool.step_tasks_self]
    exact h.next hclosed
  · rwa [Pool.step_tasks_of_ne hi]

/-! ## Runs -/

/-- What the steps of a run keep together. -/
structure Running (w₀ : World) (pool : Pool ℕ (fun _ => Point) World) : Prop where
  kept : Kept w₀ pool
  wellFormed : ∀ i, WellFormed (pool.tasks i)

theorem running_start (requests : ℕ → Request) (w : World) : Running w (startPoints requests w) where
  kept := by
    refine ⟨fun i => ?_, fun _ => rfl, fun row hrow => .inl hrow⟩
    show PointOk w w.clock (startPoint (requests i))
    cases requests i <;> trivial
  wellFormed := wellFormed_startPoints requests w

theorem Running.step {w₀ : World} {pool : Pool ℕ (fun _ => Point) World} {x : ℕ × Choice}
    (h : Running w₀ pool) (hx : InTime x (Pool.map (fun _ => code) pool)) :
    Running w₀ (Pool.step pointStep x pool) where
  kept := h.kept.step fun dto userId contest hp hfind =>
    hx.stamped dto userId contest (congrArg code hp) hfind
  wellFormed := wellFormed_step h.wellFormed x

/-- A rejecting request stays so. -/
theorem rejecting_run {w₀ : World} {i : ℕ} {pool : Pool ℕ (fun _ => Point) World}
    {sched : List (ℕ × Choice)} (hg : Pool.Guarded pointStep (fun x pool => InTime x (Pool.map (fun _ => code) pool)) sched pool)
    (hrun : Running w₀ pool) (h : Rejecting pool.state (pool.tasks i)) :
    Rejecting (Pool.run pointStep sched pool).state ((Pool.run pointStep sched pool).tasks i) := by
  refine (Pool.invariant (I := fun pool => Running w₀ pool ∧ Rejecting pool.state (pool.tasks i)) ?_ hg
    ⟨hrun, h⟩).2
  rintro x pool hx ⟨hrun, h⟩
  exact ⟨hrun.step hx, h.step hrun.kept (hrun.wellFormed x.1) fun dto userId contest hp =>
    hx.closed dto userId contest (congrArg code hp)⟩

/-- A request that is rejecting is turned down. -/
theorem turnedDown_of_rejecting {w₀ : World} {i : ℕ} {pool : Pool ℕ (fun _ => Point) World}
    {sched : List (ℕ × Choice)}
    (hg : Pool.Guarded pointStep (fun x pool => InTime x (Pool.map (fun _ => code) pool)) sched pool)
    (hrun : Running w₀ pool) (h : Rejecting pool.state (pool.tasks i)) :
    TurnedDown i sched (Pool.map (fun _ => code) pool) := by
  constructor
  · rintro mid c rest rfl
    have hmid := rejecting_run ((Pool.guarded_append mid _ _).mp hg).1 hrun h
    rw [Pool.run_append, Pool.run_map simulates]
    show (Pool.step requestStep (i, c)
      (Pool.map (fun _ => code) (Pool.run pointStep mid pool))).state.submissions = _
    rw [Pool.step_map simulates]
    exact hmid.submissions
  · intro hended
    have hend := rejecting_run hg hrun h
    rw [Pool.run_map simulates] at hended ⊢
    have hended : (code ((Pool.run pointStep sched pool).tasks i)).ended = true := hended
    show ∃ e, code ((Pool.run pointStep sched pool).tasks i) = .raise e
    cases hp : (Pool.run pointStep sched pool).tasks i with
    | raised e => exact ⟨e, rfl⟩
    | creating | readingContest | checkingWindow | checkingUser =>
      rw [hp] at hended
      cases hended
    | _ =>
      rw [hp] at hend
      exact hend.elim

/-- **Main**: if no `create` checks a finished contest inside its window, and none reads
    `submittedAt` after its end, then every submission of a run is in the window of its
    contest, and a `create` that starts on a finished contest stores nothing and ends in an
    error. -/
theorem window_kept {requests : ℕ → Request} {w : World} {sched : List (ℕ × Choice)}
    (hg : Pool.Guarded requestStep InTime sched (startRequests requests w)) :
    RowsInWindow w (Pool.run requestStep sched (startRequests requests w)).state ∧
      ∀ i dto userId pre post, requests i = .create dto userId → sched = pre ++ post →
        (∀ x ∈ pre, x.1 ≠ i) →
          Finished (Pool.run requestStep pre (startRequests requests w)).state dto.contestId →
            TurnedDown i post (Pool.run requestStep pre (startRequests requests w)) := by
  rw [← map_startPoints, Pool.guarded_map simulates] at hg
  simp only [← map_startPoints, Pool.run_map simulates]
  have hrunning : ∀ {sched}, Pool.Guarded pointStep (fun x pool => InTime x (Pool.map (fun _ => code) pool))
      sched (startPoints requests w) → Running w (Pool.run pointStep sched (startPoints requests w)) :=
    fun hg => Pool.invariant (fun _ _ hx hrun => hrun.step hx) hg (running_start requests w)
  constructor
  · intro row hrow
    have hkept := (hrunning hg).kept
    refine (hkept.rows row hrow).imp_right ?_
    rintro ⟨submittedAt, hsubmitted, window, hwindow, hle⟩
    obtain ⟨contest, hfind, rfl⟩ := Option.map_eq_some_iff.mp ((hkept.windows _).trans hwindow)
    exact ⟨contest, hfind, submittedAt, hsubmitted, hle⟩
  · rintro i dto userId pre post hi rfl hpre hfinished
    obtain ⟨hgpre, hgpost⟩ := (Pool.guarded_append pre post _).mp hg
    refine turnedDown_of_rejecting hgpost (hrunning hgpre) ?_
    rw [Pool.run_tasks_of_not_mem hpre,
      show (startPoints requests w).tasks i = .creating dto userId from congrArg startPoint hi]
    exact hfinished

/-! ## A manual finish and a late reading -/

def answerDto : CreateSubmissionDto where
  code := "print(42)"
  language := .python
  problemId := "p1"
  contestId := "c1"

def firstProblem : Problem :=
  { id := "p1", title := "A", description := "", timeLimitMs := 2000, contest := some "c1" }

/-- A contest with one problem and one user, inside its window. -/
def duringContest : World where
  contests := Table.empty.upsert openContest
  problems := Table.empty.upsert firstProblem
  users := Table.empty.upsert { id := "u1", name := "Bob", passwordHash := "", role := .user }
  submissions := .empty
  submissionQueue := []
  emitted := []
  clock := 100

/-- Request 1 finishes the contest, the others submit to it. -/
def submitsAndFinish : ℕ → Request
  | 1 => .finishContest "c1"
  | _ => .create answerDto "u1"

/-- While the contest is open, a step before its end is in time. -/
theorem inTime_of_open {x : ℕ × Choice} {pool : Pool ℕ (fun _ => M Outcome) World}
    (hcontests : pool.state.contests = Table.empty.upsert openContest)
    (hclock : pool.state.clock + x.2.elapsed ≤ 1000) : InTime x pool := by
  have honly : ∀ {id contest}, pool.state.contests.find? id = some contest → contest = openContest := by
    intro id contest hfind
    rw [hcontests] at hfind
    exact List.mem_singleton.mp (Table.find?_eq_some_iff.mp hfind).1
  constructor
  · rintro dto userId contest _ ⟨stored, hfind, hfinished⟩
    rw [honly hfind] at hfinished
    cases hfinished
  · intro dto userId contest _ hfind
    rw [honly hfind]
    exact hclock

/-- A step that does not read the clock is in time. -/
theorem inTime_of_ne {x : ℕ × Choice} {pool : Pool ℕ (fun _ => M Outcome) World}
    (h : ∀ k, pool.tasks x.1 ≠ .call .newDate k) : InTime x pool :=
  ⟨fun _ _ _ hp => absurd hp (h _), fun _ _ _ hp => absurd hp (h _)⟩

/-- What is left when the clock has been read. -/
def onDate (now : Date) : M Outcome → M Outcome
  | .call .newDate k => k (.ok now)
  | p => p

/-- A `create` that raises an error at its reading of the clock is in time. -/
theorem inTime_of_onDate {x : ℕ × Choice} {pool : Pool ℕ (fun _ => M Outcome) World} {e : Err}
    (h : onDate (pool.state.clock + x.2.elapsed) (pool.tasks x.1) = .raise e) : InTime x pool := by
  set now := pool.state.clock + x.2.elapsed with hnow
  constructor
  · intro dto userId contest hp _
    refine .inl fun hwithin => ?_
    have hraise : returnSubmission
        (if contest.startTime > now then throw (.badRequest "Contest has not started yet")
          else if contest.endTime < now then throw (.badRequest "Contest has ended")
          else checkUser dto userId) = .raise e := by
      rw [hp] at h
      exact h
    rw [if_neg (not_lt.mpr hwithin.1), if_neg (not_lt.mpr hwithin.2)] at hraise
    cases hraise
  · intro dto userId contest hp _
    rw [hp] at h
    cases h

/-- Request 0 submits, request 1 finishes the contest, request 2 checks after the end. -/
def inTimeSched : List (ℕ × Choice) :=
  inOrder [0, 0, 0, 0, 0, 0, 0, 1, 1, 1, 1, 2, 2] ++ [(2, { fails := none, uuid := "s2", elapsed := 5000 })]

theorem guarded_inTimeSched :
    Pool.Guarded requestStep InTime inTimeSched (startRequests submitsAndFinish duringContest) := by
  refine ⟨?_, ?_, ?_, ?_, ?_, ?_, ?_, ?_, ?_, ?_, ?_, ?_, ?_, ?_, trivial⟩
  iterate 10 exact inTime_of_open rfl (by decide)
  iterate 3 exact inTime_of_ne fun k h => by cases h
  exact inTime_of_onDate rfl

theorem window_kept_inTime :
    let start := startRequests submitsAndFinish duringContest
    RowsInWindow duringContest (Pool.run requestStep inTimeSched start).state ∧
      ∀ i dto userId pre post, submitsAndFinish i = .create dto userId → inTimeSched = pre ++ post →
        (∀ x ∈ pre, x.1 ≠ i) → Finished (Pool.run requestStep pre start).state dto.contestId →
          TurnedDown i post (Pool.run requestStep pre start) :=
  @window_kept submitsAndFinish duringContest inTimeSched guarded_inTimeSched

/-- The contest is finished by hand at 102, and a `create` that starts then is stored; and a
    `create` that passes the check at 103 is stored with the time of its second reading. -/
theorem window_missed :
    let start := startRequests submitsAndFinish duringContest
    let finished := Pool.run requestStep (inOrder [1, 1, 1, 1]) start
    let submitted := Pool.run requestStep (inOrder [0, 0, 0, 0, 0, 0, 0]) finished
    let late := Pool.run requestStep
      (inOrder [0, 0, 0, 0] ++ [(0, ⟨none, "", 5000⟩), (0, ⟨none, "s1", 1⟩)]) start
    Finished finished.state "c1" ∧ submitted.state.submissions.rows.length = 1 ∧
      ¬ RowsInWindow duringContest late.state := by
  refine ⟨⟨_, rfl, rfl⟩, rfl, fun h => ?_⟩
  rcases h _ (List.mem_singleton.mpr rfl) with hold | ⟨contest, hfind, submittedAt, hsubmitted, hwithin⟩
  · cases hold
  · cases hfind
    cases hsubmitted
    exact absurd hwithin (by decide)

end CodeWeaknesses.Contests
