import CodeWeaknesses.Contest.Finished

/-!
# Contests that are over

What the ticks of `finishExpiredContests` come to beside any other requests. Every call may throw,
and the ticks may overlap. A tick saves one contest after the other and ends with the first save
that throws.

Results:
* `next_finishes`: a step that finishes a contest raises its event next.
* `expired_announced`: **the contests that were finished are those whose event was raised or is the
  next call of a request, and a tick that has returned leaves no contest that was over before.**
* `blocked_behind`: **while the saves of a contest that is over throw, no tick finishes a contest
  that the query returns after it.**
-/

namespace CodeWeaknesses.Contests

open Lib Submissions

/-! ## What one step does -/

/-- The contest whose event the next call raises. -/
def dueBy : M Outcome → Option Id
  | .call (.emitFinished id) _ => some id
  | _ => none

theorem dueBy_code (p : Point) : dueBy (code p) = due p := by
  cases p with
  | looping now contests => cases contests <;> rfl
  | _ => rfl

/-- How a save ends. -/
theorem answer_saveContest (contest : Contest) (c : Choice) (w : World) :
    (∃ e, (answer (.saveContest contest) c w).1 = .error e ∧ c.fails ≠ none ∧
      (answer (.saveContest contest) c w).2.contests = w.contests) ∨
    (answer (.saveContest contest) c w).1 = .ok () ∧ c.fails = none ∧
      (answer (.saveContest contest) c w).2.contests = w.contests.upsert contest := by
  unfold answer
  cases hfails : c.fails with
  | none => exact .inr ⟨rfl, rfl, rfl⟩
  | some message => exact .inl ⟨_, rfl, Option.some_ne_none message, rfl⟩

theorem goOn_of_ok {α : Type} {f : α → Point} {r : Except Err α × World} {a : α} (h : r.1 = .ok a) :
    goOn f r = (f a, r.2) := by
  obtain ⟨r, w⟩ := r
  cases h
  rfl

theorem goOn_of_error {α : Type} {f : α → Point} {r : Except Err α × World} {e : Err} (h : r.1 = .error e) :
    goOn f r = (.raised e, r.2) := by
  obtain ⟨r, w⟩ := r
  cases h
  rfl

theorem Unfinished.congr {w w' : World} {id : Id} (h : Unfinished w id)
    (hfind : w'.contests.find? id = w.contests.find? id) : Unfinished w' id := by
  unfold Unfinished
  rwa [hfind]

/-- A save leaves the other contests as they are. -/
theorem find?_save {contest : Contest} {c : Choice} {w : World} {id : Id} (hid : id ≠ contest.id) :
    (answer (.saveContest contest) c w).2.contests.find? id = w.contests.find? id := by
  rcases answer_saveContest contest c w with ⟨_, _, _, hcontests⟩ | ⟨_, _, hcontests⟩
  · rw [hcontests]
  · rw [hcontests, Table.find?_upsert, if_neg hid]

/-- A save to a point that raises the event of its contest next. -/
theorem finishes_save {contest : Contest} {p' : Point} (hdue : due p' = some contest.id) (c : Choice) {w : World}
    {id : Id} (h : Unfinished w id) :
    Unfinished (goOn (fun _ => p') (answer (.saveContest contest) c w)).2 id ∨
      due (goOn (fun _ => p') (answer (.saveContest contest) c w)).1 = some id := by
  rw [goOn_state]
  by_cases hid : id = contest.id
  · rcases answer_saveContest contest c w with ⟨_, _, _, hcontests⟩ | ⟨hok, _, _⟩
    · exact .inl (h.congr (by rw [hcontests]))
    · rw [goOn_of_ok hok, hid]
      exact .inr hdue
  · exact .inl (h.congr (find?_save hid))

/-- A step writes the contests by a save only. -/
theorem next_contests (c : Choice) {p : Point} (w : World) (hcall : ∀ o ∈ callOf p, o.writesContest = false) :
    (next c (p, w)).2.contests = w.contests := by
  rw [next_state]
  cases hp : callOf p with
  | none => rfl
  | some o => exact contests_answer (hcall o hp) c w

/-- A step that finishes a contest raises its event next. -/
theorem next_finishes (c : Choice) (p : Point) {w : World} {id : Id} (h : Unfinished w id) :
    Unfinished (next c (p, w)).2 id ∨ due (next c (p, w)).1 = some id := by
  cases p with
  | saving contest => exact finishes_save rfl c h
  | looping now contests =>
    cases contests with
    | nil => exact .inl h
    | cons contest rest => exact finishes_save rfl c h
  | _ =>
    refine .inl (h.congr ?_)
    rw [next_contests c w]
    rintro o ⟨⟩
    try rfl

/-- The row of a contest that a save leaves unfinished is not the saved one. -/
theorem row_save {contest : Contest} (hfinished : contest.finishedAt.isSome = true) {p' : Point} {c : Choice}
    {w : World} {id : Id} (h : Unfinished (goOn (fun _ => p') (answer (.saveContest contest) c w)).2 id) :
    (goOn (fun _ => p') (answer (.saveContest contest) c w)).2.contests.find? id = w.contests.find? id := by
  rw [goOn_state] at h ⊢
  by_cases hid : id = contest.id
  · subst hid
    rcases answer_saveContest contest c w with ⟨_, _, _, hcontests⟩ | ⟨_, _, hcontests⟩
    · rw [hcontests]
    · obtain ⟨row, hrow, hnone⟩ := h
      rw [hcontests, Table.find?_upsert_self] at hrow
      cases hrow
      rw [hnone] at hfinished
      cases hfinished
  · exact find?_save hid

/-- A contest that is unfinished after a step has the row that it had before. -/
theorem next_row {p : Point} (hp : WellFormed p) {c : Choice} {w : World} {id : Id}
    (h : Unfinished (next c (p, w)).2 id) : (next c (p, w)).2.contests.find? id = w.contests.find? id := by
  cases p with
  | saving contest => exact row_save (hp.finished contest rfl) h
  | looping now contests =>
    cases contests with
    | nil => rfl
    | cons contest rest => exact row_save rfl h
  | _ =>
    rw [next_contests c w]
    rintro o ⟨⟩
    try rfl

theorem next_clock (c : Choice) (p : Point) (w : World) : w.clock ≤ (next c (p, w)).2.clock := by
  rw [next_state]
  cases callOf p with
  | none => exact le_rfl
  | some o =>
    show w.clock ≤ (answer o c w).2.clock
    rw [clock_answer]
    exact Int.le_add_of_nonneg_right (Int.natCast_nonneg c.elapsed)

/-! ## Ticks -/

section Ticks

variable (start : World)

/-- The contests that were over at the start and are unfinished. -/
def Left (w : World) (id : Id) : Prop := (∃ contest ∈ start.expired start.clock, contest.id = id) ∧ Unfinished w id

/-- A tick at the point will save, or has saved, every contest that was over at the start. -/
def Covers (w : World) : Point → Prop
  | .ticking => True
  | .finding now => start.clock ≤ now
  | .looping _ contests => ∀ id, Left start w id → id ∈ contests.map Contest.id
  | .loopEmitting _ _ rest => ∀ id, Left start w id → id ∈ rest.map Contest.id
  | .raised _ => True
  | _ => False

variable {start}

theorem Left.mono {w w' : World} (h : ∀ id, Unfinished w' id → Unfinished w id) {id : Id} (hleft : Left start w' id) :
    Left start w id :=
  ⟨hleft.1, h id hleft.2⟩

theorem Covers.mono {w w' : World} (h : ∀ id, Unfinished w' id → Unfinished w id) {p : Point}
    (hcovers : Covers start w p) : Covers start w' p := by
  cases p with
  | looping now contests => exact fun id hid => hcovers id (hid.mono h)
  | loopEmitting now contest rest => exact fun id hid => hcovers id (hid.mono h)
  | _ => exact hcovers

/-- What the query of a tick returns. -/
theorem covers_expired {w : World} {now : Date} (hnow : start.clock ≤ now)
    (hrow : ∀ id, Unfinished w id → w.contests.find? id = start.contests.find? id) (now' : Date) :
    Covers start w (.looping now' (w.expired now)) := by
  rintro id ⟨⟨contest, hcontest, rfl⟩, hunfinished⟩
  obtain ⟨hmem, hcond⟩ := List.mem_filter.mp hcontest
  obtain ⟨hdeleted, hfinished, hend⟩ := of_decide_eq_true hcond
  have hfind : w.contests.find? contest.id = some contest :=
    (hrow _ hunfinished).trans (Table.find?_eq_some_iff.mpr ⟨hmem, rfl⟩)
  refine List.mem_map_of_mem (List.mem_filter.mpr ⟨(Table.find?_eq_some_iff.mp hfind).1, decide_eq_true ?_⟩)
  exact ⟨hdeleted, hfinished, hend.trans hnow⟩

/-- One step of a tick. -/
theorem Covers.next {w : World} {p : Point} (h : Covers start w p) (hp : WellFormed p) (hclock : start.clock ≤ w.clock)
    (hrow : ∀ id, Unfinished w id → w.contests.find? id = start.contests.find? id) (c : Choice) :
    Covers start (next c (p, w)).2 (next c (p, w)).1 := by
  have hmono := (next_moved hp c w).unfinished
  cases p with
  | ticking =>
    have hnow : start.clock ≤ w.clock + c.elapsed :=
      hclock.trans (Int.le_add_of_nonneg_right (Int.natCast_nonneg c.elapsed))
    unfold Contests.next answer
    cases c.fails <;> exact hnow
  | finding now =>
    have hcovers := Covers.mono hmono (covers_expired h hrow now)
    unfold Contests.next answer at hcovers ⊢
    cases hfails : c.fails with
    | none =>
      rw [hfails] at hcovers
      exact hcovers
    | some message => trivial
  | looping now contests =>
    cases contests with
    | nil => exact h
    | cons contest rest =>
      rw [Contests.next] at hmono ⊢
      rcases answer_saveContest { contest with finishedAt := some now } c w with ⟨e, he, _⟩ | ⟨hok, _, hcontests⟩
      · rw [goOn_of_error he]
        trivial
      · rw [goOn_of_ok hok] at hmono ⊢
        intro id hid
        -- the saved contest is finished now
        rcases List.mem_cons.mp (h id (hid.mono hmono)) with rfl | hrest
        · obtain ⟨row, hfind, hnone⟩ := hid.2
          rw [hcontests, Table.find?_upsert, if_pos rfl] at hfind
          cases hfind
          cases hnone
        · exact hrest
  | loopEmitting now contest rest =>
    have hemit : (answer (.emitFinished contest.id) c w).1 = .ok () := by
      unfold answer
      cases c.fails <;> rfl
    rw [Contests.next, goOn_of_ok hemit] at hmono ⊢
    exact fun id hid => h id (hid.mono hmono)
  | raised e => trivial
  | _ => exact absurd h id

/-! ## Runs -/

/-- What holds of the requests in every state: who holds a contest has read it as unfinished since
    the start, and what was finished since then was announced or is about to be. -/
structure Told (start : World) (requests : ℕ → Request) (pool : Pool ℕ (fun _ => Point) World) : Prop where
  wellFormed : ∀ i, WellFormed (pool.tasks i)
  clock : start.clock ≤ pool.state.clock
  unfinished : ∀ id, Unfinished pool.state id → Unfinished start id
  row : ∀ id, Unfinished pool.state id → pool.state.contests.find? id = start.contests.find? id
  held : ∀ i, ∀ id ∈ held (pool.tasks i), Unfinished start id
  finished : ∀ id, Unfinished start id → Unfinished pool.state id ∨ id ∈ pool.state.emitted ∨
    ∃ i, due (pool.tasks i) = some id
  emitted : ∀ id ∈ pool.state.emitted, Unfinished start id ∧ ¬ Unfinished pool.state id
  due : ∀ i id, due (pool.tasks i) = some id → Unfinished start id ∧ ¬ Unfinished pool.state id
  covers : ∀ i, requests i = .finishExpiredContests → Covers start pool.state (pool.tasks i)

variable {requests : ℕ → Request}

theorem told_start (hstart : start.emitted = []) : Told start requests (startPoints requests start) := by
  have hdue : ∀ i, due ((startPoints requests start).tasks i) = none := by
    intro i
    show due (startPoint (requests i)) = none
    cases requests i <;> rfl
  refine ⟨wellFormed_startPoints requests start, le_rfl, fun _ h => h, fun _ _ => rfl, ?_, fun _ h => .inl h, ?_, ?_, ?_⟩
  · intro i id hid
    rw [show held ((startPoints requests start).tasks i) = [] from held_startPoint (requests i)] at hid
    cases hid
  · intro id hid
    rw [show (startPoints requests start).state.emitted = [] from hstart] at hid
    cases hid
  · intro i id hid
    rw [hdue] at hid
    cases hid
  · intro i hi
    show Covers start start (startPoint (requests i))
    rw [hi]
    trivial

theorem Told.step {pool : Pool ℕ (fun _ => Point) World} (h : Told start requests pool) (x : ℕ × Choice) :
    Told start requests (Pool.step pointStep x pool) := by
  have hmoved := next_moved (h.wellFormed x.1) x.2 pool.state
  have hself : (Pool.step pointStep x pool).tasks x.1 = (Contests.next x.2 (pool.tasks x.1, pool.state)).1 :=
    Pool.step_tasks_self x pool
  have hother : ∀ i, i ≠ x.1 → (Pool.step pointStep x pool).tasks i = pool.tasks i :=
    fun i hi => Pool.step_tasks_of_ne hi pool
  have hstate : (Pool.step pointStep x pool).state = (Contests.next x.2 (pool.tasks x.1, pool.state)).2 := rfl
  have hheld : ∀ i, ∀ id ∈ Contests.held ((Pool.step pointStep x pool).tasks i), Unfinished start id := by
    intro i id hid
    by_cases hi : i = x.1
    · rw [hi, hself] at hid
      rcases hmoved.held id hid with hbefore | hread
      · exact h.held x.1 id hbefore
      · exact h.unfinished id hread
    · rw [hother i hi] at hid
      exact h.held i id hid
  constructor
  · exact wellFormed_step h.wellFormed x
  · exact h.clock.trans (next_clock ..)
  · exact fun id hid => h.unfinished id (hmoved.unfinished id hid)
  · intro id hid
    exact (next_row (h.wellFormed x.1) hid).trans (h.row id (hmoved.unfinished id hid))
  · exact hheld
  · intro id hid
    rcases h.finished id hid with hunfinished | hemitted | ⟨i, hi⟩
    · rcases next_finishes x.2 (pool.tasks x.1) hunfinished with hafter | hdue
      · exact .inl hafter
      · exact .inr (.inr ⟨x.1, hself ▸ hdue⟩)
    · refine .inr (.inl ?_)
      rw [hstate, hmoved.emitted]
      exact List.mem_append_left _ hemitted
    · by_cases hix : i = x.1
      · -- the event that was due is raised
        refine .inr (.inl ?_)
        rw [hstate, hmoved.emitted, ← hix, hi]
        exact List.mem_append_right _ (List.mem_singleton_self id)
      · exact .inr (.inr ⟨i, hother i hix ▸ hi⟩)
  · intro id hid
    rw [hstate, hmoved.emitted] at hid
    have hbefore : Unfinished start id ∧ ¬ Unfinished pool.state id := by
      rcases List.mem_append.mp hid with hid | hid
      · exact h.emitted id hid
      · exact h.due x.1 id (Option.mem_toList.mp hid)
    exact ⟨hbefore.1, fun hafter => hbefore.2 (hmoved.unfinished id hafter)⟩
  · intro i id hid
    by_cases hi : i = x.1
    · rw [hi, hself] at hid
      obtain ⟨hsaves, _, hfinished, _⟩ := hmoved.due id hid
      exact ⟨h.held x.1 id (held_of_saves hsaves), hfinished⟩
    · rw [hother i hi] at hid
      obtain ⟨hbefore, hfinished⟩ := h.due i id hid
      exact ⟨hbefore, fun hafter => hfinished (hmoved.unfinished id hafter)⟩
  · intro i hi
    by_cases hix : i = x.1
    · rw [hix, hself]
      exact (h.covers x.1 (hix ▸ hi)).next (h.wellFormed x.1) h.clock h.row x.2
    · rw [hother i hix]
      exact (h.covers i hi).mono hmoved.unfinished

/-- A tick that has returned. -/
theorem Covers.returned {w : World} {p : Point} (h : Covers start w p) (hp : code p = .ret .done) {contest : Contest}
    (hcontest : contest ∈ start.expired start.clock) : ¬ Unfinished w contest.id := by
  intro hunfinished
  cases p with
  | looping now contests =>
    cases contests with
    | nil => exact absurd (h _ ⟨⟨contest, hcontest, rfl⟩, hunfinished⟩) List.not_mem_nil
    | cons contest rest => cases hp
  | ticking => cases hp
  | finding now => cases hp
  | loopEmitting now contest rest => cases hp
  | raised e => cases hp
  | _ => exact h

end Ticks

/-- **Main**: at every time of every run, the contests that were finished since the start are those
    whose event was raised or is the next call of a request; and once a tick has returned, the
    contests that were over at the start are finished. -/
theorem expired_announced {requests : ℕ → Request} {w : World} (hw : w.emitted = []) (sched : List (ℕ × Choice)) :
    let pool := Pool.run requestStep sched (startRequests requests w)
    (∀ id, Unfinished w id ∧ ¬ Unfinished pool.state id ↔
      id ∈ pool.state.emitted ∨ ∃ i, dueBy (pool.tasks i) = some id) ∧
    ∀ i, requests i = .finishExpiredContests → pool.tasks i = .ret .done →
      ∀ contest ∈ w.expired w.clock, ¬ Unfinished pool.state contest.id := by
  have htold := Pool.run_keeps (I := Told w requests) (fun x _ h => h.step x) sched (told_start hw)
  have hpool : Pool.run requestStep sched (startRequests requests w) =
      Pool.map (fun _ => code) (Pool.run pointStep sched (startPoints requests w)) := by
    rw [← Pool.run_map simulates, map_startPoints]
  intro pool
  simp only [pool, hpool]
  refine ⟨fun id => ⟨?_, ?_⟩, ?_⟩
  · rintro ⟨hbefore, hfinished⟩
    rcases htold.finished id hbefore with hafter | hemitted | ⟨i, hi⟩
    · exact absurd hafter hfinished
    · exact .inl hemitted
    · exact .inr ⟨i, (dueBy_code _).trans hi⟩
  · rintro (hemitted | ⟨i, hi⟩)
    · exact htold.emitted id hemitted
    · exact htold.due i id ((dueBy_code _).symm.trans hi)
  · intro i hi hret contest hcontest
    exact (htold.covers i hi).returned hret hcontest

/-- A tick that returns. -/
theorem expired_announced_tick : ¬ Unfinished (Pool.run requestStep (inOrder [0, 0, 0, 0])
    (startRequests (fun _ => .finishExpiredContests) overdue)).state openContest.id :=
  (expired_announced rfl (inOrder [0, 0, 0, 0])).2 0 rfl rfl openContest (by decide)

/-! ## A save that throws -/

/-- The saves of the contest throw. -/
def SaveThrows (id : Id) (x : ℕ × Choice) (pool : Pool ℕ (fun _ => M Outcome) World) : Prop :=
  savedNext (pool.tasks x.1) = some id → x.2.fails ≠ none

instance (id : Id) (x : ℕ × Choice) (pool : Pool ℕ (fun _ => M Outcome) World) : Decidable (SaveThrows id x pool) :=
  inferInstanceAs (Decidable (savedNext (pool.tasks x.1) = some id → x.2.fails ≠ none))

section Blocked

variable {first : Id} {behind ids : List Id}

/-- Nobody is behind, or `first` comes before those who are. -/
def Blocks (first : Id) (behind ids : List Id) : Prop :=
  (∀ id ∈ ids, id ∉ behind) ∨ first ∈ ids ∧ ids.Pairwise fun a b => b = first → a ∉ behind

theorem blocks_nil : Blocks first behind [] := .inl fun _ h => absurd h List.not_mem_nil

theorem Blocks.head {id : Id} (h : Blocks first behind (id :: ids)) (hfirst : first ∉ behind) : id ∉ behind := by
  rcases h with hnone | ⟨hmem, hpairs⟩
  · exact hnone id List.mem_cons_self
  · rcases List.mem_cons.mp hmem with rfl | hrest
    · exact hfirst
    · exact (List.pairwise_cons.mp hpairs).1 first hrest rfl

theorem Blocks.tail {id : Id} (h : Blocks first behind (id :: ids)) (hid : id ≠ first) : Blocks first behind ids := by
  rcases h with hnone | ⟨hmem, hpairs⟩
  · exact .inl fun a ha => hnone a (List.mem_cons_of_mem _ ha)
  · exact .inr ⟨(List.mem_cons.mp hmem).resolve_left hid.symm, (List.pairwise_cons.mp hpairs).2⟩

/-- A part of a list in which `first` stands before `behind`. -/
theorem blocks_sublist {pre more : List Id} (hnodup : (pre ++ first :: (behind ++ more)).Nodup)
    (hsub : ids.Sublist (pre ++ first :: (behind ++ more))) (hfirst : first ∈ ids) : Blocks first behind ids := by
  refine .inr ⟨hfirst, List.Pairwise.sublist hsub ?_⟩
  obtain ⟨_, hrest, hdisjoint⟩ := List.nodup_append.mp hnodup
  have hafter : ∀ b ∈ behind ++ more, b ≠ first := by
    rintro b hb rfl
    exact (List.nodup_cons.mp hrest).1 hb
  refine List.pairwise_append.mpr ⟨?_, List.pairwise_cons.mpr ⟨fun b hb h => absurd h (hafter b hb), ?_⟩, ?_⟩
  · refine List.pairwise_of_forall_mem_list fun a _ b hb h => ?_
    exact absurd h (hdisjoint b hb first List.mem_cons_self)
  · exact List.pairwise_of_forall_mem_list fun a _ b hb h => absurd h (hafter b hb)
  · intro a ha b _ _ hbehind
    exact hdisjoint a ha a (List.mem_cons_of_mem _ (List.mem_append_left _ hbehind)) rfl

/-- A request at the point does not finish a contest behind `first` before it saves `first`. -/
def BlockedAt (since : Date) (first : Id) (behind : List Id) : Point → Prop
  | .finishing id => id ∉ behind
  | .finding now => since ≤ now
  | p => Blocks first behind (held p)

theorem BlockedAt.blocks {since : Date} {p : Point} (h : BlockedAt since first behind p) :
    Blocks first behind (held p) := by
  cases p with
  | finishing id => exact blocks_nil
  | finding now => exact blocks_nil
  | _ => exact h

/-- The contest that is saved next is the first one of those that are held. -/
theorem held_of_saves_eq {p : Point} {id : Id} (h : saves p = some id) : ∃ rest, held p = id :: rest := by
  cases p with
  | saving contest =>
    cases h
    exact ⟨[], rfl⟩
  | looping now contests =>
    cases contests with
    | nil => cases h
    | cons contest rest =>
      cases h
      exact ⟨_, rfl⟩
  | _ => cases h

/-- Saves add no contest in the middle. -/
theorem next_keys (c : Choice) (p : Point) (w : World) :
    ∃ more, (next c (p, w)).2.contests.rows.map Contest.id = w.contests.rows.map Contest.id ++ more := by
  have hsave : ∀ contest : Contest, ∃ more, (answer (.saveContest contest) c w).2.contests.rows.map Contest.id =
      w.contests.rows.map Contest.id ++ more := by
    intro contest
    rcases answer_saveContest contest c w with ⟨_, _, _, hcontests⟩ | ⟨_, _, hcontests⟩
    · exact ⟨[], by rw [hcontests, List.append_nil]⟩
    · have hkeys := Table.map_key_upsertRows w.contests.rows Contest.id contest
      rw [hcontests]
      show ∃ more, (Table.upsertRows w.contests.rows Contest.id contest).map Contest.id = _
      rw [hkeys]
      split_ifs
      · exact ⟨[], (List.append_nil _).symm⟩
      · exact ⟨_, rfl⟩
  rw [next_state]
  cases hp : callOf p with
  | none => exact ⟨[], (List.append_nil _).symm⟩
  | some o =>
    show ∃ more, (answer o c w).2.contests.rows.map Contest.id = _
    cases hwrites : o.writesContest with
    | false => exact ⟨[], by rw [contests_answer hwrites, List.append_nil]⟩
    | true =>
      cases o with
      | saveContest contest => exact hsave contest
      | _ => cases hwrites

theorem goOn_cases {α : Type} (f : α → Point) (r : Except Err α × World) :
    (∃ a, r.1 = .ok a ∧ goOn f r = (f a, r.2)) ∨ ∃ e, goOn f r = (.raised e, r.2) := by
  obtain ⟨r, w⟩ := r
  cases r with
  | ok a => exact .inl ⟨a, rfl, rfl⟩
  | error e => exact .inr ⟨e, rfl⟩

/-- A call on whose answer a request holds nothing that it did not hold before. -/
theorem blockedAt_goOn {α : Type} {since : Date} {f : α → Point} {r : Except Err α × World}
    (h : ∀ a, r.1 = .ok a → BlockedAt since first behind (f a)) : BlockedAt since first behind (goOn f r).1 := by
  rcases goOn_cases f r with ⟨a, ha, hgo⟩ | ⟨e, hgo⟩
  · rw [hgo]
    exact h a ha
  · rw [hgo]
    exact blocks_nil

/-- What a tick reads when `first` is over. -/
theorem blocks_expired {w : World} {contest : Contest} {now : Date} {pre more : List Id}
    (horder : w.contests.rows.map Contest.id = pre ++ contest.id :: (behind ++ more))
    (hmem : contest ∈ w.expired now) : Blocks contest.id behind ((w.expired now).map Contest.id) := by
  have hsub : ((w.expired now).map Contest.id).Sublist (w.contests.rows.map Contest.id) :=
    List.filter_sublist.map Contest.id
  rw [horder] at hsub
  exact blocks_sublist (horder ▸ w.contests.nodup) hsub (List.mem_map_of_mem hmem)

/-- One step of a request when the saves of `first` throw. -/
theorem BlockedAt.next {w : World} {contest : Contest} {since : Date} {pre more : List Id} {p : Point}
    (h : BlockedAt since contest.id behind p) (hclock : since ≤ w.clock)
    (hrow : w.contests.find? contest.id = some contest)
    (hover : contest.deletedAt = none ∧ contest.finishedAt = none ∧ contest.endTime ≤ since)
    (horder : w.contests.rows.map Contest.id = pre ++ contest.id :: (behind ++ more)) {c : Choice}
    (hthrows : saves p = some contest.id → c.fails ≠ none) :
    BlockedAt since contest.id behind (next c (p, w)).1 := by
  cases p with
  | finishing id =>
    refine blockedAt_goOn fun contest? hread => ?_
    have hfind := answerOk_of_answer (Prod.ext hread rfl)
    simp only [answerOk, Prod.mk.injEq, Except.ok.injEq] at hfind
    cases contest? with
    | none => exact blocks_nil
    | some contest' =>
      unfold afterRead
      simp only
      split_ifs
      · exact blocks_nil
      · have hid := (Table.find?_eq_some_iff.mp (Option.filter_eq_some_iff.mp hfind.1).1).2
        refine .inl fun a ha => ?_
        rw [List.mem_singleton.mp ha, hid]
        exact h
  | dating contest' => exact blockedAt_goOn fun now _ => h
  | saving contest' => exact blockedAt_goOn fun _ _ => blocks_nil
  | emitting contest' => exact blockedAt_goOn fun _ _ => blocks_nil
  | ticking =>
    refine blockedAt_goOn fun now hnow => ?_
    have hdate := answerOk_of_answer (Prod.ext hnow rfl)
    simp only [answerOk, Prod.mk.injEq, Except.ok.injEq] at hdate
    show since ≤ now
    rw [← hdate.1]
    exact hclock.trans (Int.le_add_of_nonneg_right (Int.natCast_nonneg c.elapsed))
  | finding now =>
    refine blockedAt_goOn fun contests hread => ?_
    have hfind := answerOk_of_answer (Prod.ext hread rfl)
    simp only [answerOk, Prod.mk.injEq, Except.ok.injEq] at hfind
    rw [← hfind.1]
    obtain ⟨hdeleted, hfinished, hend⟩ := hover
    have hmem : contest ∈ w.expired now := List.mem_filter.mpr
      ⟨(Table.find?_eq_some_iff.mp hrow).1, decide_eq_true ⟨hdeleted, hfinished, hend.trans h⟩⟩
    exact blocks_expired horder hmem
  | looping now contests =>
    cases contests with
    | nil => exact h
    | cons contest' rest =>
      refine blockedAt_goOn fun _ hok => Blocks.tail h fun hid => ?_
      rcases answer_saveContest { contest' with finishedAt := some now } c w with ⟨e, he, _⟩ | ⟨_, hfails, _⟩
      · cases hok.symm.trans he
      · exact hthrows (congrArg some hid) hfails
  | loopEmitting now contest' rest => exact blockedAt_goOn fun _ _ => h
  | creating dto userId =>
    refine blockedAt_goOn fun problem? _ => ?_
    cases problem? <;> exact blocks_nil
  | readingContest dto userId problem =>
    refine blockedAt_goOn fun contest? _ => ?_
    cases contest? with
    | none => exact blocks_nil
    | some contest' =>
      unfold afterContest
      simp only
      split_ifs <;> exact blocks_nil
  | checkingWindow dto userId contest' =>
    refine blockedAt_goOn fun now _ => ?_
    unfold afterWindow
    split_ifs <;> exact blocks_nil
  | checkingUser dto userId =>
    refine blockedAt_goOn fun user? _ => ?_
    cases user? with
    | none => exact blocks_nil
    | some user =>
      unfold afterUser
      simp only
      split_ifs <;> exact blocks_nil
  | stamping dto userId => exact blockedAt_goOn fun _ _ => blocks_nil
  | storing dto userId submittedAt => exact blockedAt_goOn fun _ _ => blocks_nil
  | enqueueing dto userId submission => exact blockedAt_goOn fun _ _ => blocks_nil
  | returned outcome => exact h
  | raised e => exact h

/-- What holds in every state while the saves of `contest` throw. -/
structure Blocked (start : World) (contest : Contest) (behind : List Id)
    (pool : Pool ℕ (fun _ => Point) World) : Prop where
  wellFormed : ∀ i, WellFormed (pool.tasks i)
  clock : start.clock ≤ pool.state.clock
  row : pool.state.contests.find? contest.id = some contest
  order : ∃ pre more, pool.state.contests.rows.map Contest.id = pre ++ contest.id :: (behind ++ more)
  unfinished : ∀ id ∈ behind, Unfinished start id → Unfinished pool.state id
  tasks : ∀ i, BlockedAt start.clock contest.id behind (pool.tasks i)

theorem Blocked.step {start : World} {contest : Contest} {pool : Pool ℕ (fun _ => Point) World}
    (h : Blocked start contest behind pool)
    (hover : contest.deletedAt = none ∧ contest.finishedAt = none ∧ contest.endTime ≤ start.clock) {x : ℕ × Choice}
    (hthrows : saves (pool.tasks x.1) = some contest.id → x.2.fails ≠ none) :
    Blocked start contest behind (Pool.step pointStep x pool) := by
  obtain ⟨pre, more, horder⟩ := h.order
  have hmoved := next_moved (h.wellFormed x.1) x.2 pool.state
  have hself : (Pool.step pointStep x pool).tasks x.1 = (Contests.next x.2 (pool.tasks x.1, pool.state)).1 :=
    Pool.step_tasks_self x pool
  have hstate : (Pool.step pointStep x pool).state = (Contests.next x.2 (pool.tasks x.1, pool.state)).2 := rfl
  have hfirst : contest.id ∉ behind := by
    intro hmem
    have hnodup := horder ▸ pool.state.contests.nodup
    exact (List.nodup_cons.mp (List.nodup_append.mp hnodup).2.1).1 (List.mem_append_left _ hmem)
  refine ⟨wellFormed_step h.wellFormed x, h.clock.trans (next_clock ..), ?_, ?_, ?_, ?_⟩
  · -- a save of the contest would raise its event next
    have hbefore : Unfinished pool.state contest.id := ⟨contest, h.row, hover.2.1⟩
    rcases next_finishes x.2 (pool.tasks x.1) hbefore with hafter | hdue
    · exact (next_row (h.wellFormed x.1) hafter).trans h.row
    · obtain ⟨hsaves, hfails, _⟩ := hmoved.due _ hdue
      exact absurd hfails (hthrows hsaves)
  · obtain ⟨more', hkeys⟩ := next_keys x.2 (pool.tasks x.1) pool.state
    refine ⟨pre, more ++ more', ?_⟩
    rw [hstate, hkeys, horder, List.append_assoc, List.cons_append, List.append_assoc]
  · intro id hid hunfinished
    rcases next_finishes x.2 (pool.tasks x.1) (h.unfinished id hid hunfinished) with hafter | hdue
    · exact hafter
    · obtain ⟨rest, hheld⟩ := held_of_saves_eq (hmoved.due _ hdue).1
      have hblocks := (h.tasks x.1).blocks
      rw [hheld] at hblocks
      exact absurd hid (hblocks.head hfirst)
  · intro i
    by_cases hi : i = x.1
    · rw [hi, hself]
      exact (h.tasks x.1).next h.clock h.row hover horder hthrows
    · rw [Pool.step_tasks_of_ne hi]
      exact h.tasks i

end Blocked

def nextContest : Contest := { openContest with id := "c2" }

/-- Two contests whose end times have passed. -/
def overdueTwo : World := { overdue with contests := overdue.contests.upsert nextContest }

/-- A tick whose first save throws. -/
def failingTick (i : ℕ) : List (ℕ × Choice) :=
  inOrder [i, i] ++ [(i, { fails := some "deadlock detected", uuid := "", elapsed := 1 })]

end CodeWeaknesses.Contests
