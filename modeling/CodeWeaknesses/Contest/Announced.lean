import CodeWeaknesses.Contest.Expiry

/-!
# The contests of the events

The requests and ticks read contests that are not soft-deleted, and nothing that they do deletes one.

Results:
* `carried_next`, `same_next`: what a step keeps.
* `findsSame_run`: the contest of an event that was raised is one that `findOne` finds.
-/

namespace CodeWeaknesses.Contests

open Lib Submissions

/-- The contests that a request at the point has read and is to save or to announce. -/
def carried : Point → List Contest
  | .dating contest => [contest]
  | .saving contest => [contest]
  | .emitting contest => [contest]
  | .looping _ contests => contests
  | .loopEmitting _ contest rest => contest :: rest
  | _ => []

/-- `findOne` finds the contests of the start. -/
def FindsAs (start w : World) : Prop := ∀ id, (w.contest? id).isSome = (start.contest? id).isSome

/-- A contest that `findOne` finds at the start. -/
structure Found (start : World) (contest : Contest) : Prop where
  kept : contest.deletedAt = none
  stored : (start.contest? contest.id).isSome = true

/-- The requests carry contests that `findOne` finds, and announce those. -/
structure FindsSame (start : World) (pool : Pool ℕ (fun _ => Point) World) : Prop where
  same : FindsAs start pool.state
  carried : ∀ i, ∀ contest ∈ carried (pool.tasks i), Found start contest
  emitted : ∀ id ∈ pool.state.emitted, (start.contest? id).isSome = true

section Found

variable {start w : World}

/-- A contest that a request reads. -/
theorem found_of_contest? (hsame : FindsAs start w) {id : Id}
    {contest : Contest} (h : w.contest? id = some contest) : Found start contest := by
  obtain ⟨hfind, hkept⟩ := Option.filter_eq_some_iff.mp h
  obtain ⟨_, rfl⟩ := Table.find?_eq_some_iff.mp hfind
  exact ⟨of_decide_eq_true hkept, by rw [← hsame, h]; rfl⟩

theorem found_of_expired (hsame : FindsAs start w) {now : Date}
    {contest : Contest} (h : contest ∈ w.expired now) : Found start contest := by
  obtain ⟨hmem, hcond⟩ := List.mem_filter.mp h
  obtain ⟨hkept, _⟩ := of_decide_eq_true hcond
  have hread : w.contest? contest.id = some contest :=
    Option.filter_eq_some_iff.mpr ⟨Table.find?_key hmem, decide_eq_true hkept⟩
  exact found_of_contest? hsame hread

theorem carried_goOn {α : Type} {f : α → Point} {r : Except Err α × World} {P : Contest → Prop}
    (h : ∀ a w', r = (.ok a, w') → ∀ contest ∈ carried (f a), P contest) :
    ∀ contest ∈ carried (goOn f r).1, P contest := by
  obtain ⟨r, w'⟩ := r
  cases r with
  | ok a => exact h a w' rfl
  | error e => exact fun _ hmem => absurd hmem List.not_mem_nil

/-- A point that leads to none. -/
theorem carried_goOn_nil {α : Type} {f : α → Point} (r : Except Err α × World) {P : Contest → Prop}
    (h : ∀ a, carried (f a) = []) : ∀ contest ∈ carried (goOn f r).1, P contest :=
  carried_goOn fun a _ _ contest hmem => by
    rw [h a] at hmem
    cases hmem

/-- What a request carries after a step. -/
theorem carried_next {p : Point} (hsame : FindsAs start w)
    (hp : ∀ contest ∈ carried p, Found start contest) (c : Choice) :
    ∀ contest ∈ carried (next c (p, w)).1, Found start contest := by
  cases p with
  | finishing id =>
    refine carried_goOn fun found w' hok => ?_
    have hread := answerOk_of_answer hok
    simp only [answerOk, Prod.mk.injEq, Except.ok.injEq] at hread
    cases found with
    | none => exact fun _ hmem => absurd hmem List.not_mem_nil
    | some contest =>
      unfold afterRead
      dsimp only
      split_ifs
      · exact fun _ hmem => absurd hmem List.not_mem_nil
      · intro other hmem
        rw [List.mem_singleton.mp hmem]
        exact found_of_contest? hsame hread.1
  | finding now =>
    refine carried_goOn fun found w' hok contest hmem => ?_
    have hread := answerOk_of_answer hok
    simp only [answerOk, Prod.mk.injEq, Except.ok.injEq] at hread
    rw [← hread.1] at hmem
    exact found_of_expired hsame hmem
  | dating contest =>
    refine carried_goOn fun now _ _ other hmem => ?_
    have hcontest := hp contest (List.mem_singleton_self _)
    rw [List.mem_singleton.mp hmem]
    exact ⟨hcontest.kept, hcontest.stored⟩
  | saving contest => exact carried_goOn fun _ _ _ => hp
  | emitting contest => exact carried_goOn_nil _ fun _ => rfl
  | ticking => exact carried_goOn_nil _ fun _ => rfl
  | looping now contests =>
    cases contests with
    | nil => exact hp
    | cons contest rest => exact carried_goOn fun _ _ _ => hp
  | loopEmitting now contest rest => exact carried_goOn fun _ _ _ other hmem => hp other (List.mem_cons_of_mem _ hmem)
  | creating dto userId => exact carried_goOn_nil _ fun problem? => by cases problem? <;> rfl
  | readingContest dto userId problem =>
    refine carried_goOn_nil _ fun contest? => ?_
    cases contest? with
    | none => rfl
    | some contest =>
      unfold afterContest
      dsimp only
      split_ifs <;> rfl
  | checkingWindow dto userId contest =>
    refine carried_goOn_nil _ fun now => ?_
    unfold afterWindow
    split_ifs <;> rfl
  | checkingUser dto userId =>
    refine carried_goOn_nil _ fun user? => ?_
    cases user? with
    | none => rfl
    | some user =>
      unfold afterUser
      dsimp only
      split_ifs <;> rfl
  | stamping dto userId => exact carried_goOn_nil _ fun _ => rfl
  | storing dto userId submittedAt => exact carried_goOn_nil _ fun _ => rfl
  | enqueueing dto userId submission => exact carried_goOn_nil _ fun _ => rfl
  | returned outcome => exact hp
  | raised e => exact hp

/-- A save of a contest that is found leaves the contests that are. -/
theorem same_save (hsame : FindsAs start w) {contest : Contest}
    (hfound : Found start contest) (c : Choice) : FindsAs start (answer (.saveContest contest) c w).2 := by
  intro id
  rw [← hsame id]
  rcases answer_saveContest contest c w with ⟨_, _, _, hcontests⟩ | ⟨_, _, hcontests⟩
  · rw [World.contest?, hcontests, World.contest?]
  · by_cases hid : id = contest.id
    · subst hid
      rw [World.contest?, hcontests, Table.find?_upsert_self, hsame, hfound.stored]
      simp [hfound.kept]
    · rw [World.contest?, hcontests, Table.find?_upsert, if_neg hid, World.contest?]

/-- A step leaves the contests that are found. -/
theorem same_next {p : Point} (hsame : FindsAs start w)
    (hp : ∀ contest ∈ carried p, Found start contest) (c : Choice) : FindsAs start (next c (p, w)).2 := by
  cases hsaves : saves p with
  | some saved =>
    cases p with
    | saving contest =>
      rw [next, goOn_state]
      exact same_save hsame (hp contest (List.mem_singleton_self _)) c
    | looping now contests =>
      cases contests with
      | nil => cases hsaves
      | cons contest rest =>
        rw [next, goOn_state]
        have hcontest := hp contest List.mem_cons_self
        have hsaved : Found start { contest with finishedAt := some now } := ⟨hcontest.kept, hcontest.stored⟩
        exact same_save hsame hsaved c
    | _ => cases hsaves
  | none =>
    have hcontests : (next c (p, w)).2.contests = w.contests := by
      refine next_contests c w fun o ho => ?_
      cases p with
      | saving contest => cases hsaves
      | looping now contests =>
        cases contests with
        | nil => cases ho
        | cons contest rest => cases hsaves
      | _ => cases ho <;> rfl
    intro id
    rw [World.contest?, hcontests, ← hsame, World.contest?]

/-- A request that raises an event carries its contest. -/
theorem carried_of_due {p : Point} {id : Id} (h : due p = some id) : ∃ contest ∈ carried p, contest.id = id := by
  cases p with
  | emitting contest =>
    cases h
    exact ⟨contest, List.mem_singleton_self _, rfl⟩
  | loopEmitting now contest rest =>
    cases h
    exact ⟨contest, List.mem_cons_self, rfl⟩
  | _ => cases h

theorem FindsSame.step {pool : Pool ℕ (fun _ => Point) World} (h : FindsSame start pool)
    (hwf : ∀ i, WellFormed (pool.tasks i)) (x : ℕ × Choice) : FindsSame start (Pool.step pointStep x pool) where
  same := same_next h.same (h.carried x.1) x.2
  carried i := by
    by_cases hi : i = x.1
    · subst hi
      rw [Pool.step_tasks_self]
      exact carried_next h.same (h.carried x.1) x.2
    · rw [Pool.step_tasks_of_ne hi]
      exact h.carried i
  emitted id hid := by
    rw [Pool.step_state, pointStep, (next_moved (hwf x.1) x.2 pool.state).emitted] at hid
    rcases List.mem_append.mp hid with hid | hid
    · exact h.emitted id hid
    · obtain ⟨contest, hmem, rfl⟩ := carried_of_due (Option.mem_toList.mp hid)
      exact (h.carried x.1 contest hmem).stored

/-- What holds in every state of a run. -/
theorem findsSame_run (requests : ℕ → Request) (hstart : start.emitted = []) (sched : List (ℕ × Choice)) :
    FindsSame start (Pool.run pointStep sched (startPoints requests start)) := by
  have hinit : FindsSame start (startPoints requests start) := by
    refine ⟨fun _ => rfl, fun i contest hmem => ?_, fun id hid => ?_⟩
    · have hnone : carried ((startPoints requests start).tasks i) = [] := by
        show carried (startPoint (requests i)) = []
        cases requests i <;> rfl
      rw [hnone] at hmem
      cases hmem
    · rw [show (startPoints requests start).state.emitted = [] from hstart] at hid
      cases hid
  exact (Pool.run_keeps (I := fun pool => (∀ i, WellFormed (pool.tasks i)) ∧ FindsSame start pool)
    (fun x _ h => ⟨wellFormed_step h.1 x, h.2.step h.1 x⟩) sched ⟨wellFormed_startPoints requests start, hinit⟩).2

end Found

end CodeWeaknesses.Contests
