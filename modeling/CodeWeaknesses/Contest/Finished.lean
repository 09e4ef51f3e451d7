import CodeWeaknesses.Contest.Requests
import CodeWeaknesses.Webhooks.Listener

/-!
# `contest.finished` events

How often the event of a contest is raised when requests overlap. `finishContest` and
`finishExpiredContests` read a contest as unfinished, save it as finished and raise the
event, each in a call of its own.

Results:
* `next_moved`: what one step of a request does.
* `Once.step`: a save keeps the event unique if nobody else is about to save the contest.
* `finished_once`: **in a run whose saves are all of that kind, each contest gets at most
  one event, and each subscription at most one delivery.**
* `finished_twice`: two requests that read before either saves.
-/

namespace CodeWeaknesses.Contests

open Lib Submissions

/-! ## The condition -/

/-- The contests that the request has read as unfinished and not saved yet: what it saves
    before it reads again. -/
def heldBy : M Outcome → List Id
  | .call .newDate k => heldBy (k (.ok 0))
  | .call (.saveContest contest) k => contest.id :: heldBy (k (.ok ()))
  | .call (.emitFinished _) k => heldBy (k (.ok ()))
  | _ => []

/-- The contest that the next call saves. -/
def savedNext : M Outcome → Option Id
  | .call (.saveContest contest) _ => some contest.id
  | _ => none

/-- When a request saves a contest and the save does not throw, no other request holds the
    contest as unfinished. -/
def SavesAlone (x : ℕ × Choice) (pool : Pool ℕ (fun _ => M Outcome) World) : Prop :=
  ∀ id, savedNext (pool.tasks x.1) = some id → x.2.fails = none → ∀ j, j ≠ x.1 → id ∉ heldBy (pool.tasks j)

/-! ## Points -/

/-- The contests that a request at the point holds as unfinished. -/
def held : Point → List Id
  | .dating contest => [contest.id]
  | .saving contest => [contest.id]
  | .looping _ contests => contests.map Contest.id
  | .loopEmitting _ _ rest => rest.map Contest.id
  | _ => []

/-- The contest that a request at the point saves next. -/
def saves : Point → Option Id
  | .saving contest => some contest.id
  | .looping _ (contest :: _) => some contest.id
  | _ => none

/-- The event that a request at the point raises next. -/
def due : Point → Option Id
  | .emitting contest => some contest.id
  | .loopEmitting _ contest _ => some contest.id
  | _ => none

theorem heldBy_finishAll (now : Date) (contests : List Contest) :
    heldBy (returnDone (finishAll now contests)) = contests.map Contest.id := by
  induction contests with
  | nil => rfl
  | cons contest rest ih => exact congrArg (contest.id :: ·) ih

theorem heldBy_code (p : Point) : heldBy (code p) = held p := by
  cases p with
  | looping now contests => exact heldBy_finishAll now contests
  | loopEmitting now contest rest => exact heldBy_finishAll now rest
  | checkingWindow dto userId contest =>
    show heldBy (returnSubmission
      (if contest.startTime > 0 then _ else if contest.endTime < 0 then _ else _)) = []
    split_ifs <;> rfl
  | _ => rfl

theorem savedNext_code (p : Point) : savedNext (code p) = saves p := by
  cases p with
  | looping now contests => cases contests <;> rfl
  | _ => rfl

theorem held_of_saves {p : Point} {id : Id} (h : saves p = some id) : id ∈ held p := by
  cases p with
  | saving contest =>
    cases h
    exact List.mem_singleton.mpr rfl
  | looping now contests =>
    cases contests with
    | nil => cases h
    | cons contest rest =>
      cases h
      exact List.mem_cons_self
  | _ => cases h

/-! ## One step -/

/-- The stored contest is not finished. -/
def Unfinished (w : World) (id : Id) : Prop :=
  ∃ contest, w.contests.find? id = some contest ∧ contest.finishedAt = none

/-- A point holds no contest twice, and saves contests as finished. -/
structure WellFormed (p : Point) : Prop where
  nodup : (held p).Nodup
  finished : ∀ contest, p = .saving contest → contest.finishedAt.isSome = true

/-- What a step of a request from `p` to `p'` with the choice `c` does. -/
structure Moved (c : Choice) (p : Point) (w : World) (p' : Point) (w' : World) : Prop where
  emitted : w'.emitted = w.emitted ++ (due p).toList
  unfinished : ∀ id, Unfinished w' id → Unfinished w id
  held : ∀ id ∈ held p', id ∈ held p ∨ Unfinished w id
  due : ∀ id, due p' = some id →
    saves p = some id ∧ c.fails = none ∧ ¬ Unfinished w' id ∧ id ∉ Contests.held p'
  wellFormed : WellFormed p'

theorem wellFormed_of_held_eq_nil {p : Point} (h : held p = []) : WellFormed p := by
  refine ⟨by rw [h]; exact List.nodup_nil, ?_⟩
  rintro contest rfl
  cases h

/-- A step to a point that raises no event, by a call that writes no contest. -/
theorem moved_goOn {α : Type} {c : Choice} {p : Point} {w : World} {f : α → Point}
    {r : Except Err α × World} (hcontests : r.2.contests = w.contests) (hemitted : r.2.emitted = w.emitted ++ (due p).toList)
    (hpoint : ∀ a, r.1 = .ok a → due (f a) = none ∧ WellFormed (f a) ∧
      ∀ id ∈ held (f a), id ∈ held p ∨ Unfinished w id) :
    Moved c p w (goOn f r).1 (goOn f r).2 := by
  have hunfinished : ∀ id, Unfinished r.2 id → Unfinished w id := by
    intro id h
    rwa [Unfinished, hcontests] at h
  obtain ⟨r, w'⟩ := r
  cases r with
  | error e =>
    refine ⟨hemitted, hunfinished, ?_, ?_, wellFormed_of_held_eq_nil rfl⟩
    · exact fun id hid => absurd hid List.not_mem_nil
    · exact fun id hid => by cases hid
  | ok a =>
    obtain ⟨hdue, hwf, hheld⟩ := hpoint a rfl
    refine ⟨hemitted, hunfinished, hheld, ?_, hwf⟩
    intro id hid
    rw [goOn, hdue] at hid
    cases hid

/-- A step that saves a contest as finished and raises its event next. -/
theorem moved_save {p p' : Point} {w : World} {contest : Contest} {c : Choice}
    (hsaves : saves p = some contest.id) (hdue : due p = none)
    (hfinished : contest.finishedAt.isSome = true) (hdue' : due p' = some contest.id)
    (hnot : contest.id ∉ held p') (hheld : ∀ id ∈ held p', id ∈ held p)
    (hwf : WellFormed p') :
    Moved c p w (goOn (fun _ => p') (answer (.saveContest contest) c w)).1
      (goOn (fun _ => p') (answer (.saveContest contest) c w)).2 := by
  rcases hr : answer (.saveContest contest) c w with ⟨r, w'⟩
  cases r with
  | error e =>
    have hsame : w'.contests = w.contests ∧ w'.emitted = w.emitted := by
      unfold answer at hr
      cases hf : c.fails <;> simp only [hf, answerOk, Op.mayThrow, if_true] at hr <;> cases hr
      exact ⟨rfl, rfl⟩
    refine moved_goOn hsame.1 (by rw [hsame.2, hdue]; simp) fun a ha => by cases ha
  | ok u =>
    have hsaved : c.fails = none ∧
        w' = { w with clock := w.clock + c.elapsed, contests := w.contests.upsert contest } := by
      unfold answer at hr
      cases hf : c.fails <;> simp only [hf, answerOk, Op.mayThrow, if_true] at hr <;> cases hr
      exact ⟨rfl, rfl⟩
    obtain ⟨hfails, rfl⟩ := hsaved
    have hunfinished : ∀ id contest', (w.contests.upsert contest).find? id = some contest' →
        contest'.finishedAt = none → id ≠ contest.id ∧ w.contests.find? id = some contest' := by
      intro id contest' hfind hnone
      rw [Table.find?_upsert] at hfind
      split_ifs at hfind with hid
      · cases hfind
        rw [hnone] at hfinished
        cases hfinished
      · exact ⟨hid, hfind⟩
    refine ⟨by simp [goOn, hdue], ?_, fun id hid => .inl (hheld id hid), ?_, hwf⟩
    · rintro id ⟨contest', hfind, hnone⟩
      exact ⟨contest', (hunfinished id contest' hfind hnone).2, hnone⟩
    · intro id hid
      rw [goOn, hdue'] at hid
      cases hid
      refine ⟨hsaves, hfails, ?_, hnot⟩
      rintro ⟨contest', hfind, hnone⟩
      exact (hunfinished _ contest' hfind hnone).1 rfl

/-- A contest that `finishContest` reads as unfinished is stored as unfinished. -/
theorem unfinished_of_contest? {w : World} {id : Id} {contest : Contest} (h : w.contest? id = some contest)
    (hnone : contest.finishedAt = none) : Unfinished w contest.id := by
  obtain ⟨hfind, _⟩ := Option.filter_eq_some_iff.mp h
  have hid := (Table.find?_eq_some_iff.mp hfind).2
  exact ⟨contest, hid ▸ hfind, hnone⟩

/-- So are the contests that `finishExpiredContests` reads. -/
theorem unfinished_of_mem_expired {w : World} {now : Date} {contest : Contest}
    (h : contest ∈ w.expired now) : Unfinished w contest.id := by
  obtain ⟨hrow, hcond⟩ := List.mem_filter.mp h
  exact ⟨contest, Table.find?_eq_some_iff.mpr ⟨hrow, rfl⟩, (of_decide_eq_true hcond).2.1⟩

theorem nodup_expired (w : World) (now : Date) : ((w.expired now).map Contest.id).Nodup :=
  (List.filter_sublist.map Contest.id).nodup w.contests.nodup

/-- A request that has ended stays as it is. -/
theorem moved_refl {p : Point} (hdue : due p = none) (hheld : held p = []) (c : Choice) (w : World) :
    Moved c p w p w := by
  refine ⟨by simp [hdue], fun _ h => h, fun id hid => .inl hid, ?_, wellFormed_of_held_eq_nil hheld⟩
  intro id hid
  rw [hdue] at hid
  cases hid

/-- A step by a call that writes no contest and raises no event. -/
theorem moved_read (o : Op) {p : Point} {f : Res o → Point} {c : Choice} {w : World}
    (hwrites : o.writesContest = false) (hemits : o.emits = false) (hdue : due p = none)
    (hpoint : ∀ a w', answer o c w = (.ok a, w') → due (f a) = none ∧ WellFormed (f a) ∧
      ∀ id ∈ held (f a), id ∈ held p ∨ Unfinished w id) :
    Moved c p w (goOn f (answer o c w)).1 (goOn f (answer o c w)).2 :=
  moved_goOn (contests_answer hwrites c w) (by rw [emitted_answer hemits, hdue]; simp) fun a ha =>
    hpoint a _ (Prod.ext ha rfl)

/-- The same to a point that holds nothing. -/
theorem moved_idle (o : Op) {p : Point} {f : Res o → Point} {c : Choice} {w : World}
    (hwrites : o.writesContest = false) (hemits : o.emits = false) (hdue : due p = none)
    (hpoint : ∀ a, due (f a) = none ∧ held (f a) = []) :
    Moved c p w (goOn f (answer o c w)).1 (goOn f (answer o c w)).2 := by
  refine moved_read o hwrites hemits hdue fun a _ _ => ?_
  obtain ⟨hdue', hheld⟩ := hpoint a
  refine ⟨hdue', wellFormed_of_held_eq_nil hheld, fun id hid => ?_⟩
  rw [hheld] at hid
  cases hid

/-- A step that raises an event. -/
theorem moved_emit {p p' : Point} {id : Id} {c : Choice} {w : World} (hdue : due p = some id)
    (hdue' : due p' = none) (hwf : WellFormed p') (hheld : ∀ id ∈ held p', id ∈ held p) :
    Moved c p w (goOn (fun _ => p') (answer (.emitFinished id) c w)).1
      (goOn (fun _ => p') (answer (.emitFinished id) c w)).2 := by
  have hemitted : (answer (.emitFinished id) c w).2.emitted = w.emitted ++ [id] := by
    unfold answer
    cases c.fails <;> simp [Op.mayThrow, answerOk]
  exact moved_goOn (contests_answer rfl c w) (by rw [hemitted, hdue]; rfl) fun _ _ =>
    ⟨hdue', hwf, fun id hid => .inl (hheld id hid)⟩

theorem moved_finishing (id : Id) (c : Choice) (w : World) :
    Moved c (.finishing id) w (next c (.finishing id, w)).1 (next c (.finishing id, w)).2 := by
  refine moved_read (.findContest id) rfl rfl rfl fun contest? w' hread => ?_
  have hfind := answerOk_of_answer hread
  simp only [answerOk, Prod.mk.injEq, Except.ok.injEq] at hfind
  cases contest? with
  | none => exact ⟨rfl, wellFormed_of_held_eq_nil rfl, fun id hid => by cases hid⟩
  | some contest =>
    by_cases hf : contest.finishedAt.isSome = true
    · rw [show afterRead (some contest) = .returned (.contest (some contest)) from if_pos hf]
      exact ⟨rfl, wellFormed_of_held_eq_nil rfl, fun id hid => by cases hid⟩
    · rw [show afterRead (some contest) = .dating contest from if_neg hf]
      refine ⟨rfl, ⟨List.nodup_singleton _, fun _ h => by cases h⟩, ?_⟩
      intro id' hid'
      rw [List.mem_singleton.mp hid']
      exact .inr (unfinished_of_contest? hfind.1 (Option.not_isSome_iff_eq_none.mp hf))

theorem moved_finding (now : Date) (c : Choice) (w : World) :
    Moved c (.finding now) w (next c (.finding now, w)).1 (next c (.finding now, w)).2 := by
  refine moved_read (.findExpired now) rfl rfl rfl fun contests w' hread => ?_
  have hfind := answerOk_of_answer hread
  simp only [answerOk, Prod.mk.injEq, Except.ok.injEq] at hfind
  have hcontests : contests = w.expired now := hfind.1.symm
  subst hcontests
  refine ⟨rfl, ⟨nodup_expired w now, fun _ h => by cases h⟩, ?_⟩
  intro id hid
  obtain ⟨contest, hmem, rfl⟩ := List.mem_map.mp hid
  exact .inr (unfinished_of_mem_expired hmem)

/-- One step of a request. -/
theorem next_moved {p : Point} (hp : WellFormed p) (c : Choice) (w : World) :
    Moved c p w (next c (p, w)).1 (next c (p, w)).2 := by
  cases p with
  | finishing id => exact moved_finishing id c w
  | dating contest =>
    refine moved_read .newDate rfl rfl rfl fun now _ _ => ?_
    refine ⟨rfl, ⟨List.nodup_singleton _, ?_⟩, fun id hid => .inl hid⟩
    rintro _ ⟨⟩
    rfl
  | saving contest =>
    exact moved_save rfl rfl (hp.finished contest rfl) rfl List.not_mem_nil (fun _ h => by cases h)
      (wellFormed_of_held_eq_nil rfl)
  | emitting contest =>
    exact moved_emit rfl rfl (wellFormed_of_held_eq_nil rfl) fun _ h => by cases h
  | ticking => exact moved_idle .newDate rfl rfl rfl fun _ => ⟨rfl, rfl⟩
  | finding now => exact moved_finding now c w
  | looping now contests =>
    cases contests with
    | nil => exact moved_refl rfl rfl c w
    | cons contest rest =>
      obtain ⟨hnot, hrest⟩ := List.nodup_cons.mp hp.nodup
      exact moved_save rfl rfl rfl rfl hnot (fun _ => List.mem_cons_of_mem _) ⟨hrest, fun _ h => by cases h⟩
  | loopEmitting now contest rest =>
    exact moved_emit rfl rfl ⟨hp.nodup, fun _ h => by cases h⟩ fun _ h => h
  | creating dto userId =>
    refine moved_idle (.findProblem dto.problemId) rfl rfl rfl fun problem? => ?_
    cases problem? <;> exact ⟨rfl, rfl⟩
  | readingContest dto userId problem =>
    refine moved_idle (.findContest dto.contestId) rfl rfl rfl fun contest? => ?_
    cases contest? with
    | none => exact ⟨rfl, rfl⟩
    | some contest =>
      simp only [afterContest]
      split_ifs <;> exact ⟨rfl, rfl⟩
  | checkingWindow dto userId contest =>
    refine moved_idle .newDate rfl rfl rfl fun now => ?_
    unfold afterWindow
    split_ifs <;> exact ⟨rfl, rfl⟩
  | checkingUser dto userId =>
    refine moved_idle (.findUser userId) rfl rfl rfl fun user? => ?_
    cases user? with
    | none => exact ⟨rfl, rfl⟩
    | some user =>
      simp only [afterUser]
      split_ifs <;> exact ⟨rfl, rfl⟩
  | stamping dto userId => exact moved_idle .newDate rfl rfl rfl fun _ => ⟨rfl, rfl⟩
  | storing dto userId submittedAt => exact moved_idle (.saveSubmission ..) rfl rfl rfl fun _ => ⟨rfl, rfl⟩
  | enqueueing dto userId submission =>
    exact moved_idle (.enqueueSubmission ..) rfl rfl rfl fun _ => ⟨rfl, rfl⟩
  | returned outcome => exact moved_refl rfl rfl c w
  | raised e => exact moved_refl rfl rfl c w

/-- A step of one request leaves every request at a well-formed point. -/
theorem wellFormed_step {pool : Pool ℕ (fun _ => Point) World} (h : ∀ i, WellFormed (pool.tasks i))
    (x : ℕ × Choice) (i : ℕ) : WellFormed ((Pool.step pointStep x pool).tasks i) := by
  by_cases hi : i = x.1
  · rw [hi, Pool.step_tasks_self]
    exact (next_moved (h x.1) x.2 pool.state).wellFormed
  · rw [Pool.step_tasks_of_ne hi]
    exact h i

theorem held_startPoint (r : Request) : held (startPoint r) = [] := by
  cases r <;> rfl

theorem wellFormed_startPoints (requests : ℕ → Request) (w : World) (i : ℕ) :
    WellFormed ((startPoints requests w).tasks i) :=
  wellFormed_of_held_eq_nil (held_startPoint (requests i))

/-! ## Runs -/

/-- What keeps the event of contest `id` unique: a request that holds the contest, or an
    unfinished row, means that nobody has raised the event or is about to. -/
structure Once (id : Id) (pool : Pool ℕ (fun _ => Point) World) : Prop where
  quiet : (∃ i, id ∈ held (pool.tasks i)) ∨ Unfinished pool.state id →
    pool.state.emitted.count id = 0 ∧ ∀ i, due (pool.tasks i) ≠ some id
  due_count : ∀ i, due (pool.tasks i) = some id → pool.state.emitted.count id = 0
  due_unique : ∀ i j, due (pool.tasks i) = some id → due (pool.tasks j) = some id → i = j
  count_le : pool.state.emitted.count id ≤ 1

/-- One step, when a save of the contest finds nobody else holding it. -/
theorem Once.step {id : Id} {pool : Pool ℕ (fun _ => Point) World} (h : Once id pool) {x : ℕ × Choice}
    (hwf : WellFormed (pool.tasks x.1))
    (hguard : saves (pool.tasks x.1) = some id → x.2.fails = none →
      ∀ j, j ≠ x.1 → id ∉ held (pool.tasks j)) :
    Once id (Pool.step pointStep x pool) := by
  have hmoved := next_moved hwf x.2 pool.state
  set p' := (next x.2 (pool.tasks x.1, pool.state)).1 with hp'
  set w' := (next x.2 (pool.tasks x.1, pool.state)).2 with hw'
  have hself : (Pool.step pointStep x pool).tasks x.1 = p' := Pool.step_tasks_self x pool
  have hother : ∀ i, i ≠ x.1 → (Pool.step pointStep x pool).tasks i = pool.tasks i :=
    fun i hi => Pool.step_tasks_of_ne hi pool
  have hstate : (Pool.step pointStep x pool).state = w' := rfl
  -- the event is raised by this step iff it was due
  have hcount : w'.emitted.count id =
      pool.state.emitted.count id + if due (pool.tasks x.1) = some id then 1 else 0 := by
    rw [hmoved.emitted, List.count_append]
    cases hd : due (pool.tasks x.1) with
    | none => simp
    | some id' =>
      by_cases he : id' = id
      · simp [he]
      · simp [he]
  have hcount_of_quiet : (∀ i, due (pool.tasks i) ≠ some id) →
      w'.emitted.count id = pool.state.emitted.count id := by
    intro hnone
    rw [hcount, if_neg (hnone x.1), Nat.add_zero]
  -- the request that saves the contest holds it
  have hsaved : due p' = some id → pool.state.emitted.count id = 0 ∧ ∀ i, due (pool.tasks i) ≠ some id := by
    intro hd
    exact h.quiet (.inl ⟨x.1, held_of_saves (hmoved.due id hd).1⟩)
  constructor
  · intro hbefore
    rw [hstate] at hbefore ⊢
    have hquiet : (∃ i, id ∈ held (pool.tasks i)) ∨ Unfinished pool.state id := by
      rcases hbefore with ⟨i, hi⟩ | hunfinished
      · by_cases hix : i = x.1
        · rw [hix, hself] at hi
          exact (hmoved.held id hi).imp_left fun hheld => ⟨x.1, hheld⟩
        · rw [hother i hix] at hi
          exact .inl ⟨i, hi⟩
      · exact .inr (hmoved.unfinished id hunfinished)
    obtain ⟨hzero, hnone⟩ := h.quiet hquiet
    refine ⟨by rw [hcount_of_quiet hnone, hzero], fun i => ?_⟩
    by_cases hix : i = x.1
    · rw [hix, hself]
      intro hd
      -- after the save the row is finished and nobody holds the contest
      obtain ⟨hsaves, hfails, hfinished, hnot⟩ := hmoved.due id hd
      rcases hbefore with ⟨j, hj⟩ | hunfinished
      · by_cases hjx : j = x.1
        · rw [hjx, hself] at hj
          exact hnot hj
        · rw [hother j hjx] at hj
          exact hguard hsaves hfails j hjx hj
      · exact hfinished hunfinished
    · rw [hother i hix]
      exact hnone i
  · intro i hd
    rw [hstate]
    by_cases hix : i = x.1
    · rw [hix, hself] at hd
      obtain ⟨hzero, hnone⟩ := hsaved hd
      rw [hcount_of_quiet hnone, hzero]
    · rw [hother i hix] at hd
      rw [hcount, h.due_count i hd, if_neg fun hx => hix (h.due_unique i x.1 hd hx)]
  · intro i j hi hj
    by_cases hix : i = x.1 <;> by_cases hjx : j = x.1
    · rw [hix, hjx]
    · rw [hix, hself] at hi
      rw [hother j hjx] at hj
      exact absurd hj ((hsaved hi).2 j)
    · rw [hjx, hself] at hj
      rw [hother i hix] at hi
      exact absurd hi ((hsaved hj).2 i)
    · rw [hother i hix] at hi
      rw [hother j hjx] at hj
      exact h.due_unique i j hi hj
  · rw [hstate, hcount]
    split_ifs with hd
    · rw [h.due_count x.1 hd]
    · exact h.count_le

/-- The invariant of a run. -/
theorem once_run {requests : ℕ → Request} {w : World} (hw : w.emitted = []) {sched : List (ℕ × Choice)}
    (hg : Pool.Guarded requestStep SavesAlone sched (startRequests requests w)) (id : Id) :
    Once id (Pool.run pointStep sched (startPoints requests w)) := by
  rw [← map_startPoints, Pool.guarded_map simulates] at hg
  have hidle : ∀ r : Request, due (startPoint r) = none := by
    intro r
    cases r <;> rfl
  have hstart : (∀ i, WellFormed ((startPoints requests w).tasks i)) ∧
      Once id (startPoints requests w) := by
    have hdue : ∀ i, due ((startPoints requests w).tasks i) ≠ some id := by
      intro i hi
      rw [show due ((startPoints requests w).tasks i) = none from hidle (requests i)] at hi
      cases hi
    have hcount : (startPoints requests w).state.emitted.count id = 0 := by simp [startPoints, hw]
    exact ⟨wellFormed_startPoints requests w,
      ⟨fun _ => ⟨hcount, hdue⟩, fun i hi => absurd hi (hdue i), fun i _ hi => absurd hi (hdue i), by omega⟩⟩
  refine (Pool.invariant (I := fun pool => (∀ i, WellFormed (pool.tasks i)) ∧ Once id pool) ?_ hg hstart).2
  rintro x pool hx ⟨hwf, honce⟩
  refine ⟨wellFormed_step hwf x, honce.step (hwf x.1) fun hsaves hfails j hj => ?_⟩
  rw [← heldBy_code]
  exact hx id ((savedNext_code _).trans hsaves) hfails j hj

/-! ## The events of a run -/

/-- An id that occurs at most once matches at most once. -/
theorem sum_scope_le_one {events : List Id} (h : ∀ id, events.count id ≤ 1) (contestId : Option Id) :
    (events.map fun id => if contestId = some id then 1 else 0).sum ≤ 1 := by
  cases contestId with
  | none => simp
  | some contestId =>
    have hcount : (events.map fun id => if some contestId = some id then 1 else 0).sum =
        events.count contestId := by
      clear h
      induction events with
      | nil => rfl
      | cons id events ih =>
        rw [List.map_cons, List.sum_cons, ih, List.count_cons, Nat.add_comm]
        simp only [Option.some.injEq, beq_iff_eq, eq_comm (a := contestId)]
    rw [hcount]
    exact h contestId

/-- **Main**: if every save of a run finds no other request that has read the contest as
    unfinished and not saved it, each contest gets at most one event, and the handlers of
    the events deliver at most once to each subscription. -/
theorem finished_once {requests : ℕ → Request} {w : World} (hw : w.emitted = []) {sched : List (ℕ × Choice)}
    (hg : Pool.Guarded requestStep SavesAlone sched (startRequests requests w)) :
    let events := (Pool.run requestStep sched (startRequests requests w)).state.emitted
    (∀ id, events.count id ≤ 1) ∧
      ∀ (v : Webhooks.World) (handling : List (Fin events.length × Webhooks.Choice)),
        ∀ s ∈ v.subscriptions.rows,
          let handled := Pool.run Webhooks.handlerStep handling (Webhooks.handlers events v)
          Webhooks.deliveredTo s handled.state ≤ Webhooks.deliveredTo s v + 1 := by
  intro events
  have hcount : ∀ id, events.count id ≤ 1 := by
    intro id
    have honce : (Pool.map (fun _ => code)
        (Pool.run pointStep sched (startPoints requests w))).state.emitted.count id ≤ 1 :=
      (once_run hw hg id).count_le
    rwa [← Pool.run_map simulates, map_startPoints] at honce
  refine ⟨hcount, fun v handling s hs => ?_⟩
  have hdelivered := Webhooks.deliveredTo_handlers events handling hs
  have hsum := sum_scope_le_one hcount s.contestId
  omega

/-! ## A manual finish and a tick -/

def openContest : Contest :=
  { id := "c1", title := "Finals", startTime := 0, endTime := 1000, finishedAt := none, deletedAt := none }

/-- A contest whose end time has passed. -/
def overdue : World where
  contests := Table.empty.upsert openContest
  problems := .empty
  users := .empty
  submissions := .empty
  submissionQueue := []
  emitted := []
  clock := 2000

/-- Request 0 finishes the contest, the others are ticks of the scheduler. -/
def manualAndTicks : ℕ → Request
  | 0 => .finishContest "c1"
  | _ + 1 => .finishExpiredContests

/-- The given requests take their steps in this order, and no call throws. -/
def inOrder (requests : List ℕ) : List (ℕ × Choice) :=
  requests.map fun i => (i, { fails := none, uuid := "s1", elapsed := 1 })

theorem heldBy_program (r : Request) : heldBy (program r) = [] := by
  cases r <;> rfl

/-- The tick reads after the manual finish. -/
theorem finished_once_inTurn :
    let events := (Pool.run requestStep (inOrder [0, 0, 0, 0, 1, 1])
      (startRequests manualAndTicks overdue)).state.emitted
    (∀ id, events.count id ≤ 1) ∧
      ∀ (v : Webhooks.World) (handling : List (Fin events.length × Webhooks.Choice)),
        ∀ s ∈ v.subscriptions.rows,
          let handled := Pool.run Webhooks.handlerStep handling (Webhooks.handlers events v)
          Webhooks.deliveredTo s handled.state ≤ Webhooks.deliveredTo s v + 1 := by
  refine @finished_once manualAndTicks overdue rfl (inOrder [0, 0, 0, 0, 1, 1])
    ⟨?_, ?_, ?_, ?_, ?_, ?_, trivial⟩
  · exact fun id h => by cases h
  · exact fun id h => by cases h
  · intro id _ _ j hj
    -- the ticks have not taken a step
    rw [Pool.step_tasks_of_ne hj, Pool.step_tasks_of_ne hj]
    show id ∉ heldBy (program (manualAndTicks j))
    rw [heldBy_program]
    exact List.not_mem_nil
  · exact fun id h => by cases h
  · exact fun id h => by cases h
  · exact fun id h => by cases h

def hook : Webhooks.WebhookSubscription :=
  { id := "w1", targetUrl := "/hook", secret := none, contestId := some "c1", active := true }

def hooked : Webhooks.World where
  contests := Table.empty.upsert openContest
  users := .empty
  submissions := .empty
  subscriptions := Table.empty.upsert hook
  deliveries := .empty
  webhookQueue := []
  nullsFirst := false

/-- The tick reads before the manual finish saves: the contest gets two events, and its
    subscription two deliveries. -/
theorem finished_twice :
    let pool := Pool.run requestStep (inOrder [0, 1, 1, 0, 0, 0, 1, 1])
      (startRequests manualAndTicks overdue)
    let handled := Pool.run Webhooks.handlerStep
      (List.replicate 5 (0, ⟨none, "d1", ""⟩) ++ List.replicate 5 (1, ⟨none, "d2", ""⟩))
      (Webhooks.handlers ["c1", "c1"] hooked)
    pool.state.emitted = ["c1", "c1"] ∧ Webhooks.deliveredTo hook handled.state = 2 :=
  ⟨rfl, rfl⟩

end CodeWeaknesses.Contests
