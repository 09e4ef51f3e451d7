import CodeWeaknesses.Contest.Finished

/-!
# Concurrent edits of a contest

`BaseService.update` of `commun/generic-crud.service.ts`, as `PATCH /contests/:id` calls
it, beside `finishContest` and `finishExpiredContests`. Each of them reads a whole
contest, changes some of its fields, and saves the whole contest in a later call.

Results:
* `simulatesEdits`: the requests run as their program points do.
* `EditPoint.next_moves`: what one step of a request does.
* `Tracked.step`: what a save of an up-to-date copy keeps.
* `edits_kept_iff`: **no value that a request saved is lost, at any time of a run, iff
  every save writes a copy that is up to date outside the fields of its request.**
* `extension_undone`: a tick that read the contest before its end was moved.
-/

namespace CodeWeaknesses.Contests

open Lib Submissions

/-! ## Fields -/

/-- The columns of a contest that requests set. -/
inductive Field where
  | title | startTime | endTime | finishedAt | deletedAt
  deriving DecidableEq, Repr

/-- The value of a column. -/
inductive FieldValue where
  | text (value : String)
  | date (value : Option Date)
  deriving DecidableEq, Repr

def valueAt (contest : Contest) : Field → FieldValue
  | .title => .text contest.title
  | .startTime => .date (some contest.startTime)
  | .endTime => .date (some contest.endTime)
  | .finishedAt => .date contest.finishedAt
  | .deletedAt => .date contest.deletedAt

/-- The body of `PATCH /contests/:id`. The controller takes it as `any`: it may set every
    column. A field that it leaves out is `none`. -/
structure UpdateContestDto where
  title : Option String
  startTime : Option Date
  endTime : Option Date
  finishedAt : Option (Option Date)
  deletedAt : Option (Option Date)

/-- The value that the body has for a field. -/
def UpdateContestDto.value? (dto : UpdateContestDto) : Field → Option FieldValue
  | .title => dto.title.map .text
  | .startTime => dto.startTime.map fun t => .date (some t)
  | .endTime => dto.endTime.map fun t => .date (some t)
  | .finishedAt => dto.finishedAt.map .date
  | .deletedAt => dto.deletedAt.map .date

/-! ## `BaseService` -/

/-- `findOne` (lines 22–31). -/
def findOne (id : Id) : M Contest := do
  match ← await (.findContest id) with
  | none => throw (.notFound "Not Found")
  | some entity => pure entity

/-- `repository.merge`. -/
def merge (contest : Contest) (dto : UpdateContestDto) : Contest :=
  { contest with
    title := dto.title.getD contest.title
    startTime := dto.startTime.getD contest.startTime
    endTime := dto.endTime.getD contest.endTime
    finishedAt := dto.finishedAt.getD contest.finishedAt
    deletedAt := dto.deletedAt.getD contest.deletedAt }

/-- `repository.save`, which returns the entity. -/
def save (entity : Contest) : M Contest := do
  await (.saveContest entity)
  pure entity

/-- `update` (lines 33–37). -/
def update (id : Id) (updateDto : UpdateContestDto) : M Contest := do
  let existingEntity ← findOne id
  let mergedEntity := merge existingEntity updateDto
  save mergedEntity

@[simp] theorem id_merge (contest : Contest) (dto : UpdateContestDto) : (merge contest dto).id = contest.id :=
  rfl

theorem valueAt_merge (contest : Contest) (dto : UpdateContestDto) (f : Field) :
    valueAt (merge contest dto) f = (dto.value? f).getD (valueAt contest f) := by
  obtain ⟨title, startTime, endTime, finishedAt, deletedAt⟩ := dto
  cases f with
  | title => cases title <;> rfl
  | startTime => cases startTime <;> rfl
  | endTime => cases endTime <;> rfl
  | finishedAt => cases finishedAt <;> rfl
  | deletedAt => cases deletedAt <;> rfl

/-! ## Requests -/

/-- What is called. -/
inductive EditRequest where
  | update (id : Id) (updateDto : UpdateContestDto)
  | finishContest (id : Id)
  | finishExpiredContests

/-- The program of a request. -/
def editProgram : EditRequest → M Outcome
  | .update id updateDto => returnContest do return some (← update id updateDto)
  | .finishContest id => program (.finishContest id)
  | .finishExpiredContests => program .finishExpiredContests

/-- The value that a request gives a field when it saves the contest `e`. -/
def gives : EditRequest → Contest → Field → Option FieldValue
  | .update _ updateDto, _, f => updateDto.value? f
  | _, e, .finishedAt => some (.date e.finishedAt)
  | _, _, _ => none

/-- Whether the request is one of `ContestService` itself. -/
def EditRequest.Finishes (r : EditRequest) : Prop := ∀ id updateDto, r ≠ .update id updateDto

/-- Whether a request sets a field. -/
def sets : EditRequest → Field → Bool
  | .update _ updateDto, f => (updateDto.value? f).isSome
  | _, f => f = .finishedAt

theorem isSome_gives (r : EditRequest) (e : Contest) (f : Field) : (gives r e f).isSome = sets r f := by
  cases r with
  | update id dto => rfl
  | _ => cases f <;> rfl

/-- The requests that are made; request `i` has not taken a step yet. -/
def startEdits (requests : ℕ → EditRequest) (w : World) : Pool ℕ (fun _ => M Outcome) World where
  tasks i := editProgram (requests i)
  state := w

/-! ## Saves -/

/-- The contest that the next call saves. -/
def entityNext : M Outcome → Option Contest
  | .call (.saveContest e) _ => some e
  | _ => none

/-- What a step saves, with the request that saves it. -/
def savedBy (x : ℕ × Choice) (pool : Pool ℕ (fun _ => M Outcome) World) : Option (ℕ × Contest) :=
  if x.2.fails = none then (entityNext (pool.tasks x.1)).map fun e => (x.1, e) else none

/-- The successful saves of a run, in their order. -/
def savesOf : List (ℕ × Choice) → Pool ℕ (fun _ => M Outcome) World → List (ℕ × Contest)
  | [], _ => []
  | x :: sched, pool => (savedBy x pool).toList ++ savesOf sched (Pool.step requestStep x pool)

/-- Different requests that save one contest set different fields of it. -/
def SetApart (requests : ℕ → EditRequest) (saved : List (ℕ × Contest)) : Prop :=
  ∀ i e j e', (i, e) ∈ saved → (j, e') ∈ saved → i ≠ j → e.id = e'.id →
    ∀ f, sets (requests i) f = true → sets (requests j) f = false

/-- Every field that a request set holds the value that the request gave it. -/
def EditsKept (requests : ℕ → EditRequest) (saved : List (ℕ × Contest)) (w : World) : Prop :=
  ∀ i e, (i, e) ∈ saved → ∀ f value, gives (requests i) e f = some value →
    ∃ row, w.contests.find? e.id = some row ∧ valueAt row f = value

/-- A save that succeeds writes a copy that agrees with the stored row in every field that
    its request does not set: none of them was written since the request read the contest. -/
def SavesFresh (requests : ℕ → EditRequest) (x : ℕ × Choice) (pool : Pool ℕ (fun _ => M Outcome) World) : Prop :=
  ∀ e, entityNext (pool.tasks x.1) = some e → x.2.fails = none →
    ∀ row, pool.state.contests.find? e.id = some row →
      ∀ f, sets (requests x.1) f = false → valueAt row f = valueAt e f

theorem savesOf_append (sched sched' : List (ℕ × Choice)) (pool : Pool ℕ (fun _ => M Outcome) World) :
    savesOf (sched ++ sched') pool =
      savesOf sched pool ++ savesOf sched' (Pool.run requestStep sched pool) := by
  induction sched generalizing pool with
  | nil => rfl
  | cons x sched ih =>
    show _ ++ savesOf (sched ++ sched') _ = (_ ++ savesOf sched _) ++ _
    rw [ih, List.append_assoc]
    rfl

/-! ## Program points -/

/-- Where a request is. -/
inductive EditPoint where
  | reading (id : Id) (updateDto : UpdateContestDto)
  | savingMerged (mergedEntity : Contest)
  | request (p : Point)

/-- Where `update` goes with the contest it read. -/
def afterFind (updateDto : UpdateContestDto) : Option Contest → EditPoint
  | none => .request (.raised (.notFound "Not Found"))
  | some existingEntity => .savingMerged (merge existingEntity updateDto)

/-- Go on at the point that the answer leads to. -/
def goOnEdit {α : Type} (f : α → EditPoint) : Except Err α × World → EditPoint × World
  | (.ok a, w) => (f a, w)
  | (.error e, w) => (.request (.raised e), w)

namespace EditPoint

/-- What is still to be done. -/
def code : EditPoint → M Outcome
  | .reading id updateDto => editProgram (.update id updateDto)
  | .savingMerged mergedEntity => returnContest do return some (← save mergedEntity)
  | .request p => Contests.code p

/-- One step of a point. -/
def next (c : Choice) : EditPoint × World → EditPoint × World
  | (.reading id updateDto, w) => goOnEdit (afterFind updateDto) (answer (.findContest id) c w)
  | (.savingMerged mergedEntity, w) =>
    goOnEdit (fun _ => .request (.returned (.contest (some mergedEntity))))
      (answer (.saveContest mergedEntity) c w)
  | (.request p, w) => (.request (Contests.next c (p, w)).1, (Contests.next c (p, w)).2)

/-- The contest that the next call saves. -/
def entity : EditPoint → Option Contest
  | .savingMerged mergedEntity => some mergedEntity
  | .request (.saving contest) => some contest
  | .request (.looping now (contest :: _)) => some { contest with finishedAt := some now }
  | _ => none

/-- The contests that the request has read and may still save. -/
def copies : EditPoint → List Contest
  | .savingMerged mergedEntity => [mergedEntity]
  | .request (.dating contest) => [contest]
  | .request (.saving contest) => [contest]
  | .request (.looping _ contests) => contests
  | .request (.loopEmitting _ _ rest) => rest
  | _ => []

/-- Whether the request has its reading of the contests still before it. -/
def reads : EditPoint → Bool
  | .reading .. => true
  | .request (.finishing _) => true
  | .request .ticking => true
  | .request (.finding _) => true
  | _ => false

/-- The points of a request. -/
def Of (r : EditRequest) : EditPoint → Prop
  | .reading id updateDto => r = .update id updateDto
  | .savingMerged mergedEntity =>
    ∃ id updateDto contest, r = .update id updateDto ∧ mergedEntity = merge contest updateDto
  | .request (.finishing _) | .request (.dating _) | .request (.saving _) | .request (.emitting _)
  | .request .ticking | .request (.finding _) | .request (.looping ..) | .request (.loopEmitting ..) => r.Finishes
  | .request (.returned _) | .request (.raised _) => True
  | .request _ => False

end EditPoint

/-- What a step saves. -/
def saved (c : Choice) (p : EditPoint) : Option Contest := if c.fails = none then p.entity else none

/-- A program that makes a call goes on with the answer. -/
theorem step_edit {o : Op} {k : Except Err (Res o) → M Outcome} {f : Res o → EditPoint}
    (hok : ∀ a, k (.ok a) = (f a).code) (herr : ∀ e, k (.error e) = .raise e) (c : Choice) (w : World) :
    Prog.step answer c (.call o k, w) =
      ((goOnEdit f (answer o c w)).1.code, (goOnEdit f (answer o c w)).2) := by
  show (k (answer o c w).1, (answer o c w).2) = _
  rcases answer o c w with ⟨r, w'⟩
  cases r with
  | ok a => simp only [hok, goOnEdit]
  | error e => simp only [herr, goOnEdit]; rfl

def editStep : Pool.Stepper ℕ (fun _ => EditPoint) World Choice := fun _ c x => EditPoint.next c x

/-- Requests run as their program points do. -/
theorem simulatesEdits : Pool.Simulates requestStep editStep (fun _ => EditPoint.code) := by
  intro i c p w
  cases p with
  | reading id updateDto =>
    refine step_edit (fun contest? => ?_) (fun e => rfl) c w
    cases contest? <;> rfl
  | savingMerged mergedEntity => exact step_edit (fun _ => rfl) (fun e => rfl) c w
  | request p => exact simulates i c p w

/-- Where a request starts. -/
def startEditPoint : EditRequest → EditPoint
  | .update id updateDto => .reading id updateDto
  | .finishContest id => .request (.finishing id)
  | .finishExpiredContests => .request .ticking

def startEditPoints (requests : ℕ → EditRequest) (w : World) : Pool ℕ (fun _ => EditPoint) World where
  tasks i := startEditPoint (requests i)
  state := w

theorem map_startEditPoints (requests : ℕ → EditRequest) (w : World) :
    Pool.map (fun _ => EditPoint.code) (startEditPoints requests w) = startEdits requests w := by
  apply Pool.ext
  · funext i
    show (startEditPoint (requests i)).code = editProgram (requests i)
    cases requests i <;> rfl
  · rfl

theorem entityNext_code (p : EditPoint) : entityNext p.code = p.entity := by
  cases p with
  | request p =>
    cases p with
    | looping now contests => cases contests <;> rfl
    | _ => rfl
  | _ => rfl

theorem savedBy_map (x : ℕ × Choice) (pool : Pool ℕ (fun _ => EditPoint) World) :
    savedBy x (Pool.map (fun _ => EditPoint.code) pool) = (saved x.2 (pool.tasks x.1)).map fun e => (x.1, e) := by
  unfold savedBy saved
  split_ifs
  · exact congrArg _ (entityNext_code _)
  · rfl

/-! ## One step -/

/-- The contests agree in every field that the request does not set. -/
structure Agree (r : EditRequest) (e e' : Contest) : Prop where
  id : e.id = e'.id
  value : ∀ f, sets r f = false → valueAt e f = valueAt e' f

theorem Agree.refl {r : EditRequest} (e : Contest) : Agree r e e := ⟨rfl, fun _ _ => rfl⟩

theorem agree_merge {id : Id} {updateDto : UpdateContestDto} (contest : Contest) :
    Agree (.update id updateDto) (merge contest updateDto) contest := by
  refine ⟨rfl, fun f hf => ?_⟩
  have hnone : updateDto.value? f = none := Option.not_isSome_iff_eq_none.mp (by simpa [sets] using hf)
  rw [valueAt_merge, hnone, Option.getD_none]

theorem agree_finish {r : EditRequest} (hr : r.Finishes) (contest : Contest) (now : Date) :
    Agree r { contest with finishedAt := some now } contest := by
  refine ⟨rfl, fun f hf => ?_⟩
  cases r with
  | update id dto => exact absurd rfl (hr id dto)
  | _ =>
    cases f with
    | finishedAt => cases hf
    | _ => rfl

/-- What a request holds after a step: copies that it held before or has just read. -/
structure Follows (r : EditRequest) (p : EditPoint) (w : World) (p' : EditPoint) : Prop where
  point : p'.Of r
  copies : ∀ e ∈ p'.copies, (∃ e₀ ∈ p.copies, Agree r e e₀) ∨
    p.reads = true ∧ ∃ row, w.contests.find? e.id = some row ∧ Agree r e row
  nodup : (p'.copies.map Contest.id).Nodup
  reads : p'.reads = true → p.reads = true

/-- What a step of a request from `p` to `p'` with the choice `c` does. -/
structure Moves (r : EditRequest) (c : Choice) (p : EditPoint) (w : World) (p' : EditPoint) (w' : World) : Prop
    extends Follows r p w p' where
  contests : w'.contests = (saved c p).elim w.contests w.contests.upsert
  dropped : ∀ e, saved c p = some e → e.id ∉ p'.copies.map Contest.id

section Steps

variable {r : EditRequest} {c : Choice} {p p' : EditPoint} {w w' : World}

/-- A step to a point that holds no copy. -/
theorem follows_nil (hpoint : p'.Of r) (hcopies : p'.copies = []) (hreads : p'.reads = true → p.reads = true) :
    Follows r p w p' where
  point := hpoint
  copies e he := by
    rw [hcopies] at he
    cases he
  nodup := by
    rw [hcopies]
    exact List.nodup_nil
  reads := hreads

theorem readsNone (h : p'.reads = false) : p'.reads = true → p.reads = true := by
  intro hreads
  rw [h] at hreads
  cases hreads

theorem follows_raised (r : EditRequest) (p : EditPoint) (w : World) (e : Err) :
    Follows r p w (.request (.raised e)) := follows_nil trivial rfl (readsNone rfl)

theorem saved_eq_none (hp : p.entity = none) : saved c p = none := by
  unfold saved
  split_ifs
  · exact hp
  · rfl

/-- A step that saves nothing. -/
theorem moves_of_follows (h : Follows r p w p') (hp : p.entity = none) (hw : w'.contests = w.contests) :
    Moves r c p w p' w' where
  toFollows := h
  contests := by rw [saved_eq_none hp, Option.elim_none, hw]
  dropped e he := by
    rw [saved_eq_none hp] at he
    cases he

/-- A step by a call that saves no contest. -/
theorem moves_read (o : Op) {f : Res o → EditPoint} (ho : o.writesContest = false) (hp : p.entity = none)
    (hf : ∀ a w', answer o c w = (.ok a, w') → Follows r p w (f a)) :
    Moves r c p w (goOnEdit f (answer o c w)).1 (goOnEdit f (answer o c w)).2 := by
  have hcontests := contests_answer ho c w
  rcases hr : answer o c w with ⟨_ | a, w'⟩ <;> rw [hr] at hcontests
  · exact moves_of_follows (follows_raised r p w _) hp hcontests
  · exact moves_of_follows (hf a w' hr) hp hcontests

/-- A step that saves a contest. -/
theorem moves_save {e : Contest} (hp : p.entity = some e) (h : Follows r p w p')
    (hdropped : e.id ∉ p'.copies.map Contest.id) :
    Moves r c p w (goOnEdit (fun _ => p') (answer (.saveContest e) c w)).1
      (goOnEdit (fun _ => p') (answer (.saveContest e) c w)).2 := by
  unfold answer
  cases hc : c.fails with
  | none =>
    have hsaved : saved c p = some e := by rw [saved, if_pos hc, hp]
    refine ⟨h, by rw [hsaved]; rfl, ?_⟩
    intro e' he'
    cases hsaved.symm.trans he'
    exact hdropped
  | some message =>
    have hsaved : saved c p = none := by rw [saved, if_neg (by rw [hc]; nofun)]
    refine ⟨follows_raised r p w _, by rw [hsaved]; rfl, ?_⟩
    intro e' he'
    cases hsaved.symm.trans he'

theorem request_goOn {α : Type} (f : α → Point) (a : Except Err α × World) :
    ((.request (goOn f a).1, (goOn f a).2) : EditPoint × World) = goOnEdit (fun a => .request (f a)) a := by
  rcases a with ⟨_ | a, w⟩ <;> rfl

/-- The contest that is found is stored. -/
theorem find?_of_contest? {id : Id} {contest : Contest} (h : w.contest? id = some contest) :
    w.contests.find? contest.id = some contest := by
  obtain ⟨hfind, _⟩ := Option.filter_eq_some_iff.mp h
  rwa [(Table.find?_eq_some_iff.mp hfind).2]

theorem moves_reading (id : Id) (updateDto : UpdateContestDto) :
    Moves (.update id updateDto) c (.reading id updateDto) w (EditPoint.next c (.reading id updateDto, w)).1
      (EditPoint.next c (.reading id updateDto, w)).2 := by
  refine moves_read (.findContest id) rfl rfl fun contest? w' hread => ?_
  have hfind := answerOk_of_answer hread
  simp only [answerOk, Prod.mk.injEq, Except.ok.injEq] at hfind
  cases contest? with
  | none => exact follows_raised _ _ w _
  | some contest =>
    refine ⟨⟨id, updateDto, contest, rfl, rfl⟩, ?_, List.nodup_singleton _, readsNone rfl⟩
    intro e he
    cases List.mem_singleton.mp he
    exact .inr ⟨rfl, contest, find?_of_contest? hfind.1, agree_merge contest⟩

theorem moves_finishing (hr : r.Finishes) (id : Id) :
    Moves r c (.request (.finishing id)) w (EditPoint.next c (.request (.finishing id), w)).1
      (EditPoint.next c (.request (.finishing id), w)).2 := by
  rw [EditPoint.next, Contests.next, request_goOn]
  refine moves_read (.findContest id) rfl rfl fun contest? w' hread => ?_
  have hfind := answerOk_of_answer hread
  simp only [answerOk, Prod.mk.injEq, Except.ok.injEq] at hfind
  cases contest? with
  | none => exact follows_nil trivial rfl (readsNone rfl)
  | some contest =>
    by_cases hf : contest.finishedAt.isSome = true
    · rw [show afterRead (some contest) = .returned (.contest (some contest)) from if_pos hf]
      exact follows_nil trivial rfl (readsNone rfl)
    · rw [show afterRead (some contest) = .dating contest from if_neg hf]
      refine ⟨hr, ?_, List.nodup_singleton _, readsNone rfl⟩
      intro e he
      cases List.mem_singleton.mp he
      exact .inr ⟨rfl, contest, find?_of_contest? hfind.1, .refl contest⟩

theorem moves_finding (hr : r.Finishes) (now : Date) :
    Moves r c (.request (.finding now)) w (EditPoint.next c (.request (.finding now), w)).1
      (EditPoint.next c (.request (.finding now), w)).2 := by
  rw [EditPoint.next, Contests.next, request_goOn]
  refine moves_read (.findExpired now) rfl rfl fun contests w' hread => ?_
  have hfind := answerOk_of_answer hread
  simp only [answerOk, Prod.mk.injEq, Except.ok.injEq] at hfind
  have hcontests : contests = w.expired now := hfind.1.symm
  subst hcontests
  refine ⟨hr, ?_, (List.filter_sublist.map Contest.id).nodup w.contests.nodup, readsNone rfl⟩
  intro e he
  exact .inr ⟨rfl, e, Table.find?_key (List.mem_filter.mp he).1, .refl e⟩

/-- One step of a request. -/
theorem EditPoint.next_moves (hp : p.Of r) (hnodup : (p.copies.map Contest.id).Nodup) (c : Choice) (w : World) :
    Moves r c p w (EditPoint.next c (p, w)).1 (EditPoint.next c (p, w)).2 := by
  cases p with
  | reading id updateDto =>
    cases hp
    exact moves_reading id updateDto
  | savingMerged mergedEntity => exact moves_save rfl (follows_nil trivial rfl (readsNone rfl)) List.not_mem_nil
  | request p =>
    cases p with
    | finishing id => exact moves_finishing hp id
    | dating contest =>
      rw [EditPoint.next, Contests.next, request_goOn]
      refine moves_read .newDate rfl rfl fun now w' _ => ?_
      refine ⟨hp, ?_, List.nodup_singleton _, readsNone rfl⟩
      intro e he
      cases List.mem_singleton.mp he
      exact .inl ⟨contest, List.mem_singleton_self contest, agree_finish hp contest now⟩
    | saving contest =>
      rw [EditPoint.next, Contests.next, request_goOn]
      exact moves_save rfl (follows_nil hp rfl (readsNone rfl)) List.not_mem_nil
    | emitting contest =>
      rw [EditPoint.next, Contests.next, request_goOn]
      exact moves_read (.emitFinished contest.id) rfl rfl fun _ _ _ => follows_nil trivial rfl (readsNone rfl)
    | ticking =>
      rw [EditPoint.next, Contests.next, request_goOn]
      exact moves_read .newDate rfl rfl fun now _ _ => follows_nil hp rfl fun _ => rfl
    | finding now => exact moves_finding hp now
    | looping now contests =>
      cases contests with
      | nil => exact moves_of_follows (follows_nil hp rfl (readsNone rfl)) rfl rfl
      | cons contest rest =>
        rw [EditPoint.next, Contests.next, request_goOn]
        obtain ⟨hnot, hrest⟩ := List.nodup_cons.mp hnodup
        refine moves_save rfl ⟨hp, ?_, hrest, readsNone rfl⟩ hnot
        exact fun e he => .inl ⟨e, List.mem_cons_of_mem _ he, .refl e⟩
    | loopEmitting now contest rest =>
      rw [EditPoint.next, Contests.next, request_goOn]
      refine moves_read (.emitFinished contest.id) rfl rfl fun _ _ _ => ⟨hp, ?_, hnodup, readsNone rfl⟩
      exact fun e he => .inl ⟨e, he, .refl e⟩
    | returned outcome => exact moves_of_follows (follows_nil trivial rfl (readsNone rfl)) rfl rfl
    | raised e => exact moves_of_follows (follows_raised r _ w e) rfl rfl
    | _ => cases hp

/-- What a request is about to save: a copy that it holds, with the values it gives. -/
theorem EditPoint.entity_spec {e : Contest} (hp : p.Of r) (he : p.entity = some e) :
    p.reads = false ∧ (∃ e₀ ∈ p.copies, Agree r e e₀) ∧
      ∀ f value, gives r e f = some value → valueAt e f = value := by
  have hfinishes : r.Finishes → ∀ f value, gives r e f = some value → valueAt e f = value := by
    intro hr f value hgives
    cases r with
    | update id dto => exact absurd rfl (hr id dto)
    | _ =>
      cases f with
      | finishedAt =>
        cases hgives
        rfl
      | _ => cases hgives
  cases p with
  | reading id updateDto => cases he
  | savingMerged mergedEntity =>
    cases he
    obtain ⟨id, updateDto, contest, rfl, rfl⟩ := hp
    refine ⟨rfl, ⟨_, List.mem_singleton_self _, .refl _⟩, fun f value hgives => ?_⟩
    have hvalue : updateDto.value? f = some value := hgives
    rw [valueAt_merge, hvalue, Option.getD_some]
  | request p =>
    cases p with
    | saving contest =>
      cases he
      exact ⟨rfl, ⟨_, List.mem_singleton_self _, .refl _⟩, hfinishes hp⟩
    | looping now contests =>
      cases contests with
      | nil => cases he
      | cons contest rest =>
        cases he
        exact ⟨rfl, ⟨contest, List.mem_cons_self, agree_finish hp contest now⟩, hfinishes hp⟩
    | _ => cases he

end Steps

/-! ## Runs -/

/-- Outside the fields of request `i` its copy agrees with the stored row, but for values
    that requests saved meanwhile. -/
def Traced (requests : ℕ → EditRequest) (saves : List (ℕ × Contest)) (w : World) (i : ℕ) (e : Contest) : Prop :=
  ∃ row, w.contests.find? e.id = some row ∧ ∀ f, sets (requests i) f = false →
    valueAt e f = valueAt row f ∨
      ∃ j e', (j, e') ∈ saves ∧ e'.id = e.id ∧ gives (requests j) e' f = some (valueAt row f)

/-- What the requests hold after a run that saved `saves`. -/
structure Tracked (requests : ℕ → EditRequest) (saves : List (ℕ × Contest))
    (pool : Pool ℕ (fun _ => EditPoint) World) : Prop where
  point : ∀ i, (pool.tasks i).Of (requests i)
  nodup : ∀ i, ((pool.tasks i).copies.map Contest.id).Nodup
  copies : ∀ i, ∀ e ∈ (pool.tasks i).copies, Traced requests saves pool.state i e
  once : ∀ i e, (i, e) ∈ saves → (pool.tasks i).reads = false ∧ e.id ∉ (pool.tasks i).copies.map Contest.id

section Runs

variable {requests : ℕ → EditRequest} {saves : List (ℕ × Contest)} {pool : Pool ℕ (fun _ => EditPoint) World}

theorem tracked_start (requests : ℕ → EditRequest) (w : World) :
    Tracked requests [] (startEditPoints requests w) := by
  have hstart : ∀ r : EditRequest, (startEditPoint r).Of r ∧ (startEditPoint r).copies = [] := by
    intro r
    cases r with
    | update id dto => exact ⟨rfl, rfl⟩
    | finishContest id => exact ⟨nofun, rfl⟩
    | finishExpiredContests => exact ⟨nofun, rfl⟩
  have hcopies : ∀ i, ((startEditPoints requests w).tasks i).copies = [] := fun i => (hstart (requests i)).2
  refine ⟨fun i => (hstart (requests i)).1, ?_, ?_, nofun⟩
  · intro i
    rw [hcopies]
    exact List.nodup_nil
  · intro i e he
    rw [hcopies] at he
    cases he

theorem Traced.of_agree {w : World} {i : ℕ} {e e₀ : Contest} (h : Traced requests saves w i e₀)
    (he : Agree (requests i) e e₀) : Traced requests saves w i e := by
  obtain ⟨row, hfind, hrow⟩ := h
  refine ⟨row, he.id ▸ hfind, fun f hf => ?_⟩
  rw [he.value f hf, he.id]
  exact hrow f hf

theorem traced_of_read {w : World} {i : ℕ} {e row : Contest} (hfind : w.contests.find? e.id = some row)
    (he : Agree (requests i) e row) : Traced requests saves w i e :=
  ⟨row, hfind, fun f hf => .inl (he.value f hf)⟩

/-- A save of an up-to-date copy. -/
theorem Traced.save {w w' : World} {i j : ℕ} {e e₀ : Contest} (h : Traced requests saves w i e)
    (hw : w'.contests = w.contests.upsert e₀)
    (hgives : ∀ f value, gives (requests j) e₀ f = some value → valueAt e₀ f = value)
    (hfresh : ∀ row, w.contests.find? e₀.id = some row →
      ∀ f, sets (requests j) f = false → valueAt row f = valueAt e₀ f) :
    Traced requests (saves ++ [(j, e₀)]) w' i e := by
  obtain ⟨row, hfind, hrow⟩ := h
  have hold : ∀ f, sets (requests i) f = false → valueAt e f = valueAt row f ∨
      ∃ k e', (k, e') ∈ saves ++ [(j, e₀)] ∧ e'.id = e.id ∧
        gives (requests k) e' f = some (valueAt row f) := by
    intro f hf
    refine (hrow f hf).imp_right ?_
    rintro ⟨k, e', hmem, hk⟩
    exact ⟨k, e', List.mem_append_left _ hmem, hk⟩
  by_cases hid : e.id = e₀.id
  · refine ⟨e₀, by rw [hw, hid, Table.find?_upsert_self], fun f hf => ?_⟩
    cases hsets : sets (requests j) f with
    | true =>
      -- the value is now the one that request `j` gave
      obtain ⟨value, hvalue⟩ := Option.isSome_iff_exists.mp ((isSome_gives _ e₀ f).trans hsets)
      refine .inr ⟨j, e₀, by simp, hid.symm, ?_⟩
      rw [hvalue, hgives f value hvalue]
    | false =>
      rw [← hfresh row (hid ▸ hfind) f hsets]
      exact hold f hf
  · exact ⟨row, by rw [hw, Table.find?_upsert, if_neg hid, hfind], hold⟩

/-- Read by points: every save writes a copy that is up to date outside the fields of its
    request. -/
def SavesFreshAt (requests : ℕ → EditRequest) (x : ℕ × Choice) (pool : Pool ℕ (fun _ => EditPoint) World) :
    Prop :=
  ∀ e, saved x.2 (pool.tasks x.1) = some e → ∀ row, pool.state.contests.find? e.id = some row →
    ∀ f, sets (requests x.1) f = false → valueAt row f = valueAt e f

theorem entity_of_saved {c : Choice} {p : EditPoint} {e : Contest} (h : saved c p = some e) : p.entity = some e := by
  unfold saved at h
  split_ifs at h
  exact h

/-- What a request has saved it neither holds nor reads again. -/
theorem Moves.once {r : EditRequest} {c : Choice} {p p' : EditPoint} {w w' : World} {e : Contest}
    (h : Moves r c p w p' w') (hreads : p.reads = false) (hnot : e.id ∉ p.copies.map Contest.id) :
    p'.reads = false ∧ e.id ∉ p'.copies.map Contest.id := by
  refine ⟨Bool.eq_false_iff.mpr fun hreads' => ?_, fun hmem => ?_⟩
  · rw [h.reads hreads'] at hreads
    cases hreads
  · obtain ⟨e', he', hid⟩ := List.mem_map.mp hmem
    rcases h.copies e' he' with ⟨e₀, he₀, hagree⟩ | ⟨hreads', _⟩
    · exact hnot (List.mem_map.mpr ⟨e₀, he₀, hagree.id.symm.trans hid⟩)
    · rw [hreads'] at hreads
      cases hreads

/-- What a save of an up-to-date copy keeps. -/
theorem Tracked.step (h : Tracked requests saves pool) {x : ℕ × Choice} (hx : SavesFreshAt requests x pool) :
    Tracked requests (saves ++ ((saved x.2 (pool.tasks x.1)).map fun e => (x.1, e)).toList)
      (Pool.step editStep x pool) := by
  have hmoves : Moves (requests x.1) x.2 (pool.tasks x.1) pool.state
      ((Pool.step editStep x pool).tasks x.1) (Pool.step editStep x pool).state := by
    rw [Pool.step_tasks_self]
    exact EditPoint.next_moves (h.point x.1) (h.nodup x.1) x.2 pool.state
  have hother : ∀ i, i ≠ x.1 → (Pool.step editStep x pool).tasks i = pool.tasks i :=
    fun i hi => Pool.step_tasks_of_ne hi pool
  generalize Pool.step editStep x pool = pool' at hmoves hother ⊢
  have htraced : ∀ i, ∀ e ∈ (pool'.tasks i).copies, Traced requests saves pool.state i e := by
    intro i e he
    by_cases hi : i = x.1
    · subst hi
      rcases hmoves.copies e he with ⟨e₀, he₀, hagree⟩ | ⟨_, row, hfind, hagree⟩
      · exact (h.copies _ e₀ he₀).of_agree hagree
      · exact traced_of_read hfind hagree
    · rw [hother i hi] at he
      exact h.copies i e he
  constructor
  case point =>
    intro i
    by_cases hi : i = x.1
    · subst hi
      exact hmoves.point
    · rw [hother i hi]
      exact h.point i
  case nodup =>
    intro i
    by_cases hi : i = x.1
    · subst hi
      exact hmoves.nodup
    · rw [hother i hi]
      exact h.nodup i
  case copies =>
    intro i e he
    have hcontests := hmoves.contests
    cases hs : saved x.2 (pool.tasks x.1) with
    | none =>
      rw [hs, Option.elim_none] at hcontests
      obtain ⟨row, hfind, hrow⟩ := htraced i e he
      simpa using ⟨row, by rw [hcontests, hfind], hrow⟩
    | some e₀ =>
      rw [hs, Option.elim_some] at hcontests
      exact (htraced i e he).save hcontests
        (EditPoint.entity_spec (h.point x.1) (entity_of_saved hs)).2.2 (hx e₀ hs)
  case once =>
    intro i e hmem
    rcases List.mem_append.mp hmem with hold | hnew
    · obtain ⟨hreads, hnot⟩ := h.once i e hold
      by_cases hi : i = x.1
      · subst hi
        exact hmoves.once hreads hnot
      · rw [hother i hi]
        exact ⟨hreads, hnot⟩
    · cases hs : saved x.2 (pool.tasks x.1) with
      | none =>
        rw [hs] at hnew
        cases hnew
      | some e₀ =>
        rw [hs] at hnew
        cases List.mem_singleton.mp hnew
        have hspec := EditPoint.entity_spec (h.point x.1) (entity_of_saved hs)
        refine ⟨Bool.eq_false_iff.mpr fun hreads' => ?_, hmoves.dropped _ hs⟩
        rw [hmoves.reads hreads'] at hspec
        cases hspec.1

/-- A save of an up-to-date copy keeps what the requests before it set. -/
theorem EditsKept.step (hkept : EditsKept requests saves pool.state) (h : Tracked requests saves pool)
    {x : ℕ × Choice} (hx : SavesFreshAt requests x pool)
    (hapart : SetApart requests (saves ++ ((saved x.2 (pool.tasks x.1)).map fun e => (x.1, e)).toList)) :
    EditsKept requests (saves ++ ((saved x.2 (pool.tasks x.1)).map fun e => (x.1, e)).toList)
      (Pool.step editStep x pool).state := by
  have hcontests : (Pool.step editStep x pool).state.contests =
      (saved x.2 (pool.tasks x.1)).elim pool.state.contests pool.state.contests.upsert :=
    (EditPoint.next_moves (h.point x.1) (h.nodup x.1) x.2 pool.state).contests
  generalize (Pool.step editStep x pool).state = w' at hcontests ⊢
  cases hs : saved x.2 (pool.tasks x.1) with
  | none =>
    rw [hs, Option.elim_none] at hcontests
    simpa [EditsKept, hcontests] using hkept
  | some e₀ =>
    rw [hs, Option.elim_some] at hcontests
    rw [hs] at hapart
    obtain ⟨_, ⟨copy, hcopy, hagree⟩, hgives⟩ := EditPoint.entity_spec (h.point x.1) (entity_of_saved hs)
    intro i e hmem f value hvalue
    rcases List.mem_append.mp hmem with hold | hnew
    · obtain ⟨row, hfind, hrow⟩ := hkept i e hold f value hvalue
      by_cases hid : e.id = e₀.id
      · have hne : i ≠ x.1 := by
          rintro rfl
          refine (h.once _ e hold).2 (List.mem_map.mpr ⟨copy, hcopy, ?_⟩)
          rw [← hagree.id, hid]
        have hset : sets (requests i) f = true := by rw [← isSome_gives _ e, hvalue, Option.isSome_some]
        have hunset : sets (requests x.1) f = false := hapart i e x.1 e₀ hmem (by simp) hne hid f hset
        refine ⟨e₀, by rw [hcontests, hid, Table.find?_upsert_self], ?_⟩
        rw [← hx e₀ hs row (hid ▸ hfind) f hunset, hrow]
      · exact ⟨row, by rw [hcontests, Table.find?_upsert, if_neg hid, hfind], hrow⟩
    · cases List.mem_singleton.mp hnew
      exact ⟨e₀, by rw [hcontests, Table.find?_upsert_self], hgives f value hvalue⟩

/-- A save of a copy that is out of date in a field of another request loses its value. -/
theorem Tracked.lost (h : Tracked requests saves pool) {x : ℕ × Choice} (hx : ¬ SavesFreshAt requests x pool) :
    ¬ EditsKept requests (saves ++ ((saved x.2 (pool.tasks x.1)).map fun e => (x.1, e)).toList)
      (Pool.step editStep x pool).state := by
  intro hkept
  refine hx fun e hs row hfind f hf => ?_
  have hcontests : (Pool.step editStep x pool).state.contests = pool.state.contests.upsert e := by
    have hmoves := EditPoint.next_moves (h.point x.1) (h.nodup x.1) x.2 pool.state
    rw [Pool.step_state]
    exact hmoves.contests.trans (by rw [hs, Option.elim_some])
  obtain ⟨_, ⟨copy, hcopy, hagree⟩, _⟩ := EditPoint.entity_spec (h.point x.1) (entity_of_saved hs)
  obtain ⟨row', hfind', hrow'⟩ := (h.copies x.1 copy hcopy).of_agree hagree
  cases hfind.symm.trans hfind'
  rcases hrow' f hf with hsame | ⟨j, e', hmem, hid, hvalue⟩
  · exact hsame.symm
  · obtain ⟨stored, hstored, hvalue'⟩ := hkept j e' (List.mem_append_left _ hmem) f _ hvalue
    rw [hcontests, hid, Table.find?_upsert_self] at hstored
    cases hstored
    exact hvalue'.symm

end Runs

theorem savesFresh_map (requests : ℕ → EditRequest) (x : ℕ × Choice) (pool : Pool ℕ (fun _ => EditPoint) World) :
    SavesFresh requests x (Pool.map (fun _ => EditPoint.code) pool) ↔ SavesFreshAt requests x pool := by
  show (∀ e, entityNext (pool.tasks x.1).code = some e → x.2.fails = none → _) ↔ _
  rw [entityNext_code]
  constructor
  · intro h e hs
    unfold saved at hs
    split_ifs at hs with hc
    exact h e hs hc
  · intro h e he hc
    exact h e (by rw [saved, if_pos hc, he])

/-- The history of a run that is one step longer. -/
theorem savesOf_snoc (requests : ℕ → EditRequest) (w : World) (sched : List (ℕ × Choice)) (x : ℕ × Choice) :
    savesOf (sched ++ [x]) (startEdits requests w) = savesOf sched (startEdits requests w) ++
      ((saved x.2 ((Pool.run editStep sched (startEditPoints requests w)).tasks x.1)).map fun e => (x.1, e)).toList := by
  rw [savesOf_append, ← map_startEditPoints, Pool.run_map simulatesEdits, savesOf, savedBy_map, savesOf,
    List.append_nil]

theorem SetApart.mono {requests : ℕ → EditRequest} {saves saves' : List (ℕ × Contest)}
    (h : SetApart requests saves') (hsub : saves ⊆ saves') : SetApart requests saves :=
  fun i e j e' hi hj => h i e j e' (hsub hi) (hsub hj)

/-- A run whose saves all write up-to-date copies keeps what its requests set. -/
theorem editsKept_run {requests : ℕ → EditRequest} {w : World} {sched : List (ℕ × Choice)}
    (hapart : SetApart requests (savesOf sched (startEdits requests w)))
    (hfresh : Pool.Guarded editStep (SavesFreshAt requests) sched (startEditPoints requests w)) :
    Tracked requests (savesOf sched (startEdits requests w))
        (Pool.run editStep sched (startEditPoints requests w)) ∧
      EditsKept requests (savesOf sched (startEdits requests w))
        (Pool.run editStep sched (startEditPoints requests w)).state := by
  induction sched using List.reverseRecOn with
  | nil => exact ⟨tracked_start requests w, nofun⟩
  | append_singleton sched x ih =>
    obtain ⟨hfresh, hx, _⟩ := (Pool.guarded_append sched [x] _).mp hfresh
    rw [savesOf_snoc] at hapart ⊢
    obtain ⟨htracked, hkept⟩ := ih (hapart.mono (List.subset_append_left _ _)) hfresh
    rw [Pool.run_append]
    exact ⟨htracked.step hx, hkept.step htracked hx hapart⟩

/-- **Main**: no value that a request saved is lost at any time of a run, iff every save
    writes a copy that is up to date outside the fields of its request. -/
theorem edits_kept_iff {requests : ℕ → EditRequest} {w : World} {sched : List (ℕ × Choice)}
    (hapart : SetApart requests (savesOf sched (startEdits requests w))) :
    (∀ pre, pre <+: sched → EditsKept requests (savesOf pre (startEdits requests w))
      (Pool.run requestStep pre (startEdits requests w)).state) ↔
      Pool.Guarded requestStep (SavesFresh requests) sched (startEdits requests w) := by
  have hstate : ∀ pre, (Pool.run requestStep pre (startEdits requests w)).state =
      (Pool.run editStep pre (startEditPoints requests w)).state := by
    intro pre
    rw [← map_startEditPoints, Pool.run_map simulatesEdits]
    rfl
  have hguarded : ∀ pre, Pool.Guarded requestStep (SavesFresh requests) pre (startEdits requests w) ↔
      Pool.Guarded editStep (SavesFreshAt requests) pre (startEditPoints requests w) := by
    intro pre
    rw [← map_startEditPoints, Pool.guarded_map simulatesEdits]
    simp only [savesFresh_map]
  have hinitial : ∀ pre post, sched = pre ++ post → SetApart requests (savesOf pre (startEdits requests w)) := by
    rintro pre post rfl
    rw [savesOf_append] at hapart
    exact hapart.mono (List.subset_append_left _ _)
  rw [hguarded]
  constructor
  · intro hkept
    by_contra hnot
    obtain ⟨pre, x, post, rfl, hpre, hx⟩ := Pool.not_guarded hnot
    have htracked := (editsKept_run (hinitial pre _ rfl) hpre).1
    refine htracked.lost hx ?_
    have hlast := hkept (pre ++ [x]) ⟨post, by simp⟩
    rwa [hstate, savesOf_snoc, Pool.run_append] at hlast
  · rintro hfresh pre ⟨post, rfl⟩
    rw [hstate]
    exact (editsKept_run (hinitial pre post rfl) ((Pool.guarded_append pre post _).mp hfresh).1).2

/-! ## An extension and a tick -/

/-- The organiser moves the end of the contest. -/
def extension : UpdateContestDto where
  title := none
  startTime := none
  endTime := some 5000
  finishedAt := none
  deletedAt := none

/-- Request 0 is a tick of the auto-close loop, the others extend the contest. -/
def tickAndExtension : ℕ → EditRequest
  | 0 => .finishExpiredContests
  | _ + 1 => .update "c1" extension

/-- The tick and one extension set different fields. -/
theorem setApart_pair {saves : List (ℕ × Contest)} (h : ∀ i e, (i, e) ∈ saves → i = 0 ∨ i = 1) :
    SetApart tickAndExtension saves := by
  intro i e j e' hi hj hij _ f
  rcases h i e hi with rfl | rfl <;> rcases h j e' hj with rfl | rfl
  · exact absurd rfl hij
  · cases f <;> decide
  · cases f <;> decide
  · exact absurd rfl hij

theorem ids_pair {a b : ℕ × Contest} (ha : a.1 = 0 ∨ a.1 = 1) (hb : b.1 = 0 ∨ b.1 = 1) :
    ∀ i e, (i, e) ∈ [a, b] → i = 0 ∨ i = 1 := by
  intro i e hmem
  rcases List.mem_pair.mp hmem with rfl | rfl
  · exact ha
  · exact hb

/-- The extension reads after the tick has saved. -/
theorem edits_kept_inTurn :
    let start := startEdits tickAndExtension overdue
    let sched := inOrder [0, 0, 0, 0, 1, 1]
    SetApart tickAndExtension (savesOf sched start) ∧ ∀ pre, pre <+: sched →
      EditsKept tickAndExtension (savesOf pre start) (Pool.run requestStep pre start).state := by
  have hapart : SetApart tickAndExtension
      (savesOf (inOrder [0, 0, 0, 0, 1, 1]) (startEdits tickAndExtension overdue)) :=
    setApart_pair (ids_pair (.inl rfl) (.inr rfl))
  refine ⟨hapart, (edits_kept_iff hapart).mpr ⟨?_, ?_, ?_, ?_, ?_, ?_, trivial⟩⟩
  · exact fun e he => by cases he
  · exact fun e he => by cases he
  · rintro e ⟨⟩ _ row ⟨⟩ f hf
    cases f <;> first | rfl | cases hf
  · exact fun e he => by cases he
  · exact fun e he => by cases he
  · rintro e ⟨⟩ _ row ⟨⟩ f hf
    cases f <;> first | rfl | cases hf

/-- The tick reads before the extension saves, and saves after it: it writes the old end
    back. -/
theorem extension_undone :
    let start := startEdits tickAndExtension overdue
    let sched := inOrder [0, 0, 1, 1, 0, 0]
    let pool := Pool.run requestStep sched start
    pool.tasks 0 = .ret .done ∧
      (∃ contest, pool.tasks 1 = .ret (.contest (some contest)) ∧ contest.endTime = 5000) ∧
      (∃ row, pool.state.contests.find? "c1" = some row ∧ row.endTime = 1000) ∧
      SetApart tickAndExtension (savesOf sched start) ∧
      ¬ EditsKept tickAndExtension (savesOf sched start) pool.state := by
  refine ⟨rfl, ⟨_, rfl, rfl⟩, ⟨_, rfl, rfl⟩, ?_, ?_⟩
  · exact setApart_pair (ids_pair (.inr rfl) (.inl rfl))
  · intro hkept
    obtain ⟨row, hfind, hrow⟩ := hkept 1 _ (List.mem_cons_self) .endTime (.date (some 5000)) rfl
    cases hfind
    cases hrow

end CodeWeaknesses.Contests
