import CodeWeaknesses.Contest.Controller

/-!
# Contests in the trash

A contest that is soft-deleted, and any number of requests at the same time: those of
`ContestController`, the ticks of `finishExpiredContests` and the submissions. Any call may throw.

A request that read the contest before it was deleted may still save it. A body that has its id
writes it too, whatever contest the request is for.

Results:
* `keeps_closed`: a call that spares a contest leaves its row, submissions, jobs and events.
* `handler_within`: the calls of a request, if it is not given the contest to read.
* `trash_closed`: **while no such request takes a step, a contest in the trash takes no submission, is
  not finished, is not changed and is not shown.**
-/

namespace CodeWeaknesses.Contests

open Lib Lib.Prog Submissions

/-! ## The contest -/

/-- The contest is stored and deleted. -/
def InTrash (id : Id) (w : World) : Prop := ∃ row, w.contests.find? id = some row ∧ row.deletedAt ≠ none

/-- Nothing has happened to the contest of the row since `start`. -/
structure Closed (row : Contest) (start w : World) : Prop where
  stored : w.contests.find? row.id = some row
  submissions : w.submissions.rows.filter (fun s => s.contestId = row.id) =
    start.submissions.rows.filter fun s => s.contestId = row.id
  jobs : w.submissionQueue.filter (fun j => j.contestId = row.id) =
    start.submissionQueue.filter fun j => j.contestId = row.id
  events : w.emitted.filter (fun id => id = row.id) = start.emitted.filter fun id => id = row.id

/-- The request may read the contest and write it. A tick may read any. -/
def Names (id : Id) : ContestRequest → Prop
  | .getAllContests => False
  | .createContest _ => False
  | .finishContest id' => id' = id
  | .updateContest _ id' => id' = id
  | .deleteContest id' => id' = id
  | .restoreContest id' => id' = id
  | .finishExpiredContests => True
  | .createSubmission dto _ => dto.contestId = id

/-- The request writes the contest without having read it. -/
def Overwrites (id : Id) : ContestRequest → Prop
  | .createContest body => body.id = some id
  | .updateContest body _ => body.id = some id
  | .restoreContest id' => id' = id
  | _ => False

instance (id : Id) (request : ContestRequest) : Decidable (Names id request) :=
  match request with
  | .getAllContests | .createContest _ => .isFalse False.elim
  | .finishContest id' | .updateContest _ id' | .deleteContest id' | .restoreContest id' =>
    inferInstanceAs (Decidable (id' = id))
  | .finishExpiredContests => .isTrue trivial
  | .createSubmission dto _ => inferInstanceAs (Decidable (dto.contestId = id))

instance (id : Id) (request : ContestRequest) : Decidable (Overwrites id request) :=
  match request with
  | .createContest body | .updateContest body _ => inferInstanceAs (Decidable (body.id = some id))
  | .restoreContest id' => inferInstanceAs (Decidable (id' = id))
  | .getAllContests | .finishContest _ | .deleteContest _ | .finishExpiredContests | .createSubmission .. =>
    .isFalse False.elim

/-- The response has something of the contest. -/
def Reply.Shows (id : Id) : Reply → Prop
  | .contests rows => ∃ row ∈ rows, row.id = id
  | .contest found => ∃ row, found = some row ∧ row.id = id
  | .submission stored => stored.contestId = id
  | .affected _ => False
  | .done => False

/-- The calls that leave the contest alone. -/
def Spares (id : Id) : Op ⊕ CrudOp → Prop
  | .inl (.saveContest contest) => contest.id ≠ id
  | .inl (.emitFinished contestId) => contestId ≠ id
  | .inl (.saveSubmission _ _ _ contestId _ _ _) => contestId ≠ id
  | .inl (.enqueueSubmission _ data) => data.contestId ≠ id
  | .inl _ => True
  | .inr (.saveBody body) => body.id ≠ some id
  | .inr (.softDelete id') => id' ≠ id
  | .inr (.restore id') => id' ≠ id
  | .inr .findContests => True

/-! ## Calls -/

section Calls

variable {row : Contest} {start w : World} {c : Choice}

theorem Closed.inTrash (h : Closed row start w) (hdeleted : row.deletedAt ≠ none) : InTrash row.id w :=
  ⟨row, h.stored, hdeleted⟩

theorem InTrash.contest? {id : Id} (h : InTrash id w) : w.contest? id = none := by
  obtain ⟨row, hrow, hdeleted⟩ := h
  rw [World.contest?, hrow]
  exact if_neg (by simpa using hdeleted)

theorem InTrash.ne_of_mem {id : Id} (h : InTrash id w) {contest : Contest} (hmem : contest ∈ w.contests.rows)
    (hcontest : contest.deletedAt = none) : contest.id ≠ id := by
  rintro rfl
  obtain ⟨row, hrow, hdeleted⟩ := h
  rw [Table.find?_key hmem] at hrow
  cases hrow
  exact hdeleted hcontest

/-- A write of another contest. -/
theorem Closed.upsert (h : Closed row start w) {contest : Contest} (hne : contest.id ≠ row.id) :
    Closed row start { w with contests := w.contests.upsert contest } := by
  refine ⟨?_, h.submissions, h.jobs, h.events⟩
  show (w.contests.upsert contest).find? row.id = some row
  rw [Table.find?_upsert, if_neg (Ne.symm hne)]
  exact h.stored

theorem Closed.setDeletedAt (h : Closed row start w) {id : Id} (hne : id ≠ row.id) (deletedAt : Option Date) :
    Closed row start (w.setDeletedAt id deletedAt) := by
  unfold World.setDeletedAt
  cases hfind : w.contests.find? id with
  | none => exact h
  | some contest =>
    obtain ⟨_, rfl⟩ := Table.find?_eq_some_iff.mp hfind
    exact h.upsert hne

/-- What a body that was saved has written, and under which id. -/
theorem saveBody_cases (w : World) (body : ContestBody) (uuid : Id) :
    (∃ e, w.saveBody body uuid = (.error e, w)) ∨
      ∃ contest, w.saveBody body uuid = (.ok contest, { w with contests := w.contests.upsert contest }) ∧
        (body.id = some contest.id ∨ w.contests.find? contest.id = none) := by
  unfold World.saveBody
  cases hbody : body.id.bind w.contests.find? with
  | some stored =>
    obtain ⟨id, hid, hstored⟩ := Option.bind_eq_some_iff.mp hbody
    obtain ⟨_, rfl⟩ := Table.find?_eq_some_iff.mp hstored
    exact .inr ⟨_, rfl, .inl hid⟩
  | none =>
    simp only
    unfold World.insertBody
    split
    · split_ifs with hstored
      · exact .inl ⟨_, rfl⟩
      · exact .inr ⟨_, rfl, .inr (Option.not_isSome_iff_eq_none.mp hstored)⟩
    · exact .inl ⟨_, rfl⟩

/-- The row that was written under another id than that of the body is new. -/
theorem ne_of_saveBody {id : Id} (h : w.contests.find? id ≠ none) {body : ContestBody} (hbody : body.id ≠ some id)
    {contest : Contest} (hwritten : body.id = some contest.id ∨ w.contests.find? contest.id = none) :
    contest.id ≠ id := by
  rintro rfl
  rcases hwritten with hid | hnone
  · exact hbody hid
  · exact h hnone

theorem Closed.answerOk (h : Closed row start w) {o : Op} (ho : Spares row.id (.inl o)) :
    Closed row start (answerOk c w o).2 := by
  cases o with
  | saveContest contest => exact h.upsert ho
  | emitFinished contestId =>
    refine ⟨h.stored, h.submissions, h.jobs, ?_⟩
    have hother : ¬ contestId = row.id := ho
    show (w.emitted ++ [contestId]).filter _ = _
    simpa [List.filter_append, hother] using h.events
  | saveSubmission code language problemId contestId userId status submittedAt =>
    have hother : ¬ contestId = row.id := ho
    show Closed row start (if (w.submissions.find? c.uuid).isSome then _ else _ : Except Err Submission × World).2
    split_ifs with hstored
    · exact h
    · refine ⟨h.stored, ?_, h.jobs, h.events⟩
      have hnone : w.submissions.find? (newSubmission c.uuid code language problemId contestId userId status
          submittedAt).id = none := Option.not_isSome_iff_eq_none.mp hstored
      show (w.submissions.upsert _).rows.filter _ = _
      rw [Table.rows_upsert_of_find?_eq_none hnone, List.filter_append, h.submissions]
      simp [newSubmission, hother]
  | enqueueSubmission submissionId data =>
    have hother : ¬ data.contestId = row.id := ho
    show Closed row start (w.addJob data)
    unfold World.addJob
    split_ifs
    · exact h
    · refine ⟨h.stored, h.submissions, ?_, h.events⟩
      show (w.submissionQueue ++ [data]).filter _ = _
      simpa [List.filter_append, hother] using h.jobs
  | _ => exact h

theorem Closed.crudOk (h : Closed row start w) {o : CrudOp} (ho : Spares row.id (.inr o)) :
    Closed row start (crudOk c w o).2 := by
  cases o with
  | findContests => exact h
  | saveBody body =>
    show Closed row start (w.saveBody body c.uuid).2
    rcases saveBody_cases w body c.uuid with ⟨e, herror⟩ | ⟨contest, hsaved, hwritten⟩
    · rw [herror]
      exact h
    · rw [hsaved]
      exact h.upsert (ne_of_saveBody (by rw [h.stored]; exact Option.some_ne_none row) ho hwritten)
  | softDelete id => exact h.setDeletedAt ho (some w.clock)
  | restore id => exact h.setDeletedAt ho none

theorem Closed.tick (h : Closed row start w) (clock : Date) : Closed row start { w with clock := clock } :=
  ⟨h.stored, h.submissions, h.jobs, h.events⟩

/-- Calls that spare a contest leave its row, its submissions, its jobs and its events. -/
theorem keeps_closed (o : Op ⊕ CrudOp) (c : Choice) (w : World) (ho : Spares row.id o) (h : Closed row start w) :
    Closed row start (serviceAnswer o c w).2 := by
  have htick := h.tick (w.clock + c.elapsed)
  cases o with
  | inl o =>
    show Closed row start (answer o c w).2
    have hok : Closed row start (Contests.answerOk c { w with clock := w.clock + c.elapsed } o).2 := htick.answerOk ho
    unfold answer
    cases c.fails with
    | none => exact hok
    | some message =>
      simp only
      split_ifs
      · exact htick
      · exact hok
  | inr o =>
    show Closed row start (crudAnswer o c w).2
    have hok : Closed row start (Contests.crudOk c { w with clock := w.clock + c.elapsed } o).2 := htick.crudOk ho
    unfold crudAnswer
    cases c.fails with
    | none => exact hok
    | some message => exact htick

end Calls

/-! ## The calls of a request -/

/-- Relied on `I`, the contest is in the trash. -/
def Relies (I : World → Prop) (id : Id) : Prop := ∀ w, I w → InTrash id w

/-- What a request ends with, while the contest is in the trash, has nothing of it. -/
def Unseen (I : World → Prop) (id : Id) (r : Except Err Reply) : Prop :=
  Relies I id → ∀ reply, r = .ok reply → ¬ reply.Shows id

section Programs

variable {I : World → Prop} {id : Id}

/-- A contest that was read is not the one in the trash. -/
theorem ne_of_findContest {id' : Id} (hread : id' = id → Relies I id) {w w' : World} (hw : I w) {c : Choice}
    {contest : Contest} (h : answer (.findContest id') c w = (.ok (some contest), w')) :
    id' ≠ id ∧ contest.id = id' := by
  have hfound : w.contest? id' = some contest := Except.ok.inj (congrArg Prod.fst (answerOk_of_answer h))
  refine ⟨?_, ?_⟩
  · rintro rfl
    rw [(hread rfl w hw).contest?] at hfound
    cases hfound
  · exact (Table.find?_eq_some_iff.mp (Option.filter_eq_some_iff.mp hfound).1).2

/-- A call that returned did not throw. -/
theorem crudOk_of_crudAnswer {o : CrudOp} {c : Choice} {w w' : World} {r : CrudRes o}
    (h : crudAnswer o c w = (.ok r, w')) : crudOk c { w with clock := w.clock + c.elapsed } o = (.ok r, w') := by
  unfold crudAnswer at h
  cases hf : c.fails with
  | none => simpa only [hf] using h
  | some message =>
    simp only [hf] at h
    cases h

theorem findOne_within {id' : Id} (hread : id' = id → Relies I id) :
    Within answer I (fun o => Spares id (.inl o))
      (fun r => ∀ contest, r = .ok contest → id' ≠ id ∧ contest.id = id') (findOne id') := by
  unfold findOne
  refine within_await_bind trivial ?_ fun e contest h => by cases h
  intro c w w' found hw hr
  cases found with
  | none =>
    intro contest h
    cases h
  | some entity =>
    intro contest h
    cases h
    exact ne_of_findContest hread hw hr

theorem finishContest_within {id' : Id} (hread : id' = id → Relies I id) :
    Within answer I (fun o => Spares id (.inl o))
      (fun r => ∀ contest, r = .ok (some contest) → contest.id ≠ id) (finishContest id') := by
  unfold finishContest
  refine within_await_bind trivial ?_ fun e contest h => by cases h
  intro c w w' found hw hr
  cases found with
  | none =>
    intro contest h
    cases h
  | some contest =>
    obtain ⟨hne, heq⟩ := ne_of_findContest hread hw hr
    have hother : contest.id ≠ id := heq.symm ▸ hne
    show Within _ _ _ _ (if contest.finishedAt.isSome then _ else _)
    split_ifs
    · intro contest' h
      cases h
      exact hother
    · refine within_await_bind trivial (fun _ _ _ now _ _ => ?_) fun e contest h => by cases h
      refine within_await_bind hother (fun _ _ _ _ _ _ => ?_) fun e contest h => by cases h
      refine within_await_bind hother (fun _ _ _ _ _ _ => ?_) fun e contest h => by cases h
      intro contest' h
      cases h
      exact hother

theorem finishAll_within (now : Date) {contests : List Contest} (hother : ∀ contest ∈ contests, contest.id ≠ id) :
    Within answer I (fun o => Spares id (.inl o)) (fun _ => True) (finishAll now contests) := by
  induction contests with
  | nil => trivial
  | cons contest rest ih =>
    have hcontest := hother contest List.mem_cons_self
    refine within_await_bind hcontest (fun _ _ _ _ _ _ => ?_) fun e => trivial
    refine within_await_bind hcontest (fun _ _ _ _ _ _ => ?_) fun e => trivial
    exact ih fun contest' h => hother contest' (List.mem_cons_of_mem _ h)

theorem finishExpiredContests_within (hread : Relies I id) :
    Within answer I (fun o => Spares id (.inl o)) (fun _ => True) finishExpiredContests := by
  unfold finishExpiredContests
  refine within_await_bind trivial (fun _ _ _ now _ _ => ?_) fun e => trivial
  refine within_await_bind trivial ?_ fun e => trivial
  intro c w w' expired hw hr
  have hexpired : w.expired now = expired := Except.ok.inj (congrArg Prod.fst (answerOk_of_answer hr))
  refine finishAll_within now ?_
  rw [← hexpired]
  intro contest hcontest
  obtain ⟨hmem, hopen⟩ := List.mem_filter.mp hcontest
  exact (hread w hw).ne_of_mem hmem (of_decide_eq_true hopen).1

theorem create_within {dto : CreateSubmissionDto} (hread : dto.contestId = id → Relies I id) (userId : Id) :
    Within answer I (fun o => Spares id (.inl o))
      (fun r => ∀ submission, r = .ok submission → submission.contestId ≠ id) (create dto userId) := by
  have hraise : ∀ e : Err, Within answer I (fun o => Spares id (.inl o))
      (fun r => ∀ submission, r = .ok submission → submission.contestId ≠ id) (throw e : M Submission) := by
    intro e submission h
    cases h
  unfold create
  refine within_await_bind trivial ?_ fun e submission h => by cases h
  intro c w w' problem? _ _
  cases problem? with
  | none => exact hraise _
  | some problem =>
    refine within_await_bind trivial ?_ fun e submission h => by cases h
    intro c w w' found hw hr
    cases found with
    | none => exact hraise _
    | some contest =>
      obtain ⟨hne, _⟩ := ne_of_findContest hread hw hr
      show Within _ _ _ _ (if problem.contest ≠ some dto.contestId then _ else checkWindow dto userId contest)
      split_ifs
      · exact hraise _
      refine within_await_bind trivial (fun _ _ _ now _ _ => ?_) fun e submission h => by cases h
      split_ifs
      · exact hraise _
      · exact hraise _
      refine within_await_bind trivial (fun _ _ _ user? _ _ => ?_) fun e submission h => by cases h
      cases user? with
      | none => exact hraise _
      | some user =>
        show Within _ _ _ _ (if isBlank dto.code then _ else store dto userId)
        split_ifs
        · exact hraise _
        refine within_await_bind trivial (fun _ _ _ submittedAt _ _ => ?_) fun e submission h => by cases h
        refine within_await_bind hne ?_ fun e submission h => by cases h
        intro c w w' saved _ hr
        refine within_await_bind hne (fun _ _ _ _ _ _ => ?_) fun e submission h => by cases h
        intro submission h
        cases h
        have hok := answerOk_of_answer hr
        simp only [answerOk] at hok
        split_ifs at hok
        · cases hok
        · cases hok
          exact hne

theorem update_within {id' : Id} {body : ContestBody} (hread : id' = id → Relies I id) (hbody : body.id ≠ some id) :
    Within serviceAnswer I (Spares id) (fun r => ∀ contest, r = .ok contest → contest.id ≠ id)
      (ContestService.update id' body) := by
  unfold ContestService.update
  refine Within.bind (within_inl (findOne_within hread)) ?_ fun e _ contest h => by cases h
  intro entity hentity
  have hother : (ContestService.merge entity body).id ≠ id := by
    show body.id.getD entity.id ≠ id
    cases hid : body.id with
    | none =>
      obtain ⟨hne, heq⟩ := hentity entity rfl
      exact heq.trans_ne hne
    | some bodyId =>
      rintro rfl
      exact hbody hid
  refine within_inl (within_await_bind hother (fun _ _ _ _ _ _ => ?_) fun e contest h => by cases h)
  intro contest h
  cases h
  exact hother

theorem remove_within {id' : Id} (hread : id' = id → Relies I id) :
    Within serviceAnswer I (Spares id) (fun _ => True) (ContestService.remove id') := by
  unfold ContestService.remove
  refine Within.bind (within_inl (findOne_within hread)) ?_ fun e _ => trivial
  intro entity hentity
  obtain ⟨hne, _⟩ := hentity entity rfl
  exact within_await hne (fun _ _ _ _ _ _ => trivial) fun e => trivial

theorem restore_within {id' : Id} (hne : id' ≠ id) :
    Within serviceAnswer I (Spares id) (fun _ => True) (ContestService.restore id') := by
  unfold ContestService.restore
  refine within_await_bind hne (fun _ _ _ affected _ _ => ?_) fun e => trivial
  split_ifs <;> trivial

theorem getAllContests_within :
    Within serviceAnswer I (Spares id)
      (fun r => Relies I id → ∀ rows, r = .ok rows → ∀ contest ∈ rows, contest.id ≠ id) ContestService.findAll := by
  refine within_await trivial ?_ fun e _ rows h => by cases h
  intro c w w' found hw hr hrelies rows h
  cases h
  have hfound : w.contests.rows.filter (fun contest => contest.deletedAt = none) = found :=
    Except.ok.inj (congrArg Prod.fst (crudOk_of_crudAnswer hr))
  rw [← hfound]
  intro contest hcontest
  obtain ⟨hmem, hopen⟩ := List.mem_filter.mp hcontest
  exact (hrelies w hw).ne_of_mem hmem (of_decide_eq_true hopen)

theorem createContest_within {body : ContestBody} (hbody : body.id ≠ some id) :
    Within serviceAnswer I (Spares id) (fun r => Relies I id → ∀ contest, r = .ok contest → contest.id ≠ id)
      (ContestService.create body) := by
  refine within_await hbody ?_ fun e _ contest h => by cases h
  intro c w w' written hw hr hrelies contest h
  cases h
  have hok : World.saveBody { w with clock := w.clock + c.elapsed } body c.uuid = (.ok written, w') :=
    crudOk_of_crudAnswer hr
  obtain ⟨row, hrow, _⟩ := hrelies w hw
  rcases saveBody_cases { w with clock := w.clock + c.elapsed } body c.uuid with ⟨e, herror⟩ | ⟨_, hsaved, hwritten⟩
  · rw [herror] at hok
    cases hok
  · rw [hsaved] at hok
    cases hok
    exact ne_of_saveBody (by rw [hrow]; exact Option.some_ne_none row) hbody hwritten

/-- The calls of a request that does not overwrite the contest, if the contest is in the trash or
    the request does not read it. -/
theorem handler_within {request : ContestRequest} (hread : Names id request → Relies I id)
    (hwrite : ¬ Overwrites id request) :
    Within serviceAnswer I (Spares id) (Unseen I id) (handler request) := by
  have hraise : ∀ e : Err, Unseen I id (.error e) := by
    intro e _ reply h
    cases h
  cases request with
  | getAllContests =>
    refine Within.bind getAllContests_within ?_ fun e _ => hraise e
    intro rows hrows hrelies reply h
    cases h
    rintro ⟨row, hrow, hid⟩
    exact hrows hrelies rows rfl row hrow hid
  | createContest body =>
    refine Within.bind (createContest_within hwrite) ?_ fun e _ => hraise e
    intro contest hcontest hrelies reply h
    cases h
    rintro ⟨_, ⟨⟩, hid⟩
    exact hcontest hrelies contest rfl hid
  | finishContest id' =>
    refine Within.bind (within_inl (finishContest_within hread)) ?_ fun e _ => hraise e
    intro found hfound hrelies reply h
    cases h
    rintro ⟨row, rfl, hid⟩
    exact hfound row rfl hid
  | updateContest body id' =>
    refine Within.bind (update_within hread hwrite) ?_ fun e _ => hraise e
    intro contest hcontest hrelies reply h
    cases h
    rintro ⟨_, ⟨⟩, hid⟩
    exact hcontest contest rfl hid
  | deleteContest id' =>
    refine Within.bind (remove_within hread) ?_ fun e _ => hraise e
    intro _ _ hrelies reply h
    cases h
    exact False.elim
  | restoreContest id' =>
    refine Within.bind (restore_within hwrite) ?_ fun e _ => hraise e
    intro affected _ hrelies reply h
    cases h
    exact False.elim
  | finishExpiredContests =>
    refine Within.bind (within_inl (finishExpiredContests_within (hread trivial))) ?_ fun e _ => hraise e
    intro _ _ hrelies reply h
    cases h
    exact False.elim
  | createSubmission dto userId =>
    refine Within.bind (within_inl (create_within hread userId)) ?_ fun e _ => hraise e
    intro submission hsubmission hrelies reply h
    cases h
    exact hsubmission submission rfl

end Programs

/-! ## Runs -/

section Runs

variable {ι : Type} [DecidableEq ι] {requests : ι → ContestRequest} {w : World}

/-- **Main**: let a contest be in the trash after the steps of `before`. Along the steps of `after`,
    whatever their order and whatever fails, nothing happens to it, and no request that begins there
    returns anything of it, if no request overwrites it and those that read it begin there. -/
theorem trash_closed {before after : List (ι × Choice)} {row : Contest}
    (hstored : (handled requests w before).state.contests.find? row.id = some row)
    (hdeleted : row.deletedAt ≠ none)
    (hlate : ∀ x ∈ after, ¬ Overwrites row.id (requests x.1) ∧
      (Names row.id (requests x.1) → ∀ y ∈ before, y.1 ≠ x.1)) :
    Closed row (handled requests w before).state (handled requests w (before ++ after)).state ∧
      ∀ x ∈ after, (∀ y ∈ before, y.1 ≠ x.1) →
        ∀ reply, (handled requests w (before ++ after)).tasks x.1 = .ret reply → ¬ reply.Shows row.id := by
  have hrelies : Relies (Closed row (handled requests w before).state) row.id :=
    fun w' h => h.inTrash hdeleted
  -- a request that began before `after` relies on nothing
  have hwithin : ∀ x ∈ after, Within serviceAnswer (Closed row (handled requests w before).state)
      (Spares row.id) (fun r => (∀ y ∈ before, y.1 ≠ x.1) →
        Unseen (Closed row (handled requests w before).state) row.id r)
      ((handled requests w before).tasks x.1) := by
    intro x hx
    obtain ⟨hwrite, hread⟩ := hlate x hx
    by_cases hfresh : ∀ y ∈ before, y.1 ≠ x.1
    · have htask : (handled requests w before).tasks x.1 = handler (requests x.1) :=
        Pool.run_tasks_of_not_mem hfresh _
      rw [htask]
      exact (handler_within (fun _ => hrelies) hwrite).mono (fun _ h => h) fun r hr _ => hr
    · have hunread : ¬ Names row.id (requests x.1) := fun h => hfresh (hread h)
      have hstart : Within serviceAnswer (fun _ => True) (Spares row.id) (Unseen (fun _ => True) row.id)
          ((startHandlers requests w).tasks x.1) := handler_within (fun h => absurd h hunread) hwrite
      have hnow : Within serviceAnswer (fun _ => True) (Spares row.id) (Unseen (fun _ => True) row.id)
          ((handled requests w before).tasks x.1) := Pool.run_within_alone (α := fun _ => Reply) before hstart
      exact hnow.mono (fun _ _ => trivial) fun r _ h => absurd h hfresh
  have hstart : Closed row (handled requests w before).state (handled requests w before).state :=
    ⟨hstored, rfl, rfl, rfl⟩
  obtain ⟨hclosed, htasks⟩ := Pool.run_within (Q := fun i r => (∀ y ∈ before, y.1 ≠ i) →
    Unseen (Closed row (handled requests w before).state) row.id r) keeps_closed after hstart hwithin
  have hrun : handled requests w (before ++ after) =
      Pool.run (Pool.programs serviceAnswer) after (handled requests w before) := Pool.run_append before after _
  rw [hrun]
  refine ⟨hclosed, ?_⟩
  intro x hx hfresh reply hreply
  have hend := htasks x.1 (hwithin x hx)
  rw [hreply] at hend
  exact hend hfresh hrelies reply rfl

end Runs

/-! ## A contest that is deleted -/

/-- A contest that is over, with a problem and a user. -/
def oneContest : World where
  contests := Table.empty.upsert
    { id := "c1", title := "Spring", startTime := 0, endTime := 10, finishedAt := none, deletedAt := none }
  problems := Table.empty.upsert
    { id := "p1", title := "Sum", description := "Add", timeLimitMs := 1000, contest := some "c1" }
  users := Table.empty.upsert { id := "u1", name := "ann", passwordHash := "", role := .user }
  submissions := .empty
  submissionQueue := []
  emitted := []
  clock := 5

/-- An editor deletes the contest; then a user submits and a tick runs. -/
def deletesThenSubmits : ℕ → ContestRequest
  | 0 => .deleteContest "c1"
  | 1 => .createSubmission { code := "x", language := .python, problemId := "p1", contestId := "c1" } "u1"
  | _ => .finishExpiredContests

/-- Both calls of the first request. -/
def deletes : List (ℕ × Choice) := [(0, ⟨none, "", 0⟩), (0, ⟨none, "", 0⟩)]

/-- The calls of the others in turn; the contest is over at the tick. -/
def submitsAndTicks : List (ℕ × Choice) :=
  [(1, ⟨none, "", 1⟩), (2, ⟨none, "", 9⟩), (1, ⟨none, "", 0⟩), (2, ⟨none, "", 0⟩)]

/-- The row after its deletion. -/
def deletedContest : Contest :=
  { id := "c1", title := "Spring", startTime := 0, endTime := 10, finishedAt := none, deletedAt := some 5 }

/-- Nothing is stored for it and no event is raised. -/
theorem trash_closed_deleted :
    Closed deletedContest (handled deletesThenSubmits oneContest deletes).state
      (handled deletesThenSubmits oneContest (deletes ++ submitsAndTicks)).state :=
  (trash_closed (by decide +kernel) (by decide) (by decide)).1

/-- A request that read the contest before its deletion takes it out of the trash. -/
example : ((handled (fun i => if i = 0 then .deleteContest "c1" else .finishContest "c1") oneContest
    ([(1, ⟨none, "", 0⟩), (1, ⟨none, "", 0⟩)] ++ deletes ++ [(1, ⟨none, "", 0⟩)])).state.contests.find? "c1").any
      fun row => row.deletedAt = none := by
  decide +kernel

end CodeWeaknesses.Contests
