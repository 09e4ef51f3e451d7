import CodeWeaknesses.Contest.Edits
import CodeWeaknesses.Lib.Reliance

/-!
# `ContestController`

Model of `contest/contest.controller.ts` and of the parts of `commun/generic-crud.service.ts` that it
uses, over the state of `ContestService` and of `create` in `submissions/submissions.service.ts`.

* A request is modelled from where its guards have let it pass.
* `POST /contests` and `PATCH /contests/:id` take their body as `any`: no pipe checks it, and it may
  set every column, the id included. The relation `problems` of a body is left out.
* `save` writes the row with the id of the entity, and inserts one if none is stored. Of a body it
  returns the columns that were set; the model returns the whole row.
* `softDelete` and `restore` write the column `deletedAt` of the row, deleted or not.

Results:
* `update_of_id_none`: a body without an id is merged as in the model of the concurrent edits.
-/

namespace CodeWeaknesses.Contests

open Lib Submissions

/-! ## The environment -/

/-- The body of `POST /contests` and `PATCH /contests/:id`. -/
structure ContestBody extends UpdateContestDto where
  id : Option Id

/-- The calls of `BaseService` that `ContestService` does not make itself. -/
inductive CrudOp where
  | findContests
  | saveBody (body : ContestBody)
  | softDelete (id : Id)
  | restore (id : Id)

/-- What a call returns; `restore` the number of rows that it affected. -/
@[reducible] def CrudRes : CrudOp → Type
  | .findContests => List Contest
  | .saveBody _ => Contest
  | .softDelete _ => Unit
  | .restore _ => ℕ

/-- `INSERT INTO contests`: a column that may not be null must be set. -/
def World.insertBody (w : World) (body : ContestBody) (id : Id) : Except Err Contest × World :=
  match body.title, body.startTime, body.endTime with
  | some title, some startTime, some endTime =>
    if (w.contests.find? id).isSome then
      (.error (.error "duplicate key value violates unique constraint"), w)
    else
      let row : Contest :=
        { id := id, title := title, startTime := startTime, endTime := endTime,
          finishedAt := body.finishedAt.join, deletedAt := body.deletedAt.join }
      (.ok row, { w with contests := w.contests.upsert row })
  | _, _, _ => (.error (.error "null value in column violates not-null constraint"), w)

/-- `save` of a body: a body with the id of a stored row, deleted or not, is an update of it. -/
def World.saveBody (w : World) (body : ContestBody) (uuid : Id) : Except Err Contest × World :=
  match body.id.bind w.contests.find? with
  | some stored =>
    let row := merge stored body.toUpdateContestDto
    (.ok row, { w with contests := w.contests.upsert row })
  | none => w.insertBody body (body.id.getD uuid)

/-- What the column `deletedAt` of a stored row becomes. -/
def World.setDeletedAt (w : World) (id : Id) (deletedAt : Option Date) : World :=
  (w.contests.find? id).elim w fun row => { w with contests := w.contests.upsert { row with deletedAt := deletedAt } }

/-- A call that does not throw. -/
def crudOk (c : Choice) (w : World) : (o : CrudOp) → Except Err (CrudRes o) × World
  | .findContests => (.ok (w.contests.rows.filter fun contest => contest.deletedAt = none), w)
  | .saveBody body => w.saveBody body c.uuid
  | .softDelete id => (.ok (), w.setDeletedAt id (some w.clock))
  | .restore id => (.ok (if (w.contests.find? id).isSome then 1 else 0), w.setDeletedAt id none)

/-- The answer to a call, after the time that has passed. -/
def crudAnswer : Backend CrudOp CrudRes Err Choice World := fun o c w =>
  let w := { w with clock := w.clock + c.elapsed }
  match c.fails with
  | some message => (.error (.error message), w)
  | none => crudOk c w o

/-- The calls of both, answered in one state. -/
abbrev ServiceM := Prog (Op ⊕ CrudOp) (Sum.elim Res CrudRes) Err

def serviceAnswer : Backend (Op ⊕ CrudOp) (Sum.elim Res CrudRes) Err Choice World :=
  Prog.either answer crudAnswer

/-- `await` of one call. -/
def awaitCrud (o : CrudOp) : ServiceM (CrudRes o) := Prog.await (Sum.inr o)

/-! ## `BaseService` -/

namespace ContestService

/-- `create` (lines 14–16). -/
def create (addDto : ContestBody) : ServiceM Contest := awaitCrud (.saveBody addDto)

/-- `findAll` (lines 18–20). -/
def findAll : ServiceM (List Contest) := awaitCrud .findContests

/-- `repository.merge`, with the id of the body. -/
def merge (contest : Contest) (updateDto : ContestBody) : Contest :=
  { Contests.merge contest updateDto.toUpdateContestDto with id := updateDto.id.getD contest.id }

/-- `update` (lines 34–38). -/
def update (id : Id) (updateDto : ContestBody) : ServiceM Contest := do
  let existingEntity ← (findOne id).inl
  let mergedEntity := merge existingEntity updateDto
  (save mergedEntity).inl

/-- `remove` (lines 40–43). -/
def remove (id : Id) : ServiceM Unit := do
  let _ ← (findOne id).inl
  awaitCrud (.softDelete id)

/-- `restore` (lines 45–49). -/
def restore (id : Id) : ServiceM ℕ := do
  let affected ← awaitCrud (.restore id)
  if affected = 0 then throw (.notFound "Entity not found")
  pure affected

/-- Without an id in the body, `update` is that of the concurrent edits. -/
theorem update_of_id_none (id : Id) {updateDto : ContestBody} (h : updateDto.id = none) :
    update id updateDto = (Contests.update id updateDto.toUpdateContestDto).inl := by
  obtain ⟨dto, bodyId⟩ := updateDto
  obtain rfl : bodyId = none := h
  exact (Prog.inl_bind _ _).symm

end ContestService

/-! ## Requests -/

/-- The requests that reach the contests, and the tick of `onModuleInit`. -/
inductive ContestRequest where
  | getAllContests
  | createContest (createContestDto : ContestBody)
  | finishContest (id : Id)
  | updateContest (updateContestDto : ContestBody) (id : Id)
  | deleteContest (id : Id)
  | restoreContest (id : Id)
  | finishExpiredContests
  | createSubmission (dto : CreateSubmissionDto) (userId : Id)

/-- What a request returns. -/
inductive Reply where
  | contests (rows : List Contest)
  | contest (contest : Option Contest)
  | affected (rows : ℕ)
  | submission (submission : Submission)
  | done

/-- Its handler. -/
def handler : ContestRequest → ServiceM Reply
  | .getAllContests => do return .contests (← ContestService.findAll)
  | .createContest createContestDto => do return .contest (some (← ContestService.create createContestDto))
  | .finishContest id => do return .contest (← (finishContest id).inl)
  | .updateContest updateContestDto id => do return .contest (some (← ContestService.update id updateContestDto))
  | .deleteContest id => do
    ContestService.remove id
    return .done
  | .restoreContest id => do return .affected (← ContestService.restore id)
  | .finishExpiredContests => do
    finishExpiredContests.inl
    return .done
  | .createSubmission dto userId => do return .submission (← (create dto userId).inl)

section Runs

variable {ι : Type} [DecidableEq ι]

/-- The requests; none has taken a step yet. -/
def startHandlers (requests : ι → ContestRequest) (w : World) : Pool ι (fun _ => ServiceM Reply) World where
  tasks i := handler (requests i)
  state := w

/-- The requests after the steps of the schedule. -/
def handled (requests : ι → ContestRequest) (w : World) (sched : List (ι × Choice)) :
    Pool ι (fun _ => ServiceM Reply) World :=
  Pool.run (Pool.programs serviceAnswer) sched (startHandlers requests w)

end Runs

end CodeWeaknesses.Contests
