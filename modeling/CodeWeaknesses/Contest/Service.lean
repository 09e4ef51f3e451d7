import CodeWeaknesses.Common.Basic
import CodeWeaknesses.Lib.Prog
import CodeWeaknesses.Lib.Table
import CodeWeaknesses.Submissions.Judge

/-!
# `ContestService` and `SubmissionsService.create`

Model of `contest/contest.service.ts` and of `create` in
`submissions/submissions.service.ts`, which share the contests table. Every repository,
queue, clock and event call is a call of a `Prog`; `answer` says what it does.

* Time passes before every call (`Choice.elapsed`); `new Date()` reads the clock.
* A repository or queue call may throw at any time (`Choice.fails`). A call that throws
  has no effect. An insert under a stored id throws.
* `emit` raises the event and returns; its listeners are modelled in `Webhooks`.
* `find` and `findOne` skip soft-deleted rows. The tables of problems and users hold the
  rows that they do not skip.
-/

namespace CodeWeaknesses.Contests

open Lib Submissions

/-! ## The environment -/

/-- `CreateSubmissionDto`. -/
structure CreateSubmissionDto where
  code : String
  language : SubmissionLanguage
  problemId : Id
  contestId : Id

/-- A job of the submissions queue, as `create` adds it. -/
structure SubmissionJob where
  submissionId : Id
  code : String
  language : SubmissionLanguage
  problemId : Id
  contestId : Id
  userId : Id

/-- The tables and the queue, the `contest.finished` events raised so far, and the time. -/
structure World where
  contests : Table Contest Id Contest.id
  problems : Table Problem Id Problem.id
  users : Table User Id User.id
  submissions : Table Submission Id Submission.id
  submissionQueue : List SubmissionJob
  emitted : List Id
  clock : Date

/-- The calls of the two services. -/
inductive Op where
  | newDate
  | findContest (id : Id)
  | findExpired (now : Date)
  | saveContest (contest : Contest)
  | emitFinished (contestId : Id)
  | findProblem (id : Id)
  | findUser (id : Id)
  | saveSubmission (code : String) (language : SubmissionLanguage) (problemId contestId userId : Id)
      (status : SubmissionStatus) (submittedAt : Date)
  | enqueueSubmission (submissionId : Id) (data : SubmissionJob)

/-- What a call returns. -/
@[reducible] def Res : Op → Type
  | .newDate => Date
  | .findContest _ => Option Contest
  | .findExpired _ => List Contest
  | .saveContest _ => Unit
  | .emitFinished _ => Unit
  | .findProblem _ => Option Problem
  | .findUser _ => Option User
  | .saveSubmission .. => Submission
  | .enqueueSubmission .. => Unit

/-- Whether the call may throw. -/
def Op.mayThrow : Op → Bool
  | .newDate => false
  | .emitFinished _ => false
  | _ => true

/-- What the model leaves open about a call: whether it throws, the uuid of a new row,
    and the milliseconds since the call before. -/
structure Choice where
  fails : Option String
  uuid : Id
  elapsed : ℕ

/-- `findOne({ where: { id } })` on the contests. -/
def World.contest? (w : World) (id : Id) : Option Contest :=
  (w.contests.find? id).filter fun contest => contest.deletedAt = none

/-- `find({ where: { finishedAt: IsNull(), endTime: LessThanOrEqual(now) } })`. -/
def World.expired (w : World) (now : Date) : List Contest :=
  w.contests.rows.filter fun contest =>
    contest.deletedAt = none ∧ contest.finishedAt = none ∧ contest.endTime ≤ now

/-- The row of a new submission; the other columns have their defaults. -/
def newSubmission (id : Id) (code : String) (language : SubmissionLanguage) (problemId contestId userId : Id)
    (status : SubmissionStatus) (submittedAt : Date) : Submission :=
  { id := id, code := code, language := language, status := status, userId := userId,
    problemId := problemId, contestId := contestId, submittedAt := some submittedAt, startedAt := none,
    completedAt := none, score := 0, executionTime := none, memoryUsed := none, user := none,
    problem := none, testResults := none }

/-- `queue.add(jobId, data, { jobId })`: a job id that the queue holds is not added again. -/
def World.addJob (w : World) (data : SubmissionJob) : World :=
  if ∃ j ∈ w.submissionQueue, j.submissionId = data.submissionId then w
  else { w with submissionQueue := w.submissionQueue ++ [data] }

/-- A call that does not throw. -/
def answerOk (c : Choice) (w : World) : (o : Op) → Except Err (Res o) × World
  | .newDate => (.ok w.clock, w)
  | .findContest id => (.ok (w.contest? id), w)
  | .findExpired now => (.ok (w.expired now), w)
  | .saveContest contest => (.ok (), { w with contests := w.contests.upsert contest })
  | .emitFinished contestId => (.ok (), { w with emitted := w.emitted ++ [contestId] })
  | .findProblem id => (.ok (w.problems.find? id), w)
  | .findUser id => (.ok (w.users.find? id), w)
  | .saveSubmission code language problemId contestId userId status submittedAt =>
    if (w.submissions.find? c.uuid).isSome then
      (.error (.error "duplicate key value violates unique constraint"), w)
    else
      let row := newSubmission c.uuid code language problemId contestId userId status submittedAt
      (.ok row, { w with submissions := w.submissions.upsert row })
  | .enqueueSubmission _ data => (.ok (), w.addJob data)

/-- The answer to a call, after the time that has passed. -/
def answer : Backend Op Res Err Choice World := fun o c w =>
  let w := { w with clock := w.clock + c.elapsed }
  match c.fails with
  | some message => if o.mayThrow then (.error (.error message), w) else answerOk c w o
  | none => answerOk c w o

/-! ### What the calls leave -/

/-- Whether the call writes the contests. -/
def Op.writesContest : Op → Bool
  | .saveContest _ => true
  | _ => false

/-- Whether the call raises an event. -/
def Op.emits : Op → Bool
  | .emitFinished _ => true
  | _ => false

/-- Whether the call writes the submissions. -/
def Op.writesSubmission : Op → Bool
  | .saveSubmission .. => true
  | _ => false

/-- What a new job keeps: all but the queue. -/
theorem addJob_keeps {α : Type} {f : World → α} (hf : ∀ w queue, f { w with submissionQueue := queue } = f w)
    (w : World) (data : SubmissionJob) : f (w.addJob data) = f w := by
  unfold World.addJob
  split_ifs
  · rfl
  · exact hf w _

/-- What a call keeps when it keeps it without throwing. -/
theorem answer_keeps {α : Type} {f : World → α} {o : Op} (hclock : ∀ w t, f { w with clock := t } = f w)
    (hok : ∀ c w, f (answerOk c w o).2 = f w) (c : Choice) (w : World) : f (answer o c w).2 = f w := by
  unfold answer
  cases c.fails with
  | none => exact (hok c _).trans (hclock w _)
  | some message =>
    simp only
    split_ifs
    · exact hclock w _
    · exact (hok c _).trans (hclock w _)

theorem contests_answer {o : Op} (ho : o.writesContest = false) (c : Choice) (w : World) :
    (answer o c w).2.contests = w.contests := by
  refine answer_keeps (f := World.contests) (fun _ _ => rfl) ?_ c w
  intro c w
  cases o with
  | saveContest contest => cases ho
  | saveSubmission =>
    simp only [answerOk]
    split_ifs <;> rfl
  | enqueueSubmission id data => exact addJob_keeps (f := World.contests) (fun _ _ => rfl) w data
  | _ => rfl

theorem emitted_answer {o : Op} (ho : o.emits = false) (c : Choice) (w : World) :
    (answer o c w).2.emitted = w.emitted := by
  refine answer_keeps (f := World.emitted) (fun _ _ => rfl) ?_ c w
  intro c w
  cases o with
  | emitFinished id => cases ho
  | saveSubmission =>
    simp only [answerOk]
    split_ifs <;> rfl
  | enqueueSubmission id data => exact addJob_keeps (f := World.emitted) (fun _ _ => rfl) w data
  | _ => rfl

theorem users_answer (o : Op) (c : Choice) (w : World) : (answer o c w).2.users = w.users := by
  refine answer_keeps (f := World.users) (fun _ _ => rfl) ?_ c w
  intro c w
  cases o with
  | saveSubmission =>
    simp only [answerOk]
    split_ifs <;> rfl
  | enqueueSubmission id data => exact addJob_keeps (f := World.users) (fun _ _ => rfl) w data
  | _ => rfl

theorem submissions_answer {o : Op} (ho : o.writesSubmission = false) (c : Choice) (w : World) :
    (answer o c w).2.submissions = w.submissions := by
  refine answer_keeps (f := World.submissions) (fun _ _ => rfl) ?_ c w
  intro c w
  cases o with
  | saveSubmission => cases ho
  | enqueueSubmission id data => exact addJob_keeps (f := World.submissions) (fun _ _ => rfl) w data
  | _ => rfl

theorem clock_answerOk (o : Op) (c : Choice) (w : World) : (answerOk c w o).2.clock = w.clock := by
  cases o with
  | saveSubmission =>
    simp only [answerOk]
    split_ifs <;> rfl
  | enqueueSubmission id data => exact addJob_keeps (f := World.clock) (fun _ _ => rfl) w data
  | _ => rfl

/-- Every call takes the time that has passed. -/
theorem clock_answer (o : Op) (c : Choice) (w : World) : (answer o c w).2.clock = w.clock + c.elapsed := by
  unfold answer
  cases c.fails with
  | none => exact clock_answerOk o c _
  | some message =>
    simp only
    split_ifs
    · rfl
    · exact clock_answerOk o c _

/-- A call that returned did not throw. -/
theorem answerOk_of_answer {o : Op} {c : Choice} {w w' : World} {r : Res o}
    (h : answer o c w = (.ok r, w')) :
    answerOk c { w with clock := w.clock + c.elapsed } o = (.ok r, w') := by
  unfold answer at h
  cases hf : c.fails with
  | none => simpa only [hf] using h
  | some message =>
    simp only [hf] at h
    split_ifs at h
    · cases h
    · exact h

/-- The calls of the two services. -/
abbrev M := Prog Op Res Err

/-- `await` of one call. -/
abbrev await (o : Op) : M (Res o) := Prog.await o

/-! ## `ContestService` -/

/-- `finishContest` (lines 25–40). -/
def finishContest (id : Id) : M (Option Contest) := do
  match ← await (.findContest id) with
  | none => pure none
  | some contest =>
    if contest.finishedAt.isSome then pure (some contest)
    else
      let now ← await .newDate
      let contest := { contest with finishedAt := some now }
      await (.saveContest contest)
      await (.emitFinished contest.id)
      pure (some contest)

/-- The loop of `finishExpiredContests` (lines 51–55). -/
def finishAll (now : Date) : List Contest → M Unit
  | [] => pure ()
  | contest :: rest => do
    await (.saveContest { contest with finishedAt := some now })
    await (.emitFinished contest.id)
    finishAll now rest

/-- `finishExpiredContests` (lines 42–56). -/
def finishExpiredContests : M Unit := do
  let now ← await .newDate
  let expiredContests ← await (.findExpired now)
  finishAll now expiredContests

/-! ## `SubmissionsService.create` -/

/-- `!code || code.trim().length === 0`. -/
def isBlank (code : String) : Bool := jsTrim code.toList = []

/-- Lines 73–96: the new submission and its job. -/
def store (dto : CreateSubmissionDto) (userId : Id) : M Submission := do
  let submittedAt ← await .newDate
  let savedSubmission ← await (.saveSubmission dto.code dto.language dto.problemId dto.contestId userId
    .pending submittedAt)
  await (.enqueueSubmission savedSubmission.id
    { submissionId := savedSubmission.id, code := dto.code, language := dto.language,
      problemId := dto.problemId, contestId := dto.contestId, userId := userId })
  pure savedSubmission

/-- Lines 62–96. -/
def checkUser (dto : CreateSubmissionDto) (userId : Id) : M Submission := do
  match ← await (.findUser userId) with
  | none => throw (.notFound "User not found")
  | some _ =>
    if isBlank dto.code then throw (.badRequest "Code cannot be empty")
    else store dto userId

/-- Lines 54–96. -/
def checkWindow (dto : CreateSubmissionDto) (userId : Id) (contest : Contest) : M Submission := do
  let now ← await .newDate
  if contest.startTime > now then throw (.badRequest "Contest has not started yet")
  else if contest.endTime < now then throw (.badRequest "Contest has ended")
  else checkUser dto userId

/-- `create` (lines 29–97). -/
def create (dto : CreateSubmissionDto) (userId : Id) : M Submission := do
  match ← await (.findProblem dto.problemId) with
  | none => throw (.notFound "Problem not found")
  | some problem =>
    match ← await (.findContest dto.contestId) with
    | none => throw (.notFound "Contest not found")
    | some contest =>
      if problem.contest ≠ some dto.contestId then
        throw (.badRequest "Problem does not belong to this contest")
      else checkWindow dto userId contest

end CodeWeaknesses.Contests
