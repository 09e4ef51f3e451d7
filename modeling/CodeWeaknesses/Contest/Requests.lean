import CodeWeaknesses.Contest.Service
import CodeWeaknesses.Lib.Pool

/-!
# Concurrent requests

Any number of `finishContest`, `finishExpiredContests` and `create` run in one process,
each taking its calls at any time. Their remaining programs are named by program points.

Results:
* `simulates`: requests run as their program points do.
* `next_state`: a point changes the state by the one call it makes.
-/

namespace CodeWeaknesses.Contests

open Lib Submissions

/-! ## Requests -/

/-- What is called. -/
inductive Request where
  | finishContest (id : Id)
  | finishExpiredContests
  | create (dto : CreateSubmissionDto) (userId : Id)

/-- What a call returns. -/
inductive Outcome where
  | contest (contest : Option Contest)
  | done
  | submission (submission : Submission)

def returnContest (p : M (Option Contest)) : M Outcome := do return .contest (← p)

def returnDone (p : M Unit) : M Outcome := do
  p
  return .done

def returnSubmission (p : M Submission) : M Outcome := do return .submission (← p)

/-- The program of a request. -/
def program : Request → M Outcome
  | .finishContest id => returnContest (finishContest id)
  | .finishExpiredContests => returnDone finishExpiredContests
  | .create dto userId => returnSubmission (create dto userId)

/-- One call of a request. -/
def requestStep : Pool.Stepper ℕ (fun _ => M Outcome) World Choice := fun _ c w => Prog.step answer c w

/-- The requests that are made; request `i` has not taken a step yet. -/
def startRequests (requests : ℕ → Request) (w : World) : Pool ℕ (fun _ => M Outcome) World where
  tasks i := program (requests i)
  state := w

/-! ## Program points -/

/-- Where a request is. -/
inductive Point where
  | finishing (id : Id)
  | dating (contest : Contest)
  | saving (contest : Contest)
  | emitting (contest : Contest)
  | ticking
  | finding (now : Date)
  | looping (now : Date) (contests : List Contest)
  | loopEmitting (now : Date) (contest : Contest) (rest : List Contest)
  | creating (dto : CreateSubmissionDto) (userId : Id)
  | readingContest (dto : CreateSubmissionDto) (userId : Id) (problem : Problem)
  | checkingWindow (dto : CreateSubmissionDto) (userId : Id) (contest : Contest)
  | checkingUser (dto : CreateSubmissionDto) (userId : Id)
  | stamping (dto : CreateSubmissionDto) (userId : Id)
  | storing (dto : CreateSubmissionDto) (userId : Id) (submittedAt : Date)
  | enqueueing (dto : CreateSubmissionDto) (userId : Id) (submission : Submission)
  | returned (outcome : Outcome)
  | raised (e : Err)

/-- What is still to be done. -/
def code : Point → M Outcome
  | .finishing id => returnContest (finishContest id)
  | .dating contest => returnContest do
    let now ← await .newDate
    let contest := { contest with finishedAt := some now }
    await (.saveContest contest)
    await (.emitFinished contest.id)
    pure (some contest)
  | .saving contest => returnContest do
    await (.saveContest contest)
    await (.emitFinished contest.id)
    pure (some contest)
  | .emitting contest => returnContest do
    await (.emitFinished contest.id)
    pure (some contest)
  | .ticking => returnDone finishExpiredContests
  | .finding now => returnDone do
    let expiredContests ← await (.findExpired now)
    finishAll now expiredContests
  | .looping now contests => returnDone (finishAll now contests)
  | .loopEmitting now contest rest => returnDone do
    await (.emitFinished contest.id)
    finishAll now rest
  | .creating dto userId => returnSubmission (create dto userId)
  | .readingContest dto userId problem => returnSubmission do
    match ← await (.findContest dto.contestId) with
    | none => throw (.notFound "Contest not found")
    | some contest =>
      if problem.contest ≠ some dto.contestId then
        throw (.badRequest "Problem does not belong to this contest")
      else checkWindow dto userId contest
  | .checkingWindow dto userId contest => returnSubmission (checkWindow dto userId contest)
  | .checkingUser dto userId => returnSubmission (checkUser dto userId)
  | .stamping dto userId => returnSubmission (store dto userId)
  | .storing dto userId submittedAt => returnSubmission do
    let savedSubmission ← await (.saveSubmission dto.code dto.language dto.problemId dto.contestId userId
      .pending submittedAt)
    await (.enqueueSubmission savedSubmission.id
      { submissionId := savedSubmission.id, code := dto.code, language := dto.language,
        problemId := dto.problemId, contestId := dto.contestId, userId := userId })
    pure savedSubmission
  | .enqueueing dto userId submission => returnSubmission do
    await (.enqueueSubmission submission.id
      { submissionId := submission.id, code := dto.code, language := dto.language,
        problemId := dto.problemId, contestId := dto.contestId, userId := userId })
    pure submission
  | .returned outcome => pure outcome
  | .raised e => throw e

/-- Go on at the point that the answer leads to. -/
def goOn {α : Type} (f : α → Point) : Except Err α × World → Point × World
  | (.ok a, w) => (f a, w)
  | (.error e, w) => (.raised e, w)

/-- Where `finishContest` goes with the contest it read. -/
def afterRead : Option Contest → Point
  | none => .returned (.contest none)
  | some contest =>
    if contest.finishedAt.isSome then .returned (.contest (some contest)) else .dating contest

/-- Where `create` goes with the contest it read. -/
def afterContest (dto : CreateSubmissionDto) (userId : Id) (problem : Problem) : Option Contest → Point
  | none => .raised (.notFound "Contest not found")
  | some contest =>
    if problem.contest ≠ some dto.contestId then
      .raised (.badRequest "Problem does not belong to this contest")
    else .checkingWindow dto userId contest

/-- Where `create` goes with its first reading of the clock. -/
def afterWindow (dto : CreateSubmissionDto) (userId : Id) (contest : Contest) (now : Date) : Point :=
  if contest.startTime > now then .raised (.badRequest "Contest has not started yet")
  else if contest.endTime < now then .raised (.badRequest "Contest has ended")
  else .checkingUser dto userId

/-- Where `create` goes with the user it read. -/
def afterUser (dto : CreateSubmissionDto) (userId : Id) : Option User → Point
  | none => .raised (.notFound "User not found")
  | some _ =>
    if isBlank dto.code then .raised (.badRequest "Code cannot be empty") else .stamping dto userId

/-- One step of a point. -/
def next (c : Choice) : Point × World → Point × World
  | (.finishing id, w) => goOn afterRead (answer (.findContest id) c w)
  | (.dating contest, w) =>
    goOn (fun now => .saving { contest with finishedAt := some now }) (answer .newDate c w)
  | (.saving contest, w) => goOn (fun _ => .emitting contest) (answer (.saveContest contest) c w)
  | (.emitting contest, w) =>
    goOn (fun _ => .returned (.contest (some contest))) (answer (.emitFinished contest.id) c w)
  | (.ticking, w) => goOn .finding (answer .newDate c w)
  | (.finding now, w) => goOn (.looping now) (answer (.findExpired now) c w)
  | (.looping now [], w) => (.looping now [], w)
  | (.looping now (contest :: rest), w) =>
    goOn (fun _ => .loopEmitting now contest rest)
      (answer (.saveContest { contest with finishedAt := some now }) c w)
  | (.loopEmitting now contest rest, w) =>
    goOn (fun _ => .looping now rest) (answer (.emitFinished contest.id) c w)
  | (.creating dto userId, w) =>
    goOn (fun
      | none => .raised (.notFound "Problem not found")
      | some problem => .readingContest dto userId problem) (answer (.findProblem dto.problemId) c w)
  | (.readingContest dto userId problem, w) =>
    goOn (afterContest dto userId problem) (answer (.findContest dto.contestId) c w)
  | (.checkingWindow dto userId contest, w) =>
    goOn (afterWindow dto userId contest) (answer .newDate c w)
  | (.checkingUser dto userId, w) => goOn (afterUser dto userId) (answer (.findUser userId) c w)
  | (.stamping dto userId, w) => goOn (.storing dto userId) (answer .newDate c w)
  | (.storing dto userId submittedAt, w) =>
    goOn (.enqueueing dto userId) (answer (.saveSubmission dto.code dto.language dto.problemId dto.contestId
      userId .pending submittedAt) c w)
  | (.enqueueing dto userId submission, w) =>
    goOn (fun _ => .returned (.submission submission)) (answer (.enqueueSubmission submission.id
      { submissionId := submission.id, code := dto.code, language := dto.language,
        problemId := dto.problemId, contestId := dto.contestId, userId := userId }) c w)
  | (.returned outcome, w) => (.returned outcome, w)
  | (.raised e, w) => (.raised e, w)

/-- The call that a point makes. -/
def callOf : Point → Option Op
  | .finishing id => some (.findContest id)
  | .dating _ => some .newDate
  | .saving contest => some (.saveContest contest)
  | .emitting contest => some (.emitFinished contest.id)
  | .ticking => some .newDate
  | .finding now => some (.findExpired now)
  | .looping _ [] => none
  | .looping now (contest :: _) => some (.saveContest { contest with finishedAt := some now })
  | .loopEmitting _ contest _ => some (.emitFinished contest.id)
  | .creating dto _ => some (.findProblem dto.problemId)
  | .readingContest dto _ _ => some (.findContest dto.contestId)
  | .checkingWindow .. => some .newDate
  | .checkingUser _ userId => some (.findUser userId)
  | .stamping .. => some .newDate
  | .storing dto userId submittedAt => some (.saveSubmission dto.code dto.language dto.problemId dto.contestId
      userId .pending submittedAt)
  | .enqueueing dto userId submission => some (.enqueueSubmission submission.id
      { submissionId := submission.id, code := dto.code, language := dto.language,
        problemId := dto.problemId, contestId := dto.contestId, userId := userId })
  | .returned _ => none
  | .raised _ => none

theorem goOn_state {α : Type} (f : α → Point) (r : Except Err α × World) : (goOn f r).2 = r.2 := by
  obtain ⟨r, w⟩ := r
  cases r <;> rfl

/-- A point changes the state by the one call it makes. -/
theorem next_state (c : Choice) (p : Point) (w : World) :
    (next c (p, w)).2 = (callOf p).elim w fun o => (answer o c w).2 := by
  cases p with
  | looping now contests =>
    cases contests with
    | nil => rfl
    | cons contest rest => exact goOn_state _ _
  | returned outcome => rfl
  | raised e => rfl
  | _ => exact goOn_state _ _

def pointStep : Pool.Stepper ℕ (fun _ => Point) World Choice := fun _ c x => next c x

/-- Where a request starts. -/
def startPoint : Request → Point
  | .finishContest id => .finishing id
  | .finishExpiredContests => .ticking
  | .create dto userId => .creating dto userId

def startPoints (requests : ℕ → Request) (w : World) : Pool ℕ (fun _ => Point) World where
  tasks i := startPoint (requests i)
  state := w

theorem map_startPoints (requests : ℕ → Request) (w : World) :
    Pool.map (fun _ => code) (startPoints requests w) = startRequests requests w := by
  apply Pool.ext
  · funext i
    show code (startPoint (requests i)) = program (requests i)
    cases requests i <;> rfl
  · rfl

/-- A program that makes a call goes on with the answer. -/
theorem step_call {o : Op} {k : Except Err (Res o) → M Outcome} {f : Res o → Point}
    (hok : ∀ a, k (.ok a) = code (f a)) (herr : ∀ e, k (.error e) = .raise e) (c : Choice) (w : World) :
    Prog.step answer c (.call o k, w) =
      (code (goOn f (answer o c w)).1, (goOn f (answer o c w)).2) := by
  show (k (answer o c w).1, (answer o c w).2) = _
  rcases answer o c w with ⟨r, w'⟩
  cases r with
  | ok a => simp only [hok, goOn]
  | error e => simp only [herr, goOn]; rfl

/-- Requests run as their program points do. -/
theorem simulates : Pool.Simulates requestStep pointStep (fun _ => code) := by
  intro i c p w
  show Prog.step answer c (code p, w) = (code (next c (p, w)).1, (next c (p, w)).2)
  cases p with
  | finishing id =>
    refine step_call (fun contest? => ?_) (fun e => rfl) c w
    cases contest? with
    | none => rfl
    | some contest =>
      show returnContest (if contest.finishedAt.isSome then _ else _) =
        code (if contest.finishedAt.isSome then _ else _)
      split_ifs <;> rfl
  | dating contest => exact step_call (fun now => rfl) (fun e => rfl) c w
  | saving contest => exact step_call (fun _ => rfl) (fun e => rfl) c w
  | emitting contest => exact step_call (fun _ => rfl) (fun e => rfl) c w
  | ticking => exact step_call (fun now => rfl) (fun e => rfl) c w
  | finding now => exact step_call (fun contests => rfl) (fun e => rfl) c w
  | looping now contests =>
    cases contests with
    | nil => rfl
    | cons contest rest => exact step_call (fun _ => rfl) (fun e => rfl) c w
  | loopEmitting now contest rest => exact step_call (fun _ => rfl) (fun e => rfl) c w
  | creating dto userId =>
    refine step_call (fun problem? => ?_) (fun e => rfl) c w
    cases problem? with
    | none => rfl
    | some problem => rfl
  | readingContest dto userId problem =>
    refine step_call (fun contest? => ?_) (fun e => rfl) c w
    cases contest? with
    | none => rfl
    | some contest =>
      show returnSubmission (if problem.contest ≠ some dto.contestId then _ else _) =
        code (if problem.contest ≠ some dto.contestId then _ else _)
      split_ifs <;> rfl
  | checkingWindow dto userId contest =>
    refine step_call (fun now => ?_) (fun e => rfl) c w
    show returnSubmission (if contest.startTime > now then _ else if contest.endTime < now then _ else _) =
      code (afterWindow dto userId contest now)
    unfold afterWindow
    split_ifs <;> rfl
  | checkingUser dto userId =>
    refine step_call (fun user? => ?_) (fun e => rfl) c w
    cases user? with
    | none => rfl
    | some user =>
      show returnSubmission (if isBlank dto.code then _ else _) = code (if isBlank dto.code then _ else _)
      split_ifs <;> rfl
  | stamping dto userId => exact step_call (fun now => rfl) (fun e => rfl) c w
  | storing dto userId submittedAt => exact step_call (fun submission => rfl) (fun e => rfl) c w
  | enqueueing dto userId submission => exact step_call (fun _ => rfl) (fun e => rfl) c w
  | returned outcome => rfl
  | raised e => rfl

end CodeWeaknesses.Contests
