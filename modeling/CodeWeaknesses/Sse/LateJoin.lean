import CodeWeaknesses.Lib.Pool
import CodeWeaknesses.Sse.Controller
import CodeWeaknesses.Sse.Registry
import CodeWeaknesses.Submissions.Processor

/-!
# Clients that join while a submission finishes

The worker runs `finish` on a submission while any number of clients run `stream` for
it. Each takes its steps at any time: the worker saves the final status, pushes the
terminal event and completes the stream, a client reads the submission and, if its
status was not final, gets the stream and subscribes.

Results:
* `simulates`: the parties run as their program points do.
* `sound_run`: a run of the processor keeps the streams sound.
* `Kept.step`: what holds as long as a client is not between its read and its
  subscription when the worker pushes.
* `Missed.step`: a client that was is never served.
* `stream_served_iff`: **exactly when a client is served.**
-/

namespace CodeWeaknesses.Sse

open Lib Submissions

/-! ## The parties -/

/-- The worker, and the client of each connection. -/
@[reducible] def Party : Option ℕ → Type
  | none => M JobResult
  | some _ => StreamM StreamResult

/-- One call of a party. No call of the worker fails, and clients act for themselves. -/
def partyStep : Pool.Stepper (Option ℕ) Party World Choice
  | none, c, w => Prog.step answer { c with fails := none, clients := [] } w
  | some _, _, w => Prog.step streamAnswer () w

/-- The worker is about to push the terminal event. -/
def isPushing : M JobResult → Bool
  | .call (.push ..) _ => true
  | _ => false

/-- The client has read a status that was not final, and has not subscribed yet. -/
def isJoining : StreamM StreamResult → Bool
  | .call (.getOrCreate _) _ => true
  | .call (.subscribe ..) _ => true
  | _ => false

/-- When the worker pushes, the client of connection `i` is not joining. -/
def NotJoining (i : ℕ) (x : Option ℕ × Choice) (pool : Pool (Option ℕ) Party World) : Prop :=
  x.1 = none → isPushing (pool.tasks none) = true → isJoining (pool.tasks (some i)) = false

/-- The subscriber of connection `i`, opened by `user`. -/
def observerOf (user : JwtUser) (i : ℕ) : Observer := { client := i, isAdmin := user.role = .admin }

/-- The client got the replay, or a terminal event and then the completion. -/
def Served (o : Observer) (i : ℕ) (pool : Pool (Option ℕ) Party World) : Prop :=
  (∃ events, pool.tasks (some i) = .ret (.replay events)) ∨
    ∃ event : SseEvent, event.isTerminal = true ∧ [.next event, .complete] <:+ pool.state.sse.inbox o

/-- A stream of the submission is stored, with the client attached. -/
def Waiting (o : Observer) (id : Id) (sse : SubmissionSseService) : Prop :=
  ∃ ref, sse.streams.get? id = some ref ∧ o ∈ (sse.subjects ref).observers

section Parties

variable (job : JobData) (s : Submission) (testCases : List TestCase) (t : Totals) (user : ℕ → JwtUser)

/-- The worker starts `finish`, every client starts `stream`. -/
def startPool (w : World) : Pool (Option ℕ) Party World where
  tasks
    | none => finish job s testCases t
    | some i => stream job.submissionId (user i) i
  state := w

/-! ## Program points -/

/-- Where the worker is. -/
inductive WorkerPoint where
  | finishing
  | saving (now : Date)
  | pushing (now : Date)
  | completing (now : Date)
  | broadcasting (now : Date)
  | finished (now : Date)

/-- Where a client is. -/
inductive ClientPoint where
  | reading
  | joining
  | subscribing (ref : SubjectRef)
  | live
  | replayed (events : List SseEvent)
  | refused (e : Err)

@[reducible] def Point : Option ℕ → Type
  | none => WorkerPoint
  | some _ => ClientPoint

/-- The terminal event of `finish`. -/
def terminalEvent (now : Date) : SseEvent :=
  .submissionCompleted
    { submissionId := job.submissionId
      finalVerdict := (judged s testCases.length t now).status
      score := (judged s testCases.length t now).score
      totalExecutionMs := t.totalExecutionTime
      passedCount := t.passedCount
      totalCount := testCases.length }

/-- What `finish` returns. -/
def jobResult (now : Date) : JobResult :=
  { success := true, submissionId := job.submissionId, score := (judged s testCases.length t now).score,
    passedCount := t.passedCount }

/-- `finish` from its push on. -/
def pushAndComplete (now : Date) : M JobResult := do
  await (.push job.submissionId (terminalEvent job s testCases t now))
  await (.complete job.submissionId)
  if s.contestId ≠ "" then await (.broadcastLeaderboard s.contestId)
  pure (jobResult job s testCases t now)

/-- What `finish` still has to do. -/
def workerCode : WorkerPoint → M JobResult
  | .finishing => finish job s testCases t
  | .saving now => do
    await (.saveSubmission (judged s testCases.length t now))
    pushAndComplete job s testCases t now
  | .pushing now => pushAndComplete job s testCases t now
  | .completing now => do
    await (.complete job.submissionId)
    if s.contestId ≠ "" then await (.broadcastLeaderboard s.contestId)
    pure (jobResult job s testCases t now)
  | .broadcasting now => do
    await (.broadcastLeaderboard s.contestId)
    pure (jobResult job s testCases t now)
  | .finished now => pure (jobResult job s testCases t now)

/-- What `stream` still has to do. -/
def clientCode (i : ℕ) : ClientPoint → StreamM StreamResult
  | .reading => stream job.submissionId (user i) i
  | .joining => do
    let ref ← awaitStream (.getOrCreate job.submissionId)
    awaitStream (.subscribe ref (observerOf (user i) i))
    pure .live
  | .subscribing ref => do
    awaitStream (.subscribe ref (observerOf (user i) i))
    pure .live
  | .live => pure .live
  | .replayed events => pure (.replay events)
  | .refused e => throw e

def code : (i : Option ℕ) → Point i → Party i
  | none => workerCode job s testCases t
  | some i => clientCode job user i

/-- One step of the worker. -/
def workerNext (c : Choice) : WorkerPoint × World → WorkerPoint × World
  | (.finishing, w) => (.saving c.now, w)
  | (.saving now, w) =>
    (.pushing now, { w with submissions := w.submissions.upsert (judged s testCases.length t now) })
  | (.pushing now, w) =>
    (.completing now,
      { w with sse := w.sse.push job.submissionId (terminalEvent job s testCases t now) })
  | (.completing now, w) =>
    (if s.contestId ≠ "" then .broadcasting now else .finished now,
      { w with sse := w.sse.complete job.submissionId })
  | (.broadcasting now, w) => (.finished now, { w with broadcasts := w.broadcasts ++ [s.contestId] })
  | (.finished now, w) => (.finished now, w)

/-- What the client does with the submission it read. -/
def afterRead (caller : JwtUser) : Except Err Submission → ClientPoint
  | .error e => .refused e
  | .ok submission =>
    if submission.userId ≠ caller.userId ∧ caller.role ≠ .admin then
      .refused (.forbidden "You do not have access to this submission stream")
    else if isFinalStatus submission.status then
      .replayed (buildReplayEvents submission (caller.role = .admin))
    else .joining

/-- One step of the client of connection `i`. -/
def clientNext (i : ℕ) : ClientPoint × World → ClientPoint × World
  | (.reading, w) => (afterRead (user i) (findOne w job.submissionId), w)
  | (.joining, w) =>
    (.subscribing (w.sse.getOrCreate job.submissionId).1,
      { w with sse := (w.sse.getOrCreate job.submissionId).2 })
  | (.subscribing ref, w) => (.live, { w with sse := w.sse.subscribe ref (observerOf (user i) i) })
  | (p, w) => (p, w)

def pointStep : Pool.Stepper (Option ℕ) Point World Choice
  | none, c, x => workerNext job s testCases t c x
  | some i, _, x => clientNext job user i x

def startPoints (w : World) : Pool (Option ℕ) Point World where
  tasks
    | none => .finishing
    | some _ => .reading
  state := w

theorem map_startPoints (w : World) :
    Pool.map (code job s testCases t user) (startPoints w) = startPool job s testCases t user w := by
  apply Pool.ext
  · funext i
    cases i <;> rfl
  · rfl

/-- The parties run as their program points do. -/
theorem simulates :
    Pool.Simulates partyStep (pointStep job s testCases t user) (code job s testCases t user) := by
  intro i c p w
  cases i with
  | none =>
    cases p with
    | completing now =>
      by_cases hc : s.contestId ≠ ""
      · simp only [code, workerCode, pointStep, workerNext, if_pos hc]
        rfl
      · simp only [code, workerCode, pointStep, workerNext, if_neg hc]
        rfl
    | _ => rfl
  | some i =>
    cases p with
    | reading =>
      show (Prog.answered (findOne w job.submissionId) >>= _, w) =
        (clientCode job user i (afterRead (user i) (findOne w job.submissionId)), w)
      cases findOne w job.submissionId with
      | error e => rfl
      | ok submission =>
        simp only [Prog.answered_ok, Prog.ret_bind, afterRead]
        split_ifs <;> rfl
    | _ => rfl

/-! ## The invariant of a served client -/

/-- The stored submission. -/
def rowAt : WorkerPoint → Submission
  | .finishing => s
  | .saving _ => s
  | .pushing now => judged s testCases.length t now
  | .completing now => judged s testCases.length t now
  | .broadcasting now => judged s testCases.length t now
  | .finished now => judged s testCases.length t now

/-- What the worker has done to the stream. -/
inductive Stage where
  | untouched
  | pushed (event : SseEvent)
  | completed (event : SseEvent)

def stageOf : WorkerPoint → Stage
  | .finishing => .untouched
  | .saving _ => .untouched
  | .pushing _ => .untouched
  | .completing now => .pushed (terminalEvent job s testCases t now)
  | .broadcasting now => .completed (terminalEvent job s testCases t now)
  | .finished now => .completed (terminalEvent job s testCases t now)

end Parties

/-- A connection that is not subscribed and got nothing. -/
def Away (o : Observer) (sse : SubmissionSseService) : Prop := sse.Absent o ∧ sse.inbox o = []

/-- A subscribed connection got what the worker sent. -/
def UpToDate (o : Observer) (id : Id) (sse : SubmissionSseService) : Stage → Prop
  | .untouched => sse.Attached id o ∧ sse.inbox o = []
  | .pushed event => sse.Attached id o ∧ sse.inbox o = [.next event]
  | .completed event => sse.Absent o ∧ sse.inbox o = [.next event, .complete]

/-- A client that misses nothing: it is between its read and its subscription only
    while the worker has not pushed. -/
def Tracks (o : Observer) (id : Id) (stage : Stage) (sse : SubmissionSseService) : ClientPoint → Prop
  | .reading => Away o sse
  | .joining => stage = .untouched ∧ Away o sse
  | .subscribing ref => stage = .untouched ∧ Away o sse ∧ sse.streams.get? id = some ref
  | .live => UpToDate o id sse stage
  | .replayed _ => Away o sse
  | .refused _ => False

section Tracks

variable {o : Observer} {id : Id} {stage : Stage} {sse : SubmissionSseService} {p : ClientPoint}

/-- Another client's `getOrCreate`. -/
theorem Tracks.getOrCreate (h : Tracks o id stage sse p) : Tracks o id stage (sse.getOrCreate id).2 p := by
  have haway : Away o sse → Away o (sse.getOrCreate id).2 := by
    rintro ⟨habsent, hinbox⟩
    exact ⟨habsent.getOrCreate, by rwa [SubmissionSseService.inbox_getOrCreate]⟩
  cases p with
  | reading => exact haway h
  | joining => exact ⟨h.1, haway h.2⟩
  | subscribing ref => exact ⟨h.1, haway h.2.1, SubmissionSseService.get?_getOrCreate_of_some h.2.2⟩
  | live =>
    cases stage <;>
      simp only [Tracks, UpToDate, SubmissionSseService.inbox_getOrCreate] at h ⊢ <;>
      exact ⟨h.1.getOrCreate, h.2⟩
  | replayed events => exact haway h
  | refused e => exact h

/-- Another client's subscription. -/
theorem Tracks.subscribe {o' : Observer} (h : Tracks o id stage sse p) (hne : o' ≠ o) (ref : SubjectRef) :
    Tracks o id stage (sse.subscribe ref o') p := by
  have hinbox := SubmissionSseService.inbox_subscribe_of_ne hne ref (s := sse)
  have haway : Away o sse → Away o (sse.subscribe ref o') := by
    rintro ⟨habsent, hnone⟩
    exact ⟨habsent.subscribe hne ref, by rwa [hinbox]⟩
  cases p with
  | reading => exact haway h
  | joining => exact ⟨h.1, haway h.2⟩
  | subscribing ref' =>
    exact ⟨h.1, haway h.2.1, by rw [SubmissionSseService.streams_subscribe]; exact h.2.2⟩
  | live =>
    cases stage <;> simp only [Tracks, UpToDate, hinbox] at h ⊢ <;> exact ⟨h.1.subscribe hne ref, h.2⟩
  | replayed events => exact haway h
  | refused e => exact h

/-- The worker pushes while the client is not joining. -/
theorem Tracks.push (h : Tracks o id .untouched sse p) (hs : sse.Sound) {event : SseEvent}
    (he : ∀ b, mapEvent b event = event) (hp : ∀ ref, p ≠ .joining ∧ p ≠ .subscribing ref) :
    Tracks o id (.pushed event) (sse.push id event) p := by
  have haway : Away o sse → Away o (sse.push id event) := by
    rintro ⟨habsent, hinbox⟩
    obtain ⟨habsent', hinbox'⟩ := habsent.push id event
    exact ⟨habsent', by rw [hinbox', hinbox]⟩
  cases p with
  | reading => exact haway h
  | joining => exact absurd rfl (hp 0).1
  | subscribing ref => exact absurd rfl (hp ref).2
  | live =>
    obtain ⟨hattached, hinbox⟩ := h
    obtain ⟨hattached', hinbox'⟩ := hattached.push hs he
    exact ⟨hattached', by rw [hinbox', hinbox, List.nil_append]⟩
  | replayed events => exact haway h
  | refused e => exact h

/-- The worker completes the stream. -/
theorem Tracks.complete {event : SseEvent} (h : Tracks o id (.pushed event) sse p) (hs : sse.Sound) :
    Tracks o id (.completed event) (sse.complete id) p := by
  have haway : Away o sse → Away o (sse.complete id) := by
    rintro ⟨habsent, hinbox⟩
    obtain ⟨habsent', hinbox'⟩ := habsent.complete id
    exact ⟨habsent', by rw [hinbox', hinbox]⟩
  cases p with
  | reading => exact haway h
  | joining => exact absurd h.1 (by simp)
  | subscribing ref => exact absurd h.1 (by simp)
  | live =>
    obtain ⟨hattached, hinbox⟩ := h
    obtain ⟨habsent', hinbox'⟩ := hattached.complete hs
    exact ⟨habsent', by rw [hinbox', hinbox]; rfl⟩
  | replayed events => exact haway h
  | refused e => exact h

end Tracks

/-! ## Sound streams -/

theorem sound_apply {sse : SubmissionSseService} (h : sse.Sound) (action : ClientAction) :
    (action.apply sse).Sound := by
  cases action with
  | connect submissionId o => exact (h.getOrCreate submissionId).subscribe _ o
  | disconnect submissionId o =>
    refine SubmissionSseService.Sound.cleanup ?_ submissionId
    cases sse.streams.get? submissionId with
    | none => exact h
    | some ref => exact h.unsubscribe ref o

/-- Every call of the processor, and every client beside it, keeps the streams sound. -/
theorem sound_answer {w : World} (h : w.sse.Sound) (o : Op) (c : Choice) : (answer o c w).2.sse.Sound := by
  have hclients : (w.clients c.clients).sse.Sound := by
    show (c.clients.foldl ClientAction.apply w.sse).Sound
    generalize c.clients = actions
    induction actions generalizing w with
    | nil => exact h
    | cons action actions ih => exact ih (w := { w with sse := action.apply w.sse }) (sound_apply h action)
  have hok : (answerOk c (w.clients c.clients) o).2.sse.Sound := by
    cases o with
    | push submissionId event => exact hclients.push submissionId event
    | complete submissionId => exact hclients.complete submissionId
    | error submissionId message => exact hclients.error submissionId message
    | saveTestResult =>
      simp only [answerOk]
      split_ifs <;> exact hclients
    | _ => exact hclients
  unfold answer
  cases c.fails with
  | none => exact hok
  | some message =>
    simp only
    split_ifs
    · exact hclients
    · exact hok

/-- A run of the processor starts the last steps of a submission on sound streams. -/
theorem sound_run {α : Type} (cs : List Choice) : ∀ (p : M α) {w : World}, w.sse.Sound →
    (Prog.run answer cs (p, w)).2.sse.Sound := by
  induction cs with
  | nil => exact fun _ _ h => h
  | cons c cs ih =>
    intro p w h
    cases p with
    | ret a => exact ih _ h
    | raise e => exact ih _ h
    | call o k => exact ih _ (sound_answer h o c)

/-! ## Runs in which the client misses nothing -/

section Runs

variable (job : JobData) (s : Submission) (testCases : List TestCase) (t : Totals) (user : ℕ → JwtUser)

/-- The invariant, for the worker, one client and the state. -/
structure KeptAt (i : ℕ) (worker : WorkerPoint) (client : ClientPoint) (w : World) : Prop where
  row : w.submissions.find? job.submissionId = some (rowAt s testCases t worker)
  sound : w.sse.Sound
  tracks : Tracks (observerOf (user i) i) job.submissionId (stageOf job s testCases t worker) w.sse client

/-- The invariant on a pool. -/
def Kept (i : ℕ) (pool : Pool (Option ℕ) Point World) : Prop :=
  KeptAt job s testCases t user i (pool.tasks none) (pool.tasks (some i)) pool.state

variable {job s testCases t user}

/-- A step of the worker. -/
theorem KeptAt.worker {i : ℕ} {worker : WorkerPoint} {client : ClientPoint} {w : World}
    (h : KeptAt job s testCases t user i worker client w) (hid : s.id = job.submissionId) (c : Choice)
    (hguard : ∀ now, worker = .pushing now → ∀ ref, client ≠ .joining ∧ client ≠ .subscribing ref) :
    KeptAt job s testCases t user i (workerNext job s testCases t c (worker, w)).1 client
      (workerNext job s testCases t c (worker, w)).2 := by
  obtain ⟨hrow, hsound, htracks⟩ := h
  cases worker with
  | finishing => exact ⟨hrow, hsound, htracks⟩
  | saving now =>
    refine ⟨?_, hsound, htracks⟩
    show (w.submissions.upsert (judged s testCases.length t now)).find? job.submissionId = _
    rw [← hid]
    exact Table.find?_upsert_self _ (judged s testCases.length t now)
  | pushing now => exact ⟨hrow, hsound.push _ _, htracks.push hsound (fun _ => rfl) (hguard now rfl)⟩
  | completing now =>
    have hcompleted := htracks.complete hsound
    by_cases hc : s.contestId ≠ ""
    · simp only [workerNext, if_pos hc]
      exact ⟨hrow, hsound.complete _, hcompleted⟩
    · simp only [workerNext, if_neg hc]
      exact ⟨hrow, hsound.complete _, hcompleted⟩
  | broadcasting now => exact ⟨hrow, hsound, htracks⟩
  | finished now => exact ⟨hrow, hsound, htracks⟩

theorem observerOf_ne {i j : ℕ} (h : j ≠ i) : observerOf (user j) j ≠ observerOf (user i) i :=
  fun he => h (congrArg Observer.client he)

/-- A step of another client. -/
theorem KeptAt.other {i j : ℕ} (hne : j ≠ i) {worker : WorkerPoint} {client : ClientPoint} {w : World}
    (h : KeptAt job s testCases t user i worker client w) (p : ClientPoint) :
    KeptAt job s testCases t user i worker client (clientNext job user j (p, w)).2 := by
  obtain ⟨hrow, hsound, htracks⟩ := h
  cases p with
  | joining => exact ⟨hrow, hsound.getOrCreate _, htracks.getOrCreate⟩
  | subscribing ref => exact ⟨hrow, hsound.subscribe _ _, htracks.subscribe (observerOf_ne hne) ref⟩
  | _ => exact ⟨hrow, hsound, htracks⟩

/-- What `findOne` returns of a stored row. -/
theorem findOne_of_find? {w : World} {id : Id} {row : Submission} (h : w.submissions.find? id = some row) :
    ∃ submission, findOne w id = .ok submission ∧ submission.userId = row.userId ∧
      submission.status = row.status := by
  unfold findOne
  rw [h]
  exact ⟨_, rfl, rfl, rfl⟩

/-- A judged submission has a final status. -/
theorem isFinalStatus_judged (now : Date) : isFinalStatus (judged s testCases.length t now).status = true := by
  show isFinalStatus (finalStatusOf t.passedCount testCases.length) = true
  unfold finalStatusOf
  split_ifs <;> rfl

/-- A step of the client itself. -/
theorem KeptAt.self {i : ℕ} {worker : WorkerPoint} {client : ClientPoint} {w : World}
    (h : KeptAt job s testCases t user i worker client w)
    (hauth : s.userId = (user i).userId ∨ (user i).role = .admin) :
    KeptAt job s testCases t user i worker (clientNext job user i (client, w)).1
      (clientNext job user i (client, w)).2 := by
  obtain ⟨hrow, hsound, htracks⟩ := h
  cases client with
  | reading =>
    obtain ⟨submission, hfind, huser, hstatus⟩ := findOne_of_find? hrow
    refine ⟨hrow, hsound, ?_⟩
    have hrowUser : (rowAt s testCases t worker).userId = s.userId := by cases worker <;> rfl
    have hallowed : ¬(submission.userId ≠ (user i).userId ∧ (user i).role ≠ .admin) := by
      rw [huser, hrowUser]
      rintro ⟨hother, hrole⟩
      exact hauth.elim hother hrole
    simp only [clientNext, hfind, afterRead, if_neg hallowed]
    -- a status that is not final was read before the save
    have hfinal : isFinalStatus submission.status = false → stageOf job s testCases t worker = .untouched := by
      intro hstill
      rw [hstatus] at hstill
      cases worker <;> first | rfl | exact absurd hstill (by simp [rowAt, isFinalStatus_judged])
    cases hf : isFinalStatus submission.status with
    | true => exact htracks
    | false => exact ⟨hfinal hf, htracks⟩
  | joining =>
    obtain ⟨hstage, haway⟩ := htracks
    refine ⟨hrow, hsound.getOrCreate _, hstage, ⟨haway.1.getOrCreate, ?_⟩, SubmissionSseService.get?_getOrCreate⟩
    rw [clientNext, SubmissionSseService.inbox_getOrCreate]
    exact haway.2
  | subscribing ref =>
    obtain ⟨hstage, haway, hget⟩ := htracks
    obtain ⟨hattached, hinbox⟩ := haway.1.attached hsound hget
    refine ⟨hrow, hsound.subscribe _ _, ?_⟩
    rw [hstage]
    exact ⟨hattached, hinbox.trans haway.2⟩
  | live => exact ⟨hrow, hsound, htracks⟩
  | replayed events => exact ⟨hrow, hsound, htracks⟩
  | refused e => exact ⟨hrow, hsound, htracks⟩

/-- A step of the pool, as client `i` sees it. -/
theorem step_seen {R : WorkerPoint → ClientPoint → World → Prop} {i : ℕ} {x : Option ℕ × Choice}
    {pool : Pool (Option ℕ) Point World}
    (hworker : x.1 = none → R (workerNext job s testCases t x.2 (pool.tasks none, pool.state)).1
      (pool.tasks (some i)) (workerNext job s testCases t x.2 (pool.tasks none, pool.state)).2)
    (hself : R (pool.tasks none) (clientNext job user i (pool.tasks (some i), pool.state)).1
      (clientNext job user i (pool.tasks (some i), pool.state)).2)
    (hother : ∀ j, j ≠ i → R (pool.tasks none) (pool.tasks (some i))
      (clientNext job user j (pool.tasks (some j), pool.state)).2) :
    R ((Pool.step (pointStep job s testCases t user) x pool).tasks none)
      ((Pool.step (pointStep job s testCases t user) x pool).tasks (some i))
      (Pool.step (pointStep job s testCases t user) x pool).state := by
  obtain ⟨k, c⟩ := x
  have hsame : ∀ k', k' ≠ k → (Pool.step (pointStep job s testCases t user) (k, c) pool).tasks k' =
      pool.tasks k' := fun k' hk => Pool.step_tasks_of_ne hk pool
  have hmoved : (Pool.step (pointStep job s testCases t user) (k, c) pool).tasks k = _ :=
    Pool.step_tasks_self (k, c) pool
  cases k with
  | none =>
    rw [hsame (some i) (by simp)]
    exact hmoved ▸ hworker rfl
  | some j =>
    rw [hsame none (by simp)]
    by_cases hj : j = i
    · subst hj
      exact hmoved ▸ hself
    · rw [hsame (some i) (by simp [Ne.symm hj])]
      exact hother j hj

/-- One admitted step of any party. -/
theorem Kept.step {i : ℕ} (hid : s.id = job.submissionId)
    (hauth : s.userId = (user i).userId ∨ (user i).role = .admin) {x : Option ℕ × Choice}
    {pool : Pool (Option ℕ) Point World} (h : Kept job s testCases t user i pool)
    (hguard : x.1 = none → ∀ now, pool.tasks none = .pushing now →
      ∀ ref, pool.tasks (some i) ≠ .joining ∧ pool.tasks (some i) ≠ .subscribing ref) :
    Kept job s testCases t user i (Pool.step (pointStep job s testCases t user) x pool) :=
  step_seen (fun hx => KeptAt.worker h hid x.2 (hguard hx)) (KeptAt.self h hauth)
    fun j hj => KeptAt.other hj h (pool.tasks (some j))

/-! ## A client that missed the push -/

/-- The worker has pushed, the client was joining then, and it got at most completions. -/
def MissedAt (o : Observer) (worker : WorkerPoint) (client : ClientPoint) (w : World) : Prop :=
  (∃ now, worker = .completing now ∨ worker = .broadcasting now ∨ worker = .finished now) ∧
    (client = .joining ∨ (∃ ref, client = .subscribing ref) ∨ client = .live) ∧
    ∀ m ∈ w.sse.inbox o, m = .complete

def Missed (i : ℕ) (user : ℕ → JwtUser) (pool : Pool (Option ℕ) Point World) : Prop :=
  MissedAt (observerOf (user i) i) (pool.tasks none) (pool.tasks (some i)) pool.state

/-- The worker pushes while the client is joining: the client misses the event. -/
theorem Kept.missed {i : ℕ} {pool : Pool (Option ℕ) Point World} (h : Kept job s testCases t user i pool)
    {now : Date} (hpushing : pool.tasks none = .pushing now) (c : Choice)
    (hjoining : pool.tasks (some i) = .joining ∨ ∃ ref, pool.tasks (some i) = .subscribing ref) :
    Missed i user (Pool.step (pointStep job s testCases t user) (none, c) pool) := by
  obtain ⟨_, _, htracks⟩ := h
  have haway : Away (observerOf (user i) i) pool.state.sse := by
    rcases hjoining with hp | ⟨ref, hp⟩ <;> rw [hp] at htracks
    · exact htracks.2
    · exact htracks.2.1
  have hnext : pointStep job s testCases t user none c (pool.tasks none, pool.state) =
      (.completing now, { pool.state with
        sse := pool.state.sse.push job.submissionId (terminalEvent job s testCases t now) }) := by
    rw [hpushing]
    rfl
  unfold Missed
  rw [Pool.step_tasks_self (none, c), Pool.step_tasks_of_ne (show some i ≠ (none, c).1 by simp),
    Pool.step_state]
  simp only [hnext]
  refine ⟨⟨now, .inl rfl⟩, hjoining.imp_right .inl, ?_⟩
  have hnone := (haway.1.push job.submissionId (terminalEvent job s testCases t now)).2
  intro m hm
  rw [hnone, haway.2] at hm
  cases hm

theorem MissedAt.worker {o : Observer} {worker : WorkerPoint} {client : ClientPoint} {w : World}
    (h : MissedAt o worker client w) (c : Choice) :
    MissedAt o (workerNext job s testCases t c (worker, w)).1 client
      (workerNext job s testCases t c (worker, w)).2 := by
  obtain ⟨⟨now, rfl | rfl | rfl⟩, hclient, hinbox⟩ := h
  · refine ⟨⟨now, ?_⟩, hclient, ?_⟩
    · unfold workerNext
      split_ifs
      · exact .inr (.inl rfl)
      · exact .inr (.inr rfl)
    · obtain ⟨n, hn⟩ := SubmissionSseService.inbox_complete w.sse job.submissionId o
      intro m hm
      rw [workerNext, hn, List.mem_append] at hm
      exact hm.elim (hinbox m) List.eq_of_mem_replicate
  · exact ⟨⟨now, .inr (.inr rfl)⟩, hclient, hinbox⟩
  · exact ⟨⟨now, .inr (.inr rfl)⟩, hclient, hinbox⟩

theorem MissedAt.other {i j : ℕ} (hne : j ≠ i) {worker : WorkerPoint} {client : ClientPoint} {w : World}
    (h : MissedAt (observerOf (user i) i) worker client w) (p : ClientPoint) :
    MissedAt (observerOf (user i) i) worker client (clientNext job user j (p, w)).2 := by
  obtain ⟨hworker, hclient, hinbox⟩ := h
  refine ⟨hworker, hclient, ?_⟩
  cases p with
  | joining => simpa only [clientNext, SubmissionSseService.inbox_getOrCreate] using hinbox
  | subscribing ref =>
    simpa only [clientNext, SubmissionSseService.inbox_subscribe_of_ne (observerOf_ne hne)] using hinbox
  | _ => exact hinbox

theorem MissedAt.self {i : ℕ} {worker : WorkerPoint} {client : ClientPoint} {w : World}
    (h : MissedAt (observerOf (user i) i) worker client w) :
    MissedAt (observerOf (user i) i) worker (clientNext job user i (client, w)).1
      (clientNext job user i (client, w)).2 := by
  obtain ⟨hworker, rfl | ⟨ref, rfl⟩ | rfl, hinbox⟩ := h
  · refine ⟨hworker, .inr (.inl ⟨_, rfl⟩), ?_⟩
    simpa only [clientNext, SubmissionSseService.inbox_getOrCreate] using hinbox
  · refine ⟨hworker, .inr (.inr rfl), ?_⟩
    intro m hm
    rcases SubmissionSseService.inbox_subscribe (s := w.sse) (o := observerOf (user i) i) ref
        (observerOf (user i) i) with hnone | ⟨_, hcomplete⟩
    · rw [clientNext, hnone] at hm
      exact hinbox m hm
    · rw [clientNext, hcomplete, List.mem_append] at hm
      exact hm.elim (hinbox m) List.eq_of_mem_singleton
  · exact ⟨hworker, .inr (.inr rfl), hinbox⟩

/-- It stays so, whoever takes the next step. -/
theorem Missed.step {i : ℕ} (x : Option ℕ × Choice) {pool : Pool (Option ℕ) Point World}
    (h : Missed i user pool) : Missed i user (Pool.step (pointStep job s testCases t user) x pool) :=
  step_seen (fun _ => MissedAt.worker h x.2) (MissedAt.self h) fun j hj =>
    MissedAt.other hj h (pool.tasks (some j))

theorem Missed.run {i : ℕ} (sched : List (Option ℕ × Choice)) {pool : Pool (Option ℕ) Point World}
    (h : Missed i user pool) : Missed i user (Pool.run (pointStep job s testCases t user) sched pool) :=
  Pool.run_keeps (fun x _ => Missed.step x) sched h

/-! ## Main theorem -/

theorem isPushing_workerCode {p : WorkerPoint} :
    isPushing (workerCode job s testCases t p) = true ↔ ∃ now, p = .pushing now := by
  cases p with
  | pushing now => exact iff_of_true rfl ⟨now, rfl⟩
  | _ => exact iff_of_false (by rintro ⟨⟩) (by rintro ⟨_, ⟨⟩⟩)

theorem isJoining_clientCode {i : ℕ} {p : ClientPoint} :
    isJoining (clientCode job user i p) = true ↔ p = .joining ∨ ∃ ref, p = .subscribing ref := by
  cases p with
  | joining => exact iff_of_true rfl (.inl rfl)
  | subscribing ref => exact iff_of_true rfl (.inr ⟨ref, rfl⟩)
  | _ => exact iff_of_false (by rintro ⟨⟩) (by rintro (⟨⟨⟩⟩ | ⟨_, ⟨⟩⟩))

/-- The start keeps the invariant. -/
theorem kept_startPoints {w : World} (hs : w.submissions.find? job.submissionId = some s)
    (hsound : w.sse.Sound) {i : ℕ} (hnew : Away (observerOf (user i) i) w.sse) :
    Kept job s testCases t user i (startPoints w) := ⟨hs, hsound, hnew⟩

/-- At the end, a client that missed nothing is served and not waiting. -/
theorem Kept.served {i : ℕ} {pool : Pool (Option ℕ) Point World} (h : Kept job s testCases t user i pool)
    (hworker : (workerCode job s testCases t (pool.tasks none)).ended = true)
    (hclient : (clientCode job user i (pool.tasks (some i))).ended = true) :
    Served (observerOf (user i) i) i (Pool.map (code job s testCases t user) pool) ∧
      ¬ Waiting (observerOf (user i) i) job.submissionId pool.state.sse := by
  obtain ⟨_, _, htracks⟩ := h
  have hstage : ∃ event, event.isTerminal = true ∧
      stageOf job s testCases t (pool.tasks none) = .completed event := by
    cases hp : pool.tasks none with
    | finished now => exact ⟨_, rfl, rfl⟩
    | _ =>
      rw [hp] at hworker
      cases hworker
  obtain ⟨event, hterminal, hstage⟩ := hstage
  rw [hstage] at htracks
  have habsent : ∀ {sse : SubmissionSseService}, sse.Absent (observerOf (user i) i) →
      ¬ Waiting (observerOf (user i) i) job.submissionId sse := by
    rintro sse habsent ⟨ref, _, hmem⟩
    exact habsent ref hmem
  cases hp : pool.tasks (some i) with
  | live =>
    rw [hp] at htracks
    obtain ⟨habs, hinbox⟩ := htracks
    exact ⟨.inr ⟨event, hterminal, by rw [Pool.map, hinbox]⟩, habsent habs⟩
  | replayed events =>
    rw [hp] at htracks
    refine ⟨.inl ⟨events, ?_⟩, habsent htracks.1⟩
    show clientCode job user i (pool.tasks (some i)) = _
    rw [hp]
    rfl
  | refused e =>
    rw [hp] at htracks
    exact htracks.elim
  | _ =>
    rw [hp] at hclient
    cases hclient

/-- A client that missed the push is never served. -/
theorem Missed.not_served {i : ℕ} {pool : Pool (Option ℕ) Point World} (h : Missed i user pool) :
    ¬ Served (observerOf (user i) i) i (Pool.map (code job s testCases t user) pool) := by
  obtain ⟨_, hclient, hinbox⟩ := h
  rintro (⟨events, hreplay⟩ | ⟨event, _, hsuffix⟩)
  · have hreplay : clientCode job user i (pool.tasks (some i)) = .ret (.replay events) := hreplay
    rcases hclient with hp | ⟨ref, hp⟩ | hp <;> rw [hp] at hreplay <;> cases hreplay
  · have hmem := hsuffix.subset (List.mem_cons_self (a := Message.next event))
    cases hinbox _ hmem

/-- **Main**: once the worker and an allowed client have taken all their steps, the
    client has been served and is not left waiting iff it was not between its read and
    its subscription when the worker pushed the terminal event. -/
theorem stream_served_iff {w : World} (hs : w.submissions.find? job.submissionId = some s)
    (hsound : w.sse.Sound) {i : ℕ} (hnew : Away (observerOf (user i) i) w.sse)
    (hauth : s.userId = (user i).userId ∨ (user i).role = .admin) (sched : List (Option ℕ × Choice))
    (hworker : ((Pool.run partyStep sched (startPool job s testCases t user w)).tasks none).ended = true)
    (hclient : ((Pool.run partyStep sched (startPool job s testCases t user w)).tasks (some i)).ended = true) :
    (Served (observerOf (user i) i) i (Pool.run partyStep sched (startPool job s testCases t user w)) ∧
      ¬ Waiting (observerOf (user i) i) job.submissionId
        (Pool.run partyStep sched (startPool job s testCases t user w)).state.sse) ↔
      Pool.Guarded partyStep (NotJoining i) sched (startPool job s testCases t user w) := by
  have hid : s.id = job.submissionId := (Table.find?_eq_some_iff.mp hs).2
  have hstart : Kept job s testCases t user i (startPoints w) := kept_startPoints hs hsound hnew
  have hsim := simulates job s testCases t user
  rw [← map_startPoints, Pool.run_map hsim] at hworker hclient ⊢
  rw [Pool.guarded_map hsim]
  have hkept : ∀ {sched : List (Option ℕ × Choice)},
      Pool.Guarded (pointStep job s testCases t user)
        (fun x pool => NotJoining i x (Pool.map (code job s testCases t user) pool)) sched (startPoints w) →
      Kept job s testCases t user i (Pool.run (pointStep job s testCases t user) sched (startPoints w)) := by
    intro sched hg
    refine Pool.invariant ?_ hg hstart
    intro x pool hx hkept
    refine hkept.step hid hauth fun hnone now hp ref => ?_
    have hnot := hx hnone (isPushing_workerCode.mpr ⟨now, hp⟩)
    rw [Bool.eq_false_iff] at hnot
    exact ⟨fun hj => hnot (isJoining_clientCode.mpr (.inl hj)),
      fun hr => hnot (isJoining_clientCode.mpr (.inr ⟨ref, hr⟩))⟩
  constructor
  · rintro ⟨hserved, _⟩
    by_contra hnot
    obtain ⟨pre, ⟨k, c⟩, post, rfl, hpre, hx⟩ := Pool.not_guarded hnot
    have hmid := hkept hpre
    simp only [NotJoining, Classical.not_imp, Bool.not_eq_false] at hx
    obtain ⟨rfl, hpushing, hjoining⟩ := hx
    obtain ⟨now, hp⟩ := isPushing_workerCode.mp hpushing
    rw [Pool.run_append, Pool.run] at hserved
    have hmissed := hmid.missed hp c (isJoining_clientCode.mp hjoining)
    exact (hmissed.run post).not_served hserved
  · intro hg
    exact (hkept hg).served hworker hclient

end Runs

/-! ## An early and a late client -/

/-- A submission that the worker is about to finish. -/
def runningRow : Submission :=
  { id := "s1", code := "print(42)", language := .python, status := .running, userId := "u1",
    problemId := "p1", contestId := "c1", submittedAt := some 1000, startedAt := some 2000,
    completedAt := none, score := 0, executionTime := none, memoryUsed := none, user := none,
    problem := none, testResults := none }

def runningOne : World where
  users := .empty
  problems := .empty
  submissions := Table.empty.upsert runningRow
  testCases := .empty
  testResults := .empty
  sse := .init
  broadcasts := []
  nullsFirst := false

def runningJob : JobData := { submissionId := "s1", code := "print(42)", language := .python, problemId := "p1" }

def onlyTest : TestCase :=
  { id := "t1", problemId := "p1", input := "", expectedOutput := "42", isHidden := false, orderIndex := 0 }

def author (_ : ℕ) : JwtUser := { userId := "u1", name := "Bob", role := .user }

/-- The pool in which the author's clients meet the worker. -/
def finishingOne : Pool (Option ℕ) Party World :=
  startPool runningJob runningRow [onlyTest] ⟨1, 10, 20⟩ author runningOne

/-- The given parties take their steps in this order. -/
def inOrder (parties : List (Option ℕ)) : List (Option ℕ × Choice) :=
  parties.map fun party =>
    (party,
      { fails := none, uuid := "", now := 5000, clients := []
        result := { success := true, output := "42", error := none, executionTime := 10, memoryUsed := 20,
                    timedOut := false, memoryExceeded := false } })

/-- The client reads after the save and before the push: it gets the replay. -/
theorem stream_served_between :
    Served (observerOf (author 0) 0) 0
        (Pool.run partyStep (inOrder [none, none, some 0, none, none, none]) finishingOne) ∧
      ¬ Waiting (observerOf (author 0) 0) "s1"
        (Pool.run partyStep (inOrder [none, none, some 0, none, none, none]) finishingOne).state.sse := by
  have hnew : Away (observerOf (author 0) 0) runningOne.sse := ⟨fun _ => List.not_mem_nil, rfl⟩
  have hiff := @stream_served_iff runningJob runningRow [onlyTest] ⟨1, 10, 20⟩ author runningOne rfl
    SubmissionSseService.sound_init 0 hnew (.inl rfl) (inOrder [none, none, some 0, none, none, none]) rfl rfl
  refine hiff.mpr ⟨?_, ?_, ?_, ?_, ?_, ?_, trivial⟩ <;> exact fun _ _ => rfl

/-- The client reads before the save and gets the stream after the worker has completed
    it: it waits on a stream that nobody will push to. -/
theorem stream_not_served :
    let pool := Pool.run partyStep (inOrder [some 0, none, none, none, none, none, some 0, some 0])
      finishingOne
    (pool.tasks none).ended = true ∧ (pool.tasks (some 0)).ended = true ∧
      ¬ Served (observerOf (author 0) 0) 0 pool ∧ Waiting (observerOf (author 0) 0) "s1" pool.state.sse := by
  intro pool
  refine ⟨rfl, rfl, ?_, ⟨0, rfl, List.mem_singleton.mpr rfl⟩⟩
  rintro (⟨events, hreplay⟩ | ⟨event, _, hsuffix⟩)
  · cases hreplay
  · have hnone : pool.state.sse.inbox (observerOf (author 0) 0) = [] := rfl
    rw [hnone] at hsuffix
    cases List.suffix_nil.mp hsuffix

end CodeWeaknesses.Sse
