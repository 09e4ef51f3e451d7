import CodeWeaknesses.Leaderboard.Service
import CodeWeaknesses.Lib.Pool
import CodeWeaknesses.Sse.Controller
import CodeWeaknesses.Submissions.Processor

/-!
# `LeaderboardGateway`

Model of `leaderboard/leaderboard.gateway.ts` and of the calls that `computeStandings` of
`leaderboard/leaderboard.service.ts` makes. Connections, tokens and log lines are left out.

* The room of a contest is its set of members; `server.to(room).emit` sends to them in turn.
* A repository or adapter call may throw at any time (`GatewayChoice.fails`).
* The query answers by one of the plans that its `ORDER BY` admits (`QueryPlan`).
* The processor calls `broadcastLeaderboard` without awaiting it: its calls are numbered, and
  each one runs beside the jobs. Its rejection is logged.

Results:
* `step_code`: handlers and broadcasts run as their program points do.
-/

namespace CodeWeaknesses.Leaderboard

open Lib Lib.Prog

/-! ## The environment -/

/-- `client.id`. -/
abbrev ClientId := String

/-- `leaderboard:update` and `leaderboard:error`. -/
inductive Message where
  | update (standings : LeaderboardPayload)
  | error (message : String)

/-- The state of the judging, the contests, the members of the rooms, and what was sent to
    the clients, in its order. -/
structure Viewers where
  judging : Submissions.World
  contests : Table Contest Id Contest.id
  members : List (ClientId × Id)
  sent : List (ClientId × Message)

/-- How the database answers the query of `computeStandings`. -/
structure QueryPlan where
  rows : List Submission → Id → List Submission
  spec : ∀ log contestId, StandingsRows log contestId (rows log contestId)

/-- The calls of the gateway. -/
inductive GatewayOp where
  | called (n : ℕ)
  | join (client : ClientId) (contestId : Id)
  | leave (client : ClientId) (contestId : Id)
  | fetchSockets (contestId : Id)
  | findContest (id : Id)
  | findSubmissions (contestId : Id)
  | newDate
  | emit (client : ClientId) (message : Message)
  | emitRoom (contestId : Id) (message : Message)

/-- What a call returns. -/
@[reducible] def GatewayRes : GatewayOp → Type
  | .called _ => Id
  | .join .. => Unit
  | .leave .. => Unit
  | .fetchSockets _ => List ClientId
  | .findContest _ => Option Contest
  | .findSubmissions _ => List Submission
  | .newDate => Date
  | .emit .. => Unit
  | .emitRoom .. => Unit

/-- Whether the call may throw. -/
def GatewayOp.mayThrow : GatewayOp → Bool
  | .join .. => true
  | .leave .. => true
  | .fetchSockets _ => true
  | .findContest _ => true
  | .findSubmissions _ => true
  | _ => false

/-- What the model leaves open about a call: whether it throws, the time, the query plan. -/
structure GatewayChoice where
  fails : Option String
  now : Date
  plan : QueryPlan

namespace Viewers

/-- The clients in the room of a contest. -/
def room (w : Viewers) (contestId : Id) : List ClientId :=
  (w.members.filter fun member => member.2 = contestId).map Prod.fst

/-- `findOne({ where: { id } })` on the contests. -/
def contest? (w : Viewers) (id : Id) : Option Contest :=
  (w.contests.find? id).filter fun contest => contest.deletedAt = none

/-- The submissions with the users that the query joins. -/
def log (w : Viewers) : List Submission := w.judging.submissions.rows.map w.judging.withUser

end Viewers

/-- A call that does not throw. -/
def gatewayOk (c : GatewayChoice) (w : Viewers) : (o : GatewayOp) → GatewayRes o × Viewers
  | .called n => (w.judging.broadcasts.getD n "", w)
  | .join client contestId =>
    ((), if (client, contestId) ∈ w.members then w
      else { w with members := w.members ++ [(client, contestId)] })
  | .leave client contestId =>
    ((), { w with members := w.members.filter fun member => member ≠ (client, contestId) })
  | .fetchSockets contestId => (w.room contestId, w)
  | .findContest id => (w.contest? id, w)
  | .findSubmissions contestId => (c.plan.rows w.log contestId, w)
  | .newDate => (c.now, w)
  | .emit client message => ((), { w with sent := w.sent ++ [(client, message)] })
  | .emitRoom contestId message =>
    ((), { w with sent := w.sent ++ (w.room contestId).map fun client => (client, message) })

/-- The answer to a call. -/
def gatewayAnswer : Backend GatewayOp GatewayRes Err GatewayChoice Viewers := fun o c w =>
  match c.fails with
  | some message =>
    if o.mayThrow then (.error (.error message), w) else (.ok (gatewayOk c w o).1, (gatewayOk c w o).2)
  | none => (.ok (gatewayOk c w o).1, (gatewayOk c w o).2)

/-- The calls of the gateway. -/
abbrev GatewayM := Prog GatewayOp GatewayRes Err

/-- `await` of one call. -/
abbrev awaitGateway (o : GatewayOp) : GatewayM (GatewayRes o) := Prog.await o

/-! ## Handlers -/

section Handlers

variable (localeCompare : String → String → ℤ)

/-- `computeStandings` with its calls. -/
def readStandings (contestId : Id) : GatewayM LeaderboardPayload := do
  match ← awaitGateway (.findContest contestId) with
  | none => throw (.notFound ("Contest " ++ contestId ++ " not found"))
  | some contest =>
    let submissions ← awaitGateway (.findSubmissions contestId)
    let now ← awaitGateway .newDate
    answered (computeStandings localeCompare contestId (some contest) submissions now)

/-- `handleJoinContest` (lines 126–150); an empty id is falsy. -/
def handleJoinContest (client : ClientId) (contestId : Option Id) : GatewayM Unit :=
  match contestId.filter fun id => id ≠ "" with
  | none => awaitGateway (.emit client (.error "contestId is required"))
  | some contestId =>
    tryCatch
      (do
        awaitGateway (.join client contestId)
        let standings ← readStandings localeCompare contestId
        awaitGateway (.emit client (.update standings)))
      fun err => awaitGateway (.emit client (.error err.message))

/-- `handleLeaveContest` (lines 157–167). -/
def handleLeaveContest (client : ClientId) (contestId : Option Id) : GatewayM Unit :=
  match contestId.filter fun id => id ≠ "" with
  | none => pure ()
  | some contestId => awaitGateway (.leave client contestId)

/-- `broadcastLeaderboard` (lines 177–196). -/
def broadcastLeaderboard (contestId : Id) : GatewayM Unit := do
  let sockets ← awaitGateway (.fetchSockets contestId)
  if sockets.length = 0 then pure ()
  else
    tryCatch
      (do
        let standings ← readStandings localeCompare contestId
        awaitGateway (.emitRoom contestId (.update standings)))
      fun _ => pure ()

/-- A message of a client. -/
inductive ClientMessage where
  | joinContest (client : ClientId) (contestId : Option Id)
  | leaveContest (client : ClientId) (contestId : Option Id)

def onMessage : ClientMessage → GatewayM Unit
  | .joinContest client contestId => handleJoinContest localeCompare client contestId
  | .leaveContest client contestId => handleLeaveContest client contestId

/-- The `n`-th call of `broadcastLeaderboard`, once it is made. -/
def onBroadcast (n : ℕ) : GatewayM Unit := do
  let contestId ← awaitGateway (.called n)
  broadcastLeaderboard localeCompare contestId

end Handlers

/-! ## Program points -/

/-- Whom the standings of a contest are read for: a client that joined, or the room. -/
inductive Dest where
  | joiner (client : ClientId) (contestId : Id)
  | room (contestId : Id)

def Dest.contestId : Dest → Id
  | .joiner _ contestId => contestId
  | .room contestId => contestId

/-- The last call of the `try` block. -/
def Dest.send : Dest → LeaderboardPayload → GatewayM Unit
  | .joiner client _, standings => awaitGateway (.emit client (.update standings))
  | .room contestId, standings => awaitGateway (.emitRoom contestId (.update standings))

/-- Where a handler is. -/
inductive GatewayPoint where
  | refusing (client : ClientId)
  | joining (client : ClientId) (contestId : Id)
  | leaving (client : ClientId) (contestId : Id)
  | calling (n : ℕ)
  | fetching (contestId : Id)
  | finding (d : Dest)
  | querying (d : Dest) (contest : Contest)
  | dating (d : Dest) (contest : Contest) (submissions : List Submission)
  | emitting (d : Dest) (standings : LeaderboardPayload)
  | reporting (client : ClientId) (message : String)
  | ended
  | raised (e : Err)

/-- Where an error of the `try` block leads. -/
def Dest.failed : Dest → Err → GatewayPoint
  | .joiner client _, err => .reporting client err.message
  | .room _, _ => .ended

/-- Where `computeStandings` goes with the contest it read. -/
def afterContest (d : Dest) : Option Contest → GatewayPoint
  | none => d.failed (.notFound ("Contest " ++ d.contestId ++ " not found"))
  | some contest => .querying d contest

/-- Where `broadcastLeaderboard` goes with the sockets of the room. -/
def afterFetch (contestId : Id) (sockets : List ClientId) : GatewayPoint :=
  if sockets.length = 0 then .ended else .finding (.room contestId)

/-- Go on at the point that the answer leads to. -/
def goOnTo {α : Type} (f : α → GatewayPoint) (g : Err → GatewayPoint) :
    Except Err α × Viewers → GatewayPoint × Viewers
  | (.ok a, w) => (f a, w)
  | (.error e, w) => (g e, w)

section Points

variable (localeCompare : String → String → ℤ)

/-- The `catch` block. -/
def Dest.catch : Dest → Err → GatewayM Unit
  | .joiner client _, err => awaitGateway (.emit client (.error err.message))
  | .room _, _ => pure ()

/-- Where the standings of `contest` lead. -/
def afterStandings (d : Dest) (contest : Contest) (submissions : List Submission) (now : Date) : GatewayPoint :=
  match computeStandings localeCompare d.contestId (some contest) submissions now with
  | .ok standings => .emitting d standings
  | .error e => d.failed e

/-- What is still to be done. -/
def GatewayPoint.code : GatewayPoint → GatewayM Unit
  | .refusing client => awaitGateway (.emit client (.error "contestId is required"))
  | .joining client contestId =>
    tryCatch
      (do
        awaitGateway (.join client contestId)
        let standings ← readStandings localeCompare contestId
        awaitGateway (.emit client (.update standings)))
      fun err => awaitGateway (.emit client (.error err.message))
  | .leaving client contestId => awaitGateway (.leave client contestId)
  | .calling n => onBroadcast localeCompare n
  | .fetching contestId => broadcastLeaderboard localeCompare contestId
  | .finding d => tryCatch (readStandings localeCompare d.contestId >>= d.send) d.catch
  | .querying d contest =>
    tryCatch
      (do
        let submissions ← awaitGateway (.findSubmissions d.contestId)
        let now ← awaitGateway .newDate
        answered (computeStandings localeCompare d.contestId (some contest) submissions now) >>= d.send)
      d.catch
  | .dating d contest submissions =>
    tryCatch
      (do
        let now ← awaitGateway .newDate
        answered (computeStandings localeCompare d.contestId (some contest) submissions now) >>= d.send)
      d.catch
  | .emitting d standings => tryCatch (d.send standings) d.catch
  | .reporting client message => awaitGateway (.emit client (.error message))
  | .ended => pure ()
  | .raised e => throw e

/-- One step of a point. -/
def GatewayPoint.next (c : GatewayChoice) : GatewayPoint × Viewers → GatewayPoint × Viewers
  | (.refusing client, w) =>
    goOnTo (fun _ => .ended) .raised (gatewayAnswer (.emit client (.error "contestId is required")) c w)
  | (.joining client contestId, w) =>
    goOnTo (fun _ => .finding (.joiner client contestId)) (Dest.joiner client contestId).failed
      (gatewayAnswer (.join client contestId) c w)
  | (.leaving client contestId, w) =>
    goOnTo (fun _ => .ended) .raised (gatewayAnswer (.leave client contestId) c w)
  | (.calling n, w) => goOnTo .fetching .raised (gatewayAnswer (.called n) c w)
  | (.fetching contestId, w) =>
    goOnTo (afterFetch contestId) .raised (gatewayAnswer (.fetchSockets contestId) c w)
  | (.finding d, w) => goOnTo (afterContest d) d.failed (gatewayAnswer (.findContest d.contestId) c w)
  | (.querying d contest, w) =>
    goOnTo (.dating d contest) d.failed (gatewayAnswer (.findSubmissions d.contestId) c w)
  | (.dating d contest submissions, w) =>
    goOnTo (afterStandings localeCompare d contest submissions) d.failed (gatewayAnswer .newDate c w)
  | (.emitting (.joiner client contestId) standings, w) =>
    goOnTo (fun _ => .ended) (Dest.joiner client contestId).failed
      (gatewayAnswer (.emit client (.update standings)) c w)
  | (.emitting (.room contestId) standings, w) =>
    goOnTo (fun _ => .ended) (Dest.room contestId).failed
      (gatewayAnswer (.emitRoom contestId (.update standings)) c w)
  | (.reporting client message, w) =>
    goOnTo (fun _ => .ended) .raised (gatewayAnswer (.emit client (.error message)) c w)
  | (.ended, w) => (.ended, w)
  | (.raised e, w) => (.raised e, w)

theorem code_failed (d : Dest) (e : Err) : (d.failed e).code localeCompare = d.catch e := by
  cases d <;> rfl

/-- A handler that makes a call goes on with the answer. -/
theorem step_gateway {o : GatewayOp} {k : Except Err (GatewayRes o) → GatewayM Unit}
    {f : GatewayRes o → GatewayPoint} {g : Err → GatewayPoint}
    (hok : ∀ a, k (.ok a) = (f a).code localeCompare) (herr : ∀ e, k (.error e) = (g e).code localeCompare)
    (c : GatewayChoice) (w : Viewers) :
    Prog.step gatewayAnswer c (.call o k, w) =
      ((goOnTo f g (gatewayAnswer o c w)).1.code localeCompare, (goOnTo f g (gatewayAnswer o c w)).2) := by
  show (k (gatewayAnswer o c w).1, (gatewayAnswer o c w).2) = _
  rcases gatewayAnswer o c w with ⟨_ | a, w'⟩
  · simp only [herr, goOnTo]
  · simp only [hok, goOnTo]

/-- Handlers run as their program points do. -/
theorem step_code (c : GatewayChoice) (p : GatewayPoint) (w : Viewers) :
    Prog.step gatewayAnswer c (p.code localeCompare, w) =
      ((GatewayPoint.next localeCompare c (p, w)).1.code localeCompare,
        (GatewayPoint.next localeCompare c (p, w)).2) := by
  cases p with
  | refusing client => exact step_gateway localeCompare (fun _ => rfl) (fun _ => rfl) c w
  | joining client contestId => exact step_gateway localeCompare (fun _ => rfl) (fun _ => rfl) c w
  | leaving client contestId => exact step_gateway localeCompare (fun _ => rfl) (fun _ => rfl) c w
  | calling n => exact step_gateway localeCompare (fun _ => rfl) (fun _ => rfl) c w
  | fetching contestId =>
    refine step_gateway localeCompare (fun sockets => ?_) (fun _ => rfl) c w
    cases sockets <;> rfl
  | finding d =>
    refine step_gateway localeCompare (fun contest? => ?_) (fun e => (code_failed localeCompare d e).symm) c w
    cases contest? with
    | none => exact (code_failed localeCompare d _).symm
    | some contest =>
      show Prog.tryCatch ((awaitGateway (.findSubmissions d.contestId) >>= fun submissions =>
        awaitGateway .newDate >>= fun now => answered
          (computeStandings localeCompare d.contestId (some contest) submissions now)) >>= d.send) d.catch = _
      simp only [bind_bind]
      rfl
  | querying d contest =>
    refine step_gateway localeCompare (fun submissions => ?_) (fun e => (code_failed localeCompare d e).symm) c w
    rfl
  | dating d contest submissions =>
    refine step_gateway localeCompare (fun now => ?_) (fun e => (code_failed localeCompare d e).symm) c w
    show Prog.tryCatch (answered (computeStandings localeCompare d.contestId (some contest) submissions now) >>=
      d.send) d.catch = (afterStandings localeCompare d contest submissions now).code localeCompare
    unfold afterStandings
    cases computeStandings localeCompare d.contestId (some contest) submissions now with
    | ok standings => rfl
    | error e => exact (code_failed localeCompare d e).symm
  | emitting d standings =>
    cases d with
    | joiner client contestId => exact step_gateway localeCompare (fun _ => rfl) (fun _ => rfl) c w
    | room contestId => exact step_gateway localeCompare (fun _ => rfl) (fun _ => rfl) c w
  | reporting client message => exact step_gateway localeCompare (fun _ => rfl) (fun _ => rfl) c w
  | ended => rfl
  | raised e => rfl

end Points

end CodeWeaknesses.Leaderboard
