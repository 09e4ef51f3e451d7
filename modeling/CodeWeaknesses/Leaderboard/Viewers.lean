import CodeWeaknesses.Leaderboard.Gateway

/-!
# The viewers of a contest

Jobs of the submissions queue, `joinContest` and `leaveContest` messages and the broadcasts
that the jobs call, all at once. Standings are read by one call and sent by a later one, and
a job that ends on the error path saves a status without a broadcast.

Results:
* `simulatesViewers`: jobs and handlers run as their program points do.
* `lastUpdate_one`, `lastUpdate_all`: the last update of a client after a message.
* `next_handled`: what one step of a handler does.
-/

namespace CodeWeaknesses.Leaderboard

open Lib Lib.Prog

/-! ## The parties -/

/-- A message of a client, or a call of `broadcastLeaderboard`. -/
inductive Handler where
  | message (i : ℕ)
  | broadcast (n : ℕ)
  deriving DecidableEq

/-- What takes steps: the jobs of the submissions queue and the handlers. -/
inductive Party where
  | job (i : ℕ)
  | handler (h : Handler)
  deriving DecidableEq

@[reducible] def Task : Party → Type
  | .job _ => Submissions.M Submissions.JobResult
  | .handler _ => GatewayM Unit

/-- What the model leaves open about a step. -/
structure Choice where
  judge : Submissions.Choice
  gateway : GatewayChoice

/-- A broadcast runs once it has been called. -/
def Handler.called (w : Viewers) : Handler → Bool
  | .message _ => true
  | .broadcast n => n < w.judging.broadcasts.length

/-- One call of a party. -/
def viewersStep : Pool.Stepper Party Task Viewers Choice
  | .job _, c, (p, w) =>
    let r := Prog.step Submissions.answer c.judge (p, w.judging)
    (r.1, { w with judging := r.2 })
  | .handler h, c, (p, w) => if h.called w then Prog.step gatewayAnswer c.gateway (p, w) else (p, w)

section Start

variable (localeCompare : String → String → ℤ) (jobs : ℕ → Submissions.JobData) (messages : ℕ → ClientMessage)

def handle : Handler → GatewayM Unit
  | .message i => onMessage localeCompare (messages i)
  | .broadcast n => onBroadcast localeCompare n

/-- The jobs and messages; none has taken a step, and nobody watches yet. -/
def startViewers (judging : Submissions.World) (contests : Table Contest Id Contest.id) :
    Pool Party Task Viewers where
  tasks
    | .job i => Submissions.runJob (jobs i)
    | .handler h => handle localeCompare messages h
  state := { judging := { judging with broadcasts := [] }, contests := contests, members := [], sent := [] }

end Start

/-! ## The condition -/

/-- Every submission of the contest has a final status. -/
def AllFinal (submissions : Table Submission Id Submission.id) (contestId : Id) : Prop :=
  ∀ s ∈ submissions.rows, s.contestId = contestId → Sse.isFinalStatus s.status = true

/-- The standings are those of the current submissions. -/
def Current (localeCompare : String → String → ℤ) (w : Viewers) (standings : LeaderboardPayload) : Prop :=
  ∃ contest rows now, w.contest? standings.contestId = some contest ∧
    StandingsRows w.log standings.contestId rows ∧
      computeStandings localeCompare standings.contestId (some contest) rows now = .ok standings

/-- The contest that the job broadcasts before it waits again. -/
def announces : Submissions.M Submissions.JobResult → Option Id
  | .call (.push ..) k => announces (k (.ok ()))
  | .call (.complete _) k => announces (k (.ok ()))
  | .call (.broadcastLeaderboard contestId) _ => some contestId
  | _ => none

/-- The broadcast is of the contest and has not read the submissions yet. -/
def Unread (w : Viewers) (contestId : Id) : GatewayM Unit → Prop
  | .call (.called n) _ => w.judging.broadcasts[n]? = some contestId
  | .call (.fetchSockets id) _ => id = contestId
  | .call (.findContest id) _ => id = contestId
  | .call (.findSubmissions id) _ => id = contestId
  | _ => False

/-- A broadcast of the contest is to read the submissions. -/
def Awaited (pool : Pool Party Task Viewers) (contestId : Id) : Prop :=
  (∃ i, announces (pool.tasks (.job i)) = some contestId) ∨
    ∃ n, Unread pool.state contestId (pool.tasks (.handler (.broadcast n)))

/-- The save writes a submission of the contest. -/
def Touches (w : Viewers) (s : Submission) (contestId : Id) : Prop :=
  s.contestId = contestId ∨
    ∃ stored, w.judging.submissions.find? s.id = some stored ∧ stored.contestId = contestId

/-- A save that makes the last submission of a contest final is followed by a broadcast, by
    the job itself or by one that has not read yet, unless nobody watches. -/
def SaveAnnounced (c : Submissions.Choice) (pool : Pool Party Task Viewers) :
    Submissions.M Submissions.JobResult → Prop
  | .call (.saveSubmission s) k => c.fails = none → ∀ contestId, Touches pool.state s contestId →
      AllFinal (pool.state.judging.submissions.upsert s) contestId →
        announces (k (.ok ())) = some contestId ∨ pool.state.room contestId = [] ∨ Awaited pool contestId
  | _ => True

/-- The calls that lead to the standings return. -/
def ReadReturns (c : GatewayChoice) (w : Viewers) : GatewayM Unit → Prop
  | .call (.fetchSockets _) _ => c.fails = none
  | .call (.findContest id) _ => c.fails = none ∧ (w.contest? id).isSome
  | .call (.findSubmissions _) _ => c.fails = none
  | _ => True

/-- Standings that are sent are current, or a broadcast that has not read yet will follow, or
    a submission is still to be judged. -/
def SendTimely (localeCompare : String → String → ℤ) (pool : Pool Party Task Viewers) : GatewayM Unit → Prop
  | .call (.emit _ (.update standings)) _ => AllFinal pool.state.judging.submissions standings.contestId →
      Current localeCompare pool.state standings ∨ Awaited pool standings.contestId
  | .call (.emitRoom _ (.update standings)) _ => AllFinal pool.state.judging.submissions standings.contestId →
      Current localeCompare pool.state standings ∨ Awaited pool standings.contestId
  | _ => True

/-- The condition on a step. -/
def Timely (localeCompare : String → String → ℤ) (x : Party × Choice) (pool : Pool Party Task Viewers) : Prop :=
  (∀ i, x.1 = .job i → SaveAnnounced x.2.judge pool (pool.tasks (.job i))) ∧
    ∀ h, x.1 = .handler h → ReadReturns x.2.gateway pool.state (pool.tasks (.handler h)) ∧
      SendTimely localeCompare pool (pool.tasks (.handler h))

/-! ## At rest -/

/-- The standings that a message brings a client about the contest. -/
def updateFor (client : ClientId) (contestId : Id) : ClientId × Message → Option LeaderboardPayload
  | (k, .update standings) => if client = k ∧ standings.contestId = contestId then some standings else none
  | (_, .error _) => none

/-- The last `leaderboard:update` of the contest that the client received. -/
def lastUpdate (w : Viewers) (client : ClientId) (contestId : Id) : Option LeaderboardPayload :=
  (w.sent.filterMap (updateFor client contestId)).getLast?

/-- No job, join or broadcast is in flight: each has ended, or has not begun. -/
structure AtRest (localeCompare : String → String → ℤ) (jobs : ℕ → Submissions.JobData)
    (messages : ℕ → ClientMessage) (pool : Pool Party Task Viewers) : Prop where
  job : ∀ i, ended (pool.tasks (.job i)) = true ∨ pool.tasks (.job i) = Submissions.runJob (jobs i)
  message : ∀ i, ended (pool.tasks (.handler (.message i))) = true ∨
    pool.tasks (.handler (.message i)) = onMessage localeCompare (messages i)
  broadcast : ∀ n, n < pool.state.judging.broadcasts.length →
    ended (pool.tasks (.handler (.broadcast n))) = true

/-! ## Program points -/

@[reducible] def PointTask : Party → Type
  | .job _ => Submissions.M Submissions.JobResult
  | .handler _ => GatewayPoint

section Points

variable (localeCompare : String → String → ℤ)

def pointsStep : Pool.Stepper Party PointTask Viewers Choice
  | .job _, c, (p, w) =>
    let r := Prog.step Submissions.answer c.judge (p, w.judging)
    (r.1, { w with judging := r.2 })
  | .handler h, c, (p, w) => if h.called w then GatewayPoint.next localeCompare c.gateway (p, w) else (p, w)

def taskOf : (party : Party) → PointTask party → Task party
  | .job _, p => p
  | .handler _, p => p.code localeCompare

/-- Jobs and handlers run as their program points do. -/
theorem simulatesViewers : Pool.Simulates viewersStep (pointsStep localeCompare) (taskOf localeCompare) := by
  rintro (i | h) c p w
  · rfl
  · show (if h.called w then _ else _) = _
    unfold pointsStep
    dsimp only
    split_ifs
    · exact step_code localeCompare c.gateway p w
    · rfl

/-- Where a message starts. -/
def messagePoint : ClientMessage → GatewayPoint
  | .joinContest client contestId =>
    (contestId.filter fun id => id ≠ "").elim (.refusing client) (.joining client)
  | .leaveContest client contestId => (contestId.filter fun id => id ≠ "").elim .ended (.leaving client)

theorem messagePoint_cases (m : ClientMessage) :
    (∃ client, messagePoint m = .refusing client) ∨ (∃ client id, messagePoint m = .joining client id) ∨
      (∃ client id, messagePoint m = .leaving client id) ∨ messagePoint m = .ended := by
  cases m with
  | joinContest client contestId =>
    unfold messagePoint
    dsimp only
    generalize Option.filter _ contestId = id?
    cases id? with
    | none => exact .inl ⟨client, rfl⟩
    | some id => exact .inr (.inl ⟨client, id, rfl⟩)
  | leaveContest client contestId =>
    unfold messagePoint
    dsimp only
    generalize Option.filter _ contestId = id?
    cases id? with
    | none => exact .inr (.inr (.inr rfl))
    | some id => exact .inr (.inr (.inl ⟨client, id, rfl⟩))

def handlerPoint (messages : ℕ → ClientMessage) : Handler → GatewayPoint
  | .message i => messagePoint (messages i)
  | .broadcast n => .calling n

theorem code_handlerPoint (messages : ℕ → ClientMessage) (h : Handler) :
    (handlerPoint messages h).code localeCompare = handle localeCompare messages h := by
  cases h with
  | broadcast n => rfl
  | message i =>
    show (messagePoint (messages i)).code localeCompare = onMessage localeCompare (messages i)
    cases messages i with
    | joinContest client contestId =>
      unfold onMessage messagePoint handleJoinContest
      dsimp only
      generalize Option.filter _ contestId = id?
      cases id? <;> rfl
    | leaveContest client contestId =>
      unfold onMessage messagePoint handleLeaveContest
      dsimp only
      generalize Option.filter _ contestId = id?
      cases id? <;> rfl

def startPoints (jobs : ℕ → Submissions.JobData) (messages : ℕ → ClientMessage) (judging : Submissions.World)
    (contests : Table Contest Id Contest.id) : Pool Party PointTask Viewers where
  tasks
    | .job i => Submissions.runJob (jobs i)
    | .handler h => handlerPoint messages h
  state := { judging := { judging with broadcasts := [] }, contests := contests, members := [], sent := [] }

theorem map_startPoints (jobs : ℕ → Submissions.JobData) (messages : ℕ → ClientMessage)
    (judging : Submissions.World) (contests : Table Contest Id Contest.id) :
    Pool.map (taskOf localeCompare) (startPoints jobs messages judging contests) =
      startViewers localeCompare jobs messages judging contests := by
  apply Pool.ext
  · funext party
    cases party with
    | job i => rfl
    | handler h => exact code_handlerPoint localeCompare messages h
  · rfl

end Points

/-! ## What a viewer has and what is on its way -/

/-- The client was last sent the standings of the current submissions. -/
def Has (localeCompare : String → String → ℤ) (w : Viewers) (client : ClientId) (contestId : Id) : Prop :=
  ∃ standings, lastUpdate w client contestId = some standings ∧ Current localeCompare w standings

def Dest.Reaches (client : ClientId) (contestId : Id) : Dest → Prop
  | .joiner k id => client = k ∧ id = contestId
  | .room id => id = contestId

/-- The handler brings the client the standings of the current submissions. -/
def Brings (localeCompare : String → String → ℤ) (w : Viewers) (client : ClientId) (contestId : Id) :
    GatewayPoint → Prop
  | .finding d => d = .joiner client contestId
  | .querying d _ => d = .joiner client contestId
  | .dating d _ rows => d.Reaches client contestId ∧ StandingsRows w.log contestId rows
  | .emitting d standings => d.Reaches client contestId ∧ Current localeCompare w standings
  | _ => False

/-- `Unread`, by points. -/
def UnreadAt (w : Viewers) (contestId : Id) : GatewayPoint → Prop
  | .calling n => w.judging.broadcasts[n]? = some contestId
  | .fetching id => id = contestId
  | .finding d => d.contestId = contestId
  | .querying d _ => d.contestId = contestId
  | _ => False

/-- The contest of a point is the stored one, its standings are of that contest. -/
def Sound (w : Viewers) : GatewayPoint → Prop
  | .querying d contest => w.contest? d.contestId = some contest
  | .dating d contest _ => w.contest? d.contestId = some contest
  | .emitting d standings => standings.contestId = d.contestId
  | _ => True

/-- The points of a broadcast. -/
def ForRoom : GatewayPoint → Prop
  | .finding d => ∃ contestId, d = .room contestId
  | .querying d _ => ∃ contestId, d = .room contestId
  | .dating d _ _ => ∃ contestId, d = .room contestId
  | .emitting d _ => ∃ contestId, d = .room contestId
  | .joining .. => False
  | _ => True

section Gateway

variable {localeCompare : String → String → ℤ} {c : GatewayChoice} {w w' : Viewers} {p : GatewayPoint}
  {client : ClientId} {contestId : Id}

theorem unread_code (p : GatewayPoint) : Unread w contestId (p.code localeCompare) ↔ UnreadAt w contestId p := by
  cases p with
  | emitting d standings => cases d <;> exact Iff.rfl
  | _ => exact Iff.rfl

theorem Current.congr {standings : LeaderboardPayload} (h : Current localeCompare w standings)
    (hcontest : w'.contest? standings.contestId = w.contest? standings.contestId)
    (hrows : ∀ rows, StandingsRows w.log standings.contestId rows → StandingsRows w'.log standings.contestId rows) :
    Current localeCompare w' standings := by
  obtain ⟨contest, rows, now, hfind, hspec, hstandings⟩ := h
  exact ⟨contest, rows, now, hcontest.trans hfind, hrows rows hspec, hstandings⟩

/-- A call throws, or does what it does. -/
theorem gatewayAnswer_cases (o : GatewayOp) :
    (∃ message, c.fails = some message ∧ o.mayThrow = true ∧
        gatewayAnswer o c w = (.error (.error message), w)) ∨
      gatewayAnswer o c w = (.ok (gatewayOk c w o).1, (gatewayOk c w o).2) := by
  unfold gatewayAnswer
  cases c.fails with
  | none => exact .inr rfl
  | some message =>
    dsimp only
    split_ifs with h
    · exact .inl ⟨message, rfl, h, rfl⟩
    · exact .inr rfl

theorem gatewayAnswer_of_returns {o : GatewayOp} (h : c.fails = none) :
    gatewayAnswer o c w = (.ok (gatewayOk c w o).1, (gatewayOk c w o).2) := by
  unfold gatewayAnswer
  rw [h]

theorem gatewayAnswer_of_not_mayThrow {o : GatewayOp} (h : o.mayThrow = false) :
    gatewayAnswer o c w = (.ok (gatewayOk c w o).1, (gatewayOk c w o).2) := by
  rcases gatewayAnswer_cases (c := c) (w := w) o with ⟨_, _, hthrow, _⟩ | hok
  · rw [h] at hthrow
    cases hthrow
  · exact hok

/-! ### The last update -/

theorem lastUpdate_append (w : Viewers) (l : List (ClientId × Message)) (client : ClientId) (contestId : Id) :
    lastUpdate { w with sent := w.sent ++ l } client contestId =
      (l.filterMap (updateFor client contestId)).getLast?.or (lastUpdate w client contestId) := by
  unfold lastUpdate
  rw [List.filterMap_append, List.getLast?_append]

theorem lastUpdate_error (w : Viewers) (k : ClientId) (message : String) (client : ClientId) (contestId : Id) :
    lastUpdate { w with sent := w.sent ++ [(k, .error message)] } client contestId =
      lastUpdate w client contestId := by
  rw [lastUpdate_append]
  rfl

/-- A message to one client. -/
theorem lastUpdate_one (w : Viewers) (k : ClientId) (standings : LeaderboardPayload) (client : ClientId)
    (contestId : Id) :
    lastUpdate { w with sent := w.sent ++ [(k, .update standings)] } client contestId =
      if client = k ∧ standings.contestId = contestId then some standings else lastUpdate w client contestId := by
  rw [lastUpdate_append, List.filterMap_cons, List.filterMap_nil, updateFor]
  split_ifs <;> rfl

/-- A message to several clients. -/
theorem lastUpdate_all (w : Viewers) (clients : List ClientId) (standings : LeaderboardPayload)
    (client : ClientId) (contestId : Id) :
    lastUpdate { w with sent := w.sent ++ clients.map fun k => (k, .update standings) } client contestId =
      if client ∈ clients ∧ standings.contestId = contestId then some standings
      else lastUpdate w client contestId := by
  induction clients generalizing w with
  | nil => simp
  | cons k clients ih =>
    have hone := lastUpdate_one w k standings client contestId
    have hrest := ih { w with sent := w.sent ++ [(k, .update standings)] }
    simp only [List.append_assoc, List.singleton_append] at hrest
    rw [List.map_cons, hrest, hone]
    by_cases hid : standings.contestId = contestId <;> by_cases hmem : client ∈ clients <;>
      by_cases hk : client = k <;> simp [hid, hmem, hk]

/-! ### One step of a handler -/

/-- What a step of a handler from `p` to `p'` does. -/
structure Handled (localeCompare : String → String → ℤ) (w : Viewers) (p : GatewayPoint) (w' : Viewers)
    (p' : GatewayPoint) : Prop where
  judging : w'.judging = w.judging
  contests : w'.contests = w.contests
  sound : Sound w' p'
  forRoom : ForRoom p → ForRoom p'
  joined : ∀ client contestId, client ∈ w'.room contestId →
    client ∈ w.room contestId ∨ Brings localeCompare w' client contestId p'
  brings : ∀ client contestId, client ∈ w.room contestId → Brings localeCompare w client contestId p →
    Brings localeCompare w' client contestId p' ∨ Has localeCompare w' client contestId
  unread : ∀ client contestId, client ∈ w.room contestId → ForRoom p → UnreadAt w contestId p →
    UnreadAt w' contestId p' ∨ Brings localeCompare w' client contestId p'
  last : ∀ client contestId, client ∈ w.room contestId →
    lastUpdate w' client contestId = lastUpdate w client contestId ∨
      ∃ d standings, p = .emitting d standings ∧ d.Reaches client contestId ∧
        lastUpdate w' client contestId = some standings

/-- A step that changes nothing but the point. -/
theorem handled_same {p' : GatewayPoint} (hsound : Sound w p') (hroom : ForRoom p → ForRoom p')
    (hbrings : ∀ client contestId, client ∈ w.room contestId → Brings localeCompare w client contestId p →
      Brings localeCompare w client contestId p')
    (hunread : ∀ client contestId, client ∈ w.room contestId → ForRoom p → UnreadAt w contestId p →
      UnreadAt w contestId p' ∨ Brings localeCompare w client contestId p') :
    Handled localeCompare w p w p' where
  judging := rfl
  contests := rfl
  sound := hsound
  forRoom := hroom
  joined _ _ h := .inl h
  brings client contestId hclient h := .inl (hbrings client contestId hclient h)
  unread := hunread
  last _ _ _ := .inl rfl

/-- A step of a handler that brings nothing. -/
theorem handled_idle {p' : GatewayPoint} (hjudging : w'.judging = w.judging) (hcontests : w'.contests = w.contests)
    (hroom : ∀ client contestId, client ∈ w'.room contestId → client ∈ w.room contestId)
    (hlast : ∀ client contestId, lastUpdate w' client contestId = lastUpdate w client contestId)
    (hsound : Sound w' p') (hfor : ForRoom p → ForRoom p')
    (hbrings : ∀ client contestId, ¬ Brings localeCompare w client contestId p)
    (hunread : ∀ contestId, ¬ UnreadAt w contestId p) : Handled localeCompare w p w' p' where
  judging := hjudging
  contests := hcontests
  sound := hsound
  forRoom := hfor
  joined client contestId h := .inl (hroom client contestId h)
  brings client contestId _ h := absurd h (hbrings client contestId)
  unread _ contestId _ _ h := absurd h (hunread contestId)
  last client contestId _ := .inl (hlast client contestId)

theorem judging_gatewayOk (o : GatewayOp) :
    (gatewayOk c w o).2.judging = w.judging ∧ (gatewayOk c w o).2.contests = w.contests := by
  cases o with
  | join client contestId =>
    unfold gatewayOk
    dsimp only
    split_ifs <;> exact ⟨rfl, rfl⟩
  | _ => exact ⟨rfl, rfl⟩

theorem mem_room : client ∈ w.room contestId ↔ (client, contestId) ∈ w.members := by
  simp [Viewers.room]

/-- One step of a handler whose reads return. -/
theorem next_handled (hsound : Sound w p) (hreads : ReadReturns c w (p.code localeCompare)) :
    Handled localeCompare w p (GatewayPoint.next localeCompare c (p, w)).2
      (GatewayPoint.next localeCompare c (p, w)).1 := by
  cases p with
  | refusing client =>
    rw [GatewayPoint.next, gatewayAnswer_of_not_mayThrow rfl]
    exact handled_idle rfl rfl (fun _ _ h => h) (lastUpdate_error w client _) trivial id nofun nofun
  | joining k id =>
    rw [GatewayPoint.next]
    rcases gatewayAnswer_cases (c := c) (w := w) (.join k id) with ⟨message, _, _, h⟩ | h <;> rw [h]
    · exact handled_same trivial (fun h => h.elim) nofun nofun
    · have hmembers : ∀ client contestId, (client, contestId) ∈ (gatewayOk c w (.join k id)).2.members →
          (client, contestId) ∈ w.members ∨ client = k ∧ contestId = id := by
        intro client contestId hmem
        unfold gatewayOk at hmem
        dsimp only at hmem
        split_ifs at hmem with hin
        · exact .inl hmem
        · rcases List.mem_append.mp hmem with hold | hnew
          · exact .inl hold
          · cases List.mem_singleton.mp hnew
            exact .inr ⟨rfl, rfl⟩
      have hlast : ∀ client contestId, lastUpdate (gatewayOk c w (.join k id)).2 client contestId =
          lastUpdate w client contestId := by
        intro client contestId
        unfold gatewayOk
        dsimp only
        split_ifs <;> rfl
      refine ⟨(judging_gatewayOk _).1, (judging_gatewayOk _).2, trivial, fun h => h.elim, ?_, nofun, nofun, ?_⟩
      · intro client contestId hmem
        rw [mem_room] at hmem ⊢
        refine (hmembers client contestId hmem).imp_right ?_
        rintro ⟨rfl, rfl⟩
        rfl
      · exact fun client contestId _ => .inl (hlast client contestId)
  | leaving client contestId =>
    rw [GatewayPoint.next]
    rcases gatewayAnswer_cases (c := c) (w := w) (.leave client contestId) with ⟨message, _, _, h⟩ | h <;> rw [h]
    · exact handled_same trivial id nofun nofun
    · refine handled_idle rfl rfl ?_ (fun _ _ => rfl) trivial id nofun nofun
      intro k id hmem
      rw [mem_room] at hmem ⊢
      exact (List.mem_filter.mp hmem).1
  | calling n =>
    rw [GatewayPoint.next, gatewayAnswer_of_not_mayThrow rfl]
    refine handled_same trivial id nofun fun client contestId _ _ h => .inl ?_
    have hcalled : w.judging.broadcasts[n]? = some contestId := h
    show w.judging.broadcasts.getD n "" = contestId
    rw [List.getD_eq_getElem?_getD, hcalled, Option.getD_some]
  | fetching id =>
    rw [GatewayPoint.next, gatewayAnswer_of_returns hreads]
    show Handled localeCompare w (.fetching id) w (afterFetch id (w.room id))
    unfold afterFetch
    split_ifs with hempty
    · refine handled_same trivial (fun _ => trivial) nofun fun client contestId hclient _ h => ?_
      cases h
      rw [List.length_eq_zero_iff.mp hempty] at hclient
      cases hclient
    · refine handled_same trivial (fun _ => ⟨id, rfl⟩) nofun fun client contestId _ _ h => .inl ?_
      exact h
  | finding d =>
    obtain ⟨hreturns, hfound⟩ := hreads
    obtain ⟨contest, hcontest⟩ := Option.isSome_iff_exists.mp hfound
    rw [GatewayPoint.next, gatewayAnswer_of_returns hreturns]
    show Handled localeCompare w (.finding d) w (afterContest d (w.contest? d.contestId))
    rw [hcontest]
    exact handled_same hcontest id (fun _ _ _ h => h) fun _ _ _ _ h => .inl h
  | querying d contest =>
    have hrows : StandingsRows w.log d.contestId (c.plan.rows w.log d.contestId) := c.plan.spec _ _
    rw [GatewayPoint.next, gatewayAnswer_of_returns hreads]
    show Handled localeCompare w (.querying d contest) w (.dating d contest (c.plan.rows w.log d.contestId))
    refine handled_same hsound id ?_ ?_
    · rintro client contestId _ rfl
      exact ⟨⟨rfl, rfl⟩, hrows⟩
    · rintro client contestId _ ⟨id, rfl⟩ rfl
      exact .inr ⟨rfl, hrows⟩
  | dating d contest submissions =>
    rw [GatewayPoint.next, gatewayAnswer_of_not_mayThrow rfl]
    refine handled_same rfl id ?_ nofun
    rintro client contestId _ ⟨hreaches, hrows⟩
    have hid : d.contestId = contestId := by
      cases d with
      | joiner k id => exact hreaches.2
      | room id => exact hreaches
    subst hid
    exact ⟨hreaches, contest, submissions, c.now, hsound, hrows, rfl⟩
  | emitting d standings =>
    cases d with
    | joiner k id =>
      rw [GatewayPoint.next, gatewayAnswer_of_not_mayThrow rfl]
      refine ⟨rfl, rfl, trivial, fun _ => trivial, fun _ _ h => .inl h, ?_, nofun, ?_⟩
      · rintro client contestId _ ⟨⟨rfl, rfl⟩, hcurrent⟩
        exact .inr ⟨standings, (lastUpdate_one ..).trans (if_pos ⟨rfl, hsound⟩), hcurrent⟩
      · intro client contestId _
        by_cases hto : client = k ∧ standings.contestId = contestId
        · exact .inr ⟨_, _, rfl, ⟨hto.1, hsound.symm.trans hto.2⟩, (lastUpdate_one ..).trans (if_pos hto)⟩
        · exact .inl ((lastUpdate_one ..).trans (if_neg hto))
    | room id =>
      rw [GatewayPoint.next, gatewayAnswer_of_not_mayThrow rfl]
      refine ⟨rfl, rfl, trivial, fun _ => trivial, fun _ _ h => .inl h, ?_, nofun, ?_⟩
      · rintro client contestId hclient ⟨rfl, hcurrent⟩
        exact .inr ⟨standings, (lastUpdate_all ..).trans (if_pos ⟨hclient, hsound⟩), hcurrent⟩
      · intro client contestId _
        by_cases hto : client ∈ w.room id ∧ standings.contestId = contestId
        · exact .inr ⟨_, _, rfl, hsound.symm.trans hto.2, (lastUpdate_all ..).trans (if_pos hto)⟩
        · exact .inl ((lastUpdate_all ..).trans (if_neg hto))
  | reporting client message =>
    rw [GatewayPoint.next, gatewayAnswer_of_not_mayThrow rfl]
    exact handled_idle rfl rfl (fun _ _ h => h) (lastUpdate_error w client _) trivial id nofun nofun
  | ended => exact handled_same trivial id nofun nofun
  | raised e => exact handled_same trivial id nofun nofun

end Gateway

end CodeWeaknesses.Leaderboard
