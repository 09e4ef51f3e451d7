import CodeWeaknesses.Leaderboard.Viewers
import CodeWeaknesses.Submissions.Attempts

/-!
# What the viewers of a contest end up with

Results:
* `step_job`: what one call of a job does to the submissions and the broadcasts.
* `Attended.step`: while all submissions of a contest are final, every viewer has its
  standings or is about to get them.
* `viewers_current`: **in a run whose reads return, whose standings are sent while they are
  current or a later reading is to come, and whose last saves are followed by a reading, at
  rest every viewer has the standings of the current submissions.**
* `viewers_stale`: a submission that ends on the error path.
-/

namespace CodeWeaknesses.Leaderboard

open Lib Lib.Prog

/-! ## One step of a job -/

section Job

variable {c : Submissions.Choice} {judging : Submissions.World} {p : Submissions.M Submissions.JobResult}

theorem users_judging (o : Submissions.Op) : (Submissions.answer o c judging).2.users = judging.users := by
  have hok : ∀ w : Submissions.World, (Submissions.answerOk c w o).2.users = w.users := by
    intro w
    cases o with
    | saveTestResult =>
      simp only [Submissions.answerOk]
      split_ifs <;> rfl
    | _ => rfl
  unfold Submissions.answer
  cases c.fails with
  | none => exact hok _
  | some message =>
    dsimp only
    split_ifs
    · rfl
    · exact hok _

/-- Only a broadcast call is recorded as one. -/
theorem broadcasts_judging (o : Submissions.Op) (ho : ∀ contestId, o ≠ .broadcastLeaderboard contestId) :
    (Submissions.answer o c judging).2.broadcasts = judging.broadcasts := by
  have hok : ∀ w : Submissions.World, (Submissions.answerOk c w o).2.broadcasts = w.broadcasts := by
    intro w
    cases o with
    | saveTestResult =>
      simp only [Submissions.answerOk]
      split_ifs <;> rfl
    | broadcastLeaderboard contestId => exact absurd rfl (ho contestId)
    | _ => rfl
  unfold Submissions.answer
  cases c.fails with
  | none => exact hok _
  | some message =>
    dsimp only
    split_ifs
    · rfl
    · exact hok _

/-- What a step of a job from `p` to `p'` does to what viewers read. -/
inductive Judged (c : Submissions.Choice) (judging : Submissions.World) (p : Submissions.M Submissions.JobResult)
    (judging' : Submissions.World) (p' : Submissions.M Submissions.JobResult) : Prop where
  | other (hsubmissions : judging'.submissions = judging.submissions)
      (hbroadcasts : judging'.broadcasts = judging.broadcasts)
      (hannounces : ∀ contestId, announces p = some contestId → announces p' = some contestId)
  | broadcasts (contestId : Id) (hsubmissions : judging'.submissions = judging.submissions)
      (hbroadcasts : judging'.broadcasts = judging.broadcasts ++ [contestId])
      (hannounces : announces p = some contestId)
  | saves (s : Submission) (k : Except Err Unit → Submissions.M Submissions.JobResult)
      (hcall : p = .call (.saveSubmission s) k) (hfails : c.fails = none)
      (hsubmissions : judging'.submissions = judging.submissions.upsert s)
      (hbroadcasts : judging'.broadcasts = judging.broadcasts) (hp' : p' = k (.ok ()))

theorem step_job (c : Submissions.Choice) (judging : Submissions.World)
    (p : Submissions.M Submissions.JobResult) :
    Judged c judging p (Prog.step Submissions.answer c (p, judging)).2
        (Prog.step Submissions.answer c (p, judging)).1 ∧
      (Prog.step Submissions.answer c (p, judging)).2.users = judging.users := by
  cases p with
  | ret a => exact ⟨.other rfl rfl fun _ h => h, rfl⟩
  | raise e => exact ⟨.other rfl rfl fun _ h => h, rfl⟩
  | call o k =>
    refine ⟨?_, users_judging o⟩
    show Judged c judging (.call o k) (Submissions.answer o c judging).2 (k (Submissions.answer o c judging).1)
    cases o with
    | saveSubmission s =>
      cases hfails : c.fails with
      | none =>
        have hanswer : Submissions.answer (.saveSubmission s) c judging =
            (.ok (), { judging.clients c.clients with submissions := judging.submissions.upsert s }) := by
          unfold Submissions.answer
          rw [hfails]
          rfl
        rw [hanswer]
        exact .saves s k rfl hfails rfl rfl rfl
      | some message =>
        have hanswer : Submissions.answer (.saveSubmission s) c judging =
            (.error (.error message), judging.clients c.clients) := by
          unfold Submissions.answer
          rw [hfails]
          rfl
        rw [hanswer]
        exact .other rfl rfl nofun
    | broadcastLeaderboard contestId =>
      rw [Submissions.answer_of_not_mayThrow rfl]
      exact .broadcasts contestId rfl rfl rfl
    | push submissionId event =>
      rw [Submissions.answer_of_not_mayThrow rfl]
      exact .other rfl rfl fun _ h => h
    | complete submissionId =>
      rw [Submissions.answer_of_not_mayThrow rfl]
      exact .other rfl rfl fun _ h => h
    | _ => exact .other (Submissions.submissions_answer rfl c judging) (broadcasts_judging _ nofun) nofun

end Job

/-! ## Runs -/

/-- `Awaited`, by points. -/
def AwaitedAt (pool : Pool Party PointTask Viewers) (contestId : Id) : Prop :=
  (∃ i, announces (pool.tasks (.job i)) = some contestId) ∨
    ∃ n, UnreadAt pool.state contestId (pool.tasks (.handler (.broadcast n)))

/-- While every submission of a contest is final, each of its viewers has the current
    standings or is about to get them. -/
structure Attended (localeCompare : String → String → ℤ) (pool : Pool Party PointTask Viewers) : Prop where
  calling : ∀ n, pool.state.judging.broadcasts.length ≤ n → pool.tasks (.handler (.broadcast n)) = .calling n
  sound : ∀ h, Sound pool.state (pool.tasks (.handler h))
  forRoom : ∀ n, ForRoom (pool.tasks (.handler (.broadcast n)))
  served : ∀ contestId, AllFinal pool.state.judging.submissions contestId → ∀ client ∈ pool.state.room contestId,
    Has localeCompare pool.state client contestId ∨ AwaitedAt pool contestId ∨
      ∃ h, Brings localeCompare pool.state client contestId (pool.tasks (.handler h))

section Runs

variable {localeCompare : String → String → ℤ} {w w' : Viewers} {pool : Pool Party PointTask Viewers}
  {client : ClientId} {contestId : Id}

theorem awaited_map : Awaited (Pool.map (taskOf localeCompare) pool) contestId ↔ AwaitedAt pool contestId :=
  or_congr Iff.rfl (exists_congr fun _ => unread_code _)

/-- The states give the same standings of the contest. -/
structure SameLog (w w' : Viewers) (contestId : Id) : Prop where
  contest : w'.contest? contestId = w.contest? contestId
  log : (w'.log.filter fun s => s.contestId = contestId) = w.log.filter fun s => s.contestId = contestId

theorem SameLog.rows (h : SameLog w w' contestId) {rows : List Submission}
    (hrows : StandingsRows w.log contestId rows) : StandingsRows w'.log contestId rows :=
  ⟨h.log ▸ hrows.perm, hrows.asc⟩

theorem SameLog.current (h : SameLog w w' contestId) {standings : LeaderboardPayload}
    (hid : standings.contestId = contestId) (hcurrent : Current localeCompare w standings) :
    Current localeCompare w' standings := by
  subst hid
  exact hcurrent.congr h.contest fun rows => h.rows

/-- The standings that a client was last sent about a contest are of that contest. -/
theorem contestId_lastUpdate {standings : LeaderboardPayload} (h : lastUpdate w client contestId = some standings) :
    standings.contestId = contestId := by
  have hmem := List.mem_of_getLast? h
  obtain ⟨⟨k, message⟩, _, hupdate⟩ := List.mem_filterMap.mp hmem
  cases message with
  | error text => cases hupdate
  | update standings' =>
    have hif : (if client = k ∧ standings'.contestId = contestId then some standings' else none) =
        some standings := hupdate
    split_ifs at hif with hto
    cases hif
    exact hto.2

theorem SameLog.has (h : SameLog w w' contestId) (hlast : lastUpdate w' client contestId = lastUpdate w client contestId)
    (hhas : Has localeCompare w client contestId) : Has localeCompare w' client contestId := by
  obtain ⟨standings, hstandings, hcurrent⟩ := hhas
  exact ⟨standings, hlast.trans hstandings, h.current (contestId_lastUpdate hstandings) hcurrent⟩

theorem contestId_of_reaches {d : Dest} (h : d.Reaches client contestId) : d.contestId = contestId := by
  cases d with
  | joiner k id => exact h.2
  | room id => exact h

theorem SameLog.brings (h : SameLog w w' contestId) {p : GatewayPoint} (hsound : Sound w p)
    (hbrings : Brings localeCompare w client contestId p) : Brings localeCompare w' client contestId p := by
  cases p with
  | finding d => exact hbrings
  | querying d contest => exact hbrings
  | dating d contest rows => exact ⟨hbrings.1, h.rows hbrings.2⟩
  | emitting d standings =>
    have hid : standings.contestId = d.contestId := hsound
    exact ⟨hbrings.1, h.current (hid.trans (contestId_of_reaches hbrings.1)) hbrings.2⟩
  | _ => exact hbrings.elim

theorem Sound.congr {p : GatewayPoint} (h : Sound w p) (hcontests : w'.contests = w.contests) : Sound w' p := by
  have hcontest : ∀ id, w'.contest? id = w.contest? id := by
    intro id
    unfold Viewers.contest?
    rw [hcontests]
  cases p with
  | querying d contest => exact (hcontest _).trans h
  | dating d contest rows => exact (hcontest _).trans h
  | _ => exact h

theorem UnreadAt.mono {p : GatewayPoint} (h : UnreadAt w contestId p)
    (hbroadcasts : w.judging.broadcasts <+: w'.judging.broadcasts) : UnreadAt w' contestId p := by
  cases p with
  | calling n =>
    obtain ⟨rest, hrest⟩ := hbroadcasts
    obtain ⟨hn, _⟩ := List.getElem?_eq_some_iff.mp h
    show w'.judging.broadcasts[n]? = some contestId
    rw [← hrest, List.getElem?_append_left hn]
    exact h
  | _ => exact h

/-- A step of a handler that has been called. -/
theorem Attended.called (h : Attended localeCompare pool) {handler : Handler}
    {pool' : Pool Party PointTask Viewers} (hcalled : handler.called pool.state = true)
    (hhandled : Handled localeCompare pool.state (pool.tasks (.handler handler)) pool'.state
      (pool'.tasks (.handler handler)))
    (hother : ∀ party, party ≠ .handler handler → pool'.tasks party = pool.tasks party)
    (hsend : SendTimely localeCompare (Pool.map (taskOf localeCompare) pool)
      ((pool.tasks (.handler handler)).code localeCompare)) :
    Attended localeCompare pool' := by
  have hpoint : ∀ h', h' ≠ handler → pool'.tasks (.handler h') = pool.tasks (.handler h') :=
    fun h' hne => hother _ fun heq => hne (by injection heq)
  have hjob : ∀ i, pool'.tasks (.job i) = pool.tasks (.job i) := fun i => hother _ nofun
  have hlog : ∀ contestId, SameLog pool.state pool'.state contestId := by
    intro contestId
    constructor
    · unfold Viewers.contest?
      rw [hhandled.contests]
    · unfold Viewers.log
      rw [hhandled.judging]
  have hbroadcasts : pool.state.judging.broadcasts <+: pool'.state.judging.broadcasts := by
    rw [hhandled.judging]
  constructor
  case calling =>
    intro n hn
    rw [hhandled.judging] at hn
    rw [hpoint _ ?_]
    · exact h.calling n hn
    · rintro rfl
      exact absurd (of_decide_eq_true hcalled) (Nat.not_lt.mpr hn)
  case sound =>
    intro h'
    by_cases hne : h' = handler
    · exact hne ▸ hhandled.sound
    · rw [hpoint h' hne]
      exact (h.sound h').congr hhandled.contests
  case forRoom =>
    intro n
    by_cases hne : .broadcast n = handler
    · subst hne
      exact hhandled.forRoom (h.forRoom n)
    · rw [hpoint _ hne]
      exact h.forRoom n
  case served =>
    intro contestId hfinal client hclient
    rw [hhandled.judging] at hfinal
    rcases hhandled.joined client contestId hclient with hold | hjoined
    case inr => exact .inr (.inr ⟨handler, hjoined⟩)
    -- a broadcast that another party is to make is still to come
    have hawaited : AwaitedAt pool contestId → ¬ UnreadAt pool.state contestId (pool.tasks (.handler handler)) →
        AwaitedAt pool' contestId := by
      rintro (⟨i, hi⟩ | ⟨n, hn⟩) hnot
      · exact .inl ⟨i, (congrArg announces (hjob i)).trans hi⟩
      · have hne : .broadcast n ≠ handler := by
          rintro rfl
          exact hnot hn
        refine .inr ⟨n, ?_⟩
        rw [hpoint _ hne]
        exact hn.mono hbroadcasts
    rcases h.served contestId hfinal client hold with hhas | (⟨i, hi⟩ | ⟨n, hn⟩) | ⟨h', hbrings⟩
    · rcases hhandled.last client contestId hold with hsame | ⟨d, standings, hp, hreaches, hlast⟩
      · exact .inl ((hlog contestId).has hsame hhas)
      · have hsound := h.sound handler
        rw [hp] at hsound hsend
        have hid : standings.contestId = contestId := Eq.trans hsound (contestId_of_reaches hreaches)
        subst hid
        have htimely : Current localeCompare pool.state standings ∨
            Awaited (Pool.map (taskOf localeCompare) pool) standings.contestId := by
          cases d <;> exact hsend hfinal
        rcases htimely with hcurrent | haw
        · exact .inl ⟨standings, hlast, (hlog _).current rfl hcurrent⟩
        · refine .inr (.inl (hawaited (awaited_map.mp haw) ?_))
          rw [hp]
          exact id
    · exact .inr (.inl (.inl ⟨i, (congrArg announces (hjob i)).trans hi⟩))
    · by_cases hne : .broadcast n = handler
      · subst hne
        rcases hhandled.unread client contestId hold (h.forRoom n) hn with hunread | hbrings
        · exact .inr (.inl (.inr ⟨n, hunread⟩))
        · exact .inr (.inr ⟨_, hbrings⟩)
      · refine .inr (.inl (.inr ⟨n, ?_⟩))
        rw [hpoint _ hne]
        exact hn.mono hbroadcasts
    · by_cases hne : h' = handler
      · subst hne
        rcases hhandled.brings client contestId hold hbrings with hbrings' | hhas
        · exact .inr (.inr ⟨_, hbrings'⟩)
        · exact .inl hhas
      · refine .inr (.inr ⟨h', ?_⟩)
        rw [hpoint h' hne]
        exact (hlog contestId).brings (h.sound h') hbrings

/-- A save leaves the standings of the other contests as they are. -/
theorem sameLog_save {s : Submission} (hsubmissions : w'.judging.submissions = w.judging.submissions.upsert s)
    (husers : w'.judging.users = w.judging.users) (hcontests : w'.contests = w.contests)
    (hnot : ¬ Touches w s contestId) : SameLog w w' contestId := by
  have hs : s.contestId ≠ contestId := fun h => hnot (.inl h)
  have hstored : ∀ r ∈ w.judging.submissions.rows, r.id = s.id → r.contestId ≠ contestId :=
    fun r hr hid h => hnot (.inr ⟨r, hid ▸ Table.find?_key hr, h⟩)
  have huser : w'.judging.withUser = w.judging.withUser := by
    funext r
    unfold Submissions.World.withUser
    rw [husers]
  constructor
  · unfold Viewers.contest?
    rw [hcontests]
  · unfold Viewers.log
    rw [huser, hsubmissions, List.filter_map, List.filter_map]
    congr 1
    refine Table.filter_rows_upsert (decide_eq_false hs) fun r hr hid => ?_
    exact decide_eq_false (hstored r hr hid)

theorem allFinal_of_save {submissions : Table Submission Id Submission.id} {s : Submission}
    (hfinal : AllFinal (submissions.upsert s) contestId)
    (hnot : ∀ stored, submissions.find? s.id = some stored → stored.contestId ≠ contestId) :
    AllFinal submissions contestId := by
  intro r hr hid
  refine hfinal r (Table.mem_upsert.mpr (.inr ⟨hr, fun hkey => ?_⟩)) hid
  exact hnot r (hkey ▸ Table.find?_key hr) hid

/-- A step of a job. -/
theorem Attended.job (h : Attended localeCompare pool) {i : ℕ} {c : Submissions.Choice}
    {pool' : Pool Party PointTask Viewers}
    (hjudged : Judged c pool.state.judging (pool.tasks (.job i)) pool'.state.judging (pool'.tasks (.job i)))
    (husers : pool'.state.judging.users = pool.state.judging.users)
    (hcontests : pool'.state.contests = pool.state.contests) (hmembers : pool'.state.members = pool.state.members)
    (hsent : pool'.state.sent = pool.state.sent)
    (hother : ∀ party, party ≠ .job i → pool'.tasks party = pool.tasks party)
    (hsave : SaveAnnounced c (Pool.map (taskOf localeCompare) pool) (pool.tasks (.job i))) :
    Attended localeCompare pool' := by
  have hpoint : ∀ h', pool'.tasks (.handler h') = pool.tasks (.handler h') := fun h' => hother _ nofun
  have hlast : ∀ client contestId,
      lastUpdate pool'.state client contestId = lastUpdate pool.state client contestId := by
    intro client contestId
    unfold lastUpdate
    rw [hsent]
  have hbroadcasts : pool.state.judging.broadcasts <+: pool'.state.judging.broadcasts := by
    cases hjudged with
    | other _ hbroadcasts _ => rw [hbroadcasts]
    | broadcasts id _ hbroadcasts _ => exact ⟨[id], hbroadcasts.symm⟩
    | saves _ _ _ _ _ hbroadcasts _ => rw [hbroadcasts]
  constructor
  case calling =>
    intro n hn
    rw [hpoint]
    exact h.calling n (hbroadcasts.length_le.trans hn)
  case sound =>
    intro h'
    rw [hpoint]
    exact (h.sound h').congr hcontests
  case forRoom =>
    intro n
    rw [hpoint]
    exact h.forRoom n
  case served =>
    intro contestId hfinal client hclient
    have hroom : client ∈ pool.state.room contestId := by rwa [Viewers.room, hmembers] at hclient
    have hne : ∀ j, j ≠ i → pool'.tasks (.job j) = pool.tasks (.job j) :=
      fun j hji => hother _ fun heq => hji (by injection heq)
    have hunread : ∀ n, UnreadAt pool.state contestId (pool.tasks (.handler (.broadcast n))) →
        UnreadAt pool'.state contestId (pool'.tasks (.handler (.broadcast n))) := by
      intro n hn
      rw [hpoint]
      exact hn.mono hbroadcasts
    -- what is on its way stays so if job `i` goes on to its broadcast and the log is the same
    have hkept : SameLog pool.state pool'.state contestId → AllFinal pool.state.judging.submissions contestId →
        (announces (pool.tasks (.job i)) = some contestId → AwaitedAt pool' contestId) →
          Has localeCompare pool'.state client contestId ∨ AwaitedAt pool' contestId ∨
            ∃ h, Brings localeCompare pool'.state client contestId (pool'.tasks (.handler h)) := by
      intro hlog hfinal hi
      rcases h.served contestId hfinal client hroom with hhas | (⟨j, hj⟩ | ⟨n, hn⟩) | ⟨h', hbrings⟩
      · exact .inl (hlog.has (hlast client contestId) hhas)
      · by_cases hji : j = i
        · exact .inr (.inl (hi (hji ▸ hj)))
        · exact .inr (.inl (.inl ⟨j, (congrArg announces (hne j hji)).trans hj⟩))
      · exact .inr (.inl (.inr ⟨n, hunread n hn⟩))
      · refine .inr (.inr ⟨h', ?_⟩)
        rw [hpoint]
        exact hlog.brings (h.sound h') hbrings
    have hsame : pool'.state.judging.submissions = pool.state.judging.submissions →
        SameLog pool.state pool'.state contestId := by
      intro hsubmissions
      constructor
      · unfold Viewers.contest?
        rw [hcontests]
      · unfold Viewers.log Submissions.World.withUser
        rw [hsubmissions, husers]
    cases hjudged with
    | other hsubmissions _ hannounces =>
      rw [hsubmissions] at hfinal
      exact hkept (hsame hsubmissions) hfinal fun hi => .inl ⟨i, hannounces contestId hi⟩
    | broadcasts id hsubmissions hcall hid =>
      rw [hsubmissions] at hfinal
      refine hkept (hsame hsubmissions) hfinal fun hi => .inr ⟨pool.state.judging.broadcasts.length, ?_⟩
      cases hid.symm.trans hi
      rw [hpoint, h.calling _ le_rfl]
      show pool'.state.judging.broadcasts[pool.state.judging.broadcasts.length]? = some contestId
      rw [hcall, List.getElem?_concat_length]
    | saves s k hcall hfails hsubmissions _ hp' =>
      rw [hsubmissions] at hfinal
      rw [hcall] at hsave
      have hnone : announces (pool.tasks (.job i)) = none := by rw [hcall]; rfl
      by_cases htouches : Touches pool.state s contestId
      · rcases hsave hfails contestId htouches hfinal with hnext | hempty | haw
        · exact .inr (.inl (.inl ⟨i, by rw [hp', hnext]⟩))
        · have hnobody : pool.state.room contestId = [] := hempty
          rw [hnobody] at hroom
          cases hroom
        · rcases awaited_map.mp haw with ⟨j, hj⟩ | ⟨n, hn⟩
          · have hji : j ≠ i := by
              rintro rfl
              rw [hnone] at hj
              cases hj
            exact .inr (.inl (.inl ⟨j, (congrArg announces (hne j hji)).trans hj⟩))
          · exact .inr (.inl (.inr ⟨n, hunread n hn⟩))
      · refine hkept (sameLog_save hsubmissions husers hcontests htouches) ?_ fun hi => ?_
        · exact allFinal_of_save hfinal fun stored hstored hid => htouches (.inr ⟨stored, hstored, hid⟩)
        · rw [hnone] at hi
          cases hi

/-- What a timely step keeps. -/
theorem Attended.step (h : Attended localeCompare pool) {x : Party × Choice}
    (hx : Timely localeCompare x (Pool.map (taskOf localeCompare) pool)) :
    Attended localeCompare (Pool.step (pointsStep localeCompare) x pool) := by
  obtain ⟨party, c⟩ := x
  have hother : ∀ party', party' ≠ party →
      (Pool.step (pointsStep localeCompare) (party, c) pool).tasks party' = pool.tasks party' :=
    fun party' hne => Pool.step_tasks_of_ne hne pool
  cases party with
  | job i =>
    obtain ⟨hjudged, husers⟩ := step_job c.judge pool.state.judging (pool.tasks (.job i))
    refine h.job (i := i) ?_ husers rfl rfl rfl hother (hx.1 i rfl)
    have hself : (Pool.step (pointsStep localeCompare) (.job i, c) pool).tasks (.job i) =
        (Prog.step Submissions.answer c.judge (pool.tasks (.job i), pool.state.judging)).1 :=
      Pool.step_tasks_self (.job i, c) pool
    rw [hself]
    exact hjudged
  | handler handler =>
    obtain ⟨hreads, hsend⟩ := hx.2 handler rfl
    have hself : (Pool.step (pointsStep localeCompare) (.handler handler, c) pool).tasks (.handler handler) =
        (pointsStep localeCompare (.handler handler) c (pool.tasks (.handler handler), pool.state)).1 :=
      Pool.step_tasks_self (.handler handler, c) pool
    have hstate : (Pool.step (pointsStep localeCompare) (.handler handler, c) pool).state =
        (pointsStep localeCompare (.handler handler) c (pool.tasks (.handler handler), pool.state)).2 :=
      Pool.step_state (.handler handler, c) pool
    by_cases hcalled : handler.called pool.state = true
    · simp only [pointsStep, if_pos hcalled] at hself hstate
      refine h.called hcalled ?_ hother hsend
      rw [hself, hstate]
      exact next_handled (h.sound handler) hreads
    · simp only [pointsStep, if_neg hcalled] at hself hstate
      have hsame : Pool.step (pointsStep localeCompare) (.handler handler, c) pool = pool := by
        refine Pool.ext (funext fun party => ?_) hstate
        by_cases hparty : party = .handler handler
        · subst hparty
          exact hself
        · exact hother party hparty
      rwa [hsame]

theorem attended_start (jobs : ℕ → Submissions.JobData) (messages : ℕ → ClientMessage)
    (judging : Submissions.World) (contests : Table Contest Id Contest.id) :
    Attended localeCompare (startPoints jobs messages judging contests) where
  calling _ _ := rfl
  sound h := by
    cases h with
    | broadcast n => trivial
    | message i =>
      show Sound _ (messagePoint (messages i))
      rcases messagePoint_cases (messages i) with ⟨_, h⟩ | ⟨_, _, h⟩ | ⟨_, _, h⟩ | h <;> rw [h] <;> trivial
  forRoom _ := trivial
  served _ _ _ hclient := nomatch hclient

/-- A handler that has ended brings nothing and is to read nothing. -/
theorem idle_of_ended {p : GatewayPoint} (h : ended (p.code localeCompare) = true) :
    ¬ UnreadAt w contestId p ∧ ¬ Brings localeCompare w client contestId p := by
  cases p with
  | emitting d standings => cases d <;> cases h
  | ended => exact ⟨id, id⟩
  | raised e => exact ⟨id, id⟩
  | _ => cases h

/-- A message that has not taken a step brings nothing. -/
theorem not_brings_of_start {p : GatewayPoint} {m : ClientMessage}
    (h : p.code localeCompare = (messagePoint m).code localeCompare) :
    ¬ Brings localeCompare w client contestId p := by
  intro hbrings
  rcases messagePoint_cases m with ⟨_, hm⟩ | ⟨_, _, hm⟩ | ⟨_, _, hm⟩ | hm <;> rw [hm] at h <;> cases p with
  | emitting d standings => cases d <;> cases h
  | finding d => cases h
  | querying d contest => cases h
  | dating d contest rows => cases h
  | _ => exact hbrings

/-- At rest nothing is on its way. -/
theorem AtRest.idle {jobs : ℕ → Submissions.JobData} {messages : ℕ → ClientMessage}
    (h : AtRest localeCompare jobs messages (Pool.map (taskOf localeCompare) pool))
    (client : ClientId) (contestId : Id) (hattended : Attended localeCompare pool) :
    ¬ AwaitedAt pool contestId ∧ ∀ h, ¬ Brings localeCompare pool.state client contestId (pool.tasks (.handler h)) := by
  have hbroadcast : ∀ n, ¬ UnreadAt pool.state contestId (pool.tasks (.handler (.broadcast n))) ∧
      ¬ Brings localeCompare pool.state client contestId (pool.tasks (.handler (.broadcast n))) := by
    intro n
    by_cases hn : n < pool.state.judging.broadcasts.length
    · exact idle_of_ended (h.broadcast n hn)
    · rw [hattended.calling n (Nat.not_lt.mp hn)]
      refine ⟨fun hcalled => hn ?_, id⟩
      exact (List.getElem?_eq_some_iff.mp hcalled).1
  constructor
  · rintro (⟨i, hi⟩ | ⟨n, hn⟩)
    · have hnone : announces (pool.tasks (.job i)) = none := by
        rcases h.job i with hended | hstart
        · have htask : ended (pool.tasks (.job i)) = true := hended
          cases hp : pool.tasks (.job i) with
          | call o k =>
            rw [hp] at htask
            cases htask
          | _ => rfl
        · have htask : pool.tasks (.job i) = Submissions.runJob (jobs i) := hstart
          rw [htask]
          rfl
      rw [hnone] at hi
      cases hi
    · exact (hbroadcast n).1 hn
  · rintro (i | n)
    · rcases h.message i with hended | hstart
      · exact (idle_of_ended hended).2
      · exact not_brings_of_start (hstart.trans (code_handlerPoint localeCompare messages (.message i)).symm)
    · exact (hbroadcast n).2

end Runs

/-- **Main**: in a run whose steps are all timely, whenever every submission of a contest is
    final and no job, join or broadcast is in flight, each client in the room of the contest
    was last sent the standings of its current submissions. -/
theorem viewers_current {localeCompare : String → String → ℤ} {jobs : ℕ → Submissions.JobData}
    {messages : ℕ → ClientMessage} {judging : Submissions.World} {contests : Table Contest Id Contest.id}
    {sched : List (Party × Choice)}
    (hg : Pool.Guarded viewersStep (Timely localeCompare) sched
      (startViewers localeCompare jobs messages judging contests)) :
    let pool := Pool.run viewersStep sched (startViewers localeCompare jobs messages judging contests)
    AtRest localeCompare jobs messages pool → ∀ contestId, AllFinal pool.state.judging.submissions contestId →
      ∀ client ∈ pool.state.room contestId, ∃ standings,
        lastUpdate pool.state client contestId = some standings ∧ Current localeCompare pool.state standings := by
  rw [← map_startPoints, Pool.guarded_map (simulatesViewers localeCompare)] at hg
  rw [← map_startPoints, Pool.run_map (simulatesViewers localeCompare)]
  have hattended := Pool.invariant (I := Attended localeCompare) (fun _ _ hx h => h.step hx) hg
    (attended_start jobs messages judging contests)
  intro pool hrest contestId hfinal client hclient
  have hrest : AtRest localeCompare jobs messages (Pool.map (taskOf localeCompare)
      (Pool.run (pointsStep localeCompare) sched (startPoints jobs messages judging contests))) := hrest
  obtain ⟨hawaited, hbrings⟩ := hrest.idle client contestId hattended
  rcases hattended.served contestId hfinal client hclient with hhas | haw | ⟨h, hb⟩
  · exact hhas
  · exact absurd haw hawaited
  · exact absurd hb (hbrings h)

/-! ## A contest with one viewer -/

/-- The query puts a null first and keeps the order of rows with equal times. -/
def byTime : QueryPlan where
  rows log contestId :=
    sortBy (fun a b => a.submittedAt.getD 0 - b.submittedAt.getD 0) (log.filter fun s => s.contestId = contestId)
  spec := by
    intro log contestId
    refine ⟨sortBy_perm _ _, ?_⟩
    have hkey : RefinesKey (fun a b : Submission => a.submittedAt.getD 0 - b.submittedAt.getD 0)
        fun s => s.submittedAt.getD 0 := ⟨fun a b h => Int.sub_neg_of_lt h, fun a b h => Int.sub_pos_of_lt h⟩
    refine (sortBy_pairwise_key hkey _).imp fun {a b} hle s t hs ht => ?_
    simpa only [hs, ht, Option.getD_some] using hle

/-- Every call returns. -/
def smooth : Choice := { judge := Submissions.answered, gateway := { fails := none, now := 3000, plan := byTime } }

def openContests : Table Contest Id Contest.id := Table.empty.upsert
  { id := "c1", title := "Finals", startTime := 0, endTime := 9000, finishedAt := none, deletedAt := none }

/-- The client `k1` joins the room of the contest. -/
def joinOne (_ : ℕ) : ClientMessage := .joinContest "k1" (some "c1")

/-- The submissions of the contest wait for their jobs. -/
def startOne (judging : Submissions.World) : Pool Party Task Viewers :=
  startViewers (fun _ _ => 0) (fun _ => Submissions.jobOne) joinOne judging openContests

/-- The client joins, job 0 judges the submission, and its broadcast runs. -/
def judgedSched : List (Party × Choice) :=
  List.replicate 5 (.handler (.message 0), smooth) ++ List.replicate 13 (.job 0, smooth) ++
    List.replicate 6 (.handler (.broadcast 0), smooth)

theorem timely_of_job {localeCompare : String → String → ℤ} {pool : Pool Party Task Viewers} {i : ℕ} {c : Choice}
    (h : SaveAnnounced c.judge pool (pool.tasks (.job i))) : Timely localeCompare (.job i, c) pool := by
  refine ⟨fun j hj => ?_, nofun⟩
  cases hj
  exact h

theorem timely_of_handler {localeCompare : String → String → ℤ} {pool : Pool Party Task Viewers} {h : Handler}
    {c : Choice} (hreads : ReadReturns c.gateway pool.state (pool.tasks (.handler h)))
    (hsend : SendTimely localeCompare pool (pool.tasks (.handler h))) :
    Timely localeCompare (.handler h, c) pool := by
  refine ⟨nofun, fun h' hh => ?_⟩
  cases hh
  exact ⟨hreads, hsend⟩

/-- A message or a job that takes no step has not begun; nor has one that has ended. -/
theorem atRest_of_ended {judging : Submissions.World} {sched : List (Party × Choice)}
    (hsched : ∀ x ∈ sched, x.1 = .job 0 ∨ x.1 = .handler (.message 0) ∨ x.1 = .handler (.broadcast 0))
    (hjob : ended ((Pool.run viewersStep sched (startOne judging)).tasks (.job 0)) = true)
    (hmessage : ended ((Pool.run viewersStep sched (startOne judging)).tasks (.handler (.message 0))) = true)
    (hbroadcast : ∀ n, n < (Pool.run viewersStep sched (startOne judging)).state.judging.broadcasts.length →
      ended ((Pool.run viewersStep sched (startOne judging)).tasks (.handler (.broadcast n))) = true) :
    AtRest (fun _ _ => 0) (fun _ => Submissions.jobOne) joinOne (Pool.run viewersStep sched (startOne judging)) where
  job := by
    intro i
    by_cases hi : i = 0
    · subst hi
      exact .inl hjob
    · right
      refine (Pool.run_tasks_of_not_mem (fun x hx heq => ?_) _).trans rfl
      rcases hsched x hx with h | h | h <;> rw [h] at heq <;> cases heq
      exact hi rfl
  message := by
    intro i
    by_cases hi : i = 0
    · subst hi
      exact .inl hmessage
    · right
      refine (Pool.run_tasks_of_not_mem (fun x hx heq => ?_) _).trans rfl
      rcases hsched x hx with h | h | h <;> rw [h] at heq <;> cases heq
      exact hi rfl
  broadcast := hbroadcast

theorem not_allFinal_one {submissions : Table Submission Id Submission.id} {contestId : Id} {s : Submission}
    (hmem : s ∈ submissions.rows) (hcontest : s.contestId = contestId)
    (hopen : Sse.isFinalStatus s.status = false) : ¬ AllFinal submissions contestId := by
  intro hfinal
  rw [hfinal s hmem hcontest] at hopen
  cases hopen


theorem touches_one {w : Viewers} {s : Submission} {contestId : Id} (h : Touches w s contestId)
    (hsaved : s.contestId = "c1")
    (hstored : ∀ stored, w.judging.submissions.find? s.id = some stored → stored.contestId = "c1") :
    contestId = "c1" := by
  rcases h with h | ⟨stored, hfind, h⟩
  · rw [← h, hsaved]
  · rw [← h, hstored stored hfind]

theorem guarded_judgedSched :
    Pool.Guarded viewersStep (Timely fun _ _ => 0) judgedSched (startOne Submissions.pendingOne) := by
  refine ⟨timely_of_handler trivial trivial, timely_of_handler ⟨rfl, rfl⟩ trivial, timely_of_handler rfl trivial,
    timely_of_handler trivial trivial, timely_of_handler trivial ?joined,
    timely_of_job trivial, timely_of_job trivial, timely_of_job trivial, timely_of_job ?running,
    timely_of_job trivial, timely_of_job trivial, timely_of_job trivial, timely_of_job trivial,
    timely_of_job trivial, timely_of_job ?saved, timely_of_job trivial, timely_of_job trivial,
    timely_of_job trivial,
    timely_of_handler trivial trivial, timely_of_handler rfl trivial, timely_of_handler ⟨rfl, rfl⟩ trivial,
    timely_of_handler rfl trivial, timely_of_handler trivial trivial, timely_of_handler trivial ?sent, trivial⟩
  case joined => exact fun hfinal => absurd hfinal (not_allFinal_one (.head _) rfl rfl)
  case running =>
    intro _ contestId htouches hfinal
    obtain rfl := touches_one htouches rfl fun stored h => by cases h; rfl
    exact absurd hfinal (not_allFinal_one (.head _) rfl rfl)
  case saved =>
    intro _ contestId htouches _
    obtain rfl := touches_one htouches rfl fun stored h => by cases h; rfl
    exact .inl rfl
  case sent => exact fun _ => .inl ⟨_, _, 3000, rfl, byTime.spec _ _, rfl⟩

theorem viewers_current_judged :
    let pool := Pool.run viewersStep judgedSched (startOne Submissions.pendingOne)
    "k1" ∈ pool.state.room "c1" ∧ ∃ standings, lastUpdate pool.state "k1" "c1" = some standings ∧
      Current (fun _ _ => 0) pool.state standings := by
  have hrest := @atRest_of_ended Submissions.pendingOne judgedSched (by decide) rfl rfl fun n hn => by
    obtain rfl := Nat.lt_one_iff.mp hn
    rfl
  have hfinal : AllFinal (Pool.run viewersStep judgedSched
      (startOne Submissions.pendingOne)).state.judging.submissions "c1" := by
    intro s hs _
    obtain rfl := List.mem_singleton.mp hs
    rfl
  exact ⟨.head _, viewers_current guarded_judgedSched hrest "c1" hfinal "k1" (.head _)⟩

/-- A problem without test cases: every attempt of the job ends on the error path. -/
def staleSched : List (Party × Choice) :=
  List.replicate 5 (.handler (.message 0), smooth) ++ List.replicate 27 (.job 0, smooth)

/-- The client joins while the submission is pending; its job ends on the error path, which
    stores RUNTIME_ERROR and broadcasts nothing. -/
theorem viewers_stale :
    let pool := Pool.run viewersStep staleSched (startOne { Submissions.pendingOne with testCases := .empty })
    AtRest (fun _ _ => 0) (fun _ => Submissions.jobOne) joinOne pool ∧
      AllFinal pool.state.judging.submissions "c1" ∧ "k1" ∈ pool.state.room "c1" ∧
        ¬ ∃ standings, lastUpdate pool.state "k1" "c1" = some standings ∧
          Current (fun _ _ => 0) pool.state standings := by
  refine ⟨?_, ?_, .head _, ?_⟩
  · exact atRest_of_ended (by decide) rfl rfl nofun
  · intro s hs _
    obtain rfl := List.mem_singleton.mp hs
    rfl
  · rintro ⟨standings, hlast, contest, rows, now, hcontest, hrows, hstandings⟩
    cases hlast
    cases hcontest
    cases List.perm_singleton.mp hrows.perm
    cases hstandings
end CodeWeaknesses.Leaderboard
