import CodeWeaknesses.Contest.Announced
import CodeWeaknesses.Webhooks.Settled

/-!
# From the end of a contest to its subscribers

The requests and ticks that finish contests, the handlers of the events that they raise, and the
workers of the webhooks queue. Requests overlap in any way, and any call of theirs may throw. The
handlers and workers take their steps in any order; none of their calls throws.

Results:
* `listener_balance`, `worker_balance`: a listener stores the deliveries that it owes, and a worker
  stores none.
* `deliveredTo_run`: what the handlers of a run have stored is what they owe less.
* `finished_informed`: **when all is done, a contest has been finished iff its event was raised, and
  each event has led to one delivery to each active subscription of its contest, which was answered
  ok or has failed three times.**
-/

open scoped BigOperators

namespace CodeWeaknesses.Webhooks

open Lib Lib.Prog

/-! ## What a listener owes -/

/-- An event of the contest is to be delivered to `s`. -/
def Wants (w : World) (s : WebhookSubscription) (contestId : Id) : Prop :=
  s.contestId = some contestId ∧ s.active = true ∧ (w.contest? contestId).isSome = true

instance (w : World) (s : WebhookSubscription) : DecidablePred (Wants w s) := fun contestId =>
  inferInstanceAs (Decidable (s.contestId = some contestId ∧ s.active = true ∧ (w.contest? contestId).isSome = true))

/-- The deliveries to `s` that a listener is still to store, over the contests and subscriptions of `w`. -/
def ListenerPoint.owes (w : World) (s : WebhookSubscription) : ListenerPoint → ℕ
  | .finding contestId => if Wants w s contestId then 1 else 0
  | .querying contest => if s.contestId = some contest.id ∧ s.active = true then 1 else 0
  | .selecting contest _ => if s.contestId = some contest.id ∧ s.active = true then 1 else 0
  | .creating _ subscriptions => subscriptions.countP fun s' => s'.id = s.id
  | .adding _ _ subscriptions => subscriptions.countP fun s' => s'.id = s.id
  | .ended => 0
  | .raised _ => 0

/-- What a party owes. -/
def owed (w : World) (s : WebhookSubscription) : (party : Party) → PointTask party → ℕ
  | .listener _, p => p.owes w s
  | .worker _, _ => 0

/-- The contests and subscriptions are those of `start`. -/
structure SameScope (start w : World) : Prop where
  contests : w.contests = start.contests
  subscriptions : w.subscriptions = start.subscriptions

section Steps

variable {start w : World} {s : WebhookSubscription}

theorem contest?_of_sameScope (h : SameScope start w) (contestId : Id) :
    w.contest? contestId = start.contest? contestId := by
  rw [World.contest?, World.contest?, h.contests]

theorem sameScope_addJob (h : SameScope start w) (jobId : Id × ℕ) (data : WebhookDeliveryJob) (delay : ℕ) :
    SameScope start (w.addJob jobId data delay) := by
  unfold World.addJob
  split_ifs
  · exact h
  · exact ⟨h.contests, h.subscriptions⟩

theorem deliveredTo_addJob (w : World) (jobId : Id × ℕ) (data : WebhookDeliveryJob) (delay : ℕ) :
    deliveredTo s (w.addJob jobId data delay) = deliveredTo s w := by
  rw [deliveredTo, deliveries_addJob, deliveredTo]

/-- A new delivery. -/
theorem deliveredTo_insert {row : WebhookDelivery} (hfree : w.deliveries.find? row.id = none) :
    deliveredTo s { w with deliveries := w.deliveries.upsert row } =
      deliveredTo s w + if row.subscription = s.id then 1 else 0 := by
  show (w.deliveries.upsert row).rows.countP _ = _
  rw [Table.rows_upsert_of_find?_eq_none hfree, List.countP_append, List.countP_singleton]
  simp only [decide_eq_true_eq]
  rfl

/-- A delivery that is updated keeps its subscription. -/
theorem deliveredTo_update {row row' : WebhookDelivery} (hrow : w.deliveries.find? row.id = some row)
    (hid : row'.id = row.id) (hsubscription : row'.subscription = row.subscription) :
    deliveredTo s { w with deliveries := w.deliveries.upsert row' } = deliveredTo s w := by
  have hmem : row'.id ∈ w.deliveries.rows.map WebhookDelivery.id :=
    Table.find?_isSome_iff.mp (by rw [hid, hrow]; rfl)
  show (Table.upsertRows w.deliveries.rows WebhookDelivery.id row').countP _ = w.deliveries.rows.countP _
  rw [Table.upsertRows, if_pos hmem, List.countP_map]
  refine List.countP_congr fun other hother => ?_
  by_cases hkey : other.id = row'.id
  · have hsame : w.deliveries.find? other.id = some other := Table.find?_key hother
    rw [hkey, hid, hrow] at hsame
    cases hsame
    simp only [Function.comp_apply, if_pos hkey, hsubscription]
  · simp only [Function.comp_apply, if_neg hkey]

/-- A call that returns leads to the point of its answer. -/
theorem goOn_flawless {o : Op} {c : Choice} {f : Res o → ListenerPoint} (hc : Flawless answer o c w) :
    ∃ a w', answer o c w = (.ok a, w') ∧ ListenerPoint.goOn f (answer o c w) = (f a, w') := by
  obtain ⟨a, ha⟩ := hc
  rcases h : answer o c w with ⟨r, w'⟩
  rw [h] at ha
  cases ha
  exact ⟨a, w', rfl, rfl⟩

/-- A step of a listener in which nothing fails. -/
theorem listener_balance (hscope : SameScope start w) (hs : s ∈ start.subscriptions.rows) {p : ListenerPoint}
    {c : Choice} (hc : Admits (Flawless answer) c (p.code, w)) :
    SameScope start (ListenerPoint.next c (p, w)).2 ∧
      deliveredTo s (ListenerPoint.next c (p, w)).2 + (ListenerPoint.next c (p, w)).1.owes start s =
        deliveredTo s w + p.owes start s := by
  cases p with
  | finding contestId =>
    obtain ⟨found, w', hok, hnext⟩ := goOn_flawless (o := .findContest contestId)
      (f := fun contest? => contest?.elim .ended .querying) hc
    cases answerOk_of_answer hok
    rw [ListenerPoint.next, hnext]
    refine ⟨hscope, congrArg (deliveredTo s w + ·) ?_⟩
    have hfound : (w.contests.find? contestId).filter (fun contest => contest.deletedAt = none) =
        start.contest? contestId := contest?_of_sameScope hscope contestId
    rw [hfound]
    unfold ListenerPoint.owes Wants
    cases hcontest : start.contest? contestId with
    | none => simp [hcontest]
    | some contest =>
      obtain rfl := contest?_id hcontest
      simp [hcontest]
  | querying contest =>
    obtain ⟨submissions, w', hok, hnext⟩ := goOn_flawless
      (f := fun submissions => .selecting contest (buildPayload contest submissions).toJson) hc
    cases answerOk_of_answer hok
    rw [ListenerPoint.next, hnext]
    exact ⟨hscope, rfl⟩
  | selecting contest payload =>
    obtain ⟨subscriptions, w', hok, hnext⟩ := goOn_flawless (f := ListenerPoint.creating payload) hc
    cases answerOk_of_answer hok
    rw [ListenerPoint.next, hnext]
    refine ⟨hscope, congrArg (deliveredTo s w + ·) ?_⟩
    rw [← hscope.subscriptions] at hs
    exact countP_activeByContestId w contest.id hs
  | creating payload subscriptions =>
    cases subscriptions with
    | nil => exact ⟨hscope, rfl⟩
    | cons subscription subscriptions =>
      obtain ⟨delivery, w', hsave, hnext⟩ := goOn_flawless
        (f := fun delivery => ListenerPoint.adding payload delivery subscriptions) hc
      obtain ⟨rfl, hfree, rfl⟩ := answer_saveDelivery hsave
      rw [ListenerPoint.next, hnext]
      refine ⟨⟨hscope.contests, hscope.subscriptions⟩, ?_⟩
      dsimp only
      rw [deliveredTo_insert hfree]
      show _ + subscriptions.countP _ = _ + (subscription :: subscriptions).countP _
      rw [List.countP_cons]
      simp only [decide_eq_true_eq]
      omega
  | adding payload delivery subscriptions =>
    rw [next_adding hc]
    exact ⟨sameScope_addJob hscope _ _ _, congrArg (· + _) (deliveredTo_addJob w _ _ _)⟩
  | ended => exact ⟨hscope, rfl⟩
  | raised e => exact ⟨hscope, rfl⟩

/-- A step of a worker. -/
theorem worker_balance {createHmac : String → String → String} {c : RunChoice} {h h' : Hooks}
    {t t' : Option (Job × JobPoint)} (hworked : Worked createHmac c h t t' h') (hscope : SameScope start h.db) :
    SameScope start h'.db ∧ deliveredTo s h'.db = deliveredTo s h.db := by
  cases hworked with
  | updates job hupdate =>
    unfold World.updateDelivery
    dsimp only
    cases hrow : h.db.deliveries.find? _ with
    | none => exact ⟨hscope, rfl⟩
    | some row =>
      obtain ⟨_, hid⟩ := Table.find?_eq_some_iff.mp hrow
      refine ⟨⟨hscope.contests, hscope.subscriptions⟩, ?_⟩
      have hfind : h.db.deliveries.find? row.id = some row := by
        rw [hid]
        exact hrow
      exact deliveredTo_update hfind rfl rfl
  | adds job delivery result => exact ⟨sameScope_addJob hscope _ _ _, deliveredTo_addJob h.db _ _ _⟩
  | completes job => exact ⟨⟨hscope.contests, hscope.subscriptions⟩, rfl⟩
  | _ => exact ⟨hscope, rfl⟩

end Steps

/-! ## Runs -/

section Runs

variable {createHmac : String → String → String} {db : World} {s : WebhookSubscription}

/-- A step in which nothing fails. -/
theorem step_balance (hs : s ∈ db.subscriptions.rows) {x : Party × RunChoice} {pool : Pool Party PointTask Hooks}
    (hx : Faultless x (Pool.map (taskOf createHmac) pool)) (hscope : SameScope db pool.state.db) :
    SameScope db (Pool.step (pointsStep createHmac) x pool).state.db ∧
      deliveredTo s (Pool.step (pointsStep createHmac) x pool).state.db +
          owed db s x.1 ((Pool.step (pointsStep createHmac) x pool).tasks x.1) =
        deliveredTo s pool.state.db + owed db s x.1 (pool.tasks x.1) := by
  obtain ⟨party, c⟩ := x
  rw [Pool.step_tasks_self]
  cases party with
  | listener i => exact listener_balance hscope hs hx
  | worker k =>
    have hworked : Worked createHmac c pool.state _ _ _ := worked_step k c pool
    obtain ⟨hscope', hsame⟩ := worker_balance (s := s) hworked hscope
    exact ⟨hscope', congrArg (· + 0) hsame⟩

/-- The parties that handle `n` events. -/
def listeners (n : ℕ) : Finset Party := (Finset.range n).image .listener

/-- What the handlers of a run have stored is what they owe less. -/
theorem deliveredTo_run (hs : s ∈ db.subscriptions.rows) {events : ℕ → Id} {sched : List (Party × RunChoice)} {n : ℕ}
    (hsched : ∀ x ∈ sched, ∀ i, x.1 = .listener i → i < n)
    (hg : Pool.Guarded (pointsStep createHmac) (fun x pool => Faultless x (Pool.map (taskOf createHmac) pool)) sched
      (startPoints events db)) :
    let final := Pool.run (pointsStep createHmac) sched (startPoints events db)
    deliveredTo s final.state.db + ∑ i ∈ Finset.range n, (final.tasks (.listener i)).owes db s =
      deliveredTo s db + ∑ i ∈ Finset.range n, if Wants db s (events i) then 1 else 0 := by
  intro final
  have hbalance := Pool.run_balance (fun pool => SameScope db pool.state.db) (fun h => deliveredTo s h.db)
    (owed db s) (listeners n) (fun x pool hx hscope => step_balance hs hx hscope) sched hg ⟨rfl, rfl⟩ ?_
  · unfold listeners at hbalance
    rw [Finset.sum_image (by simp), Finset.sum_image (by simp)] at hbalance
    exact hbalance
  · rintro ⟨party, c⟩ hx
    cases party with
    | listener i => exact .inl (Finset.mem_image_of_mem _ (Finset.mem_range.mpr (hsched _ hx i rfl)))
    | worker k => exact .inr fun _ => rfl

/-- What `n` handlers owe that start on events of a list. -/
theorem sum_events (events : List Id) (P : Id → Prop) [DecidablePred P] :
    ∑ i ∈ Finset.range events.length, (if P (events.getD i "") then 1 else 0) = events.countP P := by
  induction events with
  | nil => rfl
  | cons id events ih =>
    rw [List.length_cons, Finset.sum_range_succ', List.countP_cons]
    simp only [List.getD_cons_succ, List.getD_cons_zero, ih, decide_eq_true_eq]

end Runs

/-! ## Main theorem -/

/-- The handlers of the events have ended, and the queue is empty. -/
structure Completed (events : List Id) (handling : List (Party × RunChoice)) (final : Pool Party Task Hooks) :
    Prop where
  only : ∀ x ∈ handling, ∀ i, x.1 = .listener i → i < events.length
  ended : ∀ i < events.length, Prog.ended (final.tasks (.listener i)) = true
  processed : final.state.db.webhookQueue = []

/-- The last POST of the delivery was answered ok, or three were not. -/
def Informed (w : Hooks) (row : WebhookDelivery) : Prop :=
  row.status = .sent ∧ (∃ post, (w.postsOf row.id).getLast? = some post ∧ post.ok = true) ∨
    row.status = .failed ∧ (w.postsOf row.id).length = 3 ∧ ∀ post ∈ w.postsOf row.id, post.ok = false

section Deliveries

variable {createHmac : String → String → String} {db : World} {events : List Id} {handling : List (Party × RunChoice)}

/-- Handlers of the events in the order in which they were raised. -/
abbrev startEvents (events : List Id) (db : World) : Pool Party Task Hooks :=
  startHooks (fun i => events.getD i "") db

/-- A handler that has ended owes nothing. -/
theorem owes_of_ended {p : ListenerPoint} (hp : Prog.ended p.code = true) (s : WebhookSubscription) :
    p.owes db s = 0 := by
  cases p with
  | creating payload subscriptions =>
    cases subscriptions with
    | nil => rfl
    | cons subscription subscriptions => cases hp
  | ended => rfl
  | raised e => rfl
  | _ => cases hp

/-- What the handlers have stored in the end. -/
theorem delivered_of_completed
    (hg : Pool.Guarded (hooksStep createHmac) Faultless handling (startEvents events db))
    (hdone : Completed events handling (Pool.run (hooksStep createHmac) handling (startEvents events db)))
    {s : WebhookSubscription} (hs : s ∈ db.subscriptions.rows) :
    deliveredTo s (Pool.run (hooksStep createHmac) handling (startEvents events db)).state.db =
      deliveredTo s db + events.countP (Wants db s) := by
  rw [startEvents, ← map_startPoints createHmac] at hg hdone ⊢
  rw [Pool.guarded_map (simulatesHooks createHmac)] at hg
  rw [Pool.run_map (simulatesHooks createHmac)] at hdone ⊢
  have hrun := deliveredTo_run hs hdone.only hg
  dsimp only at hrun
  rw [sum_events] at hrun
  have hnone : ∀ i ∈ Finset.range events.length,
      ((Pool.run (pointsStep createHmac) handling (startPoints (fun i => events.getD i "") db)).tasks
        (.listener i)).owes db s = 0 :=
    fun i hi => owes_of_ended (hdone.ended i (Finset.mem_range.mp hi)) s
  rw [Finset.sum_eq_zero hnone] at hrun
  exact hrun

/-- A new delivery was enqueued by its handler. -/
theorem enqueued_of_completed
    (hdone : Completed events handling (Pool.run (hooksStep createHmac) handling (startEvents events db)))
    {row : WebhookDelivery}
    (hrow : row ∈ (Pool.run (hooksStep createHmac) handling (startEvents events db)).state.db.deliveries.rows)
    (hnew : db.deliveries.find? row.id = none) :
    Enqueued db (Pool.run (hooksStep createHmac) handling (startEvents events db)) row.id where
  new := hnew
  stored := by rw [Table.find?_key hrow]; rfl
  enqueued i := by
    by_cases hi : i < events.length
    · intro hadds
      have hended := hdone.ended i hi
      revert hadds hended
      cases (Pool.run (hooksStep createHmac) handling (startEvents events db)).tasks (.listener i) with
      | ret a => exact nofun
      | raise e => exact nofun
      | call o k => exact fun _ => nofun
    · rw [Pool.run_tasks_of_not_mem (fun x hx heq => hi (hdone.only x hx i heq))]
      exact nofun

/-- What has become of a new delivery in the end. -/
theorem informed_of_completed
    (hg : Pool.Guarded (hooksStep createHmac) Faultless handling (startEvents events db))
    (hdone : Completed events handling (Pool.run (hooksStep createHmac) handling (startEvents events db)))
    {row : WebhookDelivery}
    (hrow : row ∈ (Pool.run (hooksStep createHmac) handling (startEvents events db)).state.db.deliveries.rows)
    (hnew : db.deliveries.find? row.id = none) :
    Informed (Pool.run (hooksStep createHmac) handling (startEvents events db)).state row := by
  have henqueued := enqueued_of_completed hdone hrow hnew
  have h := settling_run hg
  have hfinal : Pool.run (hooksStep createHmac) handling (startEvents events db) =
      Pool.map (taskOf createHmac) (Pool.run (pointsStep createHmac) handling
        (startPoints (fun i => events.getD i "") db)) := by
    rw [startEvents, ← map_startPoints createHmac, Pool.run_map (simulatesHooks createHmac)]
  rw [hfinal] at henqueued hdone hrow ⊢
  have hactive := h.active_of_enqueued henqueued
  have hqueue : (Pool.run (pointsStep createHmac) handling
      (startPoints (fun i => events.getD i "") db)).state.db.webhookQueue = [] := hdone.processed
  have hidle : ∀ k job p, (Pool.run (pointsStep createHmac) handling
      (startPoints (fun i => events.getD i "") db)).tasks (.worker k) = some (job, p) →
        job.data.deliveryId ≠ row.id := by
    intro k job p htask hd
    have hqueued := (hactive.holds k job p htask hd).1
    rw [hqueue] at hqueued
    cases hqueued
  obtain ⟨row', hfind, hbetween⟩ := h.between hactive hidle
  cases (Table.find?_key hrow).symm.trans hfind
  have hpending : row.status ≠ .pending := by
    intro hstatus
    have hone := hbetween.pending.mp hstatus
    unfold Hooks.jobsOf at hone
    rw [hqueue] at hone
    cases hone
  cases hstatus : row.status with
  | pending => exact absurd hstatus hpending
  | sent => exact .inl ⟨hstatus, hbetween.sent.mp hstatus⟩
  | failed => exact .inr ⟨hstatus, hbetween.failed.mp hstatus⟩

end Deliveries

/-- **Main**: the requests may overlap in any way and any call of theirs may throw; none of them is
    about to raise an event, the handlers of the events have ended, and the queue is empty. The
    contests that were finished are those with an event, one each if the saves are alone. Each event
    is of a contest that can be found, and has led to one delivery to each active subscription of
    the contest, and to no other. The last POST of a new delivery was answered ok, or three were not. -/
theorem finished_informed (requests : ℕ → Contests.Request) {w : Contests.World} (hw : w.emitted = [])
    (sched : List (ℕ × Contests.Choice)) (createHmac : String → String → String) (db : World)
    (handling : List (Party × RunChoice)) :
    let finished := Pool.run Contests.requestStep sched (Contests.startRequests requests w)
    let events := finished.state.emitted
    let final := Pool.run (hooksStep createHmac) handling (startEvents events db)
    (∀ i, Contests.dueBy (finished.tasks i) = none) →
      Pool.Guarded (hooksStep createHmac) Faultless handling (startEvents events db) →
        Completed events handling final →
      (∀ id, id ∈ events ↔ Contests.Unfinished w id ∧ ¬ Contests.Unfinished finished.state id) ∧
      (∀ id ∈ events, (finished.state.contest? id).isSome = true) ∧
      (Pool.Guarded Contests.requestStep Contests.SavesAlone sched (Contests.startRequests requests w) →
        ∀ id, events.count id ≤ 1) ∧
      (∀ s ∈ db.subscriptions.rows,
        deliveredTo s final.state.db = deliveredTo s db + events.countP (Wants db s)) ∧
      ∀ row ∈ final.state.db.deliveries.rows, db.deliveries.find? row.id = none → Informed final.state row := by
  intro finished events final hdue hg hdone
  have hfinished : finished = Pool.map (fun _ => Contests.code)
      (Pool.run Contests.pointStep sched (Contests.startPoints requests w)) := by
    show Pool.run _ _ _ = _
    rw [← Pool.run_map Contests.simulates, Contests.map_startPoints]
  have htold := Pool.run_keeps (I := Contests.Told w requests) (fun x _ h => h.step x) sched (Contests.told_start hw)
  have hsame := Contests.findsSame_run requests hw sched
  refine ⟨fun id => ⟨fun hid => ?_, fun hid => ?_⟩, fun id hid => ?_, fun halone id => ?_, ?_, ?_⟩
  · simp only [events, hfinished] at hid ⊢
    exact htold.emitted id hid
  · obtain ⟨hbefore, hafter⟩ := hid
    rcases htold.finished id hbefore with hunfinished | hemitted | ⟨i, hi⟩
    · rw [hfinished] at hafter
      exact absurd hunfinished hafter
    · simp only [events, hfinished]
      exact hemitted
    · have hnone := hdue i
      rw [hfinished] at hnone
      cases hi.symm.trans ((Contests.dueBy_code _).symm.trans hnone)
  · simp only [events, hfinished] at hid ⊢
    exact (hsame.same id).trans (hsame.emitted id hid)
  · simp only [events, hfinished]
    exact (Contests.once_run hw halone id).count_le
  · exact fun s hs => delivered_of_completed hg hdone hs
  · exact fun row hrow hnew => informed_of_completed hg hdone hrow hnew

/-- After a manual finish of the contest nobody is about to raise an event. -/
theorem undue_overdue (i : ℕ) : Contests.dueBy ((Pool.run Contests.requestStep (Contests.inOrder [0, 0, 0, 0])
    (Contests.startRequests Contests.manualAndTicks Contests.overdue)).tasks i) = none := by
  by_cases hi : i = 0
  · subst hi
    rfl
  · rw [Pool.run_tasks_of_not_mem]
    · show Contests.dueBy (Contests.program (Contests.manualAndTicks i)) = none
      cases Contests.manualAndTicks i <;> rfl
    · intro x hx heq
      obtain ⟨j, hj, rfl⟩ := List.mem_map.mp hx
      exact hi (heq.symm.trans (by simpa using hj))

theorem faultless_informed :
    Pool.Guarded (hooksStep digest) Faultless retriedSched (startEvents ["c1"] (registered (some "c1"))) := by
  decide +kernel

theorem completed_informed : Completed ["c1"] retriedSched
    (Pool.run (hooksStep digest) retriedSched (startEvents ["c1"] (registered (some "c1")))) where
  only x hx i hi := by
    rcases retried_schedule x hx with h | h
    · rw [h] at hi
      cases hi
      exact Nat.zero_lt_one
    · rw [h] at hi
      cases hi
  ended i hi := by
    obtain rfl : i = 0 := Nat.lt_one_iff.mp hi
    decide +kernel
  processed := List.isEmpty_iff.mp (by decide +kernel)

/-- The first POST to the subscriber of the contest was answered 500, and the second one 204. -/
theorem finished_informed_overdue :
    let final := Pool.run (hooksStep digest) retriedSched (startEvents ["c1"] (registered (some "c1")))
    ∀ row ∈ final.state.db.deliveries.rows, (registered (some "c1")).deliveries.find? row.id = none →
      Informed final.state row := by
  have hevents : (Pool.run Contests.requestStep (Contests.inOrder [0, 0, 0, 0])
    (Contests.startRequests Contests.manualAndTicks Contests.overdue)).state.emitted = (["c1"] : List Id) := rfl
  have hinformed := finished_informed Contests.manualAndTicks (show Contests.overdue.emitted = [] from rfl)
    (Contests.inOrder [0, 0, 0, 0]) digest (registered (some "c1")) retriedSched
  dsimp only at hinformed
  rw [hevents] at hinformed
  obtain ⟨_, _, _, _, hrows⟩ := hinformed undue_overdue faultless_informed completed_informed
  exact hrows

end CodeWeaknesses.Webhooks
