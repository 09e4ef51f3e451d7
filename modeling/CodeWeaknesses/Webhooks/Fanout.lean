import CodeWeaknesses.Webhooks.Listener

/-!
# One subscriber that fails

The loop of `ContestFinishedListener` makes two calls a subscription, to two stores, and none of
them is guarded: the first call that throws ends the loop.

Results:
* `notifyAll_ownCalls`: how far the loop comes, and what it leaves behind.
* `handleContestFinished_isolated_iff`: **a subscriber that fails costs the others nothing iff its
  row was not saved and nobody after it could have been reached.**
* `first_subscriber_fails`: the first queue call throws, and the second subscriber gets nothing.
-/

namespace CodeWeaknesses.Webhooks

open Lib Lib.Prog

/-! ## The calls of one subscription -/

/-- What the two calls for a subscription come to. -/
inductive Calls where
  | succeed
  | createThrows
  | enqueueThrows
  deriving DecidableEq, Repr

/-- The two calls for one subscription, and the state after them. -/
def callsOf (payload : Json) (subscription : WebhookSubscription) (w : World) (cs : ℕ → Choice) :
    Calls × World :=
  match answer (.saveDelivery subscription.id .pending 0 none none (snapshotPayload payload)) (cs 0) w with
  | (.error _, w₁) => (.createThrows, w₁)
  | (.ok delivery, w₁) =>
    match answer (.addJob (delivery.id, 1) { deliveryId := delivery.id, attempt := 1 } 0) (cs 1) w₁ with
    | (.error _, w₂) => (.enqueueThrows, w₂)
    | (.ok _, w₂) => (.succeed, w₂)

/-- What the calls of each subscription come to when it is given them, whatever became of the calls
    before: the subscription at place `k` has the choices `2 * k` and `2 * k + 1`. -/
def ownCalls (payload : Json) : List WebhookSubscription → World → (ℕ → Choice) →
    List (WebhookSubscription × Calls)
  | [], _, _ => []
  | subscription :: subscriptions, w, cs =>
    let (calls, w₁) := callsOf payload subscription w cs
    (subscription, calls) :: ownCalls payload subscriptions w₁ (skip 2 cs)

theorem map_fst_ownCalls (payload : Json) (subscriptions : List WebhookSubscription) :
    ∀ (w : World) (cs : ℕ → Choice), (ownCalls payload subscriptions w cs).map Prod.fst = subscriptions := by
  induction subscriptions with
  | nil => exact fun _ _ => rfl
  | cons subscription subscriptions ih => exact fun w cs => congrArg (subscription :: ·) (ih _ _)

/-! ## What should hold -/

/-- Some job of the delivery is in the queue. -/
def World.Outstanding (w : World) (deliveryId : Id) : Prop := ∃ j ∈ w.webhookQueue, j.jobId.1 = deliveryId

/-- No delivery is PENDING without an outstanding job. -/
def World.AllTracked (w : World) : Prop :=
  ∀ d ∈ w.deliveries.rows, d.status = .pending → w.Outstanding d.id

/-- A new delivery for the subscription is stored, and its job of attempt 1 is queued. -/
def Notified (s : WebhookSubscription) (w w' : World) : Prop :=
  ∃ d ∈ newDeliveries w w', d.subscription = s.id ∧ firstJob d.id ∈ w'.webhookQueue

/-- A subscriber that fails costs the others nothing: each one whose own calls succeed is notified,
    and no delivery is left PENDING without an outstanding job. -/
structure Isolated (own : List (WebhookSubscription × Calls)) (w w' : World) : Prop where
  notified : ∀ x ∈ own, x.2 = .succeed → Notified x.1 w w'
  tracked : w'.AllTracked

/-- No call throws, or the first that throws is a `createDelivery` and each later subscription has a
    call of its own that throws. -/
def Harmless : List (WebhookSubscription × Calls) → Prop
  | [] => True
  | (_, .succeed) :: own => Harmless own
  | (_, .createThrows) :: own => ∀ x ∈ own, x.2 ≠ .succeed
  | (_, .enqueueThrows) :: _ => False

/-! ## How far the loop comes -/

/-- The loop from its first call that throws on, if there is one. -/
inductive Stops (snapshot : String) : List (WebhookSubscription × Calls) → World → World → Prop where
  | finished {w : World} : Stops snapshot [] w w
  | unstored {s : WebhookSubscription} {own : List (WebhookSubscription × Calls)} {w : World} :
      Stops snapshot ((s, .createThrows) :: own) w w
  | unqueued {s : WebhookSubscription} {own : List (WebhookSubscription × Calls)} {w : World} {id : Id} :
      w.deliveries.find? id = none →
      Stops snapshot ((s, .enqueueThrows) :: own) w
        { w with deliveries := w.deliveries.upsert (pendingDelivery snapshot s id) }

/-- One subscription whose calls succeed: the loop goes on after it. -/
theorem eval_notifyAll_succeed {payload : Json} {s : WebhookSubscription} {ss : List WebhookSubscription}
    {w w₁ : World} {cs : ℕ → Choice} (hw : w.Consistent) (h : callsOf payload s w cs = (.succeed, w₁)) :
    (∃ id, Fanned (snapshotPayload payload) [(s, id)] w w₁) ∧
      eval answer (notifyAll payload (s :: ss)) w cs = eval answer (notifyAll payload ss) w₁ (skip 2 cs) := by
  unfold callsOf at h
  rcases hsave : answer (.saveDelivery s.id .pending 0 none none (snapshotPayload payload)) (cs 0) w
    with ⟨r, w₀⟩
  rw [hsave] at h
  cases r with
  | error e => cases h
  | ok delivery =>
    rcases hadd : answer (.addJob (delivery.id, 1) { deliveryId := delivery.id, attempt := 1 } 0) (cs 1) w₀
      with ⟨r, w₂⟩
    simp only [hadd] at h
    cases r with
    | error e => cases h
    | ok u =>
      cases h
      constructor
      · obtain ⟨rfl, hfree, rfl⟩ := answer_saveDelivery hsave
        rw [answer_addJob hadd]
        exact ⟨_, Fanned.round _ s hw hfree⟩
      · show eval answer (await _ >>= fun delivery => _) w cs = _
        rw [eval_await_bind_ok hsave]
        exact eval_await_bind_ok hadd

/-- One subscription with a call that throws: the loop ends there. -/
theorem eval_notifyAll_throws {payload : Json} {s : WebhookSubscription} {ss : List WebhookSubscription}
    {w w₁ : World} {cs : ℕ → Choice} {calls : Calls} {own : List (WebhookSubscription × Calls)}
    (h : callsOf payload s w cs = (calls, w₁)) (hcalls : calls ≠ .succeed) :
    Stops (snapshotPayload payload) ((s, calls) :: own) w
      (eval answer (notifyAll payload (s :: ss)) w cs).2 := by
  unfold callsOf at h
  rcases hsave : answer (.saveDelivery s.id .pending 0 none none (snapshotPayload payload)) (cs 0) w
    with ⟨r, w₀⟩
  rw [hsave] at h
  show Stops _ _ _ (eval answer (await _ >>= fun delivery => _) w cs).2
  cases r with
  | error e =>
    cases h
    rw [eval_await_bind_error hsave, eq_of_answer_error hsave]
    exact .unstored
  | ok delivery =>
    rw [eval_await_bind_ok hsave]
    rcases hadd : answer (.addJob (delivery.id, 1) { deliveryId := delivery.id, attempt := 1 } 0) (cs 1) w₀
      with ⟨r, w₂⟩
    simp only [hadd] at h
    cases r with
    | ok u =>
      cases h
      exact absurd rfl hcalls
    | error e =>
      cases h
      show Stops _ _ _ (eval answer (await _ >>= fun _ => _) _ _).2
      rw [eval_await_bind_error hadd, eq_of_answer_error hadd]
      obtain ⟨rfl, hfree, rfl⟩ := answer_saveDelivery hsave
      exact .unqueued hfree

/-- The loop notifies the subscriptions up to the first call that throws, and nobody after it. -/
theorem notifyAll_ownCalls (payload : Json) (subscriptions : List WebhookSubscription) :
    ∀ {w : World} (cs : ℕ → Choice), w.Consistent →
      ∃ fan own w₁, ownCalls payload subscriptions w cs = fan.map (fun x => (x.1, .succeed)) ++ own ∧
        Fanned (snapshotPayload payload) fan w w₁ ∧
        Stops (snapshotPayload payload) own w₁ (eval answer (notifyAll payload subscriptions) w cs).2 := by
  induction subscriptions with
  | nil =>
    intro w cs _
    exact ⟨[], [], w, rfl, ⟨by simp, by simp, rfl⟩, .finished⟩
  | cons s ss ih =>
    intro w cs hw
    rcases hcalls : callsOf payload s w cs with ⟨calls, w₁⟩
    have hown : ownCalls payload (s :: ss) w cs = (s, calls) :: ownCalls payload ss w₁ (skip 2 cs) := by
      rw [ownCalls, hcalls]
    rw [hown]
    by_cases hsucceed : calls = .succeed
    · subst hsucceed
      obtain ⟨⟨id, hfirst⟩, heval⟩ := @eval_notifyAll_succeed payload s ss w w₁ cs hw hcalls
      obtain ⟨fan, own, w₂, hrest, hfan, hstops⟩ := ih (skip 2 cs) (hfirst.consistent hw)
      refine ⟨(s, id) :: fan, own, w₂, by rw [hrest]; rfl, hfirst.cons hfan, ?_⟩
      rwa [heval]
    · exact ⟨[], _, w, rfl, ⟨by simp, by simp, rfl⟩, eval_notifyAll_throws hcalls hsucceed⟩

/-! ## What the loop leaves behind -/

theorem harmless_append (fan : List (WebhookSubscription × Id)) (own : List (WebhookSubscription × Calls)) :
    Harmless (fan.map (fun x => (x.1, .succeed)) ++ own) ↔ Harmless own := by
  induction fan with
  | nil => exact Iff.rfl
  | cons x fan ih => exact ih

section Left

variable {snapshot : String} {fan : List (WebhookSubscription × Id)} {w w₁ w' : World}

/-- The subscriptions that the loop came past are notified. -/
theorem Fanned.notified (h : Fanned snapshot fan w w₁) {x : WebhookSubscription × Id} (hx : x ∈ fan) :
    Notified x.1 w w₁ := by
  refine ⟨pendingDelivery snapshot x.1 x.2, ?_, rfl, ?_⟩
  · rw [h.newDeliveries_eq]
    exact List.mem_map_of_mem hx
  · rw [h.queue]
    exact List.mem_append_right _ (List.mem_map_of_mem hx)

/-- The others are not. -/
theorem Fanned.of_notified (h : Fanned snapshot fan w w₁) {s : WebhookSubscription} (hs : Notified s w w₁) :
    s.id ∈ (fan.map Prod.fst).map WebhookSubscription.id := by
  obtain ⟨d, hd, hsub, _⟩ := hs
  rw [h.newDeliveries_eq] at hd
  obtain ⟨x, hx, rfl⟩ := List.mem_map.mp hd
  rw [← hsub]
  exact List.mem_map_of_mem (List.mem_map_of_mem hx)

/-- Each delivery that the loop saved has its first job. -/
theorem Fanned.allTracked (h : Fanned snapshot fan w w₁) (hw : w.AllTracked) : w₁.AllTracked := by
  intro d hd hpending
  rw [h.deliveries] at hd
  rw [World.Outstanding, h.queue]
  rcases List.mem_append.mp hd with hd | hd
  · obtain ⟨j, hj, hid⟩ := hw d hd hpending
    exact ⟨j, List.mem_append_left _ hj, hid⟩
  · obtain ⟨x, hx, rfl⟩ := List.mem_map.mp hd
    exact ⟨firstJob x.2, List.mem_append_right _ (List.mem_map_of_mem hx), rfl⟩

/-- A delivery saved last, without a job. -/
theorem not_allTracked_upsert {s : WebhookSubscription} {id : Id} (hw : w₁.Consistent)
    (hfree : w₁.deliveries.find? id = none) :
    ¬ World.AllTracked { w₁ with deliveries := w₁.deliveries.upsert (pendingDelivery snapshot s id) } := by
  intro htracked
  have hstored : pendingDelivery snapshot s id ∈ (w₁.deliveries.upsert (pendingDelivery snapshot s id)).rows := by
    rw [Table.rows_upsert_of_find?_eq_none hfree]
    exact List.mem_append_right _ (List.mem_singleton_self _)
  obtain ⟨j, hj, hid⟩ := htracked _ hstored rfl
  have hjob := hw j hj
  rw [hid, show (pendingDelivery snapshot s id).id = id from rfl, hfree] at hjob
  cases hjob

/-- Where the loop ended decides. -/
theorem isolated_iff {own : List (WebhookSubscription × Calls)} (hw : w.Consistent) (ht : w.AllTracked)
    (hids : ((fan.map Prod.fst ++ own.map Prod.fst).map WebhookSubscription.id).Nodup)
    (hfan : Fanned snapshot fan w w₁) (hstops : Stops snapshot own w₁ w') :
    Isolated (fan.map (fun x => (x.1, .succeed)) ++ own) w w' ↔ Harmless own := by
  have hpast : ∀ x ∈ fan.map (fun x => (x.1, Calls.succeed)), Notified x.1 w w₁ := by
    intro x hx
    obtain ⟨y, hy, rfl⟩ := List.mem_map.mp hx
    exact hfan.notified hy
  cases hstops with
  | finished =>
    refine ⟨fun _ => trivial, fun _ => ⟨?_, hfan.allTracked ht⟩⟩
    intro x hx _
    rw [List.append_nil] at hx
    exact hpast x hx
  | @unstored s own =>
    constructor
    · intro h x hx hsucceed
      -- nobody after `s` was reached
      have hnotified := h.notified x (List.mem_append_right _ (List.mem_cons_of_mem _ hx)) hsucceed
      rw [List.map_append, List.nodup_append] at hids
      exact hids.2.2 _ (hfan.of_notified hnotified) _
        (List.mem_map_of_mem (List.mem_map_of_mem (List.mem_cons_of_mem _ hx))) rfl
    · refine fun h => ⟨?_, hfan.allTracked ht⟩
      intro x hx hsucceed
      rcases List.mem_append.mp hx with hx | hx
      · exact hpast x hx
      · rcases List.mem_cons.mp hx with rfl | hx
        · cases hsucceed
        · exact absurd hsucceed (h x hx)
  | unqueued hfree =>
    exact ⟨fun h => not_allTracked_upsert (hfan.consistent hw) hfree h.tracked, False.elim⟩

end Left

/-! ## Main theorem -/

/-- The three reads before the loop. -/
theorem eval_handleContestFinished {contestId : Id} {contest : Contest} {w : World}
    (hc : w.contest? contestId = some contest) {cs : ℕ → Choice} (hreads : ∀ n < 3, (cs n).fails = none) :
    eval answer (handleContestFinished contestId) w cs =
      eval answer (notifyAll (w.payload contest).toJson (w.activeByContestId contestId)) w (skip 3 cs) := by
  obtain rfl := contest?_id hc
  have hfind : answer (.findContest contest.id) (cs 0) w = (.ok (some contest), w) := by
    rw [answer, hreads 0 (by omega), ← hc]
    rfl
  have hlog : answer (.findSubmissions contest.id) (skip 1 cs 0) w =
      (.ok (sortBy (compareFinished w.nullsFirst) (w.log contest.id)), w) := by
    rw [answer, skip, hreads (0 + 1) (by omega)]
    rfl
  have hsubs : answer (.findSubscriptions contest.id true) (skip 1 (skip 1 cs) 0) w =
      (.ok (w.activeByContestId contest.id), w) := by
    rw [skip_skip, answer, skip, hreads (0 + (1 + 1)) (by omega)]
    rfl
  refine (eval_await_bind_ok hfind).trans ?_
  refine (eval_await_bind_ok hlog).trans ?_
  refine (eval_await_bind_ok hsubs).trans ?_
  rw [skip_skip, skip_skip]
  rfl

/-- **Main**: when every PENDING delivery has its job before, the contest exists and the reads do
    not throw, then, for all choices of `createDelivery` and `enqueueWebhookDelivery` calls that
    throw, a subscriber that fails costs the others nothing iff the choice is harmless. -/
theorem handleContestFinished_isolated_iff {contestId : Id} {contest : Contest} {w : World}
    (hw : w.Consistent) (ht : w.AllTracked) (hc : w.contest? contestId = some contest) (cs : ℕ → Choice)
    (hreads : ∀ n < 3, (cs n).fails = none) :
    Isolated (ownCalls (w.payload contest).toJson (w.activeByContestId contestId) w (skip 3 cs)) w
        (eval answer (handleContestFinished contestId) w cs).2 ↔
      Harmless (ownCalls (w.payload contest).toJson (w.activeByContestId contestId) w (skip 3 cs)) := by
  rw [eval_handleContestFinished hc hreads]
  obtain ⟨fan, own, w₁, hown, hfan, hstops⟩ :=
    notifyAll_ownCalls (w.payload contest).toJson (w.activeByContestId contestId) (skip 3 cs) hw
  have hids : ((fan.map Prod.fst ++ own.map Prod.fst).map WebhookSubscription.id).Nodup := by
    have hfst := map_fst_ownCalls (w.payload contest).toJson (w.activeByContestId contestId) w (skip 3 cs)
    rw [hown, List.map_append, List.map_map] at hfst
    rw [show fan.map Prod.fst = fan.map (Prod.fst ∘ fun x => (x.1, Calls.succeed)) from rfl, hfst]
    exact (List.filter_sublist.map _).nodup w.subscriptions.nodup
  rw [hown, harmless_append]
  exact isolated_iff hw ht hids hfan hstops

/-- The contest and two subscriptions to it. -/
def registeredTwice : World :=
  let dto : CreateWebhookSubscriptionDto :=
    { targetUrl := "https://example.com/hook", secret := none, contestId := some "c1", active := none }
  (eval answer (create dto) (registered (some "c1"))
    fun _ => { fails := none, uuid := "s2", random := "11ff" }).2

/-- Every call is answered but the `k`-th. -/
def callDown (k n : ℕ) : Choice :=
  { fails := if n = k then some "Connection is closed." else none, uuid := if n < 5 then "d1" else "d2",
    random := "" }

/-- The `createDelivery` for the last subscription throws: the first one is notified. -/
theorem handleContestFinished_isolated_last :
    Isolated (ownCalls (registeredTwice.payload summer).toJson (registeredTwice.activeByContestId "c1")
        registeredTwice (skip 3 (callDown 5))) registeredTwice
      (eval answer (handleContestFinished "c1") registeredTwice (callDown 5)).2 :=
  (handleContestFinished_isolated_iff (w := registeredTwice)
    (show registeredTwice.Consistent by intro j hj; cases hj)
    (show registeredTwice.AllTracked by intro d hd; cases hd)
    (show registeredTwice.contest? "c1" = some summer from rfl) (callDown 5) (by decide)).mpr
    (fun x hx => by cases hx)

/-- The first queue call throws: the first delivery is PENDING without a job, and the second
    subscriber, whose calls would have succeeded, gets nothing. -/
theorem first_subscriber_fails :
    (ownCalls (registeredTwice.payload summer).toJson (registeredTwice.activeByContestId "c1")
        registeredTwice (skip 3 (callDown 4))).map (fun x => (x.1.id, x.2)) =
        [("s1", .enqueueThrows), ("s2", .succeed)] ∧
      (eval answer (handleContestFinished "c1") registeredTwice (callDown 4)).2.deliveries.rows.map
        (fun d => (d.id, d.subscription, d.status)) = [("d1", "s1", .pending)] ∧
      (eval answer (handleContestFinished "c1") registeredTwice (callDown 4)).2.webhookQueue = [] ∧
      ¬ Isolated (ownCalls (registeredTwice.payload summer).toJson (registeredTwice.activeByContestId "c1")
          registeredTwice (skip 3 (callDown 4))) registeredTwice
        (eval answer (handleContestFinished "c1") registeredTwice (callDown 4)).2 := by
  refine ⟨by decide +kernel, by decide +kernel, by decide +kernel, fun h => ?_⟩
  obtain ⟨d, hd, hpending⟩ : ∃ d ∈ (eval answer (handleContestFinished "c1") registeredTwice
      (callDown 4)).2.deliveries.rows, d.status = .pending := by decide +kernel
  have hempty : (eval answer (handleContestFinished "c1") registeredTwice (callDown 4)).2.webhookQueue = [] := by
    decide +kernel
  obtain ⟨j, hj, _⟩ := h.tracked d hd hpending
  rw [hempty] at hj
  cases hj

end CodeWeaknesses.Webhooks
