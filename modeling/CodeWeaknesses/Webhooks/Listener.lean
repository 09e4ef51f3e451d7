import CodeWeaknesses.Lib.Pool
import CodeWeaknesses.Webhooks.Service

/-!
# `ContestFinishedListener`: the fan-out

Model of `webhooks/contest-finished.listener.ts`, and what one run of
`handleContestFinished` leaves in the database and in the queue.

Results:
* `notifyAll_spec`: when no call throws, the loop adds one delivery and one job a
  subscription.
* `handleContestFinished_spec`: the same for the handler, on the subscriptions that
  `findActiveByContestId` selects.
* `handleContestFinished_added`: whatever throws, the handler only adds deliveries of
  its payload, at most one a subscription.
* `deliveredTo_handlers`: handlers that overlap add at most one delivery for each event.
* `handleContestFinished_reaches_iff`: **the fan-out reaches exactly the
  subscriptions in scope iff no active subscription is unscoped.**
-/

namespace CodeWeaknesses.Webhooks

open Lib Lib.Prog

/-! ## The payload -/

/-- The `winner` object of the payload (lines 42–48). -/
structure Winner where
  name : String
  score : ℤ
  solveTimeSeconds : Option ℤ
  deriving DecidableEq, Repr

/-- The payload (lines 38–50). -/
structure Payload where
  contestId : Id
  contestTitle : String
  winner : Option Winner
  deriving DecidableEq, Repr

/-- Lines 45–47. -/
def solveTimeSeconds (contest : Contest) (winner : Submission) : Option ℤ :=
  winner.completedAt.map fun completedAt =>
    max 0 (mathRoundDiv (completedAt - contest.startTime) 1000)

/-- Lines 37–50; `submissions` are in the order of the query. -/
def buildPayload (contest : Contest) (submissions : List Submission) : Payload where
  contestId := contest.id
  contestTitle := contest.title
  winner := submissions.head?.map fun winner =>
    { name := (winner.user.map fun u => u.name).getD "unknown"
      score := winner.score
      solveTimeSeconds := solveTimeSeconds contest winner }

def Winner.toJson (winner : Winner) : Json :=
  .obj [("name", .str winner.name), ("score", .num winner.score),
    ("solveTimeSeconds", .ofNum? winner.solveTimeSeconds)]

def Payload.toJson (payload : Payload) : Json :=
  .obj [("contestId", .str payload.contestId), ("contestTitle", .str payload.contestTitle),
    ("winner", (payload.winner.map Winner.toJson).getD .null)]

/-! ## The handler -/

/-- The loop of lines 54–60. -/
def notifyAll (payload : Json) : List WebhookSubscription → M Unit
  | [] => pure ()
  | subscription :: subscriptions => do
    let delivery ← createDelivery subscription payload
    enqueueWebhookDelivery (delivery.id, 1) { deliveryId := delivery.id, attempt := 1 } 0
    notifyAll payload subscriptions

/-- `handleContestFinished` (lines 22–61). -/
def handleContestFinished (contestId : Id) : M Unit := do
  match ← await (.findContest contestId) with
  | none => pure ()
  | some contest =>
    let submissions ← await (.findSubmissions contest.id)
    let payload := buildPayload contest submissions
    let subscriptions ← findActiveByContestId contest.id
    notifyAll payload.toJson subscriptions

/-! ## What the loop adds -/

/-- The row of `createDelivery` under the generated id `id`. -/
def pendingDelivery (snapshot : String) (subscription : WebhookSubscription) (id : Id) : WebhookDelivery :=
  { id := id, subscription := subscription.id, status := .pending, attempts := 0, lastAttemptAt := none,
    responseCode := none, payload := snapshot }

/-- The job of attempt 1 for the delivery `id`. -/
def firstJob (id : Id) : Job :=
  { jobId := (id, 1), data := { deliveryId := id, attempt := 1 }, delay := 0 }

/-- Every queued job belongs to a stored delivery. -/
def World.Consistent (w : World) : Prop :=
  ∀ j ∈ w.webhookQueue, (w.deliveries.find? j.jobId.1).isSome

/-- `w'` is `w` with one pending delivery and its first job for each of
    `subscriptions`, in order; `fan` pairs them with the generated ids. -/
structure Fanned (snapshot : String) (fan : List (WebhookSubscription × Id)) (w w' : World) : Prop where
  deliveries : w'.deliveries.rows =
    w.deliveries.rows ++ fan.map fun x => pendingDelivery snapshot x.1 x.2
  queue : w'.webhookQueue = w.webhookQueue ++ fan.map fun x => firstJob x.2
  subscriptions : w'.subscriptions = w.subscriptions

/-- An insert that was answered: the row has the generated id, which was free. -/
theorem answer_saveDelivery {subscription : Id} {snapshot : String} {c : Choice} {w w' : World}
    {d : WebhookDelivery}
    (h : answer (.saveDelivery subscription .pending 0 none none snapshot) c w = (.ok d, w')) :
    d = { id := c.uuid, subscription := subscription, status := .pending, attempts := 0,
          lastAttemptAt := none, responseCode := none, payload := snapshot } ∧
      w.deliveries.find? c.uuid = none ∧ w' = { w with deliveries := w.deliveries.upsert d } := by
  have hok := answerOk_of_answer h
  simp only [answerOk] at hok
  split_ifs at hok with hfree
  · cases hok
  · cases hok
    exact ⟨rfl, by simpa using hfree, rfl⟩

/-- A job that was added. -/
theorem answer_addJob {jobId : Id × ℕ} {data : WebhookDeliveryJob} {delay : ℕ} {c : Choice}
    {w w' : World} {u : Unit} (h : answer (.addJob jobId data delay) c w = (.ok u, w')) :
    w' = w.addJob jobId data delay := by
  cases answerOk_of_answer h
  rfl

/-- A job added under a fresh delivery id goes to the end of the queue. -/
theorem addJob_of_fresh {w : World} {id : Id} {n : ℕ} {data : WebhookDeliveryJob} {delay : ℕ}
    (hfresh : ∀ j ∈ w.webhookQueue, j.jobId.1 ≠ id) :
    w.addJob (id, n) data delay =
      { w with webhookQueue := w.webhookQueue ++ [{ jobId := (id, n), data := data, delay := delay }] } := by
  have hnot : ¬ ∃ j ∈ w.webhookQueue, j.jobId = (id, n) := by
    rintro ⟨j, hj, hid⟩
    exact hfresh j hj (by rw [hid])
  rw [World.addJob, if_neg hnot]

theorem Fanned.consistent {snapshot : String} {fan : List (WebhookSubscription × Id)} {w w' : World}
    (h : Fanned snapshot fan w w') (hw : w.Consistent) : w'.Consistent := by
  intro j hj
  rw [h.queue, List.mem_append, List.mem_map] at hj
  rw [Option.isSome_iff_ne_none, Ne, Table.find?_eq_none_iff]
  intro hnone
  rcases hj with hj | ⟨x, hx, rfl⟩
  · obtain ⟨d, hd⟩ := Option.isSome_iff_exists.mp (hw j hj)
    obtain ⟨hmem, hid⟩ := Table.find?_eq_some_iff.mp hd
    exact hnone d (by rw [h.deliveries]; exact List.mem_append_left _ hmem) hid
  · refine hnone (pendingDelivery snapshot x.1 x.2) ?_ rfl
    rw [h.deliveries]
    exact List.mem_append_right _ (List.mem_map.mpr ⟨x, hx, rfl⟩)

/-- One round of the loop: an insert under a free id, then its first job. -/
theorem Fanned.round (snapshot : String) (subscription : WebhookSubscription) {id : Id} {w : World}
    (hw : w.Consistent) (hfree : w.deliveries.find? id = none) :
    Fanned snapshot [(subscription, id)] w
      (World.addJob { w with deliveries := w.deliveries.upsert (pendingDelivery snapshot subscription id) }
        (id, 1) { deliveryId := id, attempt := 1 } 0) := by
  have hfresh : ∀ j ∈ w.webhookQueue, j.jobId.1 ≠ id := by
    intro j hj hid
    have hstored := hw j hj
    rw [hid, hfree] at hstored
    cases hstored
  rw [addJob_of_fresh (by exact hfresh)]
  exact ⟨Table.rows_upsert_of_find?_eq_none hfree, rfl, rfl⟩

theorem Fanned.cons {snapshot : String} {x : WebhookSubscription × Id}
    {fan : List (WebhookSubscription × Id)} {w w₁ w' : World}
    (h₁ : Fanned snapshot [x] w w₁) (h : Fanned snapshot fan w₁ w') :
    Fanned snapshot (x :: fan) w w' where
  deliveries := by rw [h.deliveries, h₁.deliveries]; simp
  queue := by rw [h.queue, h₁.queue]; simp
  subscriptions := h.subscriptions.trans h₁.subscriptions

/-- When no call throws, the loop ends and adds one delivery and one job for each
    subscription. -/
theorem notifyAll_spec (payload : Json) (subscriptions : List WebhookSubscription) :
    ∀ {w : World}, w.Consistent →
      Ensures answer (Flawless answer) (fun _ _ => True)
        (fun r w' => r = .ok () ∧ ∃ fan, fan.map Prod.fst = subscriptions ∧
          Fanned (snapshotPayload payload) fan w w')
        (notifyAll payload subscriptions) w := by
  induction subscriptions with
  | nil =>
    intro w _
    exact ⟨rfl, [], rfl, ⟨by simp, by simp, rfl⟩⟩
  | cons subscription subscriptions ih =>
    intro w hw
    refine ensures_await_bind_flawless ?_
    intro c delivery w₁ hsave
    obtain ⟨rfl, hfree, rfl⟩ := answer_saveDelivery hsave
    refine ⟨trivial, ensures_await_bind_flawless ?_⟩
    intro c' u w₂ hadd
    rw [answer_addJob hadd]
    have hround := Fanned.round (snapshotPayload payload) subscription hw hfree
    refine ⟨trivial, (ih (hround.consistent hw)).mono (fun _ _ h => h) ?_⟩
    rintro r w' ⟨hr, fan, hfst, hfan⟩
    exact ⟨hr, (subscription, c.uuid) :: fan, by simp [hfst], hround.cons hfan⟩

/-! ## What the handler adds -/

/-- `contestsRepository.findOne`: soft-deleted contests are not found. -/
def World.contest? (w : World) (contestId : Id) : Option Contest :=
  (w.contests.find? contestId).filter fun contest => contest.deletedAt = none

/-- The subscriptions that `findActiveByContestId` returns. -/
def World.activeByContestId (w : World) (contestId : Id) : List WebhookSubscription :=
  w.subscriptions.rows.filter fun s => s.contestId = some contestId ∧ s.active = true

/-- The payload of the handler. -/
def World.payload (w : World) (contest : Contest) : Payload :=
  buildPayload contest (sortBy (compareFinished w.nullsFirst) (w.log contest.id))

theorem contest?_id {w : World} {contestId : Id} {contest : Contest}
    (h : w.contest? contestId = some contest) : contest.id = contestId :=
  (Table.find?_eq_some_iff.mp (Option.filter_eq_some_iff.mp h).1).2

/-- When the contest exists and no call throws, the handler ends and adds one
    delivery and one job for each subscription that `findActiveByContestId` returns. -/
theorem handleContestFinished_spec {contestId : Id} {contest : Contest} {w : World}
    (hw : w.Consistent) (hc : w.contest? contestId = some contest) :
    Ensures answer (Flawless answer) (fun _ _ => True)
      (fun r w' => r = .ok () ∧ ∃ fan, fan.map Prod.fst = w.activeByContestId contestId ∧
        Fanned (snapshotPayload (w.payload contest).toJson) fan w w')
      (handleContestFinished contestId) w := by
  obtain rfl := contest?_id hc
  refine ensures_await_bind_flawless ?_
  intro c contest? w₁ hfind
  cases answerOk_of_answer hfind
  rw [show (w.contests.find? contest.id).filter (fun contest => contest.deletedAt = none) = some contest
    from hc]
  refine ⟨trivial, ensures_await_bind_flawless ?_⟩
  intro c' submissions w₂ hlog
  cases answerOk_of_answer hlog
  refine ⟨trivial, ensures_await_bind_flawless ?_⟩
  intro c'' subscriptions w₃ hsubs
  cases answerOk_of_answer hsubs
  exact ⟨trivial, notifyAll_spec _ _ hw⟩

/-! ## Runs in which calls may throw -/

/-- `w'` is `w` with deliveries of `snapshot` to the first of `subscriptions`, and
    its queue still belongs to its deliveries. -/
structure Added (snapshot : String) (subscriptions : List WebhookSubscription) (w w' : World) : Prop where
  deliveries : ∃ added, w'.deliveries.rows = w.deliveries.rows ++ added ∧
    (∀ d ∈ added, d.payload = snapshot) ∧
    added.map WebhookDelivery.subscription <+: subscriptions.map WebhookSubscription.id
  consistent : w.Consistent → w'.Consistent

theorem Added.refl (snapshot : String) (subscriptions : List WebhookSubscription) (w : World) :
    Added snapshot subscriptions w w :=
  ⟨⟨[], by simp, by simp, List.nil_prefix⟩, id⟩

/-- A call that throws adds nothing. -/
theorem Added.of_error {snapshot : String} {subscriptions : List WebhookSubscription} {o : Op}
    {c : Choice} {w w' : World} {e : Err} (h : answer o c w = (.error e, w')) :
    Added snapshot subscriptions w w' := by
  rw [eq_of_answer_error h]
  exact .refl _ _ _

/-- A delivery to the first subscription, then deliveries to the rest. -/
theorem Added.cons {snapshot : String} {subscription : WebhookSubscription}
    {subscriptions : List WebhookSubscription} (id : Id) {w w₁ w' : World}
    (hrows : w₁.deliveries.rows = w.deliveries.rows ++ [pendingDelivery snapshot subscription id])
    (hw₁ : w.Consistent → w₁.Consistent) (h : Added snapshot subscriptions w₁ w') :
    Added snapshot (subscription :: subscriptions) w w' := by
  obtain ⟨added, hadded, hpayload, hinitial⟩ := h.deliveries
  refine ⟨⟨pendingDelivery snapshot subscription id :: added, ?_, ?_, ?_⟩, fun hw => h.consistent (hw₁ hw)⟩
  · rw [hadded, hrows]
    simp
  · simpa [pendingDelivery] using hpayload
  · exact (List.prefix_cons_inj _).mpr hinitial

/-- A new row keeps the queue's deliveries stored. -/
theorem World.Consistent.upsert {w : World} (hw : w.Consistent) (d : WebhookDelivery) :
    World.Consistent { w with deliveries := w.deliveries.upsert d } := by
  intro j hj
  show ((w.deliveries.upsert d).find? j.jobId.1).isSome
  rw [Table.find?_upsert]
  split_ifs
  · rfl
  · exact hw j hj

/-- So does a job for a stored delivery. -/
theorem World.Consistent.addJob {w : World} (hw : w.Consistent) {id : Id} {n : ℕ}
    {data : WebhookDeliveryJob} {delay : ℕ} (hid : (w.deliveries.find? id).isSome) :
    (w.addJob (id, n) data delay).Consistent := by
  unfold World.addJob
  split_ifs
  · exact hw
  · intro j hj
    rcases List.mem_append.mp hj with hj | hj
    · exact hw j hj
    · rw [List.mem_singleton.mp hj]
      exact hid

theorem deliveries_addJob (w : World) (jobId : Id × ℕ) (data : WebhookDeliveryJob) (delay : ℕ) :
    (w.addJob jobId data delay).deliveries = w.deliveries := by
  unfold World.addJob
  split_ifs <;> rfl

/-- Whatever throws, the loop only adds deliveries, in the order of the subscriptions. -/
theorem notifyAll_added (payload : Json) (subscriptions : List WebhookSubscription) :
    ∀ {w : World}, Ensures answer (fun _ _ _ => True) (fun _ _ => True)
      (fun _ w' => Added (snapshotPayload payload) subscriptions w w')
      (notifyAll payload subscriptions) w := by
  induction subscriptions with
  | nil => exact Added.refl _ _ _
  | cons subscription subscriptions ih =>
    intro w
    refine ensures_await_bind ?_ ?_
    · intro c delivery w₁ _ hsave
      obtain ⟨rfl, hfree, rfl⟩ := answer_saveDelivery hsave
      let row := pendingDelivery (snapshotPayload payload) subscription c.uuid
      have hrows := Table.rows_upsert_of_find?_eq_none (r := row) hfree
      refine ⟨trivial, ensures_await_bind ?_ ?_⟩
      · intro c' u w₂ _ hadd
        rw [answer_addJob hadd]
        refine ⟨trivial, ih.mono (fun _ _ h => h) ?_⟩
        intro r w' h
        refine Added.cons c.uuid ?_ ?_ h
        · rw [deliveries_addJob]
          exact hrows
        · intro hw
          refine (hw.upsert row).addJob (Option.isSome_iff_exists.mpr ⟨row, ?_⟩)
          exact Table.find?_upsert_self _ row
      · intro c' e w₂ _ hadd
        exact ⟨trivial, Added.cons _ hrows (fun hw => hw.upsert row) (.of_error hadd)⟩
    · intro c e w₁ _ hsave
      exact ⟨trivial, .of_error hsave⟩

/-- Whatever throws, the handler only adds deliveries of the payload, at most one for
    each subscription that `findActiveByContestId` returns. -/
theorem handleContestFinished_added {contestId : Id} {contest : Contest} {w : World}
    (hc : w.contest? contestId = some contest) :
    Ensures answer (fun _ _ _ => True) (fun _ _ => True)
      (fun _ w' => Added (snapshotPayload (w.payload contest).toJson) (w.activeByContestId contestId) w w')
      (handleContestFinished contestId) w := by
  obtain rfl := contest?_id hc
  refine ensures_await_bind ?_ fun c e w₁ _ h => ⟨trivial, .of_error h⟩
  intro c contest? w₁ _ hfind
  cases answerOk_of_answer hfind
  rw [show (w.contests.find? contest.id).filter (fun contest => contest.deletedAt = none) = some contest
    from hc]
  refine ⟨trivial, ensures_await_bind ?_ fun c e w₁ _ h => ⟨trivial, .of_error h⟩⟩
  intro c' submissions w₂ _ hlog
  cases answerOk_of_answer hlog
  refine ⟨trivial, ensures_await_bind ?_ fun c e w₁ _ h => ⟨trivial, .of_error h⟩⟩
  intro c'' subscriptions w₃ _ hsubs
  cases answerOk_of_answer hsubs
  exact ⟨trivial, notifyAll_added _ _⟩

/-- A subscription is selected once if it is active and scoped to the contest, and
    not at all otherwise. -/
theorem countP_activeByContestId (w : World) (contestId : Id) {s : WebhookSubscription}
    (hs : s ∈ w.subscriptions.rows) :
    (w.activeByContestId contestId).countP (fun s' => s'.id = s.id) =
      if s.contestId = some contestId ∧ s.active = true then 1 else 0 := by
  have hone : ∀ s' ∈ w.subscriptions.rows, s'.id = s.id → s' = s := by
    intro s' hs' hid
    exact List.inj_on_of_nodup_map w.subscriptions.nodup hs' hs hid
  have hcount : (w.activeByContestId contestId).countP (fun s' => s'.id = s.id) =
      (w.activeByContestId contestId).count s := by
    rw [List.count]
    apply List.countP_congr
    intro s' hs'
    have hmem := (List.mem_filter.mp hs').1
    simp only [decide_eq_true_eq, beq_iff_eq]
    exact ⟨hone s' hmem, fun h => by rw [h]⟩
  have hnodup : (w.activeByContestId contestId).Nodup :=
    (List.Nodup.of_map _ w.subscriptions.nodup).filter _
  rw [hcount, List.Nodup.count hnodup]
  simp [World.activeByContestId, hs]

/-! ## Handlers that overlap -/

/-- The deliveries to a subscription. -/
def deliveredTo (s : WebhookSubscription) (w : World) : ℕ :=
  w.deliveries.rows.countP fun d => d.subscription = s.id

/-- Whether the call writes the subscriptions. -/
def Op.writesSubscription : Op → Bool
  | .saveSubscription .. => true
  | _ => false

/-- Whether the call writes the deliveries. -/
def Op.writesDelivery : Op → Bool
  | .saveDelivery .. => true
  | _ => false

theorem subscriptions_answer {o : Op} (ho : o.writesSubscription = false) (c : Choice) (w : World) :
    (answer o c w).2.subscriptions = w.subscriptions := by
  unfold answer
  cases c.fails with
  | some message => rfl
  | none =>
    cases o with
    | saveSubscription => cases ho
    | saveDelivery =>
      simp only [answerOk]
      split_ifs <;> rfl
    | addJob jobId data delay =>
      show (w.addJob jobId data delay).subscriptions = w.subscriptions
      unfold World.addJob
      split_ifs <;> rfl
    | _ => rfl

theorem deliveries_answer {o : Op} (ho : o.writesDelivery = false) (c : Choice) (w : World) :
    (answer o c w).2.deliveries = w.deliveries := by
  unfold answer
  cases c.fails with
  | some message => rfl
  | none =>
    cases o with
    | saveDelivery => cases ho
    | saveSubscription =>
      simp only [answerOk]
      split_ifs <;> rfl
    | addJob jobId data delay => exact deliveries_addJob w jobId data delay
    | _ => rfl

section Overlap

variable {s : WebhookSubscription}

/-- The calls of the program add at most `n` deliveries to the stored subscription `s`. -/
abbrev Delivers (s : WebhookSubscription) (n : ℕ) (p : M Unit) : Prop :=
  Spends answer (fun w => s ∈ w.subscriptions.rows) (deliveredTo s) n p

/-- A call that writes neither subscriptions nor deliveries. -/
theorem delivers_read {n : ℕ} {o : Op} {f : Res o → M Unit} (hsub : o.writesSubscription = false)
    (hdel : o.writesDelivery = false)
    (hok : ∀ c a w w', s ∈ w.subscriptions.rows → answer o c w = (.ok a, w') → Delivers s n (f a)) :
    Delivers s n (await o >>= f) := by
  have hsame : ∀ {c w w'} {r : Except Err (Res o)}, answer o c w = (r, w') →
      deliveredTo s w' = deliveredTo s w := by
    intro c w w' r hr
    have hrows := deliveries_answer hdel c w
    rw [hr] at hrows
    rw [deliveredTo, hrows, deliveredTo]
  refine spends_await_bind (fun c w hs => ?_) (fun c a w w' hs hr => ?_) fun c e w w' _ hr => ?_
  · rwa [subscriptions_answer hsub]
  · exact ⟨n, (Nat.add_right_cancel_iff.mpr (hsame hr)).le, hok c a w w' hs hr⟩
  · exact (hsame hr).le.trans (Nat.le_add_right _ _)

/-- The loop delivers once for each time it meets the subscription. -/
theorem delivers_notifyAll (payload : Json) (subscriptions : List WebhookSubscription) :
    Delivers s ((subscriptions.map WebhookSubscription.id).count s.id)
      (notifyAll payload subscriptions) := by
  induction subscriptions with
  | nil => trivial
  | cons subscription subscriptions ih =>
    have hjob : ∀ delivery : WebhookDelivery,
        Delivers s ((subscriptions.map WebhookSubscription.id).count s.id)
          (do
            enqueueWebhookDelivery (delivery.id, 1) { deliveryId := delivery.id, attempt := 1 } 0
            notifyAll payload subscriptions) :=
      fun delivery => delivers_read rfl rfl fun _ _ _ _ _ _ => ih
    refine spends_await_bind (fun c w hs => ?_) (fun c delivery w w' _ hsave => ?_) fun c e w w' _ hr => ?_
    · rwa [subscriptions_answer (by rfl)]
    · refine ⟨_, ?_, hjob delivery⟩
      obtain ⟨rfl, hfree, rfl⟩ := answer_saveDelivery hsave
      let row := pendingDelivery (snapshotPayload payload) subscription c.uuid
      have hrows := Table.rows_upsert_of_find?_eq_none (r := row) hfree
      show List.countP _ (w.deliveries.upsert row).rows + _ ≤ _
      rw [hrows, List.countP_append, List.map_cons, List.count_cons, deliveredTo]
      simp only [List.countP_singleton, show row.subscription = subscription.id from rfl,
        decide_eq_true_eq, beq_iff_eq]
      omega
    · rw [eq_of_answer_error hr]
      exact Nat.le_add_right _ _

/-- Whatever runs beside it, the handler delivers at most once to a subscription of the
    contest, and not to the others. -/
theorem delivers_handleContestFinished (contestId : Id) :
    Delivers s (if s.contestId = some contestId then 1 else 0) (handleContestFinished contestId) := by
  refine delivers_read (by rfl) (by rfl) fun c contest? w w' _ hfind => ?_
  cases answerOk_of_answer hfind
  cases hc : w.contest? contestId with
  | none =>
    rw [show (w.contests.find? contestId).filter (fun contest => contest.deletedAt = none) = none from hc]
    trivial
  | some contest =>
    rw [show (w.contests.find? contestId).filter (fun contest => contest.deletedAt = none) = some contest
      from hc]
    obtain rfl := contest?_id hc
    refine delivers_read (by rfl) (by rfl) fun _ submissions _ _ _ _ => ?_
    refine delivers_read (by rfl) (by rfl) fun c' subscriptions w₁ w₂ hs hsubs => ?_
    cases answerOk_of_answer hsubs
    refine (delivers_notifyAll _ _).mono ?_
    show List.countP (· == s.id) ((w₁.activeByContestId contest.id).map WebhookSubscription.id) ≤ _
    rw [List.countP_map,
      show ((· == s.id) ∘ WebhookSubscription.id) = fun s' => decide (s'.id = s.id) from rfl,
      countP_activeByContestId w₁ contest.id hs]
    split_ifs with hselected hscope hscope
    · exact le_rfl
    · exact absurd hselected.1 hscope
    · exact Nat.zero_le _
    · exact le_rfl

/-- One handler for each event, each taking its calls at any time. -/
def handlers (events : List Id) (w : World) : Pool (Fin events.length) (fun _ => M Unit) World where
  tasks i := handleContestFinished events[i]
  state := w

/-- One call of a handler. -/
def handlerStep {n : ℕ} : Pool.Stepper (Fin n) (fun _ => M Unit) World Choice :=
  fun _ c x => step answer c x

/-- A subscription gets at most one delivery for each event of its contest. -/
theorem deliveredTo_handlers (events : List Id) (sched : List (Fin events.length × Choice)) {w : World}
    (hs : s ∈ w.subscriptions.rows) :
    deliveredTo s (Pool.run handlerStep sched (handlers events w)).state ≤
      deliveredTo s w + (events.map fun contestId => if s.contestId = some contestId then 1 else 0).sum := by
  rw [← Fin.sum_univ_fun_getElem]
  exact Pool.run_cost (fun w => s ∈ w.subscriptions.rows) (deliveredTo s) (fun _ => Delivers s)
    (fun _ _ _ _ _ hp hw => hp.step hw) sched (fun i => delivers_handleContestFinished events[i]) hs

end Overlap

/-! ## The subscriptions in scope -/

/-- Active, and scoped to the contest or to none. -/
def InScope (contestId : Id) (s : WebhookSubscription) : Prop :=
  s.active = true ∧ (s.contestId = some contestId ∨ s.contestId = none)

instance (contestId : Id) (s : WebhookSubscription) : Decidable (InScope contestId s) := by
  unfold InScope; infer_instance

/-- The deliveries of `w'` that `w` does not have. -/
def newDeliveries (w w' : World) : List WebhookDelivery :=
  w'.deliveries.rows.drop w.deliveries.rows.length

/-- The jobs of `w'` that `w` does not have. -/
def newJobs (w w' : World) : List Job := w'.webhookQueue.drop w.webhookQueue.length

/-- The pending deliveries for `s` between `w` and `w'`. -/
def pendingCount (w w' : World) (s : WebhookSubscription) : ℕ :=
  (newDeliveries w w').countP fun d => d.subscription = s.id ∧ d.status = .pending

/-- The attempt-1 jobs for deliveries for `s` between `w` and `w'`. -/
def firstJobCount (w w' : World) (s : WebhookSubscription) : ℕ :=
  (newJobs w w').countP fun j => j.data.attempt = 1 ∧
    ∃ d ∈ newDeliveries w w', d.id = j.data.deliveryId ∧ d.subscription = s.id

/-- Between `w` and `w'`, exactly one pending delivery and one attempt-1 job were
    added for each subscription in scope, and nothing else. -/
structure ReachesScope (contestId : Id) (w w' : World) : Prop where
  keptDeliveries : w.deliveries.rows <+: w'.deliveries.rows
  keptJobs : w.webhookQueue <+: w'.webhookQueue
  deliveries : ∀ s ∈ w.subscriptions.rows,
    pendingCount w w' s = if InScope contestId s then 1 else 0
  jobs : ∀ s ∈ w.subscriptions.rows,
    firstJobCount w w' s = if InScope contestId s then 1 else 0
  onlyDeliveries : ∀ d ∈ newDeliveries w w', d.status = .pending ∧
    ∃ s ∈ w.subscriptions.rows, InScope contestId s ∧ d.subscription = s.id
  onlyJobs : ∀ j ∈ newJobs w w', j.data.attempt = 1 ∧
    ∃ d ∈ newDeliveries w w', d.id = j.data.deliveryId

section Fan

variable {snapshot : String} {fan : List (WebhookSubscription × Id)} {w w' : World}

theorem Fanned.newDeliveries_eq (h : Fanned snapshot fan w w') :
    newDeliveries w w' = fan.map fun x => pendingDelivery snapshot x.1 x.2 := by
  rw [newDeliveries, h.deliveries, List.drop_left]

theorem Fanned.newJobs_eq (h : Fanned snapshot fan w w') :
    newJobs w w' = fan.map fun x => firstJob x.2 := by
  rw [newJobs, h.queue, List.drop_left]

/-- The generated ids are pairwise different. -/
theorem Fanned.nodup (h : Fanned snapshot fan w w') : (fan.map Prod.snd).Nodup := by
  have hids := w'.deliveries.nodup
  rw [h.deliveries, List.map_append, List.map_map] at hids
  exact (List.nodup_append.mp hids).2.1

/-- The deliveries for `s` are the places of `s` in the fan. -/
theorem Fanned.pendingCount_eq (h : Fanned snapshot fan w w') (s : WebhookSubscription) :
    pendingCount w w' s = (fan.map Prod.fst).countP fun s' => s'.id = s.id := by
  rw [pendingCount, h.newDeliveries_eq, List.countP_map, List.countP_map]
  apply List.countP_congr
  intro x _
  simp [pendingDelivery]

/-- So are the jobs: an id belongs to one delivery. -/
theorem Fanned.firstJobCount_eq (h : Fanned snapshot fan w w') (s : WebhookSubscription) :
    firstJobCount w w' s = (fan.map Prod.fst).countP fun s' => s'.id = s.id := by
  rw [firstJobCount, h.newJobs_eq, List.countP_map, List.countP_map]
  apply List.countP_congr
  intro x hx
  simp only [Function.comp_apply, firstJob, true_and, decide_eq_true_eq, h.newDeliveries_eq,
    List.mem_map]
  constructor
  · rintro ⟨d, ⟨y, hy, rfl⟩, hid, hsub⟩
    have hxy : y = x := List.inj_on_of_nodup_map h.nodup hy hx hid
    rwa [hxy] at hsub
  · intro hsub
    exact ⟨_, ⟨x, hx, rfl⟩, rfl, hsub⟩

end Fan

/-- **Main**: when the contest exists and no call throws, the handler ends, and it
    reaches exactly the subscriptions in scope iff no active one is unscoped. -/
theorem handleContestFinished_reaches_iff {contestId : Id} {contest : Contest} {w : World}
    (hw : w.Consistent) (hc : w.contest? contestId = some contest) (cs : ℕ → Choice)
    (hcs : EvalGuarded answer (Flawless answer) (handleContestFinished contestId) w cs) :
    (eval answer (handleContestFinished contestId) w cs).1 = .ok () ∧
      (ReachesScope contestId w (eval answer (handleContestFinished contestId) w cs).2 ↔
        ∀ s ∈ w.subscriptions.rows, s.active = true → s.contestId ≠ none) := by
  obtain ⟨hok, fan, hfst, hfan⟩ := (handleContestFinished_spec hw hc).eval hcs
  refine ⟨hok, ?_⟩
  set w' := (eval answer (handleContestFinished contestId) w cs).2
  have hpending : ∀ s ∈ w.subscriptions.rows,
      pendingCount w w' s = if s.contestId = some contestId ∧ s.active = true then 1 else 0 := by
    intro s hs
    rw [hfan.pendingCount_eq, hfst, countP_activeByContestId w contestId hs]
  have hjobs : ∀ s ∈ w.subscriptions.rows,
      firstJobCount w w' s = if s.contestId = some contestId ∧ s.active = true then 1 else 0 := by
    intro s hs
    rw [hfan.firstJobCount_eq, hfst, countP_activeByContestId w contestId hs]
  constructor
  · intro h s hs hactive hnull
    -- an active unscoped subscription is in scope but not selected
    have hscope : InScope contestId s := ⟨hactive, .inr hnull⟩
    have hone := h.deliveries s hs
    rw [hpending s hs, if_pos hscope, if_neg (by simp [hnull])] at hone
    cases hone
  · intro h
    have hscope : ∀ s ∈ w.subscriptions.rows,
        (s.contestId = some contestId ∧ s.active = true ↔ InScope contestId s) := by
      intro s hs
      constructor
      · rintro ⟨hcontest, hactive⟩
        exact ⟨hactive, .inl hcontest⟩
      · rintro ⟨hactive, hcontest | hnull⟩
        · exact ⟨hcontest, hactive⟩
        · exact absurd hnull (h s hs hactive)
    refine ⟨⟨_, hfan.deliveries.symm⟩, ⟨_, hfan.queue.symm⟩, ?_, ?_, ?_, ?_⟩
    · intro s hs
      simp only [hpending s hs, hscope s hs]
    · intro s hs
      simp only [hjobs s hs, hscope s hs]
    · intro d hd
      rw [hfan.newDeliveries_eq, List.mem_map] at hd
      obtain ⟨x, hx, rfl⟩ := hd
      have hsel : x.1 ∈ w.activeByContestId contestId := hfst ▸ List.mem_map_of_mem hx
      obtain ⟨hrow, hmatch⟩ := List.mem_filter.mp hsel
      exact ⟨rfl, x.1, hrow, (hscope x.1 hrow).mp (of_decide_eq_true hmatch), rfl⟩
    · intro j hj
      rw [hfan.newJobs_eq, List.mem_map] at hj
      obtain ⟨x, hx, rfl⟩ := hj
      exact ⟨rfl, pendingDelivery _ x.1 x.2,
        by rw [hfan.newDeliveries_eq]; exact List.mem_map.mpr ⟨x, hx, rfl⟩, rfl⟩

/-- A database that holds one contest. -/
def World.ofContest (contest : Contest) : World where
  contests := Table.empty.upsert contest
  users := .empty
  submissions := .empty
  subscriptions := .empty
  deliveries := .empty
  webhookQueue := []
  nullsFirst := false

def summer : Contest :=
  { id := "c1", title := "Summer 2026", startTime := 0, endTime := 3600000, finishedAt := none,
    deletedAt := none }

/-- The contest and one subscription, registered with `create`. -/
def registered (contestId : Option Id) : World :=
  let dto : CreateWebhookSubscriptionDto :=
    { targetUrl := "https://example.org/hook", secret := none, contestId := contestId, active := none }
  (eval answer (create dto) (.ofContest summer)
    fun _ => { fails := none, uuid := "s1", random := "00ff" }).2

def noFailure (_ : ℕ) : Choice := { fails := none, uuid := "d1", random := "" }

/-- A subscription scoped to the contest is reached. -/
theorem handleContestFinished_reaches_scoped :
    ReachesScope "c1" (registered (some "c1"))
      (eval answer (handleContestFinished "c1") (registered (some "c1")) noFailure).2 :=
  (handleContestFinished_reaches_iff (w := registered (some "c1"))
    (show (registered (some "c1")).Consistent by intro j hj; cases hj)
    (show (registered (some "c1")).contest? "c1" = some summer from rfl) noFailure
    ⟨⟨_, rfl⟩, ⟨_, rfl⟩, ⟨_, rfl⟩, ⟨_, rfl⟩, ⟨_, rfl⟩, trivial⟩).2.mpr (by decide)

/-- A subscription registered without a `contestId` gets nothing, although no call throws. -/
theorem handleContestFinished_misses_unscoped :
    EvalGuarded answer (Flawless answer) (handleContestFinished "c1") (registered none) noFailure ∧
      ¬ ReachesScope "c1" (registered none)
        (eval answer (handleContestFinished "c1") (registered none) noFailure).2 := by
  refine ⟨⟨⟨_, rfl⟩, ⟨_, rfl⟩, ⟨_, rfl⟩, trivial⟩, ?_⟩
  intro h
  have hone := h.deliveries
    { id := "s1", targetUrl := "https://example.org/hook", secret := some "00ff", contestId := none,
      active := true } (by decide)
  revert hone
  decide

end CodeWeaknesses.Webhooks
