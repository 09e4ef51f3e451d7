import CodeWeaknesses.Common.JsonCanonical
import CodeWeaknesses.Webhooks.Retries

/-!
# The snapshot of a payload

`createDelivery` stores the snapshot of a payload. An attempt parses the stored text, and
`tryDeliver` takes a snapshot of what it parsed; a string is its own snapshot, both times.

Results:
* `snapshot_parse_iff`: the second snapshot is the first one iff the text is canonical.
* `Keeps.later`: the stored text stays, whatever else runs.
* `everyAttemptSends_iff`: **every attempt sends the stored text, signed, iff the payload is an
  object, an array, or a string that `JSON.stringify` writes for a value that is not a string.**
* `spaced_text_differs`: a JSON text with a space is sent without it.
-/

namespace CodeWeaknesses.Webhooks

open Lib Lib.Prog Json

/-! ## Payloads -/

/-- A payload of `createDelivery`: a string, or an object or array that the engine can hold. -/
structure DeliveryPayload (N : Type) where
  value : Json N JsString
  wellFormed : value.WellFormed
  kind : (∃ s, value = .str s) ∨ (∃ items, value = .arr items) ∨ ∃ fields, value = .obj fields

/-- The payload is not a string, or `JSON.stringify` writes it for a value that is not a string. -/
def DeliveryPayload.Stable {N : Type} [NumberFormat N] (payload : DeliveryPayload N) : Prop :=
  ∀ s, payload.value = .str s → Canonical N JsString (StringFormat.text s)

/-! ## Attempts -/

/-- What runs meanwhile: calls of listeners and of other attempts, and moves of the queue. -/
inductive Later : Hooks → Hooks → Prop where
  | refl {w : Hooks} : Later w w
  | listens {w w' : Hooks} (o : Op) (c : Choice) : Later w w' → Later w { w' with db := (answer o c w'.db).2 }
  | works {w w' : Hooks} (job : WebhookDeliveryJob) (o : DeliveryOp) (c : RunChoice) :
      Later w w' → Later w (deliveryAnswer job o c w').2
  | moves {w w' : Hooks} (jobs : List Job) (active : List (Id × ℕ)) (attemptsMade : Id × ℕ → ℕ) :
      Later w w' → Later w { w' with db := { w'.db with webhookQueue := jobs }, active := active,
                                     attemptsMade := attemptsMade }

/-- The request of a call. -/
def DeliveryOp.requests : DeliveryOp → List PostRequest
  | .fetch request => [request]
  | _ => []

/-- The requests that an attempt sends from `w` on. It is whole when the worker does not stop and no
    call of the database or the queue throws. -/
inductive Attempt (job : WebhookDeliveryJob) : DeliveryM Unit → Hooks → List PostRequest → Bool → Prop where
  | stops {p : DeliveryM Unit} {w : Hooks} : Attempt job p w [] false
  | returns {w : Hooks} : Attempt job (.ret ()) w [] true
  | throws {e : Err} {w : Hooks} : Attempt job (.raise e) w [] true
  | calls {o : DeliveryOp} {k : Except Err (DeliveryRes o) → DeliveryM Unit} {w w' : Hooks} {c : RunChoice}
      {sent : List PostRequest} {whole : Bool} : Later w w' →
      Attempt job (k (deliveryAnswer job o c w').1) (deliveryAnswer job o c w').2 sent whole →
      Attempt job (.call o k) w (o.requests ++ sent) (c.call.fails.isNone && whole)

/-- The attempt sends the stored text, signed. -/
structure SendsStored (createHmac : String → String → String) (subscription : WebhookSubscription)
    (delivery : WebhookDelivery) (w : Hooks) (sent : List PostRequest) (whole : Bool) : Prop where
  stored : (w.db.deliveries.find? delivery.id).map WebhookDelivery.payload = some delivery.payload
  body : ∀ request ∈ sent, request.body = delivery.payload
  signature : ∀ request ∈ sent,
    request.signature = signPayload createHmac (subscription.secret.getD "") request.body
  once : whole = true → sent.length = 1

/-- Every attempt for a delivery that `createDelivery` returned for the payload. -/
def EveryAttemptSends {N : Type} [NumberFormat N] (createHmac : String → String → String)
    (payload : DeliveryPayload N) : Prop :=
  ∀ (subscription : WebhookSubscription) (delivery : WebhookDelivery) (cs : ℕ → Choice) (w : Hooks) (db : World),
    w.db.subscriptions.find? subscription.id = some subscription →
    eval answer (createDelivery subscription payload.value) w.db cs = (.ok delivery, db) →
    ∀ (w' : Hooks) (job : WebhookDeliveryJob) (sent : List PostRequest) (whole : Bool),
      Later { w with db := db } w' → job.deliveryId = delivery.id →
      Attempt job (processOf createHmac N JsString job) w' sent whole →
      SendsStored createHmac subscription delivery w' sent whole

/-! ## The second snapshot -/

section Snapshots

variable {N S : Type} [NumberFormat N] [StringFormat S]

theorem snapshotPayload_of_ne_str {v : Json N S} (h : ∀ s, v ≠ .str s) : snapshotPayload v = stringify v := by
  cases v with
  | str s => exact absurd rfl (h s)
  | _ => rfl

variable [LawfulNumberFormat N] [LawfulStringFormat S] [DecidableEq S]

/-- A string is shorter than the text that it was parsed from, so only another value gives it back. -/
theorem snapshot_parse_iff {text : String} :
    (∃ v : Json N S, parseAs N S text = .ok v ∧ snapshotPayload v = text) ↔ Canonical N S text := by
  rw [← stringify_parse_iff]
  constructor
  · rintro ⟨v, hparse, htext⟩
    have hv : ∀ s, v ≠ .str s := by
      rintro s rfl
      have hlength := length_of_parse hparse
      rw [show StringFormat.text s = text from htext] at hlength
      exact lt_irrefl _ hlength
    exact ⟨v, hparse, hv, by rw [← snapshotPayload_of_ne_str hv, htext]⟩
  · rintro ⟨v, hparse, hv, htext⟩
    exact ⟨v, hparse, by rw [snapshotPayload_of_ne_str hv, htext]⟩

end Snapshots

/-- The payload is stable iff its snapshot is canonical. -/
theorem DeliveryPayload.stable_iff {N : Type} [NumberFormat N] (payload : DeliveryPayload N) :
    payload.Stable ↔ Canonical N JsString (snapshotPayload payload.value) := by
  rcases payload with ⟨value, hwell, hkind⟩
  cases value with
  | str s => exact ⟨fun h => h s rfl, fun h s' heq => by cases heq; exact h⟩
  | arr items => exact ⟨fun _ => ⟨.arr items, hwell, nofun, rfl⟩, fun _ => nofun⟩
  | obj fields => exact ⟨fun _ => ⟨.obj fields, hwell, nofun, rfl⟩, fun _ => nofun⟩
  | null => rcases hkind with ⟨_, h⟩ | ⟨_, h⟩ | ⟨_, h⟩ <;> cases h
  | bool b => rcases hkind with ⟨_, h⟩ | ⟨_, h⟩ | ⟨_, h⟩ <;> cases h
  | num n => rcases hkind with ⟨_, h⟩ | ⟨_, h⟩ | ⟨_, h⟩ <;> cases h

/-! ## The stored text stays -/

/-- The delivery is stored with its text and its subscription. -/
structure Keeps (delivery : WebhookDelivery) (subscription : WebhookSubscription) (w : World) : Prop where
  row : ∃ row, w.deliveries.find? delivery.id = some row ∧ row.payload = delivery.payload ∧
    row.subscription = subscription.id
  subscription : w.subscriptions.find? subscription.id = some subscription

section Stored

variable {delivery : WebhookDelivery} {subscription : WebhookSubscription}

/-- A new row has an id of its own. -/
theorem Keeps.listens {w : World} (h : Keeps delivery subscription w) (o : Op) (c : Choice) :
    Keeps delivery subscription (answer o c w).2 := by
  obtain ⟨row, hrow, hpayload, hid⟩ := h.row
  have hdeliveries : (answer o c w).2.deliveries.find? delivery.id = some row := by
    cases ho : o.writesDelivery with
    | false => rw [deliveries_answer ho, hrow]
    | true =>
      cases o with
      | saveDelivery =>
        unfold answer
        cases c.fails with
        | some message => exact hrow
        | none =>
          dsimp only [answerOk]
          split_ifs with hfree
          · exact hrow
          · exact Table.find?_upsert_of_fresh hrow (Option.not_isSome_iff_eq_none.mp hfree)
      | _ => cases ho
  have hsubscriptions : (answer o c w).2.subscriptions.find? subscription.id = some subscription := by
    cases ho : o.writesSubscription with
    | false => rw [subscriptions_answer ho, h.subscription]
    | true =>
      cases o with
      | saveSubscription =>
        unfold answer
        cases c.fails with
        | some message => exact h.subscription
        | none =>
          dsimp only [answerOk]
          split_ifs with hfree
          · exact h.subscription
          · exact Table.find?_upsert_of_fresh h.subscription (Option.not_isSome_iff_eq_none.mp hfree)
      | _ => cases ho
  exact ⟨⟨row, hdeliveries, hpayload, hid⟩, hsubscriptions⟩

/-- An update leaves the text and the subscription of its row as they are. -/
theorem Keeps.works {w : Hooks} (h : Keeps delivery subscription w.db) (job : WebhookDeliveryJob) (o : DeliveryOp)
    (c : RunChoice) : Keeps delivery subscription (deliveryAnswer job o c w).2.db := by
  rcases deliveryAnswer_cases job o (c := c) (w := w) with ⟨e, _, _, heq⟩ | heq
  · rw [heq]
    exact h
  · rw [heq]
    obtain ⟨row, hrow, hpayload, hid⟩ := h.row
    cases o with
    | findDelivery id => exact h
    | fetch request => exact h
    | updateDelivery id status attempts responseCode =>
      show Keeps delivery subscription (w.db.updateDelivery id (stored c status attempts responseCode))
      constructor
      · rw [find?_updateDelivery, hrow]
        split_ifs
        · exact ⟨_, rfl, hpayload, hid⟩
        · exact ⟨row, rfl, hpayload, hid⟩
      · unfold World.updateDelivery
        cases w.db.deliveries.find? id <;> exact h.subscription
    | addJob jobId data delay =>
      show Keeps delivery subscription (w.db.addJob jobId data delay)
      unfold World.addJob
      split_ifs
      · exact h
      · exact ⟨h.row, h.subscription⟩

/-- The stored text stays, whatever runs meanwhile. -/
theorem Keeps.later {w w' : Hooks} (h : Keeps delivery subscription w.db) (hlater : Later w w') :
    Keeps delivery subscription w'.db := by
  induction hlater with
  | refl => exact h
  | listens o c _ ih => exact ih.listens o c
  | works job o c _ ih => exact ih.works job o c
  | moves jobs active attemptsMade _ ih => exact ⟨ih.row, ih.subscription⟩

/-- What `createDelivery` stores. -/
theorem eval_createDelivery {N S : Type} [NumberFormat N] [StringFormat S] {payload : Json N S} {cs : ℕ → Choice}
    {w db : World} (hsubscription : w.subscriptions.find? subscription.id = some subscription)
    (h : eval answer (createDelivery subscription payload) w cs = (.ok delivery, db)) :
    delivery.payload = snapshotPayload payload ∧ Keeps delivery subscription db := by
  rcases hsave : answer (.saveDelivery subscription.id .pending 0 none none (snapshotPayload payload)) (cs 0) w
    with ⟨r, w₁⟩
  have heval : eval answer (createDelivery subscription payload) w cs = (r, w₁) := by
    unfold createDelivery
    show eval answer (answered _) _ _ = _
    rw [hsave]
    cases r <;> rfl
  obtain ⟨rfl, rfl⟩ := Prod.mk.inj (heval.symm.trans h)
  have hkept : w₁.subscriptions = w.subscriptions := by
    have hanswer := subscriptions_answer (o := .saveDelivery subscription.id .pending 0 none none
      (snapshotPayload payload)) rfl (cs 0) w
    rwa [hsave] at hanswer
  obtain ⟨rfl, _, rfl⟩ := answer_saveDelivery hsave
  exact ⟨rfl, ⟨_, Table.find?_upsert_self _ _, rfl, rfl⟩, hsubscription⟩

end Stored

/-! ## One attempt -/

section Attempts

variable {job : WebhookDeliveryJob} {w : Hooks} {sent : List PostRequest} {whole : Bool}

/-- An attempt stops before a call, or makes it in a later state. -/
theorem Attempt.of_call {o : DeliveryOp} {k : Except Err (DeliveryRes o) → DeliveryM Unit}
    (h : Attempt job (.call o k) w sent whole) : sent = [] ∧ whole = false ∨
      ∃ w' c sent' whole', Later w w' ∧
        Attempt job (k (deliveryAnswer job o c w').1) (deliveryAnswer job o c w').2 sent' whole' ∧
          sent = o.requests ++ sent' ∧ whole = (c.call.fails.isNone && whole') := by
  cases h with
  | stops => exact .inl ⟨rfl, rfl⟩
  | calls hlater hrest => exact .inr ⟨_, _, _, _, hlater, hrest, rfl, rfl⟩

/-- A program that makes no request sends none. -/
theorem Attempt.sends_nothing {p : DeliveryM Unit} (h : Attempt job p w sent whole) :
    OnlyCalls (fun o => o.requests = []) p → sent = [] := by
  induction h with
  | stops => exact fun _ => rfl
  | returns => exact fun _ => rfl
  | throws => exact fun _ => rfl
  | calls _ _ ih =>
    intro hp
    rw [ih (hp.2 _), hp.1]
    rfl

theorem settle_sends_nothing (job : WebhookDeliveryJob) (delivery : WebhookDelivery) (result : DeliveryResult) :
    OnlyCalls (fun o => o.requests = []) (settle job delivery result) := by
  unfold settle
  split_ifs
  · exact onlyCalls_ret
  · exact onlyCalls_await rfl
  · apply OnlyCalls.bind
    · exact onlyCalls_await rfl
    · exact fun _ => onlyCalls_await rfl

variable {N S : Type} [NumberFormat N] [StringFormat S]

/-- Once the payload is parsed, the next call is the POST, and it is the last one. -/
theorem tryDeliver_call (job : WebhookDeliveryJob) (createHmac : String → String → String)
    (subscription : WebhookSubscription) (payload : Json N S) (delivery : WebhookDelivery) :
    ∃ k, (tryDeliver createHmac (some subscription) payload delivery >>= settle job delivery) =
        .call (.fetch (postRequest createHmac subscription payload)) k ∧
      ∀ r, OnlyCalls (fun o => o.requests = []) (k r) := by
  refine ⟨_, rfl, fun r => ?_⟩
  have hrest : ∀ result : DeliveryResult, OnlyCalls (fun o => o.requests = [])
      ((awaitDelivery (.updateDelivery delivery.id result.status (some (max delivery.attempts 1))
        result.responseCode) >>= fun _ => pure result) >>= settle job delivery) := by
    intro result
    apply OnlyCalls.bind
    · apply OnlyCalls.bind
      · exact onlyCalls_await rfl
      · exact fun _ => onlyCalls_ret
    · exact settle_sends_nothing job delivery
  cases r with
  | ok status => exact hrest (.of (some status))
  | error e => exact hrest (.of none)

variable [DecidableEq S] (createHmac : String → String → String) {delivery : WebhookDelivery}
  {subscription : WebhookSubscription}

/-- The attempt finds the delivery and its subscription, or the call throws. -/
theorem Keeps.finds (h : Keeps delivery subscription w.db) (hjob : job.deliveryId = delivery.id) (c : RunChoice) :
    (∃ e, c.call.fails.isSome = true ∧ deliveryAnswer job (.findDelivery job.deliveryId) c w = (.error e, w)) ∨
      ∃ row, row.payload = delivery.payload ∧
        deliveryAnswer job (.findDelivery job.deliveryId) c w = (.ok (some (row, some subscription)), w) := by
  rcases deliveryAnswer_cases job (.findDelivery job.deliveryId) (c := c) (w := w) with ⟨e, hfails, _, heq⟩ | heq
  · exact .inl ⟨e, hfails, heq⟩
  · obtain ⟨row, hrow, hpayload, hid⟩ := h.row
    refine .inr ⟨row, hpayload, heq.trans ?_⟩
    rw [deliveryOk, hjob, hrow, Option.map_some, hid, h.subscription]

/-- An attempt sends the snapshot of what it parsed, or is cut short. -/
theorem Attempt.sends {v : Json N S} (h : Attempt job (processOf createHmac N S job) w sent whole)
    (hkeeps : Keeps delivery subscription w.db) (hjob : job.deliveryId = delivery.id)
    (hparse : parseAs N S delivery.payload = .ok v) :
    sent = [] ∧ whole = false ∨ sent = [postRequest createHmac subscription v] := by
  rcases Attempt.of_call h with hstops | ⟨w₁, c, sent₁, whole₁, hlater, hrest, hsent, hwhole⟩
  · exact .inl hstops
  have hsame : sent = sent₁ := hsent
  rcases (hkeeps.later hlater).finds hjob c with ⟨e, hfails, heq⟩ | ⟨row, hpayload, heq⟩
  · rw [heq] at hrest
    rw [hsame, hrest.sends_nothing onlyCalls_raise, hwhole]
    cases hc : c.call.fails with
    | none =>
      rw [hc] at hfails
      cases hfails
    | some message => exact .inl ⟨rfl, rfl⟩
  · rw [heq] at hrest
    obtain ⟨k, hcall, hk⟩ := tryDeliver_call job createHmac subscription v row
    have hposts : Attempt job (.call (.fetch (postRequest createHmac subscription v)) k) w₁ sent₁ whole₁ := by
      rw [← hcall]
      have hread : Attempt job (answered (parseAs N S row.payload) >>= fun payload =>
          tryDeliver createHmac (some subscription) payload row >>= settle job row) w₁ sent₁ whole₁ := hrest
      rwa [hpayload, hparse, answered_ok, ret_bind] at hread
    rcases hposts.of_call with ⟨hnone, hcut⟩ | ⟨w₂, c₂, sent₂, whole₂, _, hlast, hposted, _⟩
    · rw [hsame, hnone, hwhole, hcut, Bool.and_false]
      exact .inl ⟨rfl, rfl⟩
    · rw [hsame, hposted, hlast.sends_nothing (hk _)]
      exact .inr rfl

/-- A call that is made at once. -/
theorem Attempt.call_now {o : DeliveryOp} {k : Except Err (DeliveryRes o) → DeliveryM Unit} {c : RunChoice}
    {r : Except Err (DeliveryRes o)} {w' : Hooks} (hanswer : deliveryAnswer job o c w = (r, w'))
    (hrest : Attempt job (k r) w' sent whole) :
    Attempt job (.call o k) w (o.requests ++ sent) (c.call.fails.isNone && whole) := by
  refine .calls .refl ?_
  rwa [hanswer]

/-- A call of a worker that does not fail. -/
def quiet : RunChoice :=
  { call := { fails := none, uuid := "", random := "" }, now := 0, endpoint := none, takes := ("", 0),
    stops := false }

theorem Keeps.finds_quiet (h : Keeps delivery subscription w.db) (hjob : job.deliveryId = delivery.id) :
    ∃ row, row.payload = delivery.payload ∧
      deliveryAnswer job (.findDelivery job.deliveryId) quiet w = (.ok (some (row, some subscription)), w) := by
  rcases h.finds hjob quiet with ⟨e, hfails, _⟩ | hfound
  · cases hfails
  · exact hfound

/-- An attempt that cannot parse its text throws, and sends nothing. -/
theorem Keeps.attempt_throws (h : Keeps delivery subscription w.db) (hjob : job.deliveryId = delivery.id)
    {e : Err} (hparse : parseAs N S delivery.payload = .error e) :
    Attempt job (processOf createHmac N S job) w [] true := by
  obtain ⟨row, hpayload, hfound⟩ := h.finds_quiet hjob
  refine Attempt.call_now hfound ?_
  show Attempt job (answered (parseAs N S row.payload) >>= fun payload =>
    tryDeliver createHmac (some subscription) payload row >>= settle job row) w [] true
  rw [hpayload, hparse]
  exact .throws

/-- One that can sends the snapshot of what it parsed. -/
theorem Keeps.attempt_posts (h : Keeps delivery subscription w.db) (hjob : job.deliveryId = delivery.id)
    {v : Json N S} (hparse : parseAs N S delivery.payload = .ok v) :
    Attempt job (processOf createHmac N S job) w [postRequest createHmac subscription v] false := by
  obtain ⟨row, hpayload, hfound⟩ := h.finds_quiet hjob
  obtain ⟨k, hcall, _⟩ := tryDeliver_call job createHmac subscription v row
  show Attempt job _ w ([] ++ [postRequest createHmac subscription v]) (true && false)
  refine Attempt.call_now hfound ?_
  show Attempt job (answered (parseAs N S row.payload) >>= fun payload =>
    tryDeliver createHmac (some subscription) payload row >>= settle job row) w _ false
  rw [hpayload, hparse, answered_ok, ret_bind, hcall]
  exact Attempt.calls (c := quiet) .refl .stops

end Attempts

/-! ## Every attempt -/

section Deliveries

variable {N : Type} [NumberFormat N]

def subscriber : WebhookSubscription :=
  { id := "s1", targetUrl := "https://example.org/hook", secret := some "00ff", contestId := none, active := true }

/-- The contest and the subscriber, before any delivery. -/
def subscribed : Hooks where
  db := { World.ofContest summer with subscriptions := Table.empty.upsert subscriber }
  active := []
  attemptsMade _ := 0
  posts := []

/-- If every attempt sends the stored text, it is parsed, and its snapshot is the text. -/
theorem EveryAttemptSends.parses {createHmac : String → String → String} {payload : DeliveryPayload N}
    (h : EveryAttemptSends createHmac payload) :
    ∃ v : Json N JsString, parseAs N JsString (snapshotPayload payload.value) = .ok v ∧
      snapshotPayload v = snapshotPayload payload.value := by
  have hsubscribed : subscribed.db.subscriptions.find? subscriber.id = some subscriber :=
    Table.find?_upsert_self _ _
  obtain ⟨delivery, db, heval⟩ : ∃ delivery db,
      eval answer (createDelivery subscriber payload.value) subscribed.db noFailure = (.ok delivery, db) :=
    ⟨_, _, rfl⟩
  obtain ⟨htext, hkeeps⟩ := eval_createDelivery hsubscribed heval
  have hattempts := h subscriber delivery noFailure subscribed db hsubscribed heval { subscribed with db := db }
    { deliveryId := delivery.id, attempt := 1 }
  rw [← htext]
  cases hparse : parseAs N JsString delivery.payload with
  | error e =>
    have hsends := hattempts [] true .refl rfl (Keeps.attempt_throws createHmac hkeeps rfl hparse)
    cases hsends.once rfl
  | ok v =>
    have hsends := hattempts _ false .refl rfl (Keeps.attempt_posts createHmac hkeeps rfl hparse)
    exact ⟨v, rfl, hsends.body _ List.mem_cons_self⟩

/-- **Main**: every attempt sends the stored text, signed, iff the payload is stable. -/
theorem everyAttemptSends_iff [LawfulNumberFormat N] (createHmac : String → String → String)
    (payload : DeliveryPayload N) : EveryAttemptSends createHmac payload ↔ payload.Stable := by
  rw [payload.stable_iff, ← snapshot_parse_iff]
  constructor
  · exact EveryAttemptSends.parses
  · rintro ⟨v, hparse, hsnapshot⟩
    intro subscription delivery cs w db hsubscription heval w' job sent whole hlater hjob hattempt
    obtain ⟨htext, hkeeps⟩ := eval_createDelivery hsubscription heval
    have hlast := Keeps.later hkeeps hlater
    rw [← htext] at hparse hsnapshot
    have hstored : (w'.db.deliveries.find? delivery.id).map WebhookDelivery.payload = some delivery.payload := by
      obtain ⟨row, hrow, hpayload, _⟩ := hlast.row
      rw [hrow, Option.map_some, hpayload]
    rcases hattempt.sends createHmac hlast hjob hparse with ⟨hsent, hwhole⟩ | hsent
    · refine ⟨hstored, ?_, ?_, ?_⟩
      · rw [hsent]
        exact nofun
      · rw [hsent]
        exact nofun
      · rw [hwhole]
        exact nofun
    · refine ⟨hstored, ?_, ?_, ?_⟩
      · rw [hsent]
        intro request hrequest
        rw [List.mem_singleton.mp hrequest]
        exact hsnapshot
      · rw [hsent]
        intro request hrequest
        rw [List.mem_singleton.mp hrequest]
        rfl
      · rw [hsent]
        exact fun _ => rfl

end Deliveries

/-- A JSON text with the space before its only value. -/
def fieldText (space : String) : DeliveryPayload ℤ where
  value := .str (.ofText ("\x7b\"a\":" ++ space ++ "1\x7d"))
  wellFormed := trivial
  kind := .inl ⟨_, rfl⟩

/-- Without a space, `JSON.stringify` writes the text for an object. -/
theorem everyAttemptSends_unspaced :
    EveryAttemptSends (fun secret payload => secret ++ payload) (fieldText "") := by
  refine (everyAttemptSends_iff _ _).mpr ?_
  intro s hs
  cases hs
  refine ⟨.obj [(.ofText "a", .num 1)], ⟨rfl, trivial, trivial⟩, nofun, ?_⟩
  decide +kernel

/-- With one, an attempt sends the text without it. -/
theorem spaced_text_differs :
    ¬ EveryAttemptSends (fun secret payload => secret ++ payload) (fieldText " ") := by
  intro h
  obtain ⟨v, hparse, hsnapshot⟩ := EveryAttemptSends.parses h
  have hsent : (parseAs ℤ JsString (snapshotPayload (fieldText " ").value)).toOption.map snapshotPayload =
      some "\x7b\"a\":1\x7d" := by decide +kernel
  rw [hparse] at hsent
  have htext : snapshotPayload (fieldText " ").value = "\x7b\"a\":1\x7d" := by
    rw [← hsnapshot]
    exact Option.some.inj hsent
  revert htext
  decide +kernel

end CodeWeaknesses.Webhooks
