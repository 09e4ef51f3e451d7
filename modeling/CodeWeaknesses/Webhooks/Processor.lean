import CodeWeaknesses.Webhooks.Listener

/-!
# `WebhookDeliveryProcessor`

Model of `webhooks/processors/webhook-delivery.processor.ts`, of the delivery functions of
`webhooks/webhooks.service.ts`, and of the queue that runs the processor's jobs, together
with the listeners that fill it.

* The queue holds a job until it completes. A job that throws runs again until it has made
  three attempts, and is kept then (`attempts: 3`, `removeOnFail: false`).
* A worker may stop before each of its calls (`RunChoice.stops`). Its job is not recorded as
  completed, and runs again.
* Delays and the order of the waiting jobs are left open: a worker takes any job that waits.
* `lastAttemptAt: new Date()` is the time of the call.
* `createHmac secret payload` is the hexadecimal HMAC-SHA256 of the runtime.

Results:
* `simulatesHooks`: handlers and workers run as their program points do.
-/

namespace CodeWeaknesses.Webhooks

open Lib Lib.Prog

/-! ## The environment -/

/-- The POST of `tryDeliver`. -/
structure PostRequest where
  targetUrl : String
  signature : String
  body : String

/-- A POST that was sent: the job that sent it and the status of its response, `none` when
    `fetch` rejects. -/
structure Post where
  job : WebhookDeliveryJob
  request : PostRequest
  responseCode : Option ℤ

/-- `response.ok`. -/
def responseOk (status : ℤ) : Bool := 200 ≤ status ∧ status ≤ 299

/-- Whether the POST was answered ok. -/
def Post.ok (post : Post) : Bool := post.responseCode.any responseOk

/-- The database with the jobs that the queue holds, the jobs that a worker runs, the
    attempts that each job has made, and the POSTs in the order in which they were sent. -/
structure Hooks where
  db : World
  active : List (Id × ℕ)
  attemptsMade : Id × ℕ → ℕ
  posts : List Post

/-- The calls of the processor. -/
inductive DeliveryOp where
  | findDelivery (id : Id)
  | fetch (request : PostRequest)
  | updateDelivery (id : Id) (status : WebhookDeliveryStatus) (attempts : Option ℕ) (responseCode : Option ℤ)
  | addJob (jobId : Id × ℕ) (data : WebhookDeliveryJob) (delay : ℕ)

/-- What a call returns: a delivery with its subscription, the status of a response. -/
@[reducible] def DeliveryRes : DeliveryOp → Type
  | .findDelivery _ => Option (WebhookDelivery × Option WebhookSubscription)
  | .fetch _ => ℤ
  | .updateDelivery .. => Unit
  | .addJob .. => Unit

/-- What the model leaves open about a step: how a call of the listener or the database goes,
    the time, the answer of the endpoint, the job to take, and whether the worker stops. -/
structure RunChoice where
  call : Choice
  now : Date
  endpoint : Option ℤ
  takes : Id × ℕ
  stops : Bool

/-- Whether the call fails as `Choice.fails` says; `fetch` fails when there is no response. -/
def DeliveryOp.mayThrow : DeliveryOp → Bool
  | .fetch _ => false
  | _ => true

/-- `deliveryRepo.update(id, change)`. -/
def World.updateDelivery (w : World) (id : Id) (change : WebhookDelivery → WebhookDelivery) : World :=
  (w.deliveries.find? id).elim w fun row => { w with deliveries := w.deliveries.upsert (change row) }

/-- A call that `Choice.fails` does not fail, for a job. -/
def deliveryOk (job : WebhookDeliveryJob) (c : RunChoice) (w : Hooks) :
    (o : DeliveryOp) → Except Err (DeliveryRes o) × Hooks
  | .findDelivery id =>
    (.ok ((w.db.deliveries.find? id).map fun row => (row, w.db.subscriptions.find? row.subscription)), w)
  | .fetch request =>
    (c.endpoint.elim (.error (.error "fetch failed")) .ok,
      { w with posts := w.posts ++ [{ job := job, request := request, responseCode := c.endpoint }] })
  | .updateDelivery id status attempts responseCode =>
    (.ok (), { w with db := w.db.updateDelivery id fun row =>
      { row with status := status, attempts := attempts.getD row.attempts, lastAttemptAt := some c.now,
                 responseCode := responseCode } })
  | .addJob jobId data delay => (.ok (), { w with db := w.db.addJob jobId data delay })

/-- The answer to a call of the processor for a job. -/
def deliveryAnswer (job : WebhookDeliveryJob) : Backend DeliveryOp DeliveryRes Err RunChoice Hooks := fun o c w =>
  match c.call.fails with
  | some message => if o.mayThrow then (.error (.error message), w) else deliveryOk job c w o
  | none => deliveryOk job c w o

/-- The calls of the processor. -/
abbrev DeliveryM := Prog DeliveryOp DeliveryRes Err

/-- `await` of one call. -/
abbrev awaitDelivery (o : DeliveryOp) : DeliveryM (DeliveryRes o) := Prog.await o

/-! ## `WebhooksService` -/

/-- `getRetryDelayMs` (lines 51–53). -/
def getRetryDelayMs (attempt : ℕ) : ℕ := min (1000 * 2 ^ (attempt - 1)) 15000

/-- What `tryDeliver` returns. -/
structure DeliveryResult where
  status : WebhookDeliveryStatus
  responseCode : Option ℤ

/-- The result of a POST. -/
def DeliveryResult.of (responseCode : Option ℤ) : DeliveryResult where
  status := if responseCode.any responseOk then .sent else .failed
  responseCode := responseCode

/-- Lines 85–102: `status` and `responseCode` after the `try`. -/
def sendPost (request : PostRequest) : DeliveryM DeliveryResult :=
  tryCatch
    (do
      let status ← awaitDelivery (.fetch request)
      pure (.of (some status)))
    fun _ => pure (.of none)

/-- `markDeliveryRetrying` (lines 124–131). -/
def markDeliveryRetrying (id : Id) (attempt : ℕ) (responseCode : Option ℤ) : DeliveryM Unit :=
  awaitDelivery (.updateDelivery id .pending (some attempt) responseCode)

/-- `markDeliveryFailed` (lines 133–139). -/
def markDeliveryFailed (id : Id) (responseCode : Option ℤ) : DeliveryM Unit :=
  awaitDelivery (.updateDelivery id .failed none responseCode)

section Processor

variable (createHmac : String → String → String)

/-- `signPayload` (lines 55–58). -/
def signPayload (secret payload : String) : String := "sha256=" ++ createHmac secret payload

section Payloads

variable {N S : Type} [NumberFormat N] [StringFormat S]

/-- The POST of a payload. -/
def postRequest (subscription : WebhookSubscription) (payload : Json N S) : PostRequest :=
  let payloadSnapshot := snapshotPayload payload
  { targetUrl := subscription.targetUrl
    signature := signPayload createHmac (subscription.secret.getD "") payloadSnapshot
    body := payloadSnapshot }

/-- `tryDeliver` (lines 77–114); a relation that has no row is null. -/
def tryDeliver (subscription : Option WebhookSubscription) (payload : Json N S) (delivery : WebhookDelivery) :
    DeliveryM DeliveryResult :=
  match subscription with
  | none => throw (.error "Cannot read properties of null (reading 'secret')")
  | some subscription => do
    let result ← sendPost (postRequest createHmac subscription payload)
    awaitDelivery (.updateDelivery delivery.id result.status (some (max delivery.attempts 1)) result.responseCode)
    pure result

end Payloads

/-- Lines 31–46 of `process`. -/
def settle (job : WebhookDeliveryJob) (delivery : WebhookDelivery) (result : DeliveryResult) : DeliveryM Unit :=
  if result.status = .sent then pure ()
  else if job.attempt ≥ 3 then markDeliveryFailed delivery.id result.responseCode
  else do
    let nextAttempt := job.attempt + 1
    let delayMs := getRetryDelayMs nextAttempt
    markDeliveryRetrying delivery.id nextAttempt result.responseCode
    awaitDelivery (.addJob (delivery.id, nextAttempt) { deliveryId := job.deliveryId, attempt := nextAttempt } delayMs)

/-- `process` (lines 19–47), where payloads have numbers of `N` and strings of `S`. -/
def processOf (N S : Type) [NumberFormat N] [StringFormat S] [DecidableEq S] (job : WebhookDeliveryJob) :
    DeliveryM Unit := do
  match ← awaitDelivery (.findDelivery job.deliveryId) with
  | none => pure ()
  | some (delivery, subscription) =>
    let payload ← answered (Json.parseAs N S delivery.payload)
    let result ← tryDeliver createHmac subscription payload delivery
    settle job delivery result

/-- `process`, with the payloads that the listeners store. -/
def process (job : WebhookDeliveryJob) : DeliveryM Unit := processOf createHmac ℤ String job

/-! ## The queue -/

/-- A job that a worker may take: no other worker runs it, and it has attempts left. -/
def Hooks.waiting? (w : Hooks) (jobId : Id × ℕ) : Option Job :=
  (w.db.webhookQueue.find? fun job => job.jobId = jobId).filter fun job =>
    job.jobId ∉ w.active ∧ w.attemptsMade job.jobId < 3

/-- A worker takes the job. -/
def Hooks.start (w : Hooks) (job : Job) : Hooks := { w with active := job.jobId :: w.active }

/-- The worker of the job stops. -/
def Hooks.release (w : Hooks) (job : Job) : Hooks := { w with active := w.active.erase job.jobId }

/-- The job completes and is removed. -/
def Hooks.complete (w : Hooks) (job : Job) : Hooks :=
  { w with
    db := { w.db with webhookQueue := w.db.webhookQueue.filter fun other => other.jobId ≠ job.jobId }
    active := w.active.erase job.jobId
    attemptsMade := Function.update w.attemptsMade job.jobId 0 }

/-- The job throws. -/
def Hooks.fail (w : Hooks) (job : Job) : Hooks :=
  { w with
    active := w.active.erase job.jobId
    attemptsMade := Function.update w.attemptsMade job.jobId (w.attemptsMade job.jobId + 1) }

/-- A handler of `contest.finished`, or a worker of the webhooks queue. -/
inductive Party where
  | listener (i : ℕ)
  | worker (k : ℕ)
  deriving DecidableEq

/-- A worker is idle, or runs a job. -/
@[reducible] def Task : Party → Type
  | .listener _ => M Unit
  | .worker _ => Option (Job × DeliveryM Unit)

/-- One step of a worker. -/
def workerStep (c : RunChoice) : Option (Job × DeliveryM Unit) × Hooks → Option (Job × DeliveryM Unit) × Hooks
  | (none, w) =>
    match w.waiting? c.takes with
    | some job => (some (job, process createHmac job.data), w.start job)
    | none => (none, w)
  | (some (job, p), w) =>
    if c.stops then (none, w.release job)
    else
      match p with
      | .ret _ => (none, w.complete job)
      | .raise _ => (none, w.fail job)
      | .call o k => (some (job, k (deliveryAnswer job.data o c w).1), (deliveryAnswer job.data o c w).2)

/-- One step of a party. -/
def hooksStep : Pool.Stepper Party Task Hooks RunChoice
  | .listener _, c, (p, w) =>
    let r := Prog.step answer c.call (p, w.db)
    (r.1, { w with db := r.2 })
  | .worker _, c, w => workerStep createHmac c w

/-- The handlers of `events` and the workers; none has taken a step, and the queue is empty. -/
def startHooks (events : ℕ → Id) (db : World) : Pool Party Task Hooks where
  tasks
    | .listener i => handleContestFinished (events i)
    | .worker _ => none
  state := { db := { db with webhookQueue := [] }, active := [], attemptsMade := fun _ => 0, posts := [] }

/-! ## Program points -/

/-- Where a handler of `contest.finished` is. -/
inductive ListenerPoint where
  | finding (contestId : Id)
  | querying (contest : Contest)
  | selecting (contest : Contest) (payload : Json)
  | creating (payload : Json) (subscriptions : List WebhookSubscription)
  | adding (payload : Json) (delivery : WebhookDelivery) (subscriptions : List WebhookSubscription)
  | ended
  | raised (e : Err)

/-- What is still to be done. -/
def ListenerPoint.code : ListenerPoint → M Unit
  | .finding contestId => handleContestFinished contestId
  | .querying contest => do
    let submissions ← await (.findSubmissions contest.id)
    let subscriptions ← findActiveByContestId contest.id
    notifyAll (buildPayload contest submissions).toJson subscriptions
  | .selecting contest payload => do
    let subscriptions ← findActiveByContestId contest.id
    notifyAll payload subscriptions
  | .creating payload subscriptions => notifyAll payload subscriptions
  | .adding payload delivery subscriptions => do
    enqueueWebhookDelivery (delivery.id, 1) { deliveryId := delivery.id, attempt := 1 } 0
    notifyAll payload subscriptions
  | .ended => pure ()
  | .raised e => throw e

/-- Go on at the point that the answer leads to. -/
def ListenerPoint.goOn {α : Type} (f : α → ListenerPoint) : Except Err α × World → ListenerPoint × World
  | (.ok a, w) => (f a, w)
  | (.error e, w) => (.raised e, w)

/-- One step of a handler. -/
def ListenerPoint.next (c : Choice) : ListenerPoint × World → ListenerPoint × World
  | (.finding contestId, w) => goOn (fun contest? => contest?.elim .ended .querying) (answer (.findContest contestId) c w)
  | (.querying contest, w) =>
    goOn (fun submissions => .selecting contest (buildPayload contest submissions).toJson)
      (answer (.findSubmissions contest.id) c w)
  | (.selecting contest payload, w) => goOn (.creating payload) (answer (.findSubscriptions contest.id true) c w)
  | (.creating payload [], w) => (.creating payload [], w)
  | (.creating payload (subscription :: subscriptions), w) =>
    goOn (fun delivery => .adding payload delivery subscriptions)
      (answer (.saveDelivery subscription.id .pending 0 none none (snapshotPayload payload)) c w)
  | (.adding payload delivery subscriptions, w) =>
    goOn (fun _ => .creating payload subscriptions)
      (answer (.addJob (delivery.id, 1) { deliveryId := delivery.id, attempt := 1 } 0) c w)
  | (.ended, w) => (.ended, w)
  | (.raised e, w) => (.raised e, w)

/-- Where a job is. -/
inductive JobPoint where
  | finding
  | posting (delivery : WebhookDelivery) (request : PostRequest)
  | updating (delivery : WebhookDelivery) (result : DeliveryResult)
  | failing (delivery : WebhookDelivery) (result : DeliveryResult)
  | retrying (delivery : WebhookDelivery) (result : DeliveryResult)
  | adding (delivery : WebhookDelivery) (result : DeliveryResult)
  | ended
  | raised (e : Err)

/-- What is still to be done for the job. -/
def JobPoint.code (job : WebhookDeliveryJob) : JobPoint → DeliveryM Unit
  | .finding => process createHmac job
  | .posting delivery request => do
    let result ← sendPost request
    awaitDelivery (.updateDelivery delivery.id result.status (some (max delivery.attempts 1)) result.responseCode)
    settle job delivery result
  | .updating delivery result => do
    awaitDelivery (.updateDelivery delivery.id result.status (some (max delivery.attempts 1)) result.responseCode)
    settle job delivery result
  | .failing delivery result => markDeliveryFailed delivery.id result.responseCode
  | .retrying delivery result => do
    markDeliveryRetrying delivery.id (job.attempt + 1) result.responseCode
    awaitDelivery (.addJob (delivery.id, job.attempt + 1)
      { deliveryId := job.deliveryId, attempt := job.attempt + 1 } (getRetryDelayMs (job.attempt + 1)))
  | .adding delivery _ =>
    awaitDelivery (.addJob (delivery.id, job.attempt + 1)
      { deliveryId := job.deliveryId, attempt := job.attempt + 1 } (getRetryDelayMs (job.attempt + 1)))
  | .ended => pure ()
  | .raised e => throw e

/-- Where a delivery that was found leads. -/
def afterFind : Option (WebhookDelivery × Option WebhookSubscription) → JobPoint
  | none => .ended
  | some (delivery, subscription) =>
    match Json.parse delivery.payload with
    | .error e => .raised e
    | .ok payload => subscription.elim (.raised (.error "Cannot read properties of null (reading 'secret')"))
        fun subscription => .posting delivery (postRequest createHmac subscription payload)

/-- Where `settle` starts. -/
def afterUpdate (job : WebhookDeliveryJob) (delivery : WebhookDelivery) (result : DeliveryResult) : JobPoint :=
  if result.status = .sent then .ended
  else if job.attempt ≥ 3 then .failing delivery result
  else .retrying delivery result

/-- Go on at the point that the answer leads to. -/
def JobPoint.goOn {α : Type} (f : α → JobPoint) (g : Err → JobPoint) : Except Err α × Hooks → JobPoint × Hooks
  | (.ok a, w) => (f a, w)
  | (.error e, w) => (g e, w)

/-- One call for a job. -/
def JobPoint.next (job : WebhookDeliveryJob) (c : RunChoice) : JobPoint × Hooks → JobPoint × Hooks
  | (.finding, w) => goOn (afterFind createHmac) .raised (deliveryAnswer job (.findDelivery job.deliveryId) c w)
  | (.posting delivery request, w) =>
    goOn (fun status => .updating delivery (.of (some status))) (fun _ => .updating delivery (.of none))
      (deliveryAnswer job (.fetch request) c w)
  | (.updating delivery result, w) =>
    goOn (fun _ => afterUpdate job delivery result) .raised
      (deliveryAnswer job (.updateDelivery delivery.id result.status (some (max delivery.attempts 1))
        result.responseCode) c w)
  | (.failing delivery result, w) =>
    goOn (fun _ => .ended) .raised
      (deliveryAnswer job (.updateDelivery delivery.id .failed none result.responseCode) c w)
  | (.retrying delivery result, w) =>
    goOn (fun _ => .adding delivery result) .raised
      (deliveryAnswer job (.updateDelivery delivery.id .pending (some (job.attempt + 1)) result.responseCode) c w)
  | (.adding delivery _, w) =>
    goOn (fun _ => .ended) .raised
      (deliveryAnswer job (.addJob (delivery.id, job.attempt + 1)
        { deliveryId := job.deliveryId, attempt := job.attempt + 1 } (getRetryDelayMs (job.attempt + 1))) c w)
  | (.ended, w) => (.ended, w)
  | (.raised e, w) => (.raised e, w)

@[reducible] def PointTask : Party → Type
  | .listener _ => ListenerPoint
  | .worker _ => Option (Job × JobPoint)

/-- `workerStep`, by points. -/
def workerNext (c : RunChoice) : Option (Job × JobPoint) × Hooks → Option (Job × JobPoint) × Hooks
  | (none, w) => ((w.waiting? c.takes).map fun job => (job, .finding), (w.waiting? c.takes).elim w w.start)
  | (some (job, p), w) =>
    if c.stops then (none, w.release job)
    else
      match p with
      | .ended => (none, w.complete job)
      | .raised _ => (none, w.fail job)
      | p =>
        let r := JobPoint.next createHmac job.data c (p, w)
        (some (job, r.1), r.2)

/-- `hooksStep`, by points. -/
def pointsStep : Pool.Stepper Party PointTask Hooks RunChoice
  | .listener _, c, (p, w) =>
    let r := ListenerPoint.next c.call (p, w.db)
    (r.1, { w with db := r.2 })
  | .worker _, c, w => workerNext createHmac c w

def taskOf : (party : Party) → PointTask party → Task party
  | .listener _, p => p.code
  | .worker _, task => task.map fun t => (t.1, t.2.code createHmac t.1.data)

/-- A handler that makes a call goes on with the answer. -/
theorem step_listener {o : Op} {k : Except Err (Res o) → M Unit} {f : Res o → ListenerPoint}
    (hok : ∀ a, k (.ok a) = (f a).code) (herr : ∀ e, k (.error e) = throw e) (c : Choice) (w : World) :
    Prog.step answer c (.call o k, w) =
      ((ListenerPoint.goOn f (answer o c w)).1.code, (ListenerPoint.goOn f (answer o c w)).2) := by
  show (k (answer o c w).1, (answer o c w).2) = _
  rcases answer o c w with ⟨_ | a, w'⟩
  · simp only [herr, ListenerPoint.goOn]
    rfl
  · simp only [hok, ListenerPoint.goOn]

/-- Listeners run as their program points do. -/
theorem listener_step (c : Choice) (p : ListenerPoint) (w : World) :
    Prog.step answer c (p.code, w) = ((ListenerPoint.next c (p, w)).1.code, (ListenerPoint.next c (p, w)).2) := by
  cases p with
  | finding contestId =>
    refine step_listener (fun contest? => ?_) (fun _ => rfl) c w
    cases contest? <;> rfl
  | querying contest => exact step_listener (fun _ => rfl) (fun _ => rfl) c w
  | selecting contest payload => exact step_listener (fun _ => rfl) (fun _ => rfl) c w
  | creating payload subscriptions =>
    cases subscriptions with
    | nil => rfl
    | cons subscription subscriptions => exact step_listener (fun _ => rfl) (fun _ => rfl) c w
  | adding payload delivery subscriptions => exact step_listener (fun _ => rfl) (fun _ => rfl) c w
  | ended => rfl
  | raised e => rfl

theorem goOn_code {job : WebhookDeliveryJob} {o : DeliveryOp} {k : Except Err (DeliveryRes o) → DeliveryM Unit}
    {f : DeliveryRes o → JobPoint} {g : Err → JobPoint} (hok : ∀ a, k (.ok a) = (f a).code createHmac job)
    (herr : ∀ e, k (.error e) = (g e).code createHmac job) (r : Except Err (DeliveryRes o) × Hooks) :
    (k r.1, r.2) = ((JobPoint.goOn f g r).1.code createHmac job, (JobPoint.goOn f g r).2) := by
  rcases r with ⟨_ | a, w⟩
  · simp only [herr, JobPoint.goOn]
  · simp only [hok, JobPoint.goOn]

theorem code_afterFind (job : WebhookDeliveryJob) (delivery : WebhookDelivery)
    (subscription : Option WebhookSubscription) :
    (answered (Json.parse delivery.payload) >>= fun payload =>
      tryDeliver createHmac subscription payload delivery >>= settle job delivery) =
        (afterFind createHmac (some (delivery, subscription))).code createHmac job := by
  unfold afterFind
  dsimp only
  cases Json.parse delivery.payload with
  | error e => rfl
  | ok payload =>
    cases subscription with
    | none => rfl
    | some subscription =>
      rw [answered_ok, ret_bind, tryDeliver, bind_bind]
      simp only [bind_bind]
      rfl

/-- One call of a worker is one step of its point. -/
theorem workerStep_call (job : Job) (c : RunChoice) (p : JobPoint) (w : Hooks) (hp : p ≠ .ended)
    (hraised : ∀ e, p ≠ .raised e) (hstops : c.stops = false) :
    workerStep createHmac c (some (job, p.code createHmac job.data), w) =
      (some (job, (JobPoint.next createHmac job.data c (p, w)).1.code createHmac job.data),
        (JobPoint.next createHmac job.data c (p, w)).2) := by
  have hcall : ∀ {o : DeliveryOp} {k : Except Err (DeliveryRes o) → DeliveryM Unit} {f : DeliveryRes o → JobPoint}
      {g : Err → JobPoint}, (∀ a, k (.ok a) = (f a).code createHmac job.data) →
      (∀ e, k (.error e) = (g e).code createHmac job.data) →
        workerStep createHmac c (some (job, .call o k), w) =
          (some (job, (JobPoint.goOn f g (deliveryAnswer job.data o c w)).1.code createHmac job.data),
            (JobPoint.goOn f g (deliveryAnswer job.data o c w)).2) := by
    intro o k f g hok herr
    have hgoes := Prod.ext_iff.mp (goOn_code createHmac hok herr (deliveryAnswer job.data o c w))
    rw [workerStep, if_neg (by rw [hstops]; decide)]
    exact Prod.ext (congrArg (fun code => some (job, code)) hgoes.1) hgoes.2
  cases p with
  | finding =>
    refine hcall (fun found => ?_) fun _ => rfl
    cases found with
    | none => rfl
    | some found => exact code_afterFind createHmac job.data found.1 found.2
  | posting delivery request => exact hcall (fun _ => rfl) fun _ => rfl
  | updating delivery result =>
    refine hcall (fun _ => ?_) fun _ => rfl
    show settle job.data delivery result = (afterUpdate job.data delivery result).code createHmac job.data
    unfold settle afterUpdate
    split_ifs <;> rfl
  | failing delivery result => exact hcall (fun _ => rfl) fun _ => rfl
  | retrying delivery result => exact hcall (fun _ => rfl) fun _ => rfl
  | adding delivery result => exact hcall (fun _ => rfl) fun _ => rfl
  | ended => exact absurd rfl hp
  | raised e => exact absurd rfl (hraised e)

/-- Listeners and workers run as their program points do. -/
theorem simulatesHooks : Pool.Simulates (hooksStep createHmac) (pointsStep createHmac) (taskOf createHmac) := by
  rintro (i | k) c p w
  · have hstep := Prod.ext_iff.mp (listener_step c.call p w.db)
    exact Prod.ext hstep.1 (congrArg (fun db => { w with db := db }) hstep.2)
  · unfold hooksStep pointsStep
    dsimp only
    cases p with
    | none =>
      unfold workerNext taskOf
      dsimp only [Option.map_none]
      unfold workerStep
      dsimp only
      cases w.waiting? c.takes <;> rfl
    | some t =>
      obtain ⟨job, p⟩ := t
      by_cases hstops : c.stops = true
      · unfold workerNext taskOf
        dsimp only [Option.map_some]
        unfold workerStep
        dsimp only
        rw [if_pos hstops, if_pos hstops]
        rfl
      · have hgoes : c.stops = false := Bool.eq_false_iff.mpr hstops
        unfold workerNext
        dsimp only
        rw [if_neg hstops]
        cases p with
        | ended => exact if_neg hstops
        | raised e => exact if_neg hstops
        | _ => exact workerStep_call createHmac job c _ w nofun nofun hgoes

def startPoints (events : ℕ → Id) (db : World) : Pool Party PointTask Hooks where
  tasks
    | .listener i => .finding (events i)
    | .worker _ => none
  state := { db := { db with webhookQueue := [] }, active := [], attemptsMade := fun _ => 0, posts := [] }

theorem map_startPoints (events : ℕ → Id) (db : World) :
    Pool.map (taskOf createHmac) (startPoints events db) = startHooks events db := by
  apply Pool.ext
  · funext party
    cases party <;> rfl
  · rfl

end Processor

end CodeWeaknesses.Webhooks
