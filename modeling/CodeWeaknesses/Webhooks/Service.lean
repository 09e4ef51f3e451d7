import CodeWeaknesses.Common.Basic
import CodeWeaknesses.Common.JsonParse
import CodeWeaknesses.Lib.Prog
import CodeWeaknesses.Lib.Ranking
import CodeWeaknesses.Lib.Table

/-!
# `WebhooksService` and the webhooks queue

Model of `webhooks/webhooks.service.ts`, of the entities it stores, and of
`enqueueWebhookDelivery` in `queue/queue.service.ts`. Every repository or queue
call is a call of a `Prog`; `answer` says what the database and the queue do.

* A call may throw at any time (`Choice.fails`). A call that throws has no effect.
* A new row gets a generated uuid (`Choice.uuid`); an insert under a stored id throws.
* The text `${delivery.id}_${attempt}` of a job id is the pair of its parts: a
  uuid has no underscore, so two such texts are equal iff the pairs are.
-/

namespace CodeWeaknesses.Webhooks

open Lib

/-! ## Entities -/

/-- `WebhookDeliveryStatus` (`webhook-delivery.entity.ts`). -/
inductive WebhookDeliveryStatus where
  | pending
  | sent
  | failed
  deriving DecidableEq, Repr

/-- `WebhookSubscription` (`webhook-subscription.entity.ts`). -/
structure WebhookSubscription where
  id : Id
  targetUrl : String
  secret : Option String
  contestId : Option Id
  active : Bool
  deriving DecidableEq, Repr

/-- `WebhookDelivery` (`webhook-delivery.entity.ts`); `subscription` is the id of
    the related subscription. -/
structure WebhookDelivery where
  id : Id
  subscription : Id
  status : WebhookDeliveryStatus
  attempts : ℕ
  lastAttemptAt : Option Date
  responseCode : Option ℤ
  payload : String
  deriving DecidableEq, Repr

/-- `CreateWebhookSubscriptionDto`. -/
structure CreateWebhookSubscriptionDto where
  targetUrl : String
  secret : Option String
  contestId : Option Id
  active : Option Bool

/-- `WebhookDeliveryJob` (`webhook-delivery.processor.ts:7-10`). -/
structure WebhookDeliveryJob where
  deliveryId : Id
  attempt : ℕ
  deriving DecidableEq, Repr

/-- A job of the webhooks queue. -/
structure Job where
  jobId : Id × ℕ
  data : WebhookDeliveryJob
  delay : ℕ
  deriving DecidableEq, Repr

/-! ## The database and the queue -/

/-- The tables and the queue that the webhook code reads and writes. `nullsFirst`
    is whether the database sorts nulls before values in ascending order. -/
structure World where
  contests : Table Contest Id Contest.id
  users : Table User Id User.id
  submissions : Table Submission Id Submission.id
  subscriptions : Table WebhookSubscription Id WebhookSubscription.id
  deliveries : Table WebhookDelivery Id WebhookDelivery.id
  webhookQueue : List Job
  nullsFirst : Bool

/-- The calls that leave the process. -/
inductive Op where
  | findContest (id : Id)
  | findSubmissions (contestId : Id)
  | randomBytes
  | saveSubscription (targetUrl : String) (secret : String) (contestId : Option Id) (active : Bool)
  | findSubscriptions (contestId : Id) (active : Bool)
  | saveDelivery (subscription : Id) (status : WebhookDeliveryStatus) (attempts : ℕ)
      (lastAttemptAt : Option Date) (responseCode : Option ℤ) (payload : String)
  | addJob (jobId : Id × ℕ) (data : WebhookDeliveryJob) (delay : ℕ)

/-- What a call returns. -/
@[reducible] def Res : Op → Type
  | .findContest _ => Option Contest
  | .findSubmissions _ => List Submission
  | .randomBytes => String
  | .saveSubscription .. => WebhookSubscription
  | .findSubscriptions .. => List WebhookSubscription
  | .saveDelivery .. => WebhookDelivery
  | .addJob .. => Unit

/-- What the model leaves open about a call: whether it throws, the uuid of a new
    row, the random bytes. -/
structure Choice where
  fails : Option String
  uuid : Id
  random : String

/-- `relations: { user: true }`. -/
def World.withUser (w : World) (s : Submission) : Submission := { s with user := w.users.find? s.userId }

/-- The submissions of a contest with their users loaded, in table order. -/
def World.log (w : World) (contestId : Id) : List Submission :=
  (w.submissions.rows.filter fun s => s.contestId = contestId).map w.withUser

/-- Ascending order of a nullable date. -/
def compareNullable (nullsFirst : Bool) : Option Date → Option Date → ℤ
  | some a, some b => a - b
  | none, none => 0
  | none, some _ => if nullsFirst then -1 else 1
  | some _, none => if nullsFirst then 1 else -1

/-- `order: { score: 'DESC', completedAt: 'ASC' }`. -/
def compareFinished (nullsFirst : Bool) (a b : Submission) : ℤ :=
  if a.score ≠ b.score then b.score - a.score
  else compareNullable nullsFirst a.completedAt b.completedAt

/-- `queue.add(jobId, data, { jobId, delay })`: a job id that the queue holds is not added again. -/
def World.addJob (w : World) (jobId : Id × ℕ) (data : WebhookDeliveryJob) (delay : ℕ) : World :=
  if ∃ j ∈ w.webhookQueue, j.jobId = jobId then w
  else { w with webhookQueue := w.webhookQueue ++ [{ jobId := jobId, data := data, delay := delay }] }

/-- What the database answers to an insert under a stored id. -/
def duplicateKey : Err := .error "duplicate key value violates unique constraint"

/-- A call that does not throw. -/
def answerOk (c : Choice) (w : World) : (o : Op) → Except Err (Res o) × World
  | .findContest id => (.ok ((w.contests.find? id).filter fun contest => contest.deletedAt = none), w)
  | .findSubmissions contestId => (.ok (sortBy (compareFinished w.nullsFirst) (w.log contestId)), w)
  | .randomBytes => (.ok c.random, w)
  | .saveSubscription targetUrl secret contestId active =>
    if (w.subscriptions.find? c.uuid).isSome then (.error duplicateKey, w)
    else
      let row : WebhookSubscription :=
        { id := c.uuid, targetUrl := targetUrl, secret := some secret, contestId := contestId,
          active := active }
      (.ok row, { w with subscriptions := w.subscriptions.upsert row })
  | .findSubscriptions contestId active =>
    (.ok (w.subscriptions.rows.filter fun s => s.contestId = some contestId ∧ s.active = active), w)
  | .saveDelivery subscription status attempts lastAttemptAt responseCode payload =>
    if (w.deliveries.find? c.uuid).isSome then (.error duplicateKey, w)
    else
      let row : WebhookDelivery :=
        { id := c.uuid, subscription := subscription, status := status, attempts := attempts,
          lastAttemptAt := lastAttemptAt, responseCode := responseCode, payload := payload }
      (.ok row, { w with deliveries := w.deliveries.upsert row })
  | .addJob jobId data delay => (.ok (), w.addJob jobId data delay)

/-- The answer to a call. -/
def answer : Backend Op Res Err Choice World := fun o c w =>
  match c.fails with
  | some message => (.error (.error message), w)
  | none => answerOk c w o

/-- A call that returned did not throw. -/
theorem answerOk_of_answer {o : Op} {c : Choice} {w w' : World} {r : Res o}
    (h : answer o c w = (.ok r, w')) : answerOk c w o = (.ok r, w') := by
  unfold answer at h
  split at h
  · cases h
  · exact h

/-- A call that throws has no effect. -/
theorem eq_of_answer_error {o : Op} {c : Choice} {w w' : World} {e : Err}
    (h : answer o c w = (.error e, w')) : w' = w := by
  unfold answer at h
  split at h
  · cases h
    rfl
  · cases o <;> simp only [answerOk] at h
    case saveSubscription =>
      split_ifs at h <;> cases h
      rfl
    case saveDelivery =>
      split_ifs at h <;> cases h
      rfl
    all_goals cases h

/-- The repository and queue calls of the webhook code. -/
abbrev M := Prog Op Res Err

/-- `await` of one call. -/
abbrev await (o : Op) : M (Res o) := Prog.await o

/-! ## `WebhooksService` -/

/-- `create` (lines 18–26). -/
def create (dto : CreateWebhookSubscriptionDto) : M WebhookSubscription := do
  let secret ← match dto.secret with
    | some secret => pure secret
    | none => await .randomBytes
  await (.saveSubscription dto.targetUrl secret dto.contestId (dto.active.getD true))

/-- `findActiveByContestId` (lines 32–36). -/
def findActiveByContestId (contestId : Id) : M (List WebhookSubscription) :=
  await (.findSubscriptions contestId true)

section Payloads

variable {N S : Type} [NumberFormat N] [StringFormat S]

/-- `snapshotPayload` (lines 60–62); a string payload is kept as it is. -/
def snapshotPayload : Json N S → String
  | .str s => StringFormat.text s
  | payload => payload.stringify

/-- `createDelivery` (lines 64–75). -/
def createDelivery (subscription : WebhookSubscription) (payload : Json N S) : M WebhookDelivery :=
  let snapshot := snapshotPayload payload
  await (.saveDelivery subscription.id .pending 0 none none snapshot)

end Payloads

/-- `QueueService.enqueueWebhookDelivery` (`queue.service.ts:97-106`). -/
def enqueueWebhookDelivery (jobId : Id × ℕ) (data : WebhookDeliveryJob) (delayMs : ℕ) : M Unit :=
  await (.addJob jobId data delayMs)

end CodeWeaknesses.Webhooks
