import CodeWeaknesses.Common.JsonRoundTrip
import CodeWeaknesses.Webhooks.Retries

/-!
# The deliveries of a run in which nothing fails

Runs in which the database and the queue answer every call and no worker stops, so that each
job runs once. For each delivery somebody is to go on with it: the listener that adds its
first job, the queue with its next job, or the worker that has sent its last POST.

Results:
* `Tracked.congr`: a step for one delivery leaves the others as they are.
* `Active.takes`, `Active.completes`, `Active.finds`, `Active.posts`, `Settling.updates`,
  `Active.adds`: what the steps for a delivery keep.
* `Settling.work`, `Settling.listen`: what every step keeps.
-/

namespace CodeWeaknesses.Webhooks

open Lib Lib.Prog

/-- The jobs of a delivery that the queue holds. -/
def Hooks.jobsOf (w : Hooks) (deliveryId : Id) : List Job :=
  w.db.webhookQueue.filter fun job => job.data.deliveryId = deliveryId

/-- The answer to the last POST of a delivery: `none` on a network failure. -/
def Hooks.lastCode (w : Hooks) (deliveryId : Id) : Option ℤ :=
  (w.postsOf deliveryId).getLast?.bind Post.responseCode

/-! ## What holds of each delivery -/

/-- The delivery whose first job a listener is about to add. -/
def ListenerPoint.adds : ListenerPoint → Option Id
  | .adding _ delivery _ => some delivery.id
  | _ => none

/-- The job has sent its POST iff its attempt is among the `n` that were made. -/
def JobPoint.InOrder (n : ℕ) (job : WebhookDeliveryJob) : JobPoint → Prop
  | .finding => job.attempt = n + 1
  | .posting .. => job.attempt = n + 1
  | .failing .. => 3 ≤ job.attempt ∧ job.attempt ≤ n
  | .raised _ => False
  | _ => job.attempt ≤ n

/-- The stored row is PENDING, with the answer to the last POST. -/
def Pending (w : Hooks) (d : Id) : Prop :=
  ∃ row, w.db.deliveries.find? d = some row ∧ row.status = .pending ∧ row.responseCode = w.lastCode d

/-- The delivery was answered ok, or has failed three times. -/
structure Settled (w : Hooks) (d : Id) : Prop where
  jobs : ∀ job ∈ w.jobsOf d, job.data.attempt ≠ (w.postsOf d).length + 1
  row : ∃ row, w.db.deliveries.find? d = some row ∧ row.responseCode = w.lastCode d ∧
    (row.status = .sent ∧ (∃ post, (w.postsOf d).getLast? = some post ∧ post.ok = true) ∨
      row.status = .failed ∧ (w.postsOf d).length = 3 ∧ ∀ post ∈ w.postsOf d, post.ok = false)

/-- Nobody works on the delivery. -/
structure Quiet (pool : Pool Party PointTask Hooks) (d : Id) : Prop where
  jobs : pool.state.jobsOf d = []
  posts : pool.state.postsOf d = []
  workers : ∀ k job p, pool.tasks (.worker k) = some (job, p) → job.data.deliveryId ≠ d

/-- Listener `i` is about to add the first job. -/
structure Announced (pool : Pool Party PointTask Hooks) (d : Id) (i : ℕ) : Prop extends Quiet pool d where
  listeners : ∀ i', (pool.tasks (.listener i')).adds = some d ↔ i' = i
  pending : Pending pool.state d

/-- The next job waits or runs, a worker has sent the last POST, or all is done. -/
inductive Progress (pool : Pool Party PointTask Hooks) (d : Id) : Prop where
  | next (job : Job) (hjob : job ∈ pool.state.jobsOf d)
    (hattempt : job.data.attempt = (pool.state.postsOf d).length + 1) (hpending : Pending pool.state d)
  | writes (k : ℕ) (job : Job) (p : JobPoint) (result : DeliveryResult)
    (htask : pool.tasks (.worker k) = some (job, p)) (hd : job.data.deliveryId = d) (hp : p.result? = some result)
    (hadding : ∀ delivery, p = .adding delivery result → Pending pool.state d)
  | done (h : Settled pool.state d)

/-- The first job was added. A job that is left of an attempt that was made is run by a worker. -/
structure Active (pool : Pool Party PointTask Hooks) (d : Id) : Prop where
  stored : (pool.state.db.deliveries.find? d).isSome = true
  listeners : ∀ i, (pool.tasks (.listener i)).adds ≠ some d
  holds : ∀ k job p, pool.tasks (.worker k) = some (job, p) → job.data.deliveryId = d →
    job ∈ pool.state.db.webhookQueue ∧ job.jobId ∈ pool.state.active ∧
      p.InOrder (pool.state.postsOf d).length job.data
  distinct : ∀ k k' job p p', pool.tasks (.worker k) = some (job, p) → pool.tasks (.worker k') = some (job, p') →
    job.data.deliveryId = d → k = k'
  held : ∀ job ∈ pool.state.jobsOf d, job.data.attempt ≤ (pool.state.postsOf d).length →
    ∃ k p, pool.tasks (.worker k) = some (job, p)
  progress : Progress pool d

/-- A delivery is as it was at the start, or one that a listener has stored since. -/
def Tracked (db : World) (pool : Pool Party PointTask Hooks) (d : Id) : Prop :=
  (Quiet pool d ∧ (∀ i, (pool.tasks (.listener i)).adds ≠ some d) ∧
    pool.state.db.deliveries.find? d = db.deliveries.find? d) ∨
  db.deliveries.find? d = none ∧ ((∃ i, Announced pool d i) ∨ Active pool d)

/-- A point of a listener carries the payload of a contest and stored subscriptions. -/
def ListenerPoint.Prepared (w : World) : ListenerPoint → Prop
  | .selecting _ payload => ∃ P : Payload, payload = P.toJson
  | .creating payload subscriptions =>
    (∃ P : Payload, payload = P.toJson) ∧ ∀ s ∈ subscriptions, w.subscriptions.find? s.id = some s
  | .adding payload _ subscriptions =>
    (∃ P : Payload, payload = P.toJson) ∧ ∀ s ∈ subscriptions, w.subscriptions.find? s.id = some s
  | _ => True

/-- A job can send the POST of the delivery: its payload is JSON, and its subscription is stored. -/
structure Sendable (w : World) (row : WebhookDelivery) : Prop where
  payload : ∃ payload, Json.parse row.payload = .ok payload
  subscription : (w.subscriptions.find? row.subscription).isSome = true

/-- What holds in a run in which nothing fails. -/
structure Settling (db : World) (pool : Pool Party PointTask Hooks) : Prop where
  attempted : Attempted pool
  jobIds : ∀ job ∈ pool.state.db.webhookQueue, job.jobId = (job.data.deliveryId, job.data.attempt)
  nodup : (pool.state.db.webhookQueue.map Job.jobId).Nodup
  activeNodup : pool.state.active.Nodup
  owned : ∀ jobId ∈ pool.state.active, ∃ k job p, pool.tasks (.worker k) = some (job, p) ∧ job.jobId = jobId
  attemptsMade : ∀ jobId, pool.state.attemptsMade jobId = 0
  prepared : ∀ i, (pool.tasks (.listener i)).Prepared pool.state.db
  sendable : ∀ d row, db.deliveries.find? d = none → pool.state.db.deliveries.find? d = some row →
    Sendable pool.state.db row
  tracked : ∀ d, Tracked db pool d

section Frame

variable {db : World} {pool pool' : Pool Party PointTask Hooks} {d : Id}

/-- Nothing about the delivery has changed. -/
structure SameFor (pool pool' : Pool Party PointTask Hooks) (d : Id) : Prop where
  row : pool'.state.db.deliveries.find? d = pool.state.db.deliveries.find? d
  jobs : pool'.state.jobsOf d = pool.state.jobsOf d
  posts : pool'.state.postsOf d = pool.state.postsOf d
  workers : ∀ k job p, job.data.deliveryId = d →
    (pool'.tasks (.worker k) = some (job, p) ↔ pool.tasks (.worker k) = some (job, p))
  listeners : ∀ i, (pool'.tasks (.listener i)).adds = some d ↔ (pool.tasks (.listener i)).adds = some d
  active : ∀ job ∈ pool.state.jobsOf d, job.jobId ∈ pool.state.active → job.jobId ∈ pool'.state.active

theorem mem_jobsOf {w : Hooks} {job : Job} :
    job ∈ w.jobsOf d ↔ job ∈ w.db.webhookQueue ∧ job.data.deliveryId = d := by
  rw [Hooks.jobsOf, List.mem_filter, decide_eq_true_iff]

theorem Pending.congr {w w' : Hooks} (h : Pending w d)
    (hrow : w'.db.deliveries.find? d = w.db.deliveries.find? d) (hposts : w'.postsOf d = w.postsOf d) :
    Pending w' d := by
  unfold Pending Hooks.lastCode
  rw [hrow, hposts]
  exact h

theorem Settled.congr {w w' : Hooks} (h : Settled w d)
    (hrow : w'.db.deliveries.find? d = w.db.deliveries.find? d) (hposts : w'.postsOf d = w.postsOf d)
    (hjobs : ∀ job ∈ w'.jobsOf d, job ∈ w.jobsOf d) : Settled w' d where
  jobs job hjob := by
    rw [hposts]
    exact h.jobs job (hjobs job hjob)
  row := by
    unfold Hooks.lastCode
    rw [hrow, hposts]
    exact h.row

theorem Quiet.congr (h : Quiet pool d) (hsame : SameFor pool pool' d) : Quiet pool' d where
  jobs := hsame.jobs.trans h.jobs
  posts := hsame.posts.trans h.posts
  workers k job p htask hd := h.workers k job p ((hsame.workers k job p hd).mp htask) hd

/-- The next job and the worker that writes stay, and nothing is written. -/
theorem Progress.keep (h : Progress pool d)
    (hrow : pool'.state.db.deliveries.find? d = pool.state.db.deliveries.find? d)
    (hposts : pool'.state.postsOf d = pool.state.postsOf d)
    (hjobs : ∀ job ∈ pool'.state.jobsOf d, job ∈ pool.state.jobsOf d)
    (hnext : ∀ job ∈ pool.state.jobsOf d, job.data.attempt = (pool.state.postsOf d).length + 1 →
      job ∈ pool'.state.jobsOf d)
    (hworkers : ∀ k job p result, pool.tasks (.worker k) = some (job, p) → job.data.deliveryId = d →
      p.result? = some result → pool'.tasks (.worker k) = some (job, p)) : Progress pool' d := by
  cases h with
  | next job hjob hattempt hpending =>
    exact .next job (hnext job hjob hattempt) (by rwa [hposts]) (hpending.congr hrow hposts)
  | writes k job p result htask hd hp hadding =>
    refine .writes k job p result (hworkers k job p result htask hd hp) hd hp ?_
    exact fun delivery heq => (hadding delivery heq).congr hrow hposts
  | done hsettled => exact .done (hsettled.congr hrow hposts hjobs)

/-- A step for one delivery leaves the others as they are. -/
theorem Tracked.congr (h : Tracked db pool d) (hsame : SameFor pool pool' d) : Tracked db pool' d := by
  rcases h with ⟨hquiet, hlisteners, hrow⟩ | ⟨hnew, ⟨i, hannounced⟩ | hactive⟩
  · refine .inl ⟨hquiet.congr hsame, fun i hi => hlisteners i ((hsame.listeners i).mp hi), ?_⟩
    rw [hsame.row, hrow]
  · refine .inr ⟨hnew, .inl ⟨i, { hannounced.toQuiet.congr hsame with listeners := ?_, pending := ?_ }⟩⟩
    · exact fun i' => (hsame.listeners i').trans (hannounced.listeners i')
    · exact hannounced.pending.congr hsame.row hsame.posts
  · refine .inr ⟨hnew, .inr ?_⟩
    constructor
    case stored =>
      rw [hsame.row]
      exact hactive.stored
    case listeners => exact fun i hi => hactive.listeners i ((hsame.listeners i).mp hi)
    case holds =>
      intro k job p htask hd
      obtain ⟨hmem, hjob, horder⟩ := hactive.holds k job p ((hsame.workers k job p hd).mp htask) hd
      have hjobs : job ∈ pool'.state.jobsOf d := by
        rw [hsame.jobs]
        exact mem_jobsOf.mpr ⟨hmem, hd⟩
      refine ⟨(mem_jobsOf.mp hjobs).1, hsame.active job (mem_jobsOf.mpr ⟨hmem, hd⟩) hjob, ?_⟩
      rw [hsame.posts]
      exact horder
    case distinct =>
      intro k k' job p p' htask htask' hd
      exact hactive.distinct k k' job p p' ((hsame.workers k job p hd).mp htask)
        ((hsame.workers k' job p' hd).mp htask') hd
    case held =>
      intro job hjob hle
      rw [hsame.jobs] at hjob
      rw [hsame.posts] at hle
      obtain ⟨k, p, htask⟩ := hactive.held job hjob hle
      exact ⟨k, p, (hsame.workers k job p (mem_jobsOf.mp hjob).2).mpr htask⟩
    case progress =>
      refine hactive.progress.keep hsame.row hsame.posts ?_ ?_ ?_
      · rw [hsame.jobs]
        exact fun _ hjob => hjob
      · rw [hsame.jobs]
        exact fun _ hjob _ => hjob
      · exact fun k job p _ htask hd _ => (hsame.workers k job p hd).mpr htask

/-- A step of a worker that is for another delivery. -/
theorem SameFor.of_worker {k : ℕ} (hother : ∀ party, party ≠ .worker k → pool'.tasks party = pool.tasks party)
    (hbefore : ∀ job p, pool.tasks (.worker k) = some (job, p) → job.data.deliveryId ≠ d)
    (hafter : ∀ job p, pool'.tasks (.worker k) = some (job, p) → job.data.deliveryId ≠ d)
    (hrow : pool'.state.db.deliveries.find? d = pool.state.db.deliveries.find? d)
    (hjobs : pool'.state.jobsOf d = pool.state.jobsOf d) (hposts : pool'.state.postsOf d = pool.state.postsOf d)
    (hactive : ∀ job ∈ pool.state.jobsOf d, job.jobId ∈ pool.state.active → job.jobId ∈ pool'.state.active) :
    SameFor pool pool' d where
  row := hrow
  jobs := hjobs
  posts := hposts
  active := hactive
  listeners i := by rw [hother (.listener i) nofun]
  workers k' job p hd := by
    by_cases hk : k' = k
    · subst hk
      exact ⟨fun htask => absurd hd (hafter job p htask), fun htask => absurd hd (hbefore job p htask)⟩
    · rw [hother _ fun heq => hk (by injection heq)]

/-- A step of a listener that is for another delivery. -/
theorem SameFor.of_listener {i : ℕ} (hother : ∀ party, party ≠ .listener i → pool'.tasks party = pool.tasks party)
    (hlistener : (pool'.tasks (.listener i)).adds = some d ↔ (pool.tasks (.listener i)).adds = some d)
    (hrow : pool'.state.db.deliveries.find? d = pool.state.db.deliveries.find? d)
    (hjobs : pool'.state.jobsOf d = pool.state.jobsOf d) (hposts : pool'.state.posts = pool.state.posts)
    (hactive : pool'.state.active = pool.state.active) : SameFor pool pool' d where
  row := hrow
  jobs := hjobs
  posts := by rw [Hooks.postsOf, Hooks.postsOf, hposts]
  active _ _ hjob := by rwa [hactive]
  listeners i' := by
    by_cases hi : i' = i
    · subst hi
      exact hlistener
    · rw [hother _ fun heq => hi (by injection heq)]
  workers k job p _ := by rw [hother (.worker k) nofun]

end Frame

/-! ## The jobs of a delivery -/

section Jobs

variable {db : World} {pool : Pool Party PointTask Hooks} {d : Id}

/-- A delivery that a worker runs a job of. -/
theorem Settling.active_of_worker (h : Settling db pool) {k : ℕ} {job : Job} {p : JobPoint}
    (htask : pool.tasks (.worker k) = some (job, p)) :
    db.deliveries.find? job.data.deliveryId = none ∧ Active pool job.data.deliveryId := by
  rcases h.tracked job.data.deliveryId with ⟨hquiet, _⟩ | ⟨hnew, ⟨_, hannounced⟩ | hactive⟩
  · exact absurd rfl (hquiet.workers k job p htask)
  · exact absurd rfl (hannounced.workers k job p htask)
  · exact ⟨hnew, hactive⟩

/-- A job that a worker runs is held, and in the order of the posts. -/
theorem Settling.holds_of_worker (h : Settling db pool) {k : ℕ} {job : Job} {p : JobPoint}
    (htask : pool.tasks (.worker k) = some (job, p)) :
    job ∈ pool.state.db.webhookQueue ∧ job.jobId ∈ pool.state.active ∧
      p.InOrder (pool.state.postsOf job.data.deliveryId).length job.data :=
  (h.active_of_worker htask).2.holds k job p htask rfl

/-- A delivery that the queue holds a job of. -/
theorem Settling.active_of_queued (h : Settling db pool) {job : Job} (hjob : job ∈ pool.state.db.webhookQueue) :
    db.deliveries.find? job.data.deliveryId = none ∧ Active pool job.data.deliveryId := by
  have hmem : job ∈ pool.state.jobsOf job.data.deliveryId := mem_jobsOf.mpr ⟨hjob, rfl⟩
  rcases h.tracked job.data.deliveryId with ⟨hquiet, _⟩ | ⟨hnew, ⟨_, hannounced⟩ | hactive⟩
  · rw [hquiet.jobs] at hmem
    cases hmem
  · rw [hannounced.jobs] at hmem
    cases hmem
  · exact ⟨hnew, hactive⟩

/-- The queue holds one job of an attempt. -/
theorem Settling.job_ext (h : Settling db pool) {job job' : Job} (hjob : job ∈ pool.state.jobsOf d)
    (hjob' : job' ∈ pool.state.jobsOf d) (hattempt : job.data.attempt = job'.data.attempt) : job = job' := by
  obtain ⟨hmem, hd⟩ := mem_jobsOf.mp hjob
  obtain ⟨hmem', hd'⟩ := mem_jobsOf.mp hjob'
  refine List.inj_on_of_nodup_map h.nodup hmem hmem' ?_
  rw [h.jobIds job hmem, h.jobIds job' hmem', hd, hd', hattempt]

theorem Active.mem_jobsOf (h : Active pool d) {k : ℕ} {job : Job} {p : JobPoint}
    (htask : pool.tasks (.worker k) = some (job, p)) (hd : job.data.deliveryId = d) : job ∈ pool.state.jobsOf d :=
  Webhooks.mem_jobsOf.mpr ⟨(h.holds k job p htask hd).1, hd⟩

/-- One worker runs the job of an attempt. -/
theorem Settling.worker_ext (h : Settling db pool) (hactive : Active pool d) {k k' : ℕ} {job job' : Job}
    {p p' : JobPoint} (htask : pool.tasks (.worker k) = some (job, p))
    (htask' : pool.tasks (.worker k') = some (job', p')) (hd : job.data.deliveryId = d)
    (hd' : job'.data.deliveryId = d) (hattempt : job.data.attempt = job'.data.attempt) : k = k' := by
  obtain rfl := h.job_ext (hactive.mem_jobsOf htask hd) (hactive.mem_jobsOf htask' hd') hattempt
  exact hactive.distinct k k' job p p' htask htask' hd

/-- The worker that still writes after a POST runs the job of the last attempt. -/
theorem Settling.attempt_writer (h : Settling db pool) {k : ℕ} {job : Job} {p : JobPoint} {result : DeliveryResult}
    (htask : pool.tasks (.worker k) = some (job, p)) (hp : p.result? = some result) :
    job.data.attempt = (pool.state.postsOf job.data.deliveryId).length := by
  obtain ⟨post, hlast, hpost, _⟩ := (h.attempted.after k job p result htask hp).last
  rw [← hpost]
  exact h.attempted.attempt_last (by rwa [hpost])

/-- While it writes, the next job is not there yet. -/
theorem Settling.no_next (h : Settling db pool) {k : ℕ} {job : Job} {p : JobPoint} {result : DeliveryResult}
    (htask : pool.tasks (.worker k) = some (job, p)) (hp : p.result? = some result) {other : Job}
    (hother : other ∈ pool.state.jobsOf job.data.deliveryId) :
    other.data.attempt ≠ (pool.state.postsOf job.data.deliveryId).length + 1 := by
  obtain ⟨hmem, hd⟩ := Webhooks.mem_jobsOf.mp hother
  intro hnext
  have hopen := (h.attempted.queued other hmem).next (by rw [hd, hnext])
  have hnone := hopen.result k
  rw [htask, hd, resultFor_eq, hp] at hnone
  cases hnone

/-- A job that waits is one of the next attempt, and no worker runs it. -/
theorem Settling.attempt_waiting (h : Settling db pool) {jobId : Id × ℕ} {job : Job}
    (hwaiting : pool.state.waiting? jobId = some job) :
    job ∈ pool.state.db.webhookQueue ∧ job.jobId ∉ pool.state.active ∧
      job.data.attempt = (pool.state.postsOf job.data.deliveryId).length + 1 := by
  obtain ⟨hfind, hfree⟩ := Option.filter_eq_some_iff.mp hwaiting
  have hmem := List.mem_of_find?_eq_some hfind
  have hidle : job.jobId ∉ pool.state.active := (of_decide_eq_true hfree).1
  obtain ⟨_, hactive⟩ := h.active_of_queued hmem
  refine ⟨hmem, hidle, ?_⟩
  have hle := (h.attempted.queued job hmem).le
  by_contra hne
  -- a job of an attempt that was made is run by a worker
  obtain ⟨k, p, htask⟩ := hactive.held job (Webhooks.mem_jobsOf.mpr ⟨hmem, rfl⟩) (by omega)
  exact hidle (h.holds_of_worker htask).2.1

end Jobs

/-! ## Steps for a delivery -/

section Steps

variable {db : World} {pool pool' : Pool Party PointTask Hooks} {k : ℕ} {job : Job}

theorem JobPoint.InOrder.succ {n : ℕ} {job : WebhookDeliveryJob} {p : JobPoint} (h : p.InOrder n job)
    (hne : job.attempt ≠ n + 1) : p.InOrder (n + 1) job := by
  cases p with
  | finding => exact absurd h hne
  | posting delivery request => exact absurd h hne
  | failing delivery result => exact ⟨h.1, Nat.le_succ_of_le h.2⟩
  | raised e => exact h
  | _ => exact Nat.le_succ_of_le h

theorem task_of_other (hother : ∀ party, party ≠ .worker k → pool'.tasks party = pool.tasks party) {k' : ℕ}
    (hk : k' ≠ k) : pool'.tasks (.worker k') = pool.tasks (.worker k') :=
  hother _ fun heq => hk (by injection heq)

/-- A worker takes the next job. -/
theorem Active.takes (h : Settling db pool) {jobId : Id × ℕ} (hidle : pool.tasks (.worker k) = none)
    (hwaiting : pool.state.waiting? jobId = some job) (htask' : pool'.tasks (.worker k) = some (job, .finding))
    (hstate : pool'.state = pool.state.start job)
    (hother : ∀ party, party ≠ .worker k → pool'.tasks party = pool.tasks party) :
    Active pool' job.data.deliveryId := by
  obtain ⟨hmem, hfree, hattempt⟩ := h.attempt_waiting hwaiting
  obtain ⟨_, hactive⟩ := h.active_of_queued hmem
  have hworkers : ∀ k' other p, k' ≠ k → pool'.tasks (.worker k') = some (other, p) →
      pool.tasks (.worker k') = some (other, p) :=
    fun k' other p hk htask => (task_of_other hother hk).symm.trans htask
  have hkept : ∀ k' other p, pool.tasks (.worker k') = some (other, p) →
      pool'.tasks (.worker k') = some (other, p) := by
    intro k' other p htask
    have hne : k' ≠ k := by
      rintro rfl
      rw [hidle] at htask
      cases htask
    exact (task_of_other hother hne).trans htask
  -- nobody runs the job yet
  have hnew : ∀ k' p, k' ≠ k → pool'.tasks (.worker k') ≠ some (job, p) :=
    fun k' p hk htask => hfree (hactive.holds k' job p (hworkers k' job p hk htask) rfl).2.1
  constructor
  case stored =>
    rw [hstate]
    exact hactive.stored
  case listeners =>
    intro i
    rw [hother (.listener i) nofun]
    exact hactive.listeners i
  case holds =>
    intro k' other p htask hd
    rw [hstate]
    by_cases hk : k' = k
    · subst hk
      cases htask'.symm.trans htask
      exact ⟨hmem, List.mem_cons_self, hattempt⟩
    · obtain ⟨hmem', hjob, horder⟩ := hactive.holds k' other p (hworkers k' other p hk htask) hd
      exact ⟨hmem', List.mem_cons_of_mem _ hjob, horder⟩
  case distinct =>
    intro k₁ k₂ other p₁ p₂ htask₁ htask₂ hd
    by_cases hk₁ : k₁ = k
    · subst hk₁
      cases htask'.symm.trans htask₁
      by_contra hne
      exact hnew k₂ p₂ (fun heq => hne heq.symm) htask₂
    · by_cases hk₂ : k₂ = k
      · subst hk₂
        cases htask'.symm.trans htask₂
        exact absurd htask₁ (hnew k₁ p₁ hk₁)
      · exact hactive.distinct k₁ k₂ other p₁ p₂ (hworkers k₁ other p₁ hk₁ htask₁)
          (hworkers k₂ other p₂ hk₂ htask₂) hd
  case held =>
    intro other hother' hle
    rw [hstate] at hother' hle
    obtain ⟨k', p, htask⟩ := hactive.held other hother' hle
    exact ⟨k', p, hkept k' other p htask⟩
  case progress =>
    have hjobs : pool'.state.jobsOf job.data.deliveryId = pool.state.jobsOf job.data.deliveryId := by
      rw [hstate]
      rfl
    refine hactive.progress.keep (by rw [hstate]; rfl) (by rw [hstate]; rfl) ?_ ?_ ?_
    · rw [hjobs]
      exact fun _ hmem => hmem
    · rw [hjobs]
      exact fun _ hmem _ => hmem
    · exact fun k' other p _ htask _ _ => hkept k' other p htask

/-- A job completes. -/
theorem Active.completes (h : Settling db pool) (htask : pool.tasks (.worker k) = some (job, .ended))
    (hidle' : pool'.tasks (.worker k) = none) (hstate : pool'.state = pool.state.complete job)
    (hother : ∀ party, party ≠ .worker k → pool'.tasks party = pool.tasks party) :
    Active pool' job.data.deliveryId := by
  obtain ⟨_, hactive⟩ := h.active_of_worker htask
  obtain ⟨hmem, _, hmade⟩ := h.holds_of_worker htask
  have hworkers : ∀ k' other p, pool'.tasks (.worker k') = some (other, p) →
      k' ≠ k ∧ pool.tasks (.worker k') = some (other, p) := by
    intro k' other p htask'
    have hne : k' ≠ k := by
      rintro rfl
      rw [hidle'] at htask'
      cases htask'
    exact ⟨hne, (task_of_other hother hne).symm.trans htask'⟩
  -- only the job that completes leaves the queue
  have hjobs : ∀ other, other ∈ pool'.state.jobsOf job.data.deliveryId ↔
      other ∈ pool.state.jobsOf job.data.deliveryId ∧ other.jobId ≠ job.jobId := by
    intro other
    rw [hstate, Webhooks.mem_jobsOf, Webhooks.mem_jobsOf]
    show other ∈ pool.state.db.webhookQueue.filter (fun other => other.jobId ≠ job.jobId) ∧ _ ↔ _
    rw [List.mem_filter, decide_eq_true_iff, and_right_comm]
  have hstays : ∀ other ∈ pool.state.jobsOf job.data.deliveryId, other ≠ job → other.jobId ≠ job.jobId :=
    fun other hother' hne heq => hne (List.inj_on_of_nodup_map h.nodup (Webhooks.mem_jobsOf.mp hother').1 hmem heq)
  constructor
  case stored =>
    rw [hstate]
    exact hactive.stored
  case listeners =>
    intro i
    rw [hother (.listener i) nofun]
    exact hactive.listeners i
  case holds =>
    intro k' other p htask' hd
    obtain ⟨hk, htask₂⟩ := hworkers k' other p htask'
    obtain ⟨hmem', hjob, horder⟩ := hactive.holds k' other p htask₂ hd
    have hne : other.jobId ≠ job.jobId := by
      refine hstays other (hactive.mem_jobsOf htask₂ hd) ?_
      rintro rfl
      exact hk (hactive.distinct k' k other p .ended htask₂ htask rfl)
    refine ⟨(Webhooks.mem_jobsOf.mp ((hjobs other).mpr ⟨hactive.mem_jobsOf htask₂ hd, hne⟩)).1, ?_, ?_⟩
    · rw [hstate]
      exact (List.mem_erase_of_ne hne).mpr hjob
    · rw [hstate]
      exact horder
  case distinct =>
    intro k₁ k₂ other p₁ p₂ htask₁ htask₂ hd
    exact hactive.distinct k₁ k₂ other p₁ p₂ (hworkers k₁ other p₁ htask₁).2 (hworkers k₂ other p₂ htask₂).2 hd
  case held =>
    intro other hother' hle
    obtain ⟨hmem', hne⟩ := (hjobs other).mp hother'
    rw [hstate] at hle
    obtain ⟨k', p, htask'⟩ := hactive.held other hmem' hle
    have hk : k' ≠ k := by
      rintro rfl
      cases htask.symm.trans htask'
      exact hne rfl
    exact ⟨k', p, (task_of_other hother hk).trans htask'⟩
  case progress =>
    refine hactive.progress.keep (by rw [hstate]; rfl) (by rw [hstate]; rfl) ?_ ?_ ?_
    · exact fun other hother' => ((hjobs other).mp hother').1
    · intro other hother' hattempt
      refine (hjobs other).mpr ⟨hother', hstays other hother' ?_⟩
      rintro rfl
      have hle : other.data.attempt ≤ (pool.state.postsOf other.data.deliveryId).length := hmade
      omega
    · intro k' other p result htask' _ hp
      have hk : k' ≠ k := by
        rintro rfl
        cases htask.symm.trans htask'
        cases hp
      exact (task_of_other hother hk).trans htask'

/-- A worker goes on with its job: no job leaves the queue, and a new one is not of an attempt
    that was made. -/
theorem Active.goesOn (h : Settling db pool) {p p' : JobPoint} (htask : pool.tasks (.worker k) = some (job, p))
    (htask' : pool'.tasks (.worker k) = some (job, p'))
    (hother : ∀ party, party ≠ .worker k → pool'.tasks party = pool.tasks party)
    (hactive' : pool'.state.active = pool.state.active)
    (hstored : (pool'.state.db.deliveries.find? job.data.deliveryId).isSome = true)
    (hqueue : ∀ other ∈ pool.state.db.webhookQueue, other ∈ pool'.state.db.webhookQueue)
    (hjobs : ∀ other ∈ pool'.state.jobsOf job.data.deliveryId,
      other.data.attempt ≤ (pool'.state.postsOf job.data.deliveryId).length → other = job ∨
        other ∈ pool.state.jobsOf job.data.deliveryId ∧
          other.data.attempt ≤ (pool.state.postsOf job.data.deliveryId).length)
    (horder : p'.InOrder (pool'.state.postsOf job.data.deliveryId).length job.data)
    (horders : ∀ k' other q, k' ≠ k → pool.tasks (.worker k') = some (other, q) →
      other.data.deliveryId = job.data.deliveryId →
        q.InOrder (pool.state.postsOf job.data.deliveryId).length other.data →
          q.InOrder (pool'.state.postsOf job.data.deliveryId).length other.data)
    (hprogress : Progress pool' job.data.deliveryId) : Active pool' job.data.deliveryId := by
  obtain ⟨_, hactive⟩ := h.active_of_worker htask
  obtain ⟨hmem, hjob, _⟩ := h.holds_of_worker htask
  -- the workers run the jobs that they ran before
  have hworkers : ∀ k' other q, pool'.tasks (.worker k') = some (other, q) →
      ∃ q', pool.tasks (.worker k') = some (other, q') := by
    intro k' other q htask₂
    by_cases hk : k' = k
    · subst hk
      cases htask'.symm.trans htask₂
      exact ⟨p, htask⟩
    · exact ⟨q, (task_of_other hother hk).symm.trans htask₂⟩
  constructor
  case stored => exact hstored
  case listeners =>
    intro i
    rw [hother (.listener i) nofun]
    exact hactive.listeners i
  case holds =>
    intro k' other q htask₂ hd
    rw [hactive']
    by_cases hk : k' = k
    · subst hk
      cases htask'.symm.trans htask₂
      exact ⟨hqueue job hmem, hjob, horder⟩
    · have htask₃ := (task_of_other hother hk).symm.trans htask₂
      obtain ⟨hmem', hjob', horder'⟩ := hactive.holds k' other q htask₃ hd
      exact ⟨hqueue other hmem', hjob', horders k' other q hk htask₃ hd horder'⟩
  case distinct =>
    intro k₁ k₂ other q₁ q₂ htask₁ htask₂ hd
    obtain ⟨q₁', htask₁'⟩ := hworkers k₁ other q₁ htask₁
    obtain ⟨q₂', htask₂'⟩ := hworkers k₂ other q₂ htask₂
    exact hactive.distinct k₁ k₂ other q₁' q₂' htask₁' htask₂' hd
  case held =>
    intro other hother' hle
    rcases hjobs other hother' hle with rfl | ⟨hold, hle'⟩
    · exact ⟨k, p', htask'⟩
    · obtain ⟨k', q, htask₂⟩ := hactive.held other hold hle'
      by_cases hk : k' = k
      · subst hk
        cases htask.symm.trans htask₂
        exact ⟨k', p', htask'⟩
      · exact ⟨k', q, (task_of_other hother hk).trans htask₂⟩
  case progress => exact hprogress

/-- The delivery that a job looks for is found, and its POST can be sent. -/
theorem Settling.afterFind_posting (h : Settling db pool) (createHmac : String → String → String)
    (hnew : db.deliveries.find? job.data.deliveryId = none) (hactive : Active pool job.data.deliveryId) :
    ∃ delivery request, afterFind createHmac ((pool.state.db.deliveries.find? job.data.deliveryId).map fun row =>
      (row, pool.state.db.subscriptions.find? row.subscription)) = .posting delivery request := by
  obtain ⟨row, hrow⟩ := Option.isSome_iff_exists.mp hactive.stored
  obtain ⟨⟨payload, hpayload⟩, hsubscription⟩ := h.sendable job.data.deliveryId row hnew hrow
  obtain ⟨subscription, hsubscription⟩ := Option.isSome_iff_exists.mp hsubscription
  refine ⟨row, postRequest createHmac subscription payload, ?_⟩
  rw [hrow, Option.map_some, hsubscription]
  unfold afterFind
  dsimp only
  rw [hpayload]
  rfl

/-- A job has found its delivery. -/
theorem Active.finds (h : Settling db pool) {createHmac : String → String → String}
    (htask : pool.tasks (.worker k) = some (job, .finding))
    (htask' : pool'.tasks (.worker k) = some (job, afterFind createHmac
      ((pool.state.db.deliveries.find? job.data.deliveryId).map fun row =>
        (row, pool.state.db.subscriptions.find? row.subscription))))
    (hstate : pool'.state = pool.state)
    (hother : ∀ party, party ≠ .worker k → pool'.tasks party = pool.tasks party) :
    Active pool' job.data.deliveryId := by
  obtain ⟨hnew, hactive⟩ := h.active_of_worker htask
  obtain ⟨_, _, hattempt⟩ := h.holds_of_worker htask
  obtain ⟨delivery, request, hpoint⟩ := h.afterFind_posting createHmac hnew hactive
  rw [hpoint] at htask'
  refine .goesOn h htask htask' hother (by rw [hstate]) (by rw [hstate]; exact hactive.stored) ?_ ?_ ?_ ?_ ?_
  · rw [hstate]
    exact fun _ hmem => hmem
  · rw [hstate]
    exact fun other hmem hle => .inr ⟨hmem, hle⟩
  · rw [hstate]
    exact hattempt
  · rw [hstate]
    exact fun _ _ _ _ _ _ horder => horder
  · refine hactive.progress.keep (by rw [hstate]) (by rw [hstate]) ?_ ?_ ?_
    · rw [hstate]
      exact fun _ hmem => hmem
    · rw [hstate]
      exact fun _ hmem _ => hmem
    · intro k' other p result htask₂ _ hp
      have hk : k' ≠ k := by
        rintro rfl
        cases htask.symm.trans htask₂
        cases hp
      exact (task_of_other hother hk).trans htask₂

/-- A job sends its POST. -/
theorem Active.posts (h : Settling db pool) {delivery : WebhookDelivery} {request : PostRequest}
    {responseCode : Option ℤ} (htask : pool.tasks (.worker k) = some (job, .posting delivery request))
    (htask' : pool'.tasks (.worker k) = some (job, .updating delivery (.of responseCode)))
    (hdb : pool'.state.db = pool.state.db) (hactive' : pool'.state.active = pool.state.active)
    (hposts : pool'.state.posts =
      pool.state.posts ++ [{ job := job.data, request := request, responseCode := responseCode }])
    (hother : ∀ party, party ≠ .worker k → pool'.tasks party = pool.tasks party) :
    Active pool' job.data.deliveryId := by
  obtain ⟨_, hactive⟩ := h.active_of_worker htask
  obtain ⟨hmem, _, hattempt⟩ := h.holds_of_worker htask
  have hattempt : job.data.attempt = (pool.state.postsOf job.data.deliveryId).length + 1 := hattempt
  have hlength : (pool'.state.postsOf job.data.deliveryId).length =
      (pool.state.postsOf job.data.deliveryId).length + 1 := by
    rw [postsOf_send hposts, if_pos rfl, List.length_append, List.length_singleton]
  have hjobs : pool'.state.jobsOf job.data.deliveryId = pool.state.jobsOf job.data.deliveryId := by
    rw [Hooks.jobsOf, Hooks.jobsOf, hdb]
  refine .goesOn h htask htask' hother hactive' (by rw [hdb]; exact hactive.stored) ?_ ?_ ?_ ?_ ?_
  · rw [hdb]
    exact fun _ hmem => hmem
  · rw [hjobs, hlength]
    intro other hother' hle
    by_cases heq : other.data.attempt = job.data.attempt
    · exact .inl (h.job_ext hother' (hactive.mem_jobsOf htask rfl) heq)
    · exact .inr ⟨hother', by omega⟩
  · rw [hlength]
    exact le_of_eq hattempt
  · intro k' other q hk htask₂ hd horder
    rw [hlength]
    refine horder.succ fun heq => hk ?_
    exact h.worker_ext hactive htask₂ htask hd rfl (heq.trans hattempt.symm)
  · exact .writes k job _ (.of responseCode) htask' rfl rfl nofun

/-- What is known of the last POST while a worker writes its result. -/
theorem Settling.last_writer (h : Settling db pool) {p : JobPoint} {result : DeliveryResult}
    (htask : pool.tasks (.worker k) = some (job, p)) (hp : p.result? = some result) :
    ∃ post, (pool.state.postsOf job.data.deliveryId).getLast? = some post ∧
      (result.status = .sent ↔ post.ok = true) ∧ result.responseCode = pool.state.lastCode job.data.deliveryId := by
  obtain ⟨post, hlast, _, rfl⟩ := (h.attempted.after k job p result htask hp).last
  refine ⟨post, hlast, status_of, ?_⟩
  rw [Hooks.lastCode, hlast]
  rfl

/-- The update of a delivery leads to the next one, to the next job, or to the end. -/
theorem Settling.updates_progress (h : Settling db pool) {c : RunChoice} {p p' : JobPoint} {delivery : WebhookDelivery}
    {status : WebhookDeliveryStatus} {attempts : Option ℕ} {result : DeliveryResult}
    (hupdate : Update job.data p p' delivery status attempts result)
    (htask : pool.tasks (.worker k) = some (job, p)) (htask' : pool'.tasks (.worker k) = some (job, p'))
    (hrow : ∃ row, pool'.state.db.deliveries.find? job.data.deliveryId =
      some (stored c status attempts result.responseCode row))
    (hposts : pool'.state.postsOf job.data.deliveryId = pool.state.postsOf job.data.deliveryId)
    (hjobs : pool'.state.jobsOf job.data.deliveryId = pool.state.jobsOf job.data.deliveryId) :
    Progress pool' job.data.deliveryId := by
  obtain ⟨_, _, horder⟩ := h.holds_of_worker htask
  have hp : p.result? = some result := (hupdate.spec (h.attempted.running k job p htask).2).1
  obtain ⟨post, hlast, hok, hcode⟩ := h.last_writer htask hp
  obtain ⟨row, hrow⟩ := hrow
  have hcode' : (stored c status attempts result.responseCode row).responseCode =
      pool'.state.lastCode job.data.deliveryId := by
    rw [Hooks.lastCode, hposts]
    exact hcode
  have hnone : ∀ other ∈ pool'.state.jobsOf job.data.deliveryId,
      other.data.attempt ≠ (pool'.state.postsOf job.data.deliveryId).length + 1 := by
    rw [hposts, hjobs]
    exact fun other hother => h.no_next htask hp hother
  cases hupdate with
  | updating =>
    unfold afterUpdate at htask'
    split_ifs at htask' with hsent hthree
    · refine .done ⟨hnone, _, hrow, hcode', .inl ⟨hsent, post, ?_, hok.mp hsent⟩⟩
      rwa [hposts]
    · exact .writes k job _ result htask' rfl rfl nofun
    · exact .writes k job _ result htask' rfl rfl nofun
  | failing =>
    have hthree : 3 ≤ job.data.attempt ∧ job.data.attempt ≤ (pool.state.postsOf job.data.deliveryId).length := horder
    have hle := h.attempted.le_three job.data.deliveryId
    have hfailed : result.status ≠ .sent := (h.attempted.running k job _ htask).2.2
    refine .done ⟨hnone, _, hrow, hcode', .inr ⟨rfl, ?_, ?_⟩⟩
    · rw [hposts]
      omega
    · rw [hposts]
      exact h.attempted.posts_failed hlast (Bool.eq_false_iff.mpr fun heq => hfailed (hok.mpr heq))
  | retrying =>
    exact .writes k job _ result htask' rfl rfl fun _ _ => ⟨_, hrow, rfl, hcode'⟩

theorem webhookQueue_updateDelivery (w : World) (id : Id) (change : WebhookDelivery → WebhookDelivery) :
    (w.updateDelivery id change).webhookQueue = w.webhookQueue := by
  unfold World.updateDelivery
  cases w.deliveries.find? id <;> rfl

theorem Update.inOrder {n : ℕ} {job : WebhookDeliveryJob} {p p' : JobPoint} {delivery : WebhookDelivery}
    {status : WebhookDeliveryStatus} {attempts : Option ℕ} {result : DeliveryResult}
    (h : Update job p p' delivery status attempts result) (hp : p.InOrder n job) : p'.InOrder n job := by
  cases h with
  | updating =>
    unfold afterUpdate
    split_ifs with hsent hthree
    · exact hp
    · exact ⟨hthree, hp⟩
    · exact hp
  | failing => exact hp.2
  | retrying => exact hp

/-- A job updates its delivery. -/
theorem Settling.updates (h : Settling db pool) {c : RunChoice} {p p' : JobPoint} {delivery : WebhookDelivery}
    {status : WebhookDeliveryStatus} {attempts : Option ℕ} {result : DeliveryResult}
    (hupdate : Update job.data p p' delivery status attempts result)
    (htask : pool.tasks (.worker k) = some (job, p)) (htask' : pool'.tasks (.worker k) = some (job, p'))
    (hstate : pool'.state = { pool.state with
      db := pool.state.db.updateDelivery delivery.id (stored c status attempts result.responseCode) })
    (hother : ∀ party, party ≠ .worker k → pool'.tasks party = pool.tasks party) :
    Active pool' job.data.deliveryId := by
  obtain ⟨_, hactive⟩ := h.active_of_worker htask
  obtain ⟨_, _, horder⟩ := h.holds_of_worker htask
  have hid := (hupdate.spec (h.attempted.running k job p htask).2).2.1
  obtain ⟨row, hrow⟩ := Option.isSome_iff_exists.mp hactive.stored
  have hrow' : pool'.state.db.deliveries.find? job.data.deliveryId =
      some (stored c status attempts result.responseCode row) := by
    rw [hstate, find?_updateDelivery, if_pos hid.symm, hrow, Option.map_some]
  have hqueue : pool'.state.db.webhookQueue = pool.state.db.webhookQueue := by
    rw [hstate, webhookQueue_updateDelivery]
  have hposts : pool'.state.postsOf job.data.deliveryId = pool.state.postsOf job.data.deliveryId := by
    rw [hstate]
    rfl
  have hjobs : pool'.state.jobsOf job.data.deliveryId = pool.state.jobsOf job.data.deliveryId := by
    rw [Hooks.jobsOf, Hooks.jobsOf, hqueue]
  refine .goesOn h htask htask' hother (by rw [hstate]) (by rw [hrow']; rfl) ?_ ?_ ?_ ?_ ?_
  · rw [hqueue]
    exact fun _ hmem => hmem
  · rw [hjobs, hposts]
    exact fun other hmem hle => .inr ⟨hmem, hle⟩
  · rw [hposts]
    exact hupdate.inOrder horder
  · rw [hposts]
    exact fun _ _ _ _ _ _ horder => horder
  · exact h.updates_progress hupdate htask htask' ⟨row, hrow'⟩ hposts hjobs

/-- The job of the next attempt is new to the queue. -/
theorem Settling.fresh_next (h : Settling db pool) {delivery : WebhookDelivery} {result : DeliveryResult}
    (htask : pool.tasks (.worker k) = some (job, .adding delivery result)) :
    ¬ ∃ other ∈ pool.state.db.webhookQueue, other.jobId = (nextJob job.data delivery).jobId := by
  have hid : delivery.id = job.data.deliveryId := (h.attempted.running k job _ htask).2.1
  rintro ⟨other, hmem, heq⟩
  rw [h.jobIds other hmem] at heq
  obtain ⟨hd, hnext⟩ := Prod.mk.inj heq
  refine h.no_next htask rfl (Webhooks.mem_jobsOf.mpr ⟨hmem, hd.trans hid⟩) ?_
  rw [hnext, h.attempt_writer htask rfl]

theorem Settling.queue_enqueue (h : Settling db pool) {delivery : WebhookDelivery} {result : DeliveryResult}
    (htask : pool.tasks (.worker k) = some (job, .adding delivery result)) :
    (pool.state.enqueue (nextJob job.data delivery)).db =
      { pool.state.db with webhookQueue := pool.state.db.webhookQueue ++ [nextJob job.data delivery] } := by
  unfold Hooks.enqueue World.addJob
  rw [if_neg (h.fresh_next htask)]

/-- While a worker adds the next job, PENDING is stored. -/
theorem Settling.pending_adding (h : Settling db pool) {delivery : WebhookDelivery} {result : DeliveryResult}
    (htask : pool.tasks (.worker k) = some (job, .adding delivery result)) :
    Pending pool.state job.data.deliveryId := by
  obtain ⟨_, hactive⟩ := h.active_of_worker htask
  have hattempt := h.attempt_writer htask rfl
  cases hactive.progress with
  | next other hother hattempt hpending => exact hpending
  | writes k' other q result' htask' hd hq hadding =>
    have hk : k' = k := by
      refine h.attempted.unique job.data.deliveryId k' k ?_ ?_
      · rw [htask', ← hd, resultFor_eq, hq]
        exact nofun
      · rw [htask, resultFor_eq]
        exact nofun
    subst hk
    cases htask.symm.trans htask'
    cases hq
    exact hadding delivery rfl
  | done hsettled =>
    -- the POST was not answered ok, and it was not the third
    obtain ⟨post, hlast, hok, _⟩ := h.last_writer htask rfl
    obtain ⟨_, _, hfailed, hthree⟩ := h.attempted.running k job _ htask
    obtain ⟨row, _, _, ⟨_, post', hlast', hok'⟩ | ⟨_, hall, _⟩⟩ := hsettled.row
    · cases hlast.symm.trans hlast'
      exact absurd (hok.mpr hok') hfailed
    · omega

/-- A job adds the next one. -/
theorem Active.adds (h : Settling db pool) {delivery : WebhookDelivery} {result : DeliveryResult}
    (htask : pool.tasks (.worker k) = some (job, .adding delivery result))
    (htask' : pool'.tasks (.worker k) = some (job, .ended))
    (hstate : pool'.state = pool.state.enqueue (nextJob job.data delivery))
    (hother : ∀ party, party ≠ .worker k → pool'.tasks party = pool.tasks party) :
    Active pool' job.data.deliveryId := by
  obtain ⟨_, hactive⟩ := h.active_of_worker htask
  obtain ⟨_, _, horder⟩ := h.holds_of_worker htask
  have hattempt := h.attempt_writer htask rfl
  have hdb := (congrArg Hooks.db hstate).trans (h.queue_enqueue htask)
  have hposts : pool'.state.postsOf job.data.deliveryId = pool.state.postsOf job.data.deliveryId := by
    rw [hstate]
    rfl
  have hqueue : ∀ other, other ∈ pool'.state.db.webhookQueue ↔
      other ∈ pool.state.db.webhookQueue ∨ other = nextJob job.data delivery := by
    intro other
    rw [hdb, List.mem_append, List.mem_singleton]
  have hdeliveries : pool'.state.db.deliveries = pool.state.db.deliveries := by rw [hdb]
  refine .goesOn h htask htask' hother (by rw [hstate]; rfl) (by rw [hdeliveries]; exact hactive.stored) ?_ ?_ ?_ ?_ ?_
  · exact fun other hmem => (hqueue other).mpr (.inl hmem)
  · rw [hposts]
    intro other hother' hle
    obtain ⟨hmem, hd⟩ := Webhooks.mem_jobsOf.mp hother'
    rcases (hqueue other).mp hmem with hold | rfl
    · exact .inr ⟨Webhooks.mem_jobsOf.mpr ⟨hold, hd⟩, hle⟩
    · have hle : job.data.attempt + 1 ≤ (pool.state.postsOf job.data.deliveryId).length := hle
      omega
  · rw [hposts]
    exact horder
  · rw [hposts]
    exact fun _ _ _ _ _ _ horder => horder
  · have hpending := h.pending_adding htask
    refine .next (nextJob job.data delivery) (Webhooks.mem_jobsOf.mpr ⟨(hqueue _).mpr (.inr rfl), rfl⟩) ?_ ?_
    · rw [hposts, ← hattempt]
      rfl
    · exact hpending.congr (by rw [hdeliveries]) hposts

end Steps

/-! ## Every step of a worker -/

section Workers

variable {createHmac : String → String → String} {db : World} {pool pool' : Pool Party PointTask Hooks} {k : ℕ}
  {c : RunChoice}

theorem Worked.subscriptions {w w' : Hooks} {t t' : Option (Job × JobPoint)} (h : Worked createHmac c w t t' w') :
    w'.db.subscriptions = w.db.subscriptions := by
  cases h with
  | updates job hupdate =>
    unfold World.updateDelivery
    cases w.db.deliveries.find? _ <;> rfl
  | adds job delivery result =>
    unfold Hooks.enqueue World.addJob
    split_ifs <;> rfl
  | _ => rfl

/-- A row keeps its payload and its subscription. -/
theorem Worked.row {w w' : Hooks} {t t' : Option (Job × JobPoint)} (h : Worked createHmac c w t t' w') {d : Id}
    {row' : WebhookDelivery} (hrow' : w'.db.deliveries.find? d = some row') :
    ∃ row, w.db.deliveries.find? d = some row ∧ row'.payload = row.payload ∧
      row'.subscription = row.subscription := by
  cases h with
  | updates job hupdate =>
    rw [find?_updateDelivery] at hrow'
    split_ifs at hrow'
    · obtain ⟨row, hrow, rfl⟩ := Option.map_eq_some_iff.mp hrow'
      exact ⟨row, hrow, rfl, rfl⟩
    · exact ⟨row', hrow', rfl, rfl⟩
  | adds job delivery result =>
    refine ⟨row', ?_, rfl, rfl⟩
    unfold Hooks.enqueue at hrow'
    rwa [deliveries_addJob] at hrow'
  | _ => exact ⟨row', hrow', rfl, rfl⟩

theorem ListenerPoint.Prepared.congr {w w' : World} {p : ListenerPoint} (h : p.Prepared w)
    (hsubscriptions : w'.subscriptions = w.subscriptions) : p.Prepared w' := by
  cases p with
  | creating payload subscriptions => exact ⟨h.1, by rw [hsubscriptions]; exact h.2⟩
  | adding payload delivery subscriptions => exact ⟨h.1, by rw [hsubscriptions]; exact h.2⟩
  | _ => exact h

/-- The queue keeps its jobs under their own ids, each once. -/
theorem Settling.work_queue (h : Settling db pool) {t' : Option (Job × JobPoint)} {w' : Hooks}
    (hworked : Worked createHmac c pool.state (pool.tasks (.worker k)) t' w') :
    (∀ job ∈ w'.db.webhookQueue, job.jobId = (job.data.deliveryId, job.data.attempt)) ∧
      (w'.db.webhookQueue.map Job.jobId).Nodup := by
  generalize ht : pool.tasks (.worker k) = t at hworked
  cases hworked with
  | completes job =>
    refine ⟨fun other hother => h.jobIds other (List.mem_of_mem_filter hother), ?_⟩
    exact h.nodup.sublist (List.filter_sublist.map Job.jobId)
  | updates job hupdate =>
    rw [webhookQueue_updateDelivery]
    exact ⟨h.jobIds, h.nodup⟩
  | adds job delivery result =>
    have hid : delivery.id = job.data.deliveryId := (h.attempted.running k job _ ht).2.1
    rw [h.queue_enqueue ht]
    constructor
    · intro other hother
      rcases List.mem_append.mp hother with hold | hnew
      · exact h.jobIds other hold
      · rw [List.mem_singleton.mp hnew]
        exact congrArg (fun id => (id, job.data.attempt + 1)) hid
    · rw [List.map_append, List.map_singleton, List.nodup_append']
      refine ⟨h.nodup, List.nodup_singleton _, ?_⟩
      rw [List.disjoint_singleton]
      intro hmem
      obtain ⟨other, hother, heq⟩ := List.mem_map.mp hmem
      exact h.fresh_next ht ⟨other, hother, heq⟩
  | _ => exact ⟨h.jobIds, h.nodup⟩

/-- The active jobs are those that the workers run, and no attempt of a job has failed. -/
theorem Settling.work_active (h : Settling db pool)
    (hworked : Worked createHmac c pool.state (pool.tasks (.worker k)) (pool'.tasks (.worker k)) pool'.state)
    (hother : ∀ party, party ≠ .worker k → pool'.tasks party = pool.tasks party) (hgoes : c.stops = false) :
    pool'.state.active.Nodup ∧
      (∀ jobId ∈ pool'.state.active, ∃ k' job p, pool'.tasks (.worker k') = some (job, p) ∧ job.jobId = jobId) ∧
        ∀ jobId, pool'.state.attemptsMade jobId = 0 := by
  generalize ht : pool.tasks (.worker k) = t at hworked
  generalize ht' : pool'.tasks (.worker k) = t' at hworked
  generalize hw' : pool'.state = w' at hworked
  -- a worker that goes on with its job owns it as before
  have hgoesOn : ∀ {job p p'}, t = some (job, p) → t' = some (job, p') → ∀ jobId ∈ pool.state.active,
      ∃ k' job p, pool'.tasks (.worker k') = some (job, p) ∧ job.jobId = jobId := by
    intro job p p' htask htask' jobId hmem
    obtain ⟨k', other, q, htask₂, hid⟩ := h.owned jobId hmem
    by_cases hk : k' = k
    · subst hk
      cases htask.symm.trans (ht.symm.trans htask₂)
      exact ⟨k', job, p', ht'.trans htask', hid⟩
    · exact ⟨k', other, q, (task_of_other hother hk).trans htask₂, hid⟩
  have hidle : t = none → ∀ jobId ∈ pool.state.active,
      ∃ k' job p, pool'.tasks (.worker k') = some (job, p) ∧ job.jobId = jobId := by
    intro htask jobId hmem
    obtain ⟨k', other, q, htask₂, hid⟩ := h.owned jobId hmem
    have hk : k' ≠ k := by
      rintro rfl
      cases htask.symm.trans (ht.symm.trans htask₂)
    exact ⟨k', other, q, (task_of_other hother hk).trans htask₂, hid⟩
  cases hworked with
  | idle => exact ⟨h.activeNodup, hidle rfl, h.attemptsMade⟩
  | takes hwaiting =>
    rename_i job
    obtain ⟨_, hfree, _⟩ := h.attempt_waiting hwaiting
    refine ⟨List.nodup_cons.mpr ⟨hfree, h.activeNodup⟩, ?_, h.attemptsMade⟩
    intro jobId hmem
    rcases List.mem_cons.mp hmem with rfl | hold
    · exact ⟨k, job, .finding, ht', rfl⟩
    · exact hidle rfl jobId hold
  | stops job p hstops =>
    rw [hgoes] at hstops
    cases hstops
  | completes job =>
    refine ⟨h.activeNodup.erase _, ?_, ?_⟩
    · intro jobId hmem
      obtain ⟨hne, hold⟩ := h.activeNodup.mem_erase_iff.mp hmem
      obtain ⟨k', other, q, htask₂, hid⟩ := h.owned jobId hold
      have hk : k' ≠ k := by
        rintro rfl
        cases ht.symm.trans htask₂
        exact hne hid.symm
      exact ⟨k', other, q, (task_of_other hother hk).trans htask₂, hid⟩
    · intro jobId
      show Function.update pool.state.attemptsMade job.jobId 0 jobId = 0
      rw [Function.update_apply]
      split_ifs
      · rfl
      · exact h.attemptsMade jobId
  | throws job e =>
    exact (h.holds_of_worker ht).2.2.elim
  | fails job p e _ => exact ⟨h.activeNodup, hgoesOn rfl rfl, h.attemptsMade⟩
  | finds job => exact ⟨h.activeNodup, hgoesOn rfl rfl, h.attemptsMade⟩
  | posts job delivery request _ => exact ⟨h.activeNodup, hgoesOn rfl rfl, h.attemptsMade⟩
  | updates job hupdate => exact ⟨h.activeNodup, hgoesOn rfl rfl, h.attemptsMade⟩
  | adds job delivery result => exact ⟨h.activeNodup, hgoesOn rfl rfl, h.attemptsMade⟩

/-- The delivery of the job moves on, and the others stay. -/
theorem Settling.work_tracked (h : Settling db pool)
    (hworked : Worked createHmac c pool.state (pool.tasks (.worker k)) (pool'.tasks (.worker k)) pool'.state)
    (hother : ∀ party, party ≠ .worker k → pool'.tasks party = pool.tasks party) (hgoes : c.stops = false)
    (hflawless : c.call.fails = none) (d : Id) : Tracked db pool' d := by
  generalize ht : pool.tasks (.worker k) = t at hworked
  generalize ht' : pool'.tasks (.worker k) = t' at hworked
  generalize hw' : pool'.state = w' at hworked
  have hframe : (∀ x ∈ t, x.1.data.deliveryId ≠ d) → (∀ x ∈ t', x.1.data.deliveryId ≠ d) →
      w'.db.deliveries.find? d = pool.state.db.deliveries.find? d → w'.jobsOf d = pool.state.jobsOf d →
        w'.postsOf d = pool.state.postsOf d →
          (∀ job ∈ pool.state.jobsOf d, job.jobId ∈ pool.state.active → job.jobId ∈ w'.active) →
            Tracked db pool' d := by
    rintro hbefore hafter hrow hjobs hposts hactive
    rw [← hw'] at hrow hjobs hposts hactive
    refine (h.tracked d).congr (.of_worker hother ?_ ?_ hrow hjobs hposts hactive)
    · exact fun job p htask => hbefore (job, p) (ht.symm.trans htask)
    · exact fun job p htask => hafter (job, p) (ht'.symm.trans htask)
  have hgoesOn : ∀ {job p p'}, t = some (job, p) → t' = some (job, p') → job.data.deliveryId ≠ d →
      w'.db.deliveries.find? d = pool.state.db.deliveries.find? d → w'.jobsOf d = pool.state.jobsOf d →
        w'.postsOf d = pool.state.postsOf d → w'.active = pool.state.active → Tracked db pool' d := by
    rintro job p p' rfl rfl hd hrow hjobs hposts hactive
    refine hframe ?_ ?_ hrow hjobs hposts fun _ _ hjob => by rwa [hactive]
    · rintro x ⟨⟩
      exact hd
    · rintro x ⟨⟩
      exact hd
  have hnobody : ∀ x ∈ (none : Option (Job × JobPoint)), x.1.data.deliveryId ≠ d := by
    intro x hx
    cases hx
  cases hworked with
  | idle => exact hframe hnobody hnobody rfl rfl rfl fun _ _ hjob => hjob
  | takes hwaiting =>
    rename_i job
    by_cases hd : job.data.deliveryId = d
    · subst hd
      obtain ⟨hmem, _⟩ := h.attempt_waiting hwaiting
      exact .inr ⟨(h.active_of_queued hmem).1, .inr (.takes h ht hwaiting ht' hw' hother)⟩
    · refine hframe hnobody ?_ rfl rfl rfl fun _ _ hjob => List.mem_cons_of_mem _ hjob
      rintro x ⟨⟩
      exact hd
  | stops job p hstops =>
    rw [hgoes] at hstops
    cases hstops
  | completes job =>
    obtain ⟨hnew, _⟩ := h.active_of_worker ht
    by_cases hd : job.data.deliveryId = d
    · subst hd
      exact .inr ⟨hnew, .inr (.completes h ht ht' hw' hother)⟩
    · have hne : ∀ other ∈ pool.state.jobsOf d, other.jobId ≠ job.jobId := by
        intro other hmem heq
        obtain ⟨hmem, hd'⟩ := Webhooks.mem_jobsOf.mp hmem
        rw [h.jobIds other hmem, h.jobIds job (h.holds_of_worker ht).1] at heq
        exact hd ((congrArg Prod.fst heq).symm.trans hd')
      refine hframe ?_ hnobody rfl ?_ rfl fun other hmem hjob => (List.mem_erase_of_ne (hne other hmem)).mpr hjob
      · rintro x ⟨⟩
        exact hd
      · unfold Hooks.jobsOf Hooks.complete
        rw [List.filter_comm]
        exact List.filter_eq_self.mpr fun other hmem => decide_eq_true (hne other hmem)
  | throws job e =>
    exact (h.holds_of_worker ht).2.2.elim
  | fails job p e hfails =>
    rw [hflawless] at hfails
    cases hfails
  | finds job =>
    obtain ⟨hnew, _⟩ := h.active_of_worker ht
    by_cases hd : job.data.deliveryId = d
    · subst hd
      exact .inr ⟨hnew, .inr (.finds h ht ht' hw' hother)⟩
    · exact hgoesOn rfl rfl hd rfl rfl rfl rfl
  | posts job delivery request _ =>
    obtain ⟨hnew, _⟩ := h.active_of_worker ht
    by_cases hd : job.data.deliveryId = d
    · subst hd
      exact .inr ⟨hnew, .inr (.posts h ht ht' (by rw [hw']) (by rw [hw']) (by rw [hw']) hother)⟩
    · refine hgoesOn rfl rfl hd rfl rfl ?_ rfl
      rw [postsOf_send rfl, if_neg hd]
  | updates job hupdate =>
    obtain ⟨hnew, _⟩ := h.active_of_worker ht
    by_cases hd : job.data.deliveryId = d
    · subst hd
      exact .inr ⟨hnew, .inr (h.updates hupdate ht ht' hw' hother)⟩
    · have hid := (hupdate.spec (h.attempted.running k job _ ht).2).2.1
      refine hgoesOn rfl rfl hd ?_ ?_ rfl rfl
      · rw [find?_updateDelivery, if_neg fun heq => hd (hid.symm.trans heq.symm)]
      · unfold Hooks.jobsOf
        rw [webhookQueue_updateDelivery]
  | adds job delivery result =>
    obtain ⟨hnew, _⟩ := h.active_of_worker ht
    by_cases hd : job.data.deliveryId = d
    · subst hd
      exact .inr ⟨hnew, .inr (.adds h ht ht' hw' hother)⟩
    · refine hgoesOn rfl rfl hd ?_ ?_ rfl rfl
      · rw [h.queue_enqueue ht]
      · unfold Hooks.jobsOf
        rw [h.queue_enqueue ht, List.filter_append, List.filter_cons_of_neg, List.filter_nil, List.append_nil]
        exact fun heq => hd (of_decide_eq_true heq)

/-- A job sends its first POST: the attempt is not among those made. -/
theorem Settling.sends_first (h : Settling db pool) {job : Job} {delivery : WebhookDelivery} {request : PostRequest}
    (htask : pool.tasks (.worker k) = some (job, .posting delivery request)) :
    ∀ post ∈ pool.state.posts, post.job ≠ job.data := by
  intro post hpost heq
  have hattempt : job.data.attempt = (pool.state.postsOf job.data.deliveryId).length + 1 :=
    (h.holds_of_worker htask).2.2
  have hmem : post ∈ pool.state.postsOf job.data.deliveryId :=
    List.mem_filter.mpr ⟨hpost, decide_eq_true (congrArg WebhookDeliveryJob.deliveryId heq)⟩
  have hmade := List.mem_map_of_mem (f := fun post : Post => post.job.attempt) hmem
  rw [h.attempted.attempts, heq, List.mem_range'_1] at hmade
  omega

/-- What a step of a worker keeps. -/
theorem Settling.work (h : Settling db pool)
    (hworked : Worked createHmac c pool.state (pool.tasks (.worker k)) (pool'.tasks (.worker k)) pool'.state)
    (hother : ∀ party, party ≠ .worker k → pool'.tasks party = pool.tasks party) (hgoes : c.stops = false)
    (hflawless : c.call.fails = none) : Settling db pool' where
  attempted := h.attempted.work hworked hother fun _ _ _ htask _ => h.sends_first htask
  jobIds := (h.work_queue hworked).1
  nodup := (h.work_queue hworked).2
  activeNodup := (h.work_active hworked hother hgoes).1
  owned := (h.work_active hworked hother hgoes).2.1
  attemptsMade := (h.work_active hworked hother hgoes).2.2
  prepared i := by
    rw [hother (.listener i) nofun]
    exact (h.prepared i).congr hworked.subscriptions
  sendable d row' hnew hrow' := by
    obtain ⟨row, hrow, hpayload, hsubscription⟩ := hworked.row hrow'
    have hsendable := h.sendable d row hnew hrow
    refine ⟨?_, ?_⟩
    · rw [hpayload]
      exact hsendable.payload
    · rw [hworked.subscriptions, hsubscription]
      exact hsendable.subscription
  tracked := h.work_tracked hworked hother hgoes hflawless

end Workers

/-! ## Every step of a listener -/

section Listeners

variable {db : World} {pool pool' : Pool Party PointTask Hooks} {i : ℕ} {c : Choice}

theorem wellFormed_winner (winner : Winner) : Json.WellFormed winner.toJson := by
  have hindex : ∀ name ∈ ["name", "score", "solveTimeSeconds"], Json.arrayIndex? name = none := by decide
  have htime : Json.WellFormed (Json.ofNum? winner.solveTimeSeconds) := by
    cases winner.solveTimeSeconds <;> exact trivial
  exact ⟨Json.ownProperties_eq_self (by simp) hindex, trivial, trivial, htime, trivial⟩

theorem wellFormed_payload (P : Payload) : Json.WellFormed P.toJson := by
  have hindex : ∀ name ∈ ["contestId", "contestTitle", "winner"], Json.arrayIndex? name = none := by decide
  have hwinner : Json.WellFormed ((P.winner.map Winner.toJson).getD .null) := by
    cases P.winner with
    | none => exact trivial
    | some winner => exact wellFormed_winner winner
  exact ⟨Json.ownProperties_eq_self (by simp) hindex, trivial, trivial, hwinner, trivial⟩

/-- The payload of a contest is read back from its snapshot. -/
theorem parse_snapshot (P : Payload) : Json.parse (snapshotPayload P.toJson) = .ok P.toJson :=
  Json.parse_stringify (wellFormed_payload P)

theorem prepared_goOn {o : Op} {w : World} {f : Res o → ListenerPoint}
    (hok : ∀ a w', answerOk c w o = (.ok a, w') → (f a).Prepared w) :
    (ListenerPoint.goOn f (answer o c w)).1.Prepared w := by
  rcases h : answer o c w with ⟨e | a, w'⟩
  · trivial
  · exact hok a w' (answerOk_of_answer h)

theorem ListenerPoint.Prepared.next {w : World} {p : ListenerPoint} (h : p.Prepared w) (c : Choice) :
    (ListenerPoint.next c (p, w)).1.Prepared w := by
  cases p with
  | finding contestId =>
    refine prepared_goOn fun contest? w' _ => ?_
    cases contest? <;> trivial
  | querying contest => exact prepared_goOn (o := .findSubmissions contest.id) fun submissions w' _ => ⟨_, rfl⟩
  | selecting contest payload =>
    refine prepared_goOn (o := .findSubscriptions contest.id true) fun subscriptions w' hfound => ⟨h, ?_⟩
    cases hfound
    exact fun s hs => Table.find?_key (List.mem_of_mem_filter hs)
  | creating payload subscriptions =>
    cases subscriptions with
    | nil => exact h
    | cons subscription subscriptions =>
      exact prepared_goOn (o := .saveDelivery subscription.id .pending 0 none none (snapshotPayload payload))
        fun delivery w' _ => ⟨h.1, fun s hs => h.2 s (List.mem_cons_of_mem _ hs)⟩
  | adding payload delivery subscriptions => exact prepared_goOn fun _ _ _ => h
  | ended => trivial
  | raised e => trivial

theorem Listened.subscriptions {w w' : World} {p p' : ListenerPoint} (h : Listened c w p p' w') :
    w'.subscriptions = w.subscriptions := by
  cases h with
  | adds =>
    unfold World.addJob
    split_ifs <;> rfl
  | _ => rfl

theorem adds_iff {p : ListenerPoint} {d : Id} :
    p.adds = some d ↔ ∃ payload delivery subscriptions, p = .adding payload delivery subscriptions ∧ delivery.id = d := by
  cases p with
  | adding payload delivery subscriptions =>
    constructor
    · intro h
      exact ⟨payload, delivery, subscriptions, rfl, Option.some.inj h⟩
    · rintro ⟨_, _, _, ⟨⟩, rfl⟩
      rfl
  | _ => exact ⟨nofun, nofun⟩

/-- A job that the queue accepts is added. -/
theorem next_adding {w : World} {payload : Json} {delivery : WebhookDelivery}
    {subscriptions : List WebhookSubscription}
    (h : Admits (Flawless answer) c ((ListenerPoint.adding payload delivery subscriptions).code, w)) :
    ListenerPoint.next c (.adding payload delivery subscriptions, w) =
      (.creating payload subscriptions, w.addJob (delivery.id, 1) { deliveryId := delivery.id, attempt := 1 } 0) := by
  obtain ⟨_, hok⟩ := h
  unfold ListenerPoint.next
  dsimp only
  rcases hanswer : answer (.addJob (delivery.id, 1) { deliveryId := delivery.id, attempt := 1 } 0) c w with ⟨e | u, w'⟩
  · rw [hanswer] at hok
    cases hok
  · rw [answer_addJob hanswer]
    rfl

/-- No job of a delivery is queued under the id of its first one yet. -/
theorem Settling.fresh_first (h : Settling db pool) {d : Id} (hjobs : pool.state.jobsOf d = []) :
    ∀ job ∈ pool.state.db.webhookQueue, job.jobId.1 ≠ d := by
  intro job hmem hd
  rw [h.jobIds job hmem] at hd
  have hjob : job ∈ pool.state.jobsOf d := Webhooks.mem_jobsOf.mpr ⟨hmem, hd⟩
  rw [hjobs] at hjob
  cases hjob

/-- The first job of a delivery is added. -/
theorem Announced.adds {d : Id} (h : Announced pool d i) (hadds' : (pool'.tasks (.listener i)).adds ≠ some d)
    (hstate : pool'.state = { pool.state with db := { pool.state.db with
      webhookQueue := pool.state.db.webhookQueue ++ [firstJob d] } })
    (hother : ∀ party, party ≠ .listener i → pool'.tasks party = pool.tasks party) : Active pool' d := by
  have hworkers : ∀ k job p, pool'.tasks (.worker k) = some (job, p) → job.data.deliveryId ≠ d := by
    intro k job p htask
    rw [hother (.worker k) nofun] at htask
    exact h.workers k job p htask
  have hposts : pool'.state.postsOf d = [] := by
    rw [hstate]
    exact h.posts
  have hmem : ∀ job, job ∈ pool'.state.jobsOf d ↔ job = firstJob d := by
    intro job
    have hold := h.jobs
    unfold Hooks.jobsOf at hold ⊢
    rw [hstate, List.filter_append, hold, List.nil_append, List.mem_filter, List.mem_singleton]
    constructor
    · exact fun hjob => hjob.1
    · rintro rfl
      exact ⟨rfl, decide_eq_true rfl⟩
  obtain ⟨row, hrow, hstatus, hcode⟩ := h.pending
  have hrow' : pool'.state.db.deliveries.find? d = some row := by
    rw [hstate]
    exact hrow
  constructor
  case stored =>
    rw [hrow']
    rfl
  case listeners =>
    intro i'
    by_cases hi : i' = i
    · subst hi
      exact hadds'
    · rw [hother _ fun heq => hi (by injection heq)]
      exact fun hadds => hi ((h.listeners i').mp hadds)
  case holds => exact fun k job p htask hd => absurd hd (hworkers k job p htask)
  case distinct => exact fun k _ job p _ htask _ hd => absurd hd (hworkers k job p htask)
  case held =>
    intro job hjob hle
    rw [(hmem job).mp hjob, hposts] at hle
    cases hle
  case progress =>
    refine .next (firstJob d) ((hmem _).mpr rfl) ?_ ⟨row, hrow', hstatus, ?_⟩
    · rw [hposts]
      rfl
    · rw [hcode, Hooks.lastCode, Hooks.lastCode, hposts, h.posts]

/-- A delivery that no row has yet is nobody's. -/
theorem Settling.quiet_of_free (h : Settling db pool) {d : Id} (hfree : pool.state.db.deliveries.find? d = none) :
    Quiet pool d ∧ (∀ i, (pool.tasks (.listener i)).adds ≠ some d) ∧ db.deliveries.find? d = none := by
  rcases h.tracked d with ⟨hquiet, hlisteners, hrow⟩ | ⟨_, ⟨_, hannounced⟩ | hactive⟩
  · exact ⟨hquiet, hlisteners, hrow.symm.trans hfree⟩
  · obtain ⟨row, hrow, _⟩ := hannounced.pending
    rw [hfree] at hrow
    cases hrow
  · have hstored := hactive.stored
    rw [hfree] at hstored
    cases hstored

/-- The delivery whose first job a listener is about to add is announced by it. -/
theorem Settling.announced_of_adds (h : Settling db pool) {d : Id}
    (hadds : (pool.tasks (.listener i)).adds = some d) : db.deliveries.find? d = none ∧ Announced pool d i := by
  rcases h.tracked d with ⟨_, hlisteners, _⟩ | ⟨hnew, ⟨i', hannounced⟩ | hactive⟩
  · exact absurd hadds (hlisteners i)
  · obtain rfl := (hannounced.listeners i).mp hadds
    exact ⟨hnew, hannounced⟩
  · exact absurd hadds (hactive.listeners i)

/-- A delivery is stored. -/
theorem Settling.announces (h : Settling db pool) {row : WebhookDelivery} (hrow : row.status = .pending)
    (hcode : row.responseCode = none) (hfree : pool.state.db.deliveries.find? row.id = none)
    (hadds' : (pool'.tasks (.listener i)).adds = some row.id)
    (hstate : pool'.state = { pool.state with db := { pool.state.db with
      deliveries := pool.state.db.deliveries.upsert row } })
    (hother : ∀ party, party ≠ .listener i → pool'.tasks party = pool.tasks party) :
    db.deliveries.find? row.id = none ∧ Announced pool' row.id i := by
  obtain ⟨hquiet, hlisteners, hnew⟩ := h.quiet_of_free hfree
  refine ⟨hnew, ⟨?_, ?_, ?_⟩, ?_, ?_⟩
  · rw [hstate]
    exact hquiet.jobs
  · rw [hstate]
    exact hquiet.posts
  · intro k job p htask
    rw [hother (.worker k) nofun] at htask
    exact hquiet.workers k job p htask
  · intro i'
    by_cases hi : i' = i
    · subst hi
      exact ⟨fun _ => rfl, fun _ => hadds'⟩
    · rw [hother _ fun heq => hi (by injection heq)]
      exact ⟨fun hadds => absurd hadds (hlisteners i'), fun heq => absurd heq hi⟩
  · refine ⟨row, ?_, hrow, ?_⟩
    · rw [hstate]
      exact Table.find?_upsert_self _ row
    · rw [hcode, hstate]
      show none = (pool.state.postsOf row.id).getLast?.bind Post.responseCode
      rw [hquiet.posts]
      rfl

/-- A step of a listener: what is not in the database stays. -/
theorem Settling.of_listener (h : Settling db pool) {w' : World}
    (hprepared : (pool'.tasks (.listener i)).Prepared pool.state.db) (hattempted : Attempted pool')
    (hstate : pool'.state = { pool.state with db := w' })
    (hother : ∀ party, party ≠ .listener i → pool'.tasks party = pool.tasks party)
    (hsubscriptions : w'.subscriptions = pool.state.db.subscriptions)
    (hjobIds : ∀ job ∈ w'.webhookQueue, job.jobId = (job.data.deliveryId, job.data.attempt))
    (hnodup : (w'.webhookQueue.map Job.jobId).Nodup)
    (hsendable : ∀ d row, w'.deliveries.find? d = some row →
      pool.state.db.deliveries.find? d = some row ∨ Sendable pool.state.db row)
    (htracked : ∀ d, Tracked db pool' d) : Settling db pool' where
  attempted := hattempted
  jobIds := by rwa [hstate]
  nodup := by rwa [hstate]
  activeNodup := by
    rw [hstate]
    exact h.activeNodup
  owned := by
    rw [hstate]
    intro jobId hmem
    obtain ⟨k, job, p, htask, hid⟩ := h.owned jobId hmem
    refine ⟨k, job, p, ?_, hid⟩
    rw [hother (.worker k) nofun]
    exact htask
  attemptsMade := by
    rw [hstate]
    exact h.attemptsMade
  prepared i' := by
    rw [hstate]
    by_cases hi : i' = i
    · subst hi
      exact hprepared.congr hsubscriptions
    · rw [hother _ fun heq => hi (by injection heq)]
      exact (h.prepared i').congr hsubscriptions
  sendable d row hnew hrow := by
    rw [hstate] at hrow ⊢
    have hsends : Sendable pool.state.db row := by
      rcases hsendable d row hrow with hold | hsends
      · exact h.sendable d row hnew hold
      · exact hsends
    exact ⟨hsends.payload, by rw [hsubscriptions]; exact hsends.subscription⟩
  tracked := htracked

/-- What a step of a listener keeps that the database and the queue answer. -/
theorem Settling.listen (h : Settling db pool)
    (hadmits : Admits (Flawless answer) c ((pool.tasks (.listener i)).code, pool.state.db)) {w' : World}
    (hnext : ListenerPoint.next c (pool.tasks (.listener i), pool.state.db) = (pool'.tasks (.listener i), w'))
    (hstate : pool'.state = { pool.state with db := w' })
    (hother : ∀ party, party ≠ .listener i → pool'.tasks party = pool.tasks party) : Settling db pool' := by
  have hlistened := listened c pool.state.db (pool.tasks (.listener i))
  have hprepared := (h.prepared i).next c
  rw [hnext] at hlistened hprepared
  have hattempted : Attempted pool' := by
    refine h.attempted.listen (i := i) (c := c) ?_ (by rw [hstate]) hother
    rw [hstate]
    exact hlistened
  have hsubscriptions := hlistened.subscriptions
  have hframe : ∀ {d}, (pool.tasks (.listener i)).adds ≠ some d → (pool'.tasks (.listener i)).adds ≠ some d →
      w'.deliveries.find? d = pool.state.db.deliveries.find? d →
        (w'.webhookQueue.filter fun job => job.data.deliveryId = d) = pool.state.jobsOf d → Tracked db pool' d := by
    intro d hadds hadds' hrow hjobs
    refine (h.tracked d).congr (.of_listener hother ⟨fun heq => absurd heq hadds', fun heq => absurd heq hadds⟩
      ?_ ?_ ?_ ?_)
    · rw [hstate]
      exact hrow
    · rw [hstate]
      exact hjobs
    · rw [hstate]
    · rw [hstate]
  generalize ht : pool.tasks (.listener i) = p at hlistened hadmits hnext hframe
  generalize ht' : pool'.tasks (.listener i) = p' at hlistened hnext hframe
  by_cases hadding : ∃ payload delivery subscriptions, p = .adding payload delivery subscriptions
  · -- the delivery that was announced gets its first job
    obtain ⟨payload, delivery, subscriptions, rfl⟩ := hadding
    rw [next_adding hadmits] at hnext
    cases hnext
    obtain ⟨hnew, hannounced⟩ := h.announced_of_adds (i := i) (d := delivery.id) (by rw [ht]; rfl)
    have hfresh := h.fresh_first hannounced.jobs
    have hadd : pool.state.db.addJob (delivery.id, 1) { deliveryId := delivery.id, attempt := 1 } 0 =
        { pool.state.db with webhookQueue := pool.state.db.webhookQueue ++ [firstJob delivery.id] } :=
      addJob_of_fresh hfresh
    rw [hadd] at hstate hframe hsubscriptions
    refine h.of_listener hprepared hattempted hstate hother hsubscriptions ?_ ?_ (fun d row hrow => .inl hrow) ?_
    · intro job hjob
      rcases List.mem_append.mp hjob with hold | hjob
      · exact h.jobIds job hold
      · rw [List.mem_singleton.mp hjob]
        rfl
    · rw [List.map_append, List.map_singleton, List.nodup_append']
      refine ⟨h.nodup, List.nodup_singleton _, ?_⟩
      rw [List.disjoint_singleton]
      intro hmem
      obtain ⟨job, hjob, heq⟩ := List.mem_map.mp hmem
      exact hfresh job hjob (congrArg Prod.fst heq)
    · intro d
      by_cases hd : delivery.id = d
      · subst hd
        exact .inr ⟨hnew, .inr (hannounced.adds (by rw [ht']; exact nofun) hstate hother)⟩
      · refine hframe (fun heq => hd (Option.some.inj heq)) nofun rfl ?_
        rw [List.filter_append, List.filter_cons_of_neg, List.filter_nil, List.append_nil]
        · rfl
        · exact fun heq => hd (of_decide_eq_true heq)
  have hadds : ∀ d, p.adds ≠ some d := by
    intro d heq
    obtain ⟨payload, delivery, subscriptions, hp, _⟩ := adds_iff.mp heq
    exact hadding ⟨payload, delivery, subscriptions, hp⟩
  cases hlistened with
  | reads hnot =>
    refine h.of_listener hprepared hattempted hstate hother hsubscriptions h.jobIds h.nodup
      (fun d row hrow => .inl hrow) fun d => hframe (hadds d) ?_ rfl rfl
    intro heq
    obtain ⟨payload, delivery, subscriptions, hp, _⟩ := adds_iff.mp heq
    exact hnot payload delivery subscriptions hp
  | saves payload subscription subscriptions hfree =>
    have hstored := h.prepared i
    rw [ht] at hstored
    obtain ⟨⟨P, rfl⟩, hsubs⟩ := hstored
    refine h.of_listener hprepared hattempted hstate hother hsubscriptions h.jobIds h.nodup ?_ ?_
    · intro d row hrow
      dsimp only at hrow
      rw [Table.find?_upsert] at hrow
      split_ifs at hrow
      · cases hrow
        refine .inr ⟨⟨P.toJson, parse_snapshot P⟩, ?_⟩
        exact Option.isSome_iff_exists.mpr ⟨subscription, hsubs subscription List.mem_cons_self⟩
      · exact .inl hrow
    · intro d
      by_cases hd : d = c.uuid
      · subst hd
        set row := pendingDelivery (snapshotPayload P.toJson) subscription c.uuid
        have hadds' : (pool'.tasks (.listener i)).adds = some row.id := by
          rw [ht']
          rfl
        obtain ⟨hnew, hannounced⟩ := h.announces rfl rfl hfree hadds' hstate hother
        exact .inr ⟨hnew, .inl ⟨i, hannounced⟩⟩
      · refine hframe (hadds d) (fun heq => hd (Option.some.inj heq).symm) ?_ rfl
        dsimp only
        rw [Table.find?_upsert, if_neg]
        exact hd
  | adds payload delivery subscriptions => exact absurd rfl (hadds delivery.id)

end Listeners

end CodeWeaknesses.Webhooks
