import CodeWeaknesses.Webhooks.Processor

/-!
# A delivered webhook stays delivered

Runs of the webhooks queue in which any call may throw, a job that threw runs again, and a
worker may stop before its job is recorded as completed. The jobs of a delivery count its
attempts; what goes wrong is that a job that has sent its POST is run once more.

Results:
* `worked`, `listened`: what one step of a worker or of a listener does.
* `Attempted.step`: the POSTs of a delivery are numbered by the attempts of its jobs.
* `delivered_stays`: **in a run in which no job sends a second POST, each delivery gets at most
  three POSTs, none after one that was answered ok, and a stored status SENT stays.**
* `delivered_again`: a job that is run again after its POST was answered ok.
-/

namespace CodeWeaknesses.Webhooks

open Lib Lib.Prog

/-! ## The property -/

/-- The POSTs of a delivery. -/
def Hooks.postsOf (w : Hooks) (deliveryId : Id) : List Post :=
  w.posts.filter fun post => post.job.deliveryId = deliveryId

/-- The stored status of a delivery. -/
def Hooks.status (w : Hooks) (deliveryId : Id) : Option WebhookDeliveryStatus :=
  (w.db.deliveries.find? deliveryId).map WebhookDelivery.status

/-- From `w` on to `w'`, what was delivered stays so. -/
structure StaysDelivered (w w' : Hooks) (deliveryId : Id) : Prop where
  posts : (∃ post ∈ w.postsOf deliveryId, post.ok = true) → w'.postsOf deliveryId = w.postsOf deliveryId
  sent : w.status deliveryId = some .sent → w'.status deliveryId = some .sent

/-- The job that is about to send a POST. -/
def sends : Option (Job × DeliveryM Unit) → Option WebhookDeliveryJob
  | some (job, .call (.fetch _) _) => some job.data
  | _ => none

/-- A job that is about to send a POST has sent none before. -/
def SendsFirst (w : Hooks) (t : Option (Job × DeliveryM Unit)) : Prop :=
  ∀ job ∈ sends t, ∀ post ∈ w.posts, post.job ≠ job

instance (w : Hooks) (t : Option (Job × DeliveryM Unit)) : Decidable (SendsFirst w t) :=
  inferInstanceAs (Decidable (∀ job ∈ sends t, ∀ post ∈ w.posts, post.job ≠ job))

/-- No job sends a second POST. -/
def PostsOnce : Party × RunChoice → Pool Party Task Hooks → Prop
  | (.listener _, _), _ => True
  | (.worker k, c), pool => c.stops = false → SendsFirst pool.state (pool.tasks (.worker k))

instance : ∀ (x : Party × RunChoice) (pool : Pool Party Task Hooks), Decidable (PostsOnce x pool)
  | (.listener _, _), _ => .isTrue trivial
  | (.worker k, c), pool => inferInstanceAs (Decidable (c.stops = false → SendsFirst pool.state (pool.tasks (.worker k))))

/-! ## Steps of a worker -/

/-- The result of the POST that a job has sent, while it still writes. -/
def JobPoint.result? : JobPoint → Option DeliveryResult
  | .updating _ result => some result
  | .failing _ result => some result
  | .retrying _ result => some result
  | .adding _ result => some result
  | _ => none

/-- The delivery of a point is that of the job; what follows a POST follows its result. -/
def JobPoint.Sound (job : WebhookDeliveryJob) : JobPoint → Prop
  | .posting delivery _ => delivery.id = job.deliveryId
  | .updating delivery _ => delivery.id = job.deliveryId
  | .failing delivery result => delivery.id = job.deliveryId ∧ result.status ≠ .sent
  | .retrying delivery result => delivery.id = job.deliveryId ∧ result.status ≠ .sent ∧ job.attempt < 3
  | .adding delivery result => delivery.id = job.deliveryId ∧ result.status ≠ .sent ∧ job.attempt < 3
  | _ => True

/-- The updates of a delivery after its POST: the point before and after, the delivery, and
    what is stored. -/
inductive Update (job : WebhookDeliveryJob) :
    JobPoint → JobPoint → WebhookDelivery → WebhookDeliveryStatus → Option ℕ → DeliveryResult → Prop where
  | updating (delivery : WebhookDelivery) (result : DeliveryResult) :
    Update job (.updating delivery result) (afterUpdate job delivery result) delivery result.status
      (some (max delivery.attempts 1)) result
  | failing (delivery : WebhookDelivery) (result : DeliveryResult) :
    Update job (.failing delivery result) .ended delivery .failed none result
  | retrying (delivery : WebhookDelivery) (result : DeliveryResult) :
    Update job (.retrying delivery result) (.adding delivery result) delivery .pending (some (job.attempt + 1)) result

/-- The update of a row. -/
def stored (c : RunChoice) (status : WebhookDeliveryStatus) (attempts : Option ℕ) (responseCode : Option ℤ)
    (row : WebhookDelivery) : WebhookDelivery :=
  { row with status := status, attempts := attempts.getD row.attempts, lastAttemptAt := some c.now,
             responseCode := responseCode }

/-- The job that `adding` adds. -/
def nextJob (job : WebhookDeliveryJob) (delivery : WebhookDelivery) : Job where
  jobId := (delivery.id, job.attempt + 1)
  data := { deliveryId := job.deliveryId, attempt := job.attempt + 1 }
  delay := getRetryDelayMs (job.attempt + 1)

def Hooks.enqueue (w : Hooks) (job : Job) : Hooks :=
  { w with db := w.db.addJob job.jobId job.data job.delay }

/-- What a worker does in one step: the task before and after, and the state after. -/
inductive Worked (createHmac : String → String → String) (c : RunChoice) (w : Hooks) :
    Option (Job × JobPoint) → Option (Job × JobPoint) → Hooks → Prop where
  | idle (h : w.waiting? c.takes = none) : Worked createHmac c w none none w
  | takes {job : Job} (h : w.waiting? c.takes = some job) :
    Worked createHmac c w none (some (job, .finding)) (w.start job)
  | stops (job : Job) (p : JobPoint) (h : c.stops = true) :
    Worked createHmac c w (some (job, p)) none (w.release job)
  | completes (job : Job) : Worked createHmac c w (some (job, .ended)) none (w.complete job)
  | throws (job : Job) (e : Err) : Worked createHmac c w (some (job, .raised e)) none (w.fail job)
  | fails (job : Job) (p : JobPoint) (e : Err) (h : c.call.fails.isSome = true) :
    Worked createHmac c w (some (job, p)) (some (job, .raised e)) w
  | finds (job : Job) : Worked createHmac c w (some (job, .finding))
      (some (job, afterFind createHmac ((w.db.deliveries.find? job.data.deliveryId).map fun row =>
        (row, w.db.subscriptions.find? row.subscription)))) w
  | posts (job : Job) (delivery : WebhookDelivery) (request : PostRequest) (h : c.stops = false) :
    Worked createHmac c w (some (job, .posting delivery request))
      (some (job, .updating delivery (.of c.endpoint)))
      { w with posts := w.posts ++ [{ job := job.data, request := request, responseCode := c.endpoint }] }
  | updates (job : Job) {p p' : JobPoint} {delivery : WebhookDelivery} {status : WebhookDeliveryStatus}
      {attempts : Option ℕ} {result : DeliveryResult} (h : Update job.data p p' delivery status attempts result) :
    Worked createHmac c w (some (job, p)) (some (job, p'))
      { w with db := w.db.updateDelivery delivery.id (stored c status attempts result.responseCode) }
  | adds (job : Job) (delivery : WebhookDelivery) (result : DeliveryResult) :
    Worked createHmac c w (some (job, .adding delivery result)) (some (job, .ended))
      (w.enqueue (nextJob job.data delivery))

section Steps

variable {createHmac : String → String → String} {c : RunChoice} {w : Hooks}

/-- A call that cannot be failed, or that `Choice.fails` does not fail. -/
theorem deliveryAnswer_cases (job : WebhookDeliveryJob) (o : DeliveryOp) :
    (∃ e, c.call.fails.isSome = true ∧ o.mayThrow = true ∧ deliveryAnswer job o c w = (.error e, w)) ∨
      deliveryAnswer job o c w = deliveryOk job c w o := by
  unfold deliveryAnswer
  cases c.call.fails with
  | none => exact .inr rfl
  | some message =>
    dsimp only
    split_ifs with h
    · exact .inl ⟨_, rfl, h, rfl⟩
    · exact .inr rfl

/-- A call goes on with its answer, or raises its error. -/
theorem worked_goOn {job : Job} {p : JobPoint} {o : DeliveryOp} {f : DeliveryRes o → JobPoint} {a : DeliveryRes o}
    {w' : Hooks} (hok : deliveryOk job.data c w o = (.ok a, w'))
    (hgoes : Worked createHmac c w (some (job, p)) (some (job, f a)) w') :
    Worked createHmac c w (some (job, p)) (some (job, (JobPoint.goOn f .raised (deliveryAnswer job.data o c w)).1))
      (JobPoint.goOn f .raised (deliveryAnswer job.data o c w)).2 := by
  rcases deliveryAnswer_cases job.data o (c := c) (w := w) with ⟨e, hfails, _, h⟩ | h
  · rw [h]
    exact .fails job p e hfails
  · rw [h, hok]
    exact hgoes

/-- One step of a worker. -/
theorem worked (t : Option (Job × JobPoint)) :
    Worked createHmac c w t (workerNext createHmac c (t, w)).1 (workerNext createHmac c (t, w)).2 := by
  cases t with
  | none =>
    unfold workerNext
    dsimp only
    cases htakes : w.waiting? c.takes with
    | none => exact .idle htakes
    | some job => exact .takes htakes
  | some t =>
    obtain ⟨job, p⟩ := t
    unfold workerNext
    dsimp only
    by_cases hstops : c.stops = true
    · rw [if_pos hstops]
      exact .stops job p hstops
    rw [if_neg hstops]
    cases p with
    | ended => exact .completes job
    | raised e => exact .throws job e
    | finding => exact worked_goOn (o := .findDelivery job.data.deliveryId) rfl (.finds job)
    | posting delivery request =>
      -- `fetch` rejects only when there is no response
      dsimp only [JobPoint.next]
      rcases deliveryAnswer_cases job.data (.fetch request) (c := c) (w := w) with ⟨_, _, hthrow, _⟩ | h
      · cases hthrow
      · have hpost : Worked createHmac c w (some (job, .posting delivery request)) _ _ :=
          .posts job delivery request (Bool.eq_false_iff.mpr hstops)
        rw [h, deliveryOk]
        cases hendpoint : c.endpoint <;> rw [hendpoint] at hpost <;> exact hpost
    | updating delivery result => exact worked_goOn rfl (.updates job (.updating delivery result))
    | failing delivery result => exact worked_goOn rfl (.updates job (.failing delivery result))
    | retrying delivery result => exact worked_goOn rfl (.updates job (.retrying delivery result))
    | adding delivery result => exact worked_goOn rfl (.adds job delivery result)

end Steps

/-! ## Steps of a listener -/

/-- What a listener does in one step: the point before and after, and the database after. -/
inductive Listened (c : Choice) (w : World) : ListenerPoint → ListenerPoint → World → Prop where
  | reads {p p' : ListenerPoint}
      (h : ∀ payload delivery subscriptions, p' ≠ .adding payload delivery subscriptions) : Listened c w p p' w
  | saves (payload : Json) (subscription : WebhookSubscription) (subscriptions : List WebhookSubscription)
      (hfree : w.deliveries.find? c.uuid = none) :
    Listened c w (.creating payload (subscription :: subscriptions))
      (.adding payload (pendingDelivery (snapshotPayload payload) subscription c.uuid) subscriptions)
      { w with deliveries := w.deliveries.upsert (pendingDelivery (snapshotPayload payload) subscription c.uuid) }
  | adds (payload : Json) (delivery : WebhookDelivery) (subscriptions : List WebhookSubscription) :
    Listened c w (.adding payload delivery subscriptions) (.creating payload subscriptions)
      (w.addJob (delivery.id, 1) { deliveryId := delivery.id, attempt := 1 } 0)

/-- A call that reads leads to a point that adds nothing. -/
theorem listened_goOn {o : Op} {c : Choice} {w : World} {p : ListenerPoint} {f : Res o → ListenerPoint}
    (hok : ∀ a w', answerOk c w o = (.ok a, w') → Listened c w p (f a) w') :
    Listened c w p (ListenerPoint.goOn f (answer o c w)).1 (ListenerPoint.goOn f (answer o c w)).2 := by
  rcases h : answer o c w with ⟨e | a, w'⟩
  · cases eq_of_answer_error h
    exact .reads (by rintro _ _ _ ⟨⟩)
  · exact hok a w' (answerOk_of_answer h)

/-- One step of a listener. -/
theorem listened (c : Choice) (w : World) (p : ListenerPoint) :
    Listened c w p (ListenerPoint.next c (p, w)).1 (ListenerPoint.next c (p, w)).2 := by
  cases p with
  | finding contestId =>
    refine listened_goOn fun contest? w' h => ?_
    cases h
    cases Option.filter _ (w.contests.find? contestId) <;> exact .reads (by rintro _ _ _ ⟨⟩)
  | querying contest =>
    refine listened_goOn (o := .findSubmissions contest.id) fun submissions w' h => ?_
    cases h
    exact .reads (by rintro _ _ _ ⟨⟩)
  | selecting contest payload =>
    refine listened_goOn (o := .findSubscriptions contest.id true) fun subscriptions w' h => ?_
    cases h
    exact .reads (by rintro _ _ _ ⟨⟩)
  | creating payload subscriptions =>
    cases subscriptions with
    | nil => exact .reads (by rintro _ _ _ ⟨⟩)
    | cons subscription subscriptions =>
      refine listened_goOn
        (o := .saveDelivery subscription.id .pending 0 none none (snapshotPayload payload)) fun delivery w' h => ?_
      simp only [answerOk] at h
      split_ifs at h with hfree
      · cases h
      · cases h
        exact .saves payload subscription subscriptions (by simpa using hfree)
  | adding payload delivery subscriptions =>
    refine listened_goOn fun _ w' h => ?_
    cases h
    exact .adds payload delivery subscriptions
  | ended => exact .reads (by rintro _ _ _ ⟨⟩)
  | raised e => exact .reads (by rintro _ _ _ ⟨⟩)


/-! ## The POSTs of a delivery and its jobs -/

/-- The result of the POST that the task has sent for the delivery and still writes for. -/
def resultFor (deliveryId : Id) : Option (Job × JobPoint) → Option DeliveryResult
  | some (job, p) => if job.data.deliveryId = deliveryId then p.result? else none
  | none => none

/-- A further POST of the delivery may be sent. -/
structure Open (pool : Pool Party PointTask Hooks) (deliveryId : Id) : Prop where
  posts : ∀ post ∈ pool.state.postsOf deliveryId, post.ok = false
  result : ∀ k, resultFor deliveryId (pool.tasks (.worker k)) = none
  status : pool.state.status deliveryId ≠ some .sent

/-- The attempt of a job is one that was made, or the next one. -/
structure Allowed (pool : Pool Party PointTask Hooks) (job : Job) : Prop where
  pos : 1 ≤ job.data.attempt
  le_three : job.data.attempt ≤ 3
  le : job.data.attempt ≤ (pool.state.postsOf job.data.deliveryId).length + 1
  next : job.data.attempt = (pool.state.postsOf job.data.deliveryId).length + 1 → Open pool job.data.deliveryId

/-- The last POST is that of the job, and the stored status is not better than its result. -/
structure AfterPost (w : Hooks) (job : WebhookDeliveryJob) (result : DeliveryResult) : Prop where
  last : ∃ post, (w.postsOf job.deliveryId).getLast? = some post ∧ post.job = job ∧ result = .of post.responseCode
  status : result.status ≠ .sent → w.status job.deliveryId ≠ some .sent

/-- The POSTs of each delivery are numbered by the attempts of its jobs, and a POST that was
    answered ok is the last one. -/
structure Attempted (pool : Pool Party PointTask Hooks) : Prop where
  attempts : ∀ d, (pool.state.postsOf d).map (fun post => post.job.attempt) =
    List.range' 1 (pool.state.postsOf d).length
  early : ∀ d, ∀ post ∈ (pool.state.postsOf d).dropLast, post.ok = false
  le_three : ∀ d, (pool.state.postsOf d).length ≤ 3
  queued : ∀ job ∈ pool.state.db.webhookQueue, Allowed pool job
  running : ∀ k job p, pool.tasks (.worker k) = some (job, p) → Allowed pool job ∧ p.Sound job.data
  after : ∀ k job p result, pool.tasks (.worker k) = some (job, p) → p.result? = some result →
    AfterPost pool.state job.data result
  unique : ∀ d k k', resultFor d (pool.tasks (.worker k)) ≠ none → resultFor d (pool.tasks (.worker k')) ≠ none →
    k = k'
  adding : ∀ i payload delivery subscriptions, pool.tasks (.listener i) = .adding payload delivery subscriptions →
    pool.state.postsOf delivery.id = [] → pool.state.status delivery.id ≠ some .sent

section Attempts

variable {pool pool' : Pool Party PointTask Hooks}

theorem resultFor_eq {job : Job} {p : JobPoint} : resultFor job.data.deliveryId (some (job, p)) = p.result? :=
  if_pos rfl

theorem resultFor_some {d : Id} {t : Option (Job × JobPoint)} {result : DeliveryResult}
    (h : resultFor d t = some result) :
    ∃ job p, t = some (job, p) ∧ job.data.deliveryId = d ∧ p.result? = some result := by
  cases t with
  | none => cases h
  | some t =>
    obtain ⟨job, p⟩ := t
    unfold resultFor at h
    dsimp only at h
    split_ifs at h with hd
    exact ⟨job, p, rfl, hd, h⟩

/-- The last POST of a delivery is that of the attempt with the highest number. -/
theorem Attempted.attempt_last (h : Attempted pool) {d : Id} {post : Post}
    (hlast : (pool.state.postsOf d).getLast? = some post) :
    post.job.attempt = (pool.state.postsOf d).length := by
  have hmap := congrArg List.getLast? (h.attempts d)
  rw [List.getLast?_map, hlast] at hmap
  have hpos : (pool.state.postsOf d).length ≠ 0 := by
    intro hzero
    rw [List.length_eq_zero_iff.mp hzero] at hlast
    cases hlast
  obtain ⟨n, hn⟩ := Nat.exists_eq_succ_of_ne_zero hpos
  rw [hn, List.range'_concat, List.getLast?_concat] at hmap
  have hattempt : post.job.attempt = 1 + 1 * n := Option.some.inj hmap
  omega

/-- While a job still writes, every POST before that of its own failed; so did its own, if the
    result says so. -/
theorem Attempted.posts_failed (h : Attempted pool) {d : Id} {post : Post}
    (hlast : (pool.state.postsOf d).getLast? = some post) (hpost : post.ok = false) :
    ∀ other ∈ pool.state.postsOf d, other.ok = false := by
  intro other hother
  obtain ⟨early, hearly⟩ : ∃ early, pool.state.postsOf d = early ++ [post] := by
    refine ⟨(pool.state.postsOf d).dropLast, ?_⟩
    exact (List.dropLast_append_getLast? post hlast).symm
  have hall := h.early d
  rw [hearly, List.dropLast_concat] at hall
  rw [hearly, List.mem_append, List.mem_singleton] at hother
  rcases hother with hother | rfl
  · exact hall other hother
  · exact hpost

theorem status_of {responseCode : Option ℤ} :
    (DeliveryResult.of responseCode).status = .sent ↔ responseCode.any responseOk = true := by
  unfold DeliveryResult.of
  dsimp only
  split_ifs with h <;> simp [h]

/-- A step that sends no POST: the tasks go on with what they held, jobs that are new in the
    queue are allowed, and a status becomes SENT only where a POST was answered ok. -/
theorem Attempted.keep (h : Attempted pool) (hposts : pool'.state.posts = pool.state.posts)
    (hqueue : ∀ job ∈ pool'.state.db.webhookQueue, job ∈ pool.state.db.webhookQueue ∨ Allowed pool' job)
    (hworkers : ∀ k job p', pool'.tasks (.worker k) = some (job, p') → p'.Sound job.data ∧
      ((∃ p, pool.tasks (.worker k) = some (job, p) ∧ (p'.result? = none ∨ p'.result? = p.result?)) ∨
        job ∈ pool.state.db.webhookQueue ∧ p'.result? = none))
    (hlisteners : ∀ i payload delivery subscriptions,
      pool'.tasks (.listener i) = .adding payload delivery subscriptions →
        pool.tasks (.listener i) = .adding payload delivery subscriptions ∨
          pool'.state.status delivery.id ≠ some .sent)
    (hstatus : ∀ d, pool'.state.status d = some .sent → pool.state.status d = some .sent ∨
      ∃ k result, resultFor d (pool.tasks (.worker k)) = some result ∧ result.status = .sent) :
    Attempted pool' := by
  have hpostsOf : ∀ d, pool'.state.postsOf d = pool.state.postsOf d := by
    intro d
    unfold Hooks.postsOf
    rw [hposts]
  -- what a task writes for, it wrote for before
  have hresult : ∀ d k result, resultFor d (pool'.tasks (.worker k)) = some result →
      resultFor d (pool.tasks (.worker k)) = some result := by
    intro d k result hk
    obtain ⟨job, p', htask', rfl, hp'⟩ := resultFor_some hk
    rcases (hworkers k job p' htask').2 with ⟨p, htask, hnone | hsame⟩ | ⟨_, hnone⟩
    · rw [hnone] at hp'
      cases hp'
    · rw [htask, resultFor_eq, ← hsame, hp']
    · rw [hnone] at hp'
      cases hp'
  have hne : ∀ d k, resultFor d (pool'.tasks (.worker k)) ≠ none → resultFor d (pool.tasks (.worker k)) ≠ none := by
    intro d k hk
    obtain ⟨result, hresult'⟩ := Option.ne_none_iff_exists'.mp hk
    rw [hresult d k result hresult']
    exact nofun
  have hopen : ∀ d, Open pool d → Open pool' d := by
    intro d hd
    constructor
    · rw [hpostsOf]
      exact hd.posts
    · intro k
      by_contra hk
      exact hne d k hk (hd.result k)
    · intro hsent
      rcases hstatus d hsent with hold | ⟨k, result, hk, _⟩
      · exact hd.status hold
      · rw [hd.result k] at hk
        cases hk
  have hallowed : ∀ job, Allowed pool job → Allowed pool' job := by
    intro job hjob
    constructor
    · exact hjob.pos
    · exact hjob.le_three
    · rw [hpostsOf]
      exact hjob.le
    · rw [hpostsOf]
      exact fun hnext => hopen _ (hjob.next hnext)
  constructor
  case attempts =>
    intro d
    rw [hpostsOf]
    exact h.attempts d
  case early =>
    intro d
    rw [hpostsOf]
    exact h.early d
  case le_three =>
    intro d
    rw [hpostsOf]
    exact h.le_three d
  case queued =>
    intro job hjob
    rcases hqueue job hjob with hold | hnew
    · exact hallowed job (h.queued job hold)
    · exact hnew
  case running =>
    intro k job p' htask'
    obtain ⟨hsound, hheld⟩ := hworkers k job p' htask'
    refine ⟨hallowed job ?_, hsound⟩
    rcases hheld with ⟨p, htask, _⟩ | ⟨hmem, _⟩
    · exact (h.running k job p htask).1
    · exact h.queued job hmem
  case after =>
    intro k job p' result htask' hp'
    have hbefore := hresult job.data.deliveryId k result (by rw [htask', resultFor_eq, hp'])
    obtain ⟨job', p, htask, _, hp⟩ := resultFor_some hbefore
    obtain rfl : job' = job := by
      rcases (hworkers k job p' htask').2 with ⟨_, htask₂, _⟩ | ⟨_, hnone⟩
      · cases htask.symm.trans htask₂
        rfl
      · rw [hnone] at hp'
        cases hp'
    have hafter := h.after k job' p result htask hp
    constructor
    · rw [hpostsOf]
      exact hafter.last
    · intro hfailed hsent
      rcases hstatus _ hsent with hold | ⟨k', result', hk', hok⟩
      · exact hafter.status hfailed hold
      · have hkk := h.unique _ k k' (by rw [hbefore]; exact nofun) (by rw [hk']; exact nofun)
        subst hkk
        cases hbefore.symm.trans hk'
        exact hfailed hok
  case unique => exact fun d k k' hk hk' => h.unique d k k' (hne d k hk) (hne d k' hk')
  case adding =>
    intro i payload delivery subscriptions htask hnil hsent
    rw [hpostsOf] at hnil
    rcases hlisteners i payload delivery subscriptions htask with hold | hnot
    · rcases hstatus _ hsent with hbefore | ⟨k, result, hk, _⟩
      · exact h.adding i payload delivery subscriptions hold hnil hbefore
      · obtain ⟨job, p, htask', hd, hp⟩ := resultFor_some hk
        obtain ⟨post, hpost, _⟩ := (h.after k job p result htask' hp).last
        rw [hd, hnil] at hpost
        cases hpost
    · exact hnot hsent

theorem postsOf_send {w w' : Hooks} {post : Post} (h : w'.posts = w.posts ++ [post]) (d : Id) :
    w'.postsOf d = if post.job.deliveryId = d then w.postsOf d ++ [post] else w.postsOf d := by
  unfold Hooks.postsOf
  rw [h, List.filter_append]
  split_ifs with hd <;> simp [hd]

/-- A job that sends its first POST. -/
theorem Attempted.send (h : Attempted pool) {k : ℕ} {job : Job} {delivery : WebhookDelivery}
    {request : PostRequest} {responseCode : Option ℤ}
    (htask : pool.tasks (.worker k) = some (job, .posting delivery request))
    (hfirst : ∀ post ∈ pool.state.posts, post.job ≠ job.data)
    (hposts : pool'.state.posts =
      pool.state.posts ++ [{ job := job.data, request := request, responseCode := responseCode }])
    (hdb : pool'.state.db = pool.state.db)
    (htask' : pool'.tasks (.worker k) = some (job, .updating delivery (.of responseCode)))
    (hother : ∀ party, party ≠ .worker k → pool'.tasks party = pool.tasks party) : Attempted pool' := by
  obtain ⟨hallowed, hsound⟩ := h.running k job _ htask
  have hpositive := hallowed.pos
  have hle := hallowed.le
  have hopen := hallowed.next
  set post : Post := { job := job.data, request := request, responseCode := responseCode }
  set d := job.data.deliveryId with hd
  have hself : pool'.state.postsOf d = pool.state.postsOf d ++ [post] := by
    rw [postsOf_send hposts, if_pos hd.symm]
  have hrest : ∀ d', d' ≠ d → pool'.state.postsOf d' = pool.state.postsOf d' := by
    intro d' hne
    rw [postsOf_send hposts, if_neg fun heq => hne (heq.symm.trans hd.symm)]
  -- the attempt of the job was not made, so it is the next one
  have hnext : job.data.attempt = (pool.state.postsOf d).length + 1 := by
    by_contra hne
    have hmade : job.data.attempt ∈ (pool.state.postsOf d).map fun post => post.job.attempt := by
      rw [h.attempts d, List.mem_range'_1]
      omega
    obtain ⟨other, hmem, hattempt⟩ := List.mem_map.mp hmade
    obtain ⟨hposted, hdelivery⟩ := List.mem_filter.mp hmem
    refine hfirst other hposted ?_
    have hid : other.job.deliveryId = job.data.deliveryId := of_decide_eq_true hdelivery
    cases hjob : other.job with
    | mk deliveryId attempt =>
      rw [hjob] at hid hattempt
      cases hdata : job.data with
      | mk deliveryId' attempt' =>
        rw [hdata] at hid hattempt
        exact congrArg₂ WebhookDeliveryJob.mk hid hattempt
  have hopen := hopen hnext
  have hstatus : ∀ d', pool'.state.status d' = pool.state.status d' := by
    intro d'
    unfold Hooks.status
    rw [hdb]
  have hresult : ∀ d' k', k' ≠ k → resultFor d' (pool'.tasks (.worker k')) = resultFor d' (pool.tasks (.worker k')) := by
    intro d' k' hne
    rw [hother _ fun heq => hne (by injection heq)]
  -- nobody else writes for the delivery of the job, and the job writes for no other
  have hwriters : ∀ d' k', resultFor d' (pool'.tasks (.worker k')) ≠ none →
      d' = d ∧ k' = k ∨ d' ≠ d ∧ k' ≠ k ∧ resultFor d' (pool.tasks (.worker k')) ≠ none := by
    intro d' k' hk'
    by_cases hk : k' = k
    · subst hk
      obtain ⟨result, hresult'⟩ := Option.ne_none_iff_exists'.mp hk'
      obtain ⟨job', p, htask₂, hd', _⟩ := resultFor_some hresult'
      cases htask'.symm.trans htask₂
      exact .inl ⟨hd'.symm, rfl⟩
    · rw [hresult d' k' hk] at hk'
      refine .inr ⟨?_, hk, hk'⟩
      rintro rfl
      exact hk' (hopen.result k')
  have hallowed' : ∀ job', Allowed pool job' → Allowed pool' job' := by
    intro job' hjob'
    by_cases hd' : job'.data.deliveryId = d
    · constructor
      · exact hjob'.pos
      · exact hjob'.le_three
      · have hle := hjob'.le
        rw [hd'] at hle ⊢
        rw [hself, List.length_append]
        omega
      · intro hlast
        have hle := hjob'.le
        rw [hd'] at hle hlast
        rw [hself, List.length_append, List.length_singleton] at hlast
        omega
    · constructor
      · exact hjob'.pos
      · exact hjob'.le_three
      · rw [hrest _ hd']
        exact hjob'.le
      · rw [hrest _ hd']
        intro hlast
        have hold := hjob'.next hlast
        constructor
        · rw [hrest _ hd']
          exact hold.posts
        · intro k'
          by_contra hk'
          rcases hwriters _ k' hk' with ⟨heq, _⟩ | ⟨_, _, hold'⟩
          · exact hd' heq
          · exact hold' (hold.result k')
        · rw [hstatus]
          exact hold.status
  constructor
  case attempts =>
    intro d'
    by_cases hd' : d' = d
    · subst hd'
      rw [hself, List.map_append, h.attempts, List.length_append, List.length_singleton, List.range'_concat]
      refine congrArg (fun n => List.range' 1 _ ++ [n]) ?_
      show job.data.attempt = _
      omega
    · rw [hrest d' hd']
      exact h.attempts d'
  case early =>
    intro d'
    by_cases hd' : d' = d
    · subst hd'
      rw [hself, List.dropLast_concat]
      exact hopen.posts
    · rw [hrest d' hd']
      exact h.early d'
  case le_three =>
    intro d'
    by_cases hd' : d' = d
    · subst hd'
      have hle := hallowed.le_three
      rw [hself, List.length_append, List.length_singleton]
      omega
    · rw [hrest d' hd']
      exact h.le_three d'
  case queued =>
    intro job' hjob'
    rw [hdb] at hjob'
    exact hallowed' job' (h.queued job' hjob')
  case running =>
    intro k' job' p' htask₂
    by_cases hk : k' = k
    · subst hk
      cases htask'.symm.trans htask₂
      exact ⟨hallowed' job hallowed, hsound⟩
    · rw [hother _ fun heq => hk (by injection heq)] at htask₂
      obtain ⟨hjob', hp'⟩ := h.running k' job' p' htask₂
      exact ⟨hallowed' job' hjob', hp'⟩
  case after =>
    intro k' job' p' result htask₂ hp'
    have hk' : resultFor job'.data.deliveryId (pool'.tasks (.worker k')) ≠ none := by
      rw [htask₂, resultFor_eq, hp']
      exact nofun
    rcases hwriters _ k' hk' with ⟨hd', rfl⟩ | ⟨hd', hk, _⟩
    · cases htask'.symm.trans htask₂
      cases hp'
      constructor
      · exact ⟨post, by rw [← hd, hself, List.getLast?_concat], rfl, rfl⟩
      · intro _
        rw [hstatus]
        exact hopen.status
    · rw [hother _ fun heq => hk (by injection heq)] at htask₂
      have hold := h.after k' job' p' result htask₂ hp'
      constructor
      · rw [hrest _ hd']
        exact hold.last
      · rw [hstatus]
        exact hold.status
  case unique =>
    intro d' k₁ k₂ hk₁ hk₂
    rcases hwriters d' k₁ hk₁ with ⟨hd₁, rfl⟩ | ⟨hd₁, _, hold₁⟩
    · rcases hwriters d' k₂ hk₂ with ⟨_, rfl⟩ | ⟨hd₂, _⟩
      · rfl
      · exact absurd hd₁ hd₂
    · rcases hwriters d' k₂ hk₂ with ⟨hd₂, _⟩ | ⟨_, _, hold₂⟩
      · exact absurd hd₂ hd₁
      · exact h.unique d' k₁ k₂ hold₁ hold₂
  case adding =>
    intro i payload delivery' subscriptions htask₂ hnil
    rw [hother (.listener i) nofun] at htask₂
    rw [hstatus]
    refine h.adding i payload delivery' subscriptions htask₂ ?_
    by_cases hd' : delivery'.id = d
    · rw [hd', hself] at hnil
      exact absurd hnil (by simp)
    · rwa [hrest _ hd'] at hnil

/-! ### Every other step -/

theorem Update.spec {job : WebhookDeliveryJob} {p p' : JobPoint} {delivery : WebhookDelivery}
    {status : WebhookDeliveryStatus} {attempts : Option ℕ} {result : DeliveryResult}
    (h : Update job p p' delivery status attempts result) (hp : p.Sound job) :
    p.result? = some result ∧ delivery.id = job.deliveryId ∧ p'.Sound job ∧
      (p'.result? = none ∨ p'.result? = some result) ∧ (status = .sent → result.status = .sent) := by
  cases h with
  | updating =>
    refine ⟨rfl, hp, ?_, ?_, id⟩ <;> unfold afterUpdate <;> split_ifs with hsent hthree
    · trivial
    · exact ⟨hp, hsent⟩
    · exact ⟨hp, hsent, Nat.lt_of_not_le hthree⟩
    · exact .inl rfl
    · exact .inr rfl
    · exact .inr rfl
  | failing => exact ⟨rfl, hp.1, trivial, .inl rfl, nofun⟩
  | retrying => exact ⟨rfl, hp.1, hp, .inr rfl, nofun⟩

/-- The row of the delivery is changed, and no other. -/
theorem find?_updateDelivery (w : World) (id : Id) (c : RunChoice) (status : WebhookDeliveryStatus)
    (attempts : Option ℕ) (responseCode : Option ℤ) (d : Id) :
    (w.updateDelivery id (stored c status attempts responseCode)).deliveries.find? d =
      if d = id then (w.deliveries.find? d).map (stored c status attempts responseCode)
      else w.deliveries.find? d := by
  unfold World.updateDelivery
  cases hfind : w.deliveries.find? id with
  | none =>
    split_ifs with hd
    · rw [hd, Option.elim_none, hfind]
      rfl
    · rfl
  | some row =>
    have hid : row.id = id := (Table.find?_eq_some_iff.mp hfind).2
    rw [Option.elim_some]
    dsimp only
    rw [Table.find?_upsert]
    show (if d = row.id then _ else _) = _
    by_cases hd : d = id
    · rw [if_pos (hd.trans hid.symm), if_pos hd, hd, hfind]
      rfl
    · rw [if_neg fun heq => hd (heq.trans hid), if_neg hd]

theorem status_updateDelivery (w : Hooks) (id : Id) (c : RunChoice) (status : WebhookDeliveryStatus)
    (attempts : Option ℕ) (responseCode : Option ℤ) (d : Id) :
    Hooks.status { w with db := w.db.updateDelivery id (stored c status attempts responseCode) } d =
      if d = id then (w.status d).map fun _ => status else w.status d := by
  unfold Hooks.status
  rw [find?_updateDelivery]
  split_ifs
  · rw [Option.map_map, Option.map_map]
    rfl
  · rfl

theorem status_enqueue (w : Hooks) (job : Job) (d : Id) : (w.enqueue job).status d = w.status d := by
  unfold Hooks.status Hooks.enqueue
  rw [deliveries_addJob]

theorem mem_addJob {w : World} {jobId : Id × ℕ} {data : WebhookDeliveryJob} {delay : ℕ} {job : Job}
    (h : job ∈ (w.addJob jobId data delay).webhookQueue) :
    job ∈ w.webhookQueue ∨ job = { jobId := jobId, data := data, delay := delay } := by
  unfold World.addJob at h
  split_ifs at h
  · exact .inl h
  · rcases List.mem_append.mp h with hold | hnew
    · exact .inl hold
    · exact .inr (List.mem_singleton.mp hnew)

/-- The point after a delivery was looked for has sent nothing and is sound. -/
theorem afterFind_spec (createHmac : String → String → String) (db : World) (job : WebhookDeliveryJob) :
    let p := afterFind createHmac ((db.deliveries.find? job.deliveryId).map fun row =>
      (row, db.subscriptions.find? row.subscription))
    p.Sound job ∧ p.result? = none := by
  intro p
  cases hfind : db.deliveries.find? job.deliveryId with
  | none =>
    have hp : p = .ended := by
      show afterFind createHmac (Option.map _ _) = _
      rw [hfind]
      rfl
    rw [hp]
    exact ⟨trivial, rfl⟩
  | some row =>
    have hp : p = afterFind createHmac (some (row, db.subscriptions.find? row.subscription)) := by
      show afterFind createHmac (Option.map _ _) = _
      rw [hfind]
      rfl
    rw [hp]
    unfold afterFind
    dsimp only
    cases Json.parse row.payload with
    | error e => exact ⟨trivial, rfl⟩
    | ok payload =>
      cases db.subscriptions.find? row.subscription with
      | none => exact ⟨trivial, rfl⟩
      | some subscription => exact ⟨(Table.find?_eq_some_iff.mp hfind).2, rfl⟩

/-- `keep` for a step of worker `k` to the task `t'`. -/
theorem Attempted.keep_worker (h : Attempted pool) {k : ℕ} {t' : Option (Job × JobPoint)}
    (hself : pool'.tasks (.worker k) = t') (hother : ∀ party, party ≠ .worker k → pool'.tasks party = pool.tasks party)
    (hposts : pool'.state.posts = pool.state.posts)
    (hqueue : ∀ job ∈ pool'.state.db.webhookQueue, job ∈ pool.state.db.webhookQueue ∨ Allowed pool' job)
    (ht' : ∀ job p', t' = some (job, p') → p'.Sound job.data ∧
      ((∃ p, pool.tasks (.worker k) = some (job, p) ∧ (p'.result? = none ∨ p'.result? = p.result?)) ∨
        job ∈ pool.state.db.webhookQueue ∧ p'.result? = none))
    (hstatus : ∀ d, pool'.state.status d = some .sent → pool.state.status d = some .sent ∨
      ∃ k result, resultFor d (pool.tasks (.worker k)) = some result ∧ result.status = .sent) :
    Attempted pool' := by
  refine h.keep hposts hqueue ?_ ?_ hstatus
  · intro k' job p' htask'
    by_cases hk : k' = k
    · subst hk
      exact ht' job p' (hself.symm.trans htask')
    · rw [hother _ fun heq => hk (by injection heq)] at htask'
      exact ⟨(h.running k' job p' htask').2, .inl ⟨p', htask', .inr rfl⟩⟩
  · intro i payload delivery subscriptions htask'
    rw [hother (.listener i) nofun] at htask'
    exact .inl htask'

/-- A worker that is or becomes idle. -/
theorem Attempted.keep_idle (h : Attempted pool) {k : ℕ} (hself : pool'.tasks (.worker k) = none)
    (hother : ∀ party, party ≠ .worker k → pool'.tasks party = pool.tasks party)
    (hposts : pool'.state.posts = pool.state.posts)
    (hqueue : ∀ job ∈ pool'.state.db.webhookQueue, job ∈ pool.state.db.webhookQueue)
    (hstatus : ∀ d, pool'.state.status d = pool.state.status d) : Attempted pool' := by
  refine h.keep_worker hself hother hposts (fun job hjob => .inl (hqueue job hjob)) ?_ ?_
  · intro job p' hnone
    cases hnone
  · exact fun d hd => .inl ((hstatus d).symm.trans hd)

/-- A step of a worker in which its job sends no second POST. -/
theorem Attempted.work (h : Attempted pool) {createHmac : String → String → String} {k : ℕ} {c : RunChoice}
    (hworked : Worked createHmac c pool.state (pool.tasks (.worker k)) (pool'.tasks (.worker k)) pool'.state)
    (hother : ∀ party, party ≠ .worker k → pool'.tasks party = pool.tasks party)
    (hfirst : ∀ job delivery request, pool.tasks (.worker k) = some (job, .posting delivery request) →
      c.stops = false → ∀ post ∈ pool.state.posts, post.job ≠ job.data) : Attempted pool' := by
  generalize ht : pool.tasks (.worker k) = t at hworked hfirst
  generalize ht' : pool'.tasks (.worker k) = t' at hworked
  generalize hw' : pool'.state = w' at hworked
  have hsame : ∀ {w : Hooks}, pool'.state = w → w.db.deliveries = pool.state.db.deliveries →
      ∀ d, pool'.state.status d = pool.state.status d := by
    intro w hw hdeliveries d
    unfold Hooks.status
    rw [hw, hdeliveries]
  cases hworked with
  | idle => exact h.keep_idle ht' hother (by rw [hw']) (fun job hjob => by rwa [hw'] at hjob) (hsame hw' rfl)
  | takes hwaiting =>
    rename_i job
    refine h.keep_worker ht' hother (by rw [hw']; rfl) (fun job hjob => .inl (by rwa [hw'] at hjob)) ?_ ?_
    · rintro job' p' ⟨⟩
      exact ⟨trivial, .inr ⟨List.mem_of_find?_eq_some (Option.filter_eq_some_iff.mp hwaiting).1, rfl⟩⟩
    · exact fun d hd => .inl ((hsame hw' rfl d).symm.trans hd)
  | stops job p hstops =>
    exact h.keep_idle ht' hother (by rw [hw']; rfl) (fun job hjob => by rwa [hw'] at hjob) (hsame hw' rfl)
  | completes job =>
    refine h.keep_idle ht' hother (by rw [hw']; rfl) (fun job' hjob' => ?_) (hsame hw' rfl)
    rw [hw'] at hjob'
    exact List.mem_of_mem_filter hjob'
  | throws job e =>
    exact h.keep_idle ht' hother (by rw [hw']; rfl) (fun job hjob => by rwa [hw'] at hjob) (hsame hw' rfl)
  | fails job p e _ =>
    refine h.keep_worker ht' hother (by rw [hw']) (fun job hjob => .inl (by rwa [hw'] at hjob)) ?_ ?_
    · rintro job' p' ⟨⟩
      exact ⟨trivial, .inl ⟨p, ht, .inl rfl⟩⟩
    · exact fun d hd => .inl (by rwa [hw'] at hd)
  | finds job =>
    obtain ⟨hsound, hnone⟩ := afterFind_spec createHmac pool.state.db job.data
    refine h.keep_worker ht' hother (by rw [hw']) (fun job hjob => .inl (by rwa [hw'] at hjob)) ?_ ?_
    · rintro job' p' ⟨⟩
      exact ⟨hsound, .inl ⟨.finding, ht, .inl hnone⟩⟩
    · exact fun d hd => .inl (by rwa [hw'] at hd)
  | posts job delivery request hgoes =>
    exact h.send ht (hfirst job delivery request rfl hgoes) (by rw [hw']) (by rw [hw']) ht' hother
  | updates job hupdate =>
    rename_i p p' delivery status attempts result
    obtain ⟨hp, hid, hsound, hp', hsent⟩ := hupdate.spec (h.running k job p ht).2
    refine h.keep_worker ht' hother (by rw [hw']) ?_ ?_ ?_
    · intro job' hjob'
      rw [hw'] at hjob'
      refine .inl ?_
      unfold World.updateDelivery at hjob'
      cases hfind : pool.state.db.deliveries.find? delivery.id <;> rw [hfind] at hjob' <;> exact hjob'
    · rintro job' p'' ⟨⟩
      exact ⟨hsound, .inl ⟨p, ht, hp'.imp_right fun heq => heq.trans hp.symm⟩⟩
    · intro d hd
      rw [hw', status_updateDelivery] at hd
      split_ifs at hd with heq
      · obtain ⟨_, _, hstatus⟩ := Option.map_eq_some_iff.mp hd
        refine .inr ⟨k, result, ?_, hsent hstatus⟩
        rw [ht, heq, hid, resultFor_eq, hp]
      · exact .inl hd
  | adds job delivery result =>
    obtain ⟨hallowed, hid, hfailed, hthree⟩ := h.running k job _ ht
    have hafter := h.after k job _ result ht rfl
    obtain ⟨post, hlast, hpost, hresult⟩ := hafter.last
    have hattempt := h.attempt_last hlast
    rw [hpost] at hattempt
    have hpostFailed : post.ok = false := by
      rw [← Bool.not_eq_true]
      intro hok
      rw [hresult] at hfailed
      exact hfailed (status_of.mpr hok)
    have hpostsOf : ∀ d, pool'.state.postsOf d = pool.state.postsOf d := fun d => by rw [hw']; rfl
    have hstatus : ∀ d, pool'.state.status d = pool.state.status d := fun d => by rw [hw', status_enqueue]
    refine h.keep_worker ht' hother (by rw [hw']; rfl) ?_ ?_ fun d hd => .inl ((hstatus d).symm.trans hd)
    · intro job' hjob'
      rw [hw'] at hjob'
      rcases mem_addJob hjob' with hold | rfl
      · exact .inl hold
      · refine .inr ⟨Nat.le_add_left .., hthree, ?_, fun _ => ⟨?_, ?_, ?_⟩⟩
        · show job.data.attempt + 1 ≤ (pool'.state.postsOf job.data.deliveryId).length + 1
          rw [hpostsOf, hattempt]
        · rw [hpostsOf]
          exact h.posts_failed hlast hpostFailed
        · -- only worker `k` wrote for the delivery, and it has ended
          intro k'
          by_contra hk'
          by_cases hk : k' = k
          · subst hk
            rw [ht'] at hk'
            exact hk' (ite_self _)
          · rw [hother _ fun heq => hk (by injection heq)] at hk'
            refine hk (h.unique _ k' k hk' ?_)
            rw [ht]
            show resultFor job.data.deliveryId _ ≠ none
            rw [resultFor_eq]
            exact nofun
        · rw [hstatus]
          exact hafter.status hfailed
    · rintro job' p' ⟨⟩
      exact ⟨trivial, .inl ⟨_, ht, .inl rfl⟩⟩

/-- A step of a listener. -/
theorem Attempted.listen (h : Attempted pool) {i : ℕ} {c : Choice}
    (hlistened : Listened c pool.state.db (pool.tasks (.listener i)) (pool'.tasks (.listener i)) pool'.state.db)
    (hposts : pool'.state.posts = pool.state.posts)
    (hother : ∀ party, party ≠ .listener i → pool'.tasks party = pool.tasks party) : Attempted pool' := by
  generalize ht : pool.tasks (.listener i) = p at hlistened
  generalize ht' : pool'.tasks (.listener i) = p' at hlistened
  generalize hdb : pool'.state.db = db at hlistened
  have hworkers : ∀ k job p', pool'.tasks (.worker k) = some (job, p') → p'.Sound job.data ∧
      ((∃ p, pool.tasks (.worker k) = some (job, p) ∧ (p'.result? = none ∨ p'.result? = p.result?)) ∨
        job ∈ pool.state.db.webhookQueue ∧ p'.result? = none) := by
    intro k job p' htask'
    rw [hother (.worker k) (by rintro ⟨⟩)] at htask'
    exact ⟨(h.running k job p' htask').2, .inl ⟨p', htask', .inr rfl⟩⟩
  have hlisteners : ∀ i', i' ≠ i → ∀ payload delivery subscriptions,
      pool'.tasks (.listener i') = .adding payload delivery subscriptions →
        pool.tasks (.listener i') = .adding payload delivery subscriptions := by
    intro i' hi payload delivery subscriptions htask'
    rwa [hother _ fun heq => hi (by injection heq)] at htask'
  have hpostsOf : ∀ d, pool'.state.postsOf d = pool.state.postsOf d := by
    intro d
    unfold Hooks.postsOf
    rw [hposts]
  cases hlistened with
  | reads hnot =>
    refine h.keep hposts (fun job hjob => .inl (by rwa [hdb] at hjob)) hworkers ?_ ?_
    · intro i' payload delivery subscriptions htask'
      by_cases hi : i' = i
      · subst hi
        exact absurd (ht'.symm.trans htask') (hnot payload delivery subscriptions)
      · exact .inl (hlisteners i' hi payload delivery subscriptions htask')
    · intro d hd
      unfold Hooks.status at hd
      rw [hdb] at hd
      exact .inl hd
  | saves payload subscription subscriptions hfree =>
    set row := pendingDelivery (snapshotPayload payload) subscription c.uuid
    have hstatus : ∀ d, pool'.state.status d = if d = row.id then some .pending else pool.state.status d := by
      intro d
      unfold Hooks.status
      rw [hdb, Table.find?_upsert]
      split_ifs <;> rfl
    refine h.keep hposts (fun job hjob => .inl (by rwa [hdb] at hjob)) hworkers ?_ ?_
    · intro i' payload' delivery subscriptions' htask'
      by_cases hi : i' = i
      · subst hi
        cases ht'.symm.trans htask'
        refine .inr ?_
        rw [hstatus, if_pos rfl]
        rintro ⟨⟩
      · exact .inl (hlisteners i' hi payload' delivery subscriptions' htask')
    · intro d hd
      rw [hstatus] at hd
      split_ifs at hd
      · cases hd
      · exact .inl hd
  | adds payload delivery subscriptions =>
    have hstatus : ∀ d, pool'.state.status d = pool.state.status d := by
      intro d
      unfold Hooks.status
      rw [hdb, deliveries_addJob]
    refine h.keep hposts ?_ hworkers ?_ fun d hd => .inl ((hstatus d).symm.trans hd)
    · intro job hjob
      rw [hdb] at hjob
      rcases mem_addJob hjob with hold | rfl
      · exact .inl hold
      · refine .inr ⟨le_rfl, show 1 ≤ 3 by decide, Nat.le_add_left .., fun hnext => ?_⟩
        have hnil : pool.state.postsOf delivery.id = [] := by
          rw [hpostsOf] at hnext
          refine List.length_eq_zero_iff.mp ?_
          show (pool.state.postsOf delivery.id).length = 0
          have hone : 1 = (pool.state.postsOf delivery.id).length + 1 := hnext
          omega
        constructor
        · rw [hpostsOf]
          show ∀ post ∈ pool.state.postsOf delivery.id, _
          rw [hnil]
          exact fun post hpost => absurd hpost List.not_mem_nil
        · intro k
          rw [hother (.worker k) (by rintro ⟨⟩)]
          by_contra hk
          obtain ⟨result, hresult⟩ := Option.ne_none_iff_exists'.mp hk
          obtain ⟨job, p, htask, hd, hp⟩ := resultFor_some hresult
          obtain ⟨post, hlast, _⟩ := (h.after k job p result htask hp).last
          rw [hd] at hlast
          have hlast : (pool.state.postsOf delivery.id).getLast? = some post := hlast
          rw [hnil] at hlast
          cases hlast
        · rw [hstatus]
          exact h.adding i payload delivery subscriptions ht hnil
    · intro i' payload' delivery' subscriptions' htask'
      by_cases hi : i' = i
      · subst hi
        cases ht'.symm.trans htask'
      · exact .inl (hlisteners i' hi payload' delivery' subscriptions' htask')

/-! ### What was delivered stays so -/

/-- A stored status SENT is not overwritten by a worker. -/
theorem Attempted.sent_work (h : Attempted pool) {createHmac : String → String → String} {k : ℕ} {c : RunChoice}
    {t' : Option (Job × JobPoint)} {w' : Hooks}
    (hworked : Worked createHmac c pool.state (pool.tasks (.worker k)) t' w') {d : Id}
    (hsent : pool.state.status d = some .sent) : w'.status d = some .sent := by
  generalize ht : pool.tasks (.worker k) = t at hworked
  cases hworked with
  | updates job hupdate =>
    rename_i p p' delivery status attempts result
    have hsound := (h.running k job p ht).2
    obtain ⟨hp, hid, _⟩ := hupdate.spec hsound
    rw [status_updateDelivery]
    split_ifs with hd
    · have hafter := h.after k job p result ht hp
      have hok : result.status = .sent := by
        by_contra hfailed
        refine hafter.status hfailed ?_
        rw [← hid, ← hd, hsent]
      have hstatus : status = .sent := by
        cases hupdate with
        | updating => exact hok
        | failing => exact absurd hok hsound.2
        | retrying => exact absurd hok hsound.2.1
      rw [hsent, hstatus]
      rfl
    · exact hsent
  | adds job delivery result => rwa [status_enqueue]
  | _ => exact hsent

/-- Nor by a listener. -/
theorem sent_listen {w w' : Hooks} {p p' : ListenerPoint} {c : Choice} (hlistened : Listened c w.db p p' w'.db)
    {d : Id} (hsent : w.status d = some .sent) : w'.status d = some .sent := by
  generalize hdb : w'.db = db at hlistened
  unfold Hooks.status at hsent ⊢
  rw [hdb]
  cases hlistened with
  | reads => exact hsent
  | saves payload subscription subscriptions hfree =>
    obtain ⟨row, hrow, hstatus⟩ := Option.map_eq_some_iff.mp hsent
    rw [Table.find?_upsert_of_fresh hrow hfree, Option.map_some, hstatus]
  | adds => rwa [deliveries_addJob]

end Attempts

/-! ## Runs -/

section Runs

variable {createHmac : String → String → String} {pool : Pool Party PointTask Hooks}

theorem worked_step (k : ℕ) (c : RunChoice) (pool : Pool Party PointTask Hooks) :
    Worked createHmac c pool.state (pool.tasks (.worker k))
      ((Pool.step (pointsStep createHmac) (.worker k, c) pool).tasks (.worker k))
      (Pool.step (pointsStep createHmac) (.worker k, c) pool).state := by
  have hself : (Pool.step (pointsStep createHmac) (.worker k, c) pool).tasks (.worker k) =
      (workerNext createHmac c (pool.tasks (.worker k), pool.state)).1 :=
    Pool.step_tasks_self (.worker k, c) pool
  rw [hself]
  exact worked (pool.tasks (.worker k))

theorem listener_step_self (i : ℕ) (c : RunChoice) (pool : Pool Party PointTask Hooks) :
    (Pool.step (pointsStep createHmac) (.listener i, c) pool).tasks (.listener i) =
      (ListenerPoint.next c.call (pool.tasks (.listener i), pool.state.db)).1 :=
  Pool.step_tasks_self (.listener i, c) pool

theorem tasks_step {x : Party × RunChoice} {party : Party} (hne : party ≠ x.1) (pool : Pool Party PointTask Hooks) :
    (Pool.step (pointsStep createHmac) x pool).tasks party = pool.tasks party :=
  Pool.step_tasks_of_ne hne pool

/-- What a step keeps in which no job sends a second POST. -/
theorem Attempted.step (h : Attempted pool) {x : Party × RunChoice}
    (hx : PostsOnce x (Pool.map (taskOf createHmac) pool)) :
    Attempted (Pool.step (pointsStep createHmac) x pool) := by
  obtain ⟨party, c⟩ := x
  cases party with
  | listener i =>
    refine h.listen (i := i) (c := c.call) ?_ rfl fun party hne => tasks_step hne pool
    rw [listener_step_self]
    exact listened c.call pool.state.db (pool.tasks (.listener i))
  | worker k =>
    refine h.work (worked_step k c pool) (fun party hne => tasks_step hne pool) ?_
    intro job delivery request htask hgoes
    have hfirst : SendsFirst pool.state (taskOf createHmac (.worker k) (pool.tasks (.worker k))) := hx hgoes
    rw [htask] at hfirst
    exact hfirst job.data rfl

theorem attempted_start (events : ℕ → Id) (db : World) : Attempted (startPoints events db) where
  attempts _ := rfl
  early _ _ hpost := nomatch hpost
  le_three _ := Nat.zero_le _
  queued _ hjob := nomatch hjob
  running _ _ _ htask := nomatch htask
  after _ _ _ _ htask := nomatch htask
  unique _ _ _ hk := absurd rfl hk
  adding _ _ _ _ htask := nomatch htask

theorem Worked.posts_le {c : RunChoice} {w w' : Hooks} {t t' : Option (Job × JobPoint)}
    (h : Worked createHmac c w t t' w') : w.posts <+: w'.posts := by
  cases h with
  | posts => exact List.prefix_append _ _
  | _ => exact List.prefix_rfl

theorem posts_step (x : Party × RunChoice) (pool : Pool Party PointTask Hooks) :
    pool.state.posts <+: (Pool.step (pointsStep createHmac) x pool).state.posts := by
  obtain ⟨party, c⟩ := x
  cases party with
  | listener i => exact List.prefix_rfl
  | worker k => exact (worked (pool.tasks (.worker k))).posts_le

/-- The POSTs of a run come after those sent before. -/
theorem posts_run (createHmac : String → String → String) (sched : List (Party × RunChoice)) (pool : Pool Party PointTask Hooks) :
    pool.state.posts <+: (Pool.run (pointsStep createHmac) sched pool).state.posts :=
  Pool.run_keeps (I := fun pool' => pool.state.posts <+: pool'.state.posts)
    (fun x pool' h => h.trans (posts_step x pool')) sched List.prefix_rfl

theorem Attempted.sent_step (h : Attempted pool) (x : Party × RunChoice) {d : Id}
    (hsent : pool.state.status d = some .sent) :
    (Pool.step (pointsStep createHmac) x pool).state.status d = some .sent := by
  obtain ⟨party, c⟩ := x
  cases party with
  | listener i => exact sent_listen (w := pool.state) (listened c.call pool.state.db (pool.tasks (.listener i))) hsent
  | worker k => exact h.sent_work (worked (pool.tasks (.worker k))) hsent

/-- From a state of a run on, what was delivered stays so. -/
theorem Attempted.stays (h : Attempted pool) {sched : List (Party × RunChoice)}
    (hg : Pool.Guarded (pointsStep createHmac) (fun x pool => PostsOnce x (Pool.map (taskOf createHmac) pool))
      sched pool) (d : Id) :
    StaysDelivered pool.state (Pool.run (pointsStep createHmac) sched pool).state d := by
  have hrun := Pool.invariant (I := fun pool' => Attempted pool' ∧
    (pool.state.status d = some .sent → pool'.state.status d = some .sent))
    (fun x pool' hx hI => ⟨hI.1.step hx, fun hsent => hI.1.sent_step x (hI.2 hsent)⟩) hg ⟨h, id⟩
  refine ⟨?_, hrun.2⟩
  rintro ⟨post, hpost, hok⟩
  obtain ⟨later, hlater⟩ := (posts_run createHmac sched pool).filter
    fun post => post.job.deliveryId = d
  have hposts : (Pool.run (pointsStep createHmac) sched pool).state.postsOf d = pool.state.postsOf d ++ later :=
    hlater.symm
  rw [hposts]
  -- a later POST would leave the one that was answered ok among the early ones
  cases hnil : later with
  | nil => exact List.append_nil _
  | cons other rest =>
    have hearly := hrun.1.early d post
    rw [hposts, hnil, List.dropLast_append_of_ne_nil (List.cons_ne_nil other rest)] at hearly
    rw [hearly (List.mem_append_left _ hpost)] at hok
    cases hok

end Runs

/-- **Main**: in a run in which no job sends a second POST, a delivery gets at most three
    POSTs in all, and from any state of the run on what was delivered stays so: no POST
    follows one that was answered ok, and a stored status SENT does not change. -/
theorem delivered_stays {createHmac : String → String → String} {events : ℕ → Id} {db : World}
    {sched : List (Party × RunChoice)}
    (hg : Pool.Guarded (hooksStep createHmac) PostsOnce sched (startHooks events db)) (d : Id) :
    let final := (Pool.run (hooksStep createHmac) sched (startHooks events db)).state
    (final.postsOf d).length ≤ 3 ∧ ∀ pre post, sched = pre ++ post →
      StaysDelivered (Pool.run (hooksStep createHmac) pre (startHooks events db)).state final d := by
  rw [← map_startPoints createHmac, Pool.guarded_map (simulatesHooks createHmac)] at hg
  simp only [← map_startPoints createHmac, Pool.run_map (simulatesHooks createHmac)]
  have hattempted : ∀ {sched}, Pool.Guarded (pointsStep createHmac)
      (fun x pool => PostsOnce x (Pool.map (taskOf createHmac) pool)) sched (startPoints events db) →
        Attempted (Pool.run (pointsStep createHmac) sched (startPoints events db)) :=
    fun hg => Pool.invariant (fun _ _ hx h => h.step hx) hg (attempted_start events db)
  refine ⟨(hattempted hg).le_three d, ?_⟩
  rintro pre post rfl
  obtain ⟨hpre, hpost⟩ := (Pool.guarded_append pre post _).mp hg
  have hstays := (hattempted hpre).stays hpost d
  rwa [← Pool.run_append] at hstays

/-! ## A job that is run again -/

/-- The digest that the payload of the contest has under the secret `00ff`. -/
def digest (_ _ : String) : String := "e941ef154e393fb74f2e337cdd09bb0ac702b394860def682802b833c0a74d84"

/-- A step in which calls return, and the endpoint answers with `endpoint`. -/
def answering (takes : Id × ℕ) (endpoint : ℤ) : RunChoice :=
  { call := noFailure 0, now := 5000, endpoint := some endpoint, takes := takes, stops := false }

/-- The contest has one subscription, and listener 0 handles its end. -/
def startOne : Pool Party Task Hooks := startHooks (fun _ => "c1") (registered (some "c1"))

/-- The listener stores the delivery and enqueues its first job. -/
def announced : List (Party × RunChoice) := List.replicate 5 (.listener 0, answering ("d1", 1) 200)

/-- `n` steps of worker 0. -/
def working (n : ℕ) (c : RunChoice) : List (Party × RunChoice) := List.replicate n (.worker 0, c)

/-- The first POST is answered 500, the second one 204. -/
def retriedSched : List (Party × RunChoice) :=
  announced ++ working 7 (answering ("d1", 1) 500) ++ working 5 (answering ("d1", 2) 204)

theorem delivered_stays_retried :
    let final := (Pool.run (hooksStep digest) retriedSched startOne).state
    final.status "d1" = some .sent ∧ (final.postsOf "d1").length ≤ 3 ∧ ∀ pre post, retriedSched = pre ++ post →
      StaysDelivered (Pool.run (hooksStep digest) pre startOne).state final "d1" := by
  have hguarded : Pool.Guarded (hooksStep digest) PostsOnce retriedSched startOne := by decide +kernel
  exact ⟨by decide +kernel, delivered_stays hguarded "d1"⟩

/-- The POST is answered 204, and the update of the delivery throws. The queue runs the job
    again: the POST is answered 204, SENT is stored, and the worker stops before the job is
    recorded as completed. -/
def deliveredSched : List (Party × RunChoice) :=
  announced ++ working 3 (answering ("d1", 1) 204) ++
    working 2 { answering ("d1", 1) 204 with call := { noFailure 0 with fails := some "Connection terminated" } } ++
    working 4 (answering ("d1", 1) 204) ++ working 1 { answering ("d1", 1) 204 with stops := true }

/-- The job is run once more and is answered 500, and so is the job of the second attempt. -/
def againSched : List (Party × RunChoice) :=
  working 7 (answering ("d1", 1) 500) ++ working 3 (answering ("d1", 2) 500)

/-- After two POSTs that were answered ok, and with SENT stored, two more POSTs are sent, and
    the stored status is no longer SENT. -/
theorem delivered_again :
    let delivered := Pool.run (hooksStep digest) deliveredSched startOne
    let final := Pool.run (hooksStep digest) againSched delivered
    ((delivered.state.postsOf "d1").map Post.ok = [true, true] ∧ delivered.state.status "d1" = some .sent) ∧
      (final.state.postsOf "d1").length = 4 ∧ final.state.status "d1" = some .pending := by
  decide +kernel

end CodeWeaknesses.Webhooks
