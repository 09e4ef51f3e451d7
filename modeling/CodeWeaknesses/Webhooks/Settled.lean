import CodeWeaknesses.Webhooks.Tracked

/-!
# The retry protocol

Results:
* `Settling.affords_work`: each attempt pays for the steps of its job, seven at most.
* `deliveries_settle`: **between two jobs a delivery is PENDING with one job that waits, SENT
  after its first POST that was answered ok, or FAILED after three that were not; and
  processing ends.**
-/

namespace CodeWeaknesses.Webhooks

open Lib Lib.Prog

/-! ## The property -/

/-- The database and the queue answer the next call, and the worker goes on. -/
def Faultless : Party × RunChoice → Pool Party Task Hooks → Prop
  | (.listener i, c), pool => Admits (Flawless answer) c.call (pool.tasks (.listener i), pool.state.db)
  | (.worker _, c), _ => c.stops = false ∧ c.call.fails = none

instance : ∀ (x : Party × RunChoice) (pool : Pool Party Task Hooks), Decidable (Faultless x pool)
  | (.listener i, c), pool =>
    inferInstanceAs (Decidable (Admits (Flawless answer) c.call (pool.tasks (.listener i), pool.state.db)))
  | (.worker _, c), _ => inferInstanceAs (Decidable (c.stops = false ∧ c.call.fails = none))

/-- The delivery whose first job is to be added by the next call. -/
def enqueues : M Unit → Option Id
  | .call (.addJob jobId _ _) _ => some jobId.1
  | _ => none

/-- A delivery that a listener has stored and enqueued since the start. -/
structure Enqueued (db : World) (pool : Pool Party Task Hooks) (deliveryId : Id) : Prop where
  new : db.deliveries.find? deliveryId = none
  stored : (pool.state.db.deliveries.find? deliveryId).isSome = true
  enqueued : ∀ i, enqueues (pool.tasks (.listener i)) ≠ some deliveryId

/-- A worker runs a job of the delivery. -/
def Busy (pool : Pool Party Task Hooks) (deliveryId : Id) : Prop :=
  ∃ k job p, pool.tasks (.worker k) = some (job, p) ∧ job.data.deliveryId = deliveryId

/-- The delivery that a step of a worker is for: it runs one of its jobs, or takes one. -/
def worksFor : Party × RunChoice → Pool Party Task Hooks → Option Id
  | (.listener _, _), _ => none
  | (.worker k, c), pool =>
    match pool.tasks (.worker k) with
    | some (job, _) => some job.data.deliveryId
    | none => (pool.state.waiting? c.takes).map fun job => job.data.deliveryId

/-- The price of a step in `stepsFor`. -/
def priceFor (deliveryId : Id) (x : Party × RunChoice) (pool : Pool Party Task Hooks) : ℕ :=
  if worksFor x pool = some deliveryId then 1 else 0

/-- How many steps the workers take for a delivery. -/
def stepsFor (createHmac : String → String → String) (deliveryId : Id) (sched : List (Party × RunChoice))
    (pool : Pool Party Task Hooks) : ℕ :=
  Pool.cost (hooksStep createHmac) (priceFor deliveryId) sched pool

/-- What a delivery is between two of its jobs. -/
structure Between (w : Hooks) (deliveryId : Id) (row : WebhookDelivery) : Prop where
  sent : row.status = .sent ↔ ∃ post, (w.postsOf deliveryId).getLast? = some post ∧ post.ok = true
  failed : row.status = .failed ↔
    (w.postsOf deliveryId).length = 3 ∧ ∀ post ∈ w.postsOf deliveryId, post.ok = false
  responseCode : row.responseCode = w.lastCode deliveryId
  pending : row.status = .pending ↔ (w.jobsOf deliveryId).length = 1
  settled : row.status ≠ .pending → w.jobsOf deliveryId = []
  waits : ∀ job ∈ w.jobsOf deliveryId, w.waiting? job.jobId = some job

/-! ## Processing ends -/

/-- How many steps a job still takes. -/
def JobPoint.stepsLeft : JobPoint → ℕ
  | .finding => 6
  | .posting .. => 5
  | .updating .. => 4
  | .retrying .. => 3
  | .failing .. => 2
  | .adding .. => 2
  | .ended => 1
  | .raised _ => 1

/-- `left a` covers what is left of attempt `a`: seven steps before its job is taken. -/
structure Affords (pool : Pool Party PointTask Hooks) (d : Id) (left : ℕ → ℕ) : Prop where
  held : ∀ k job p, pool.tasks (.worker k) = some (job, p) → job.data.deliveryId = d →
    p.stepsLeft ≤ left job.data.attempt
  waits : ∀ a, (pool.state.postsOf d).length < a → (∀ k job p, pool.tasks (.worker k) = some (job, p) →
    job.data.deliveryId = d → job.data.attempt ≠ a) → 7 ≤ left a

/-- What is left for the three attempts. -/
def attemptsLeft (left : ℕ → ℕ) : ℕ := left 1 + left 2 + left 3

section Ends

variable {createHmac : String → String → String} {db : World} {pool pool' : Pool Party PointTask Hooks} {k : ℕ}
  {c : RunChoice} {d : Id} {left : ℕ → ℕ}

theorem attemptsLeft_update {a m : ℕ} (hpos : 1 ≤ a) (hle : a ≤ 3) (hm : m < left a) :
    1 + attemptsLeft (Function.update left a m) ≤ attemptsLeft left := by
  have ha : a = 1 ∨ a = 2 ∨ a = 3 := by omega
  unfold attemptsLeft
  rcases ha with rfl | rfl | rfl <;> simp only [Function.update_apply] <;> norm_num <;> omega

theorem stepsLeft_pos (p : JobPoint) : 1 ≤ p.stepsLeft := by
  cases p <;> simp [JobPoint.stepsLeft]

/-- A worker that goes on with its job has fewer steps left. -/
theorem Worked.stepsLeft {w w' : Hooks} {job job' : Job} {p p' : JobPoint}
    (h : Worked createHmac c w (some (job, p)) (some (job', p')) w') (hflawless : c.call.fails = none) :
    job' = job ∧ p'.stepsLeft < p.stepsLeft := by
  cases h with
  | fails _ _ e hfails =>
    rw [hflawless] at hfails
    cases hfails
  | finds =>
    refine ⟨rfl, ?_⟩
    show _ < 6
    generalize (w.db.deliveries.find? job.data.deliveryId).map (fun row =>
      (row, w.db.subscriptions.find? row.subscription)) = found
    cases found with
    | none => exact (by decide : 1 < 6)
    | some found =>
      unfold afterFind
      dsimp only
      cases Json.parse found.1.payload with
      | error e => exact (by decide : 1 < 6)
      | ok payload => cases found.2 <;> simp [JobPoint.stepsLeft]
  | posts => exact ⟨rfl, Nat.lt_succ_self 4⟩
  | updates _ hupdate =>
    refine ⟨rfl, ?_⟩
    cases hupdate with
    | updating =>
      unfold afterUpdate
      split_ifs <;> simp [JobPoint.stepsLeft]
    | failing => exact Nat.lt_succ_self 1
    | retrying => exact Nat.lt_succ_self 2
  | adds => exact ⟨rfl, Nat.lt_succ_self 1⟩

theorem Affords.congr (h : Affords pool d left) (hposts : pool'.state.postsOf d = pool.state.postsOf d)
    (hworkers : ∀ k job p, job.data.deliveryId = d →
      (pool'.tasks (.worker k) = some (job, p) ↔ pool.tasks (.worker k) = some (job, p))) :
    Affords pool' d left where
  held k job p htask hd := h.held k job p ((hworkers k job p hd).mp htask) hd
  waits a ha hfree := by
    rw [hposts] at ha
    exact h.waits a ha fun k job p htask hd => hfree k job p ((hworkers k job p hd).mpr htask) hd

/-- The job of attempt `a` takes a step, after which `m` are left. -/
theorem Affords.update (h : Affords pool d left) {a m : ℕ}
    (hle : (pool.state.postsOf d).length ≤ (pool'.state.postsOf d).length)
    (hself : ∀ job p, pool'.tasks (.worker k) = some (job, p) → job.data.deliveryId = d →
      job.data.attempt = a ∧ p.stepsLeft ≤ m)
    (hbefore : ∀ job p, pool.tasks (.worker k) = some (job, p) → job.data.deliveryId = d → job.data.attempt = a)
    (halone : ∀ k' job p, k' ≠ k → pool.tasks (.worker k') = some (job, p) → job.data.deliveryId = d →
      job.data.attempt ≠ a)
    (hheld : (pool'.state.postsOf d).length < a → ∃ job p, pool'.tasks (.worker k) = some (job, p) ∧
      job.data.deliveryId = d ∧ job.data.attempt = a)
    (hother : ∀ party, party ≠ .worker k → pool'.tasks party = pool.tasks party) :
    Affords pool' d (Function.update left a m) where
  held k' job p htask hd := by
    by_cases hk : k' = k
    · subst hk
      obtain ⟨ha, hm⟩ := hself job p htask hd
      rwa [ha, Function.update_self]
    · have htask' := (task_of_other hother hk).symm.trans htask
      rw [Function.update_of_ne (halone k' job p hk htask' hd)]
      exact h.held k' job p htask' hd
  waits a' ha' hfree := by
    have hne : a' ≠ a := by
      rintro rfl
      obtain ⟨job, p, htask, hd, hattempt⟩ := hheld ha'
      exact hfree k job p htask hd hattempt
    rw [Function.update_of_ne hne]
    refine h.waits a' (by omega) fun k' job p htask hd => ?_
    by_cases hk : k' = k
    · subst hk
      rw [hbefore job p htask hd]
      exact hne.symm
    · exact hfree k' job p ((task_of_other hother hk).trans htask) hd

theorem priceFor_worker {job : Job} {p : JobPoint} (htask : pool.tasks (.worker k) = some (job, p)) :
    priceFor d (.worker k, c) (Pool.map (taskOf createHmac) pool) =
      if job.data.deliveryId = d then 1 else 0 := by
  have hworks : worksFor (.worker k, c) (Pool.map (taskOf createHmac) pool) = some job.data.deliveryId := by
    unfold worksFor Pool.map
    dsimp only
    rw [htask]
    rfl
  unfold priceFor
  simp only [hworks, Option.some.injEq]

theorem priceFor_idle (htask : pool.tasks (.worker k) = none) :
    priceFor d (.worker k, c) (Pool.map (taskOf createHmac) pool) =
      if (pool.state.waiting? c.takes).map (fun job => job.data.deliveryId) = some d then 1 else 0 := by
  have hworks : worksFor (.worker k, c) (Pool.map (taskOf createHmac) pool) =
      (pool.state.waiting? c.takes).map fun job => job.data.deliveryId := by
    unfold worksFor Pool.map
    dsimp only
    rw [htask]
    rfl
  unfold priceFor
  rw [hworks]

theorem Worked.postsOf_le {w w' : Hooks} {t t' : Option (Job × JobPoint)} (h : Worked createHmac c w t t' w') :
    (w.postsOf d).length ≤ (w'.postsOf d).length :=
  (h.posts_le.filter fun post : Post => post.job.deliveryId = d).length_le

/-- A step for another delivery sends none of its POSTs. -/
theorem Worked.postsOf_eq {w w' : Hooks} {t t' : Option (Job × JobPoint)} (h : Worked createHmac c w t t' w')
    (ht : ∀ job p, t = some (job, p) → job.data.deliveryId ≠ d) : w'.postsOf d = w.postsOf d := by
  cases h with
  | posts job delivery request => rw [postsOf_send rfl, if_neg (ht job _ rfl)]
  | _ => rfl

/-- A step of a worker is paid for out of what is left of its attempt. -/
theorem Settling.affords_work (h : Settling db pool) (haffords : Affords pool d left)
    (hworked : Worked createHmac c pool.state (pool.tasks (.worker k)) (pool'.tasks (.worker k)) pool'.state)
    (hother : ∀ party, party ≠ .worker k → pool'.tasks party = pool.tasks party) (hgoes : c.stops = false)
    (hflawless : c.call.fails = none) :
    ∃ left', priceFor d (.worker k, c) (Pool.map (taskOf createHmac) pool) + attemptsLeft left' ≤ attemptsLeft left ∧
      Affords pool' d left' := by
  -- a step that is for another delivery costs nothing
  have hframe : (∀ job p, pool.tasks (.worker k) = some (job, p) → job.data.deliveryId ≠ d) →
      (∀ job p, pool'.tasks (.worker k) = some (job, p) → job.data.deliveryId ≠ d) → Affords pool' d left := by
    intro hbefore hafter
    refine haffords.congr (hworked.postsOf_eq hbefore) fun k' job p hd => ?_
    by_cases hk : k' = k
    · subst hk
      exact ⟨fun htask => absurd hd (hafter job p htask), fun htask => absurd hd (hbefore job p htask)⟩
    · rw [task_of_other hother hk]
  cases ht : pool.tasks (.worker k) with
  | some t =>
    obtain ⟨job, p⟩ := t
    have hgoesOn : ∀ job' p', pool'.tasks (.worker k) = some (job', p') → job' = job ∧ p'.stepsLeft < p.stepsLeft := by
      intro job' p' htask'
      rw [ht, htask'] at hworked
      exact hworked.stepsLeft hflawless
    rw [priceFor_worker ht]
    by_cases hd : job.data.deliveryId = d
    · subst hd
      rw [if_pos rfl]
      obtain ⟨_, hactive⟩ := h.active_of_worker ht
      have hallowed := (h.attempted.running k job p ht).1
      have hle := haffords.held k job p ht rfl
      have hpos := stepsLeft_pos p
      refine ⟨Function.update left job.data.attempt (p.stepsLeft - 1), ?_, ?_⟩
      · exact attemptsLeft_update hallowed.pos hallowed.le_three (by omega)
      refine haffords.update hworked.postsOf_le ?_ ?_ ?_ ?_ hother
      · intro job' p' htask' _
        obtain ⟨rfl, hlt⟩ := hgoesOn job' p' htask'
        exact ⟨rfl, by omega⟩
      · intro job' p' htask' _
        cases ht.symm.trans htask'
        rfl
      · exact fun k' other q hk htask' hd' hattempt => hk (h.worker_ext hactive htask' ht hd' rfl hattempt)
      · intro hlt
        cases ht' : pool'.tasks (.worker k) with
        | some t' =>
          obtain ⟨job', p'⟩ := t'
          obtain ⟨rfl, _⟩ := hgoesOn job' p' ht'
          exact ⟨job', p', rfl, rfl, rfl⟩
        | none =>
          -- a job that completes has made its attempt
          have hmade := (h.holds_of_worker ht).2.2
          rw [ht, ht'] at hworked
          generalize pool'.state = w' at hworked hlt
          cases hworked with
          | stops _ _ hstops =>
            rw [hgoes] at hstops
            cases hstops
          | completes => exact absurd hmade (Nat.not_le.mpr hlt)
          | throws => exact hmade.elim
    · rw [if_neg hd]
      refine ⟨left, (Nat.zero_add _).le, hframe ?_ ?_⟩
      · intro job' p' htask'
        cases ht.symm.trans htask'
        exact hd
      · intro job' p' htask'
        obtain ⟨rfl, _⟩ := hgoesOn job' p' htask'
        exact hd
  | none =>
    rw [priceFor_idle ht]
    have hidle : ∀ job p, pool.tasks (.worker k) ≠ some (job, p) := by
      intro job p htask
      cases ht.symm.trans htask
    have htakes : ∀ job p, pool'.tasks (.worker k) = some (job, p) →
        pool.state.waiting? c.takes = some job ∧ p = .finding := by
      intro job p htask'
      rw [ht, htask'] at hworked
      generalize pool'.state = w' at hworked
      cases hworked with
      | takes hwaiting => exact ⟨hwaiting, rfl⟩
    by_cases hd : (pool.state.waiting? c.takes).map (fun job => job.data.deliveryId) = some d
    · obtain ⟨job, hwaiting, rfl⟩ := Option.map_eq_some_iff.mp hd
      obtain ⟨hmem, hfree, hattempt⟩ := h.attempt_waiting hwaiting
      obtain ⟨_, hactive⟩ := h.active_of_queued hmem
      have hallowed := h.attempted.queued job hmem
      have halone : ∀ k' other q, pool.tasks (.worker k') = some (other, q) →
          other.data.deliveryId = job.data.deliveryId → other.data.attempt ≠ job.data.attempt := by
        intro k' other q htask hd' heq
        obtain rfl := h.job_ext (hactive.mem_jobsOf htask hd') (mem_jobsOf.mpr ⟨hmem, rfl⟩) heq
        exact hfree (hactive.holds k' other q htask rfl).2.1
      have hseven := haffords.waits job.data.attempt (by omega) halone
      rw [if_pos hd]
      refine ⟨Function.update left job.data.attempt 6, ?_, ?_⟩
      · exact attemptsLeft_update hallowed.pos hallowed.le_three (by omega)
      refine haffords.update hworked.postsOf_le ?_ ?_ (fun k' other q _ => halone k' other q) ?_ hother
      · intro job' p' htask' _
        obtain ⟨hwaiting', rfl⟩ := htakes job' p' htask'
        cases hwaiting.symm.trans hwaiting'
        exact ⟨rfl, le_rfl⟩
      · exact fun job' p' htask' => absurd htask' (hidle job' p')
      · intro _
        rw [ht] at hworked
        generalize pool'.tasks (.worker k) = t' at hworked
        generalize pool'.state = w' at hworked
        cases hworked with
        | idle hnone => cases hwaiting.symm.trans hnone
        | takes hwaiting' =>
          cases hwaiting.symm.trans hwaiting'
          exact ⟨job, .finding, rfl, rfl, rfl⟩
    · rw [if_neg hd]
      refine ⟨left, (Nat.zero_add _).le, hframe ?_ ?_⟩
      · exact fun job p htask => absurd htask (hidle job p)
      · intro job p htask' hd'
        obtain ⟨hwaiting, _⟩ := htakes job p htask'
        rw [hwaiting] at hd
        exact hd (congrArg some hd')

end Ends

/-! ## Runs -/

section Runs

variable {createHmac : String → String → String} {db : World} {pool : Pool Party PointTask Hooks}

/-- What a step keeps in which nothing fails. -/
theorem Settling.step (h : Settling db pool) {x : Party × RunChoice}
    (hx : Faultless x (Pool.map (taskOf createHmac) pool)) :
    Settling db (Pool.step (pointsStep createHmac) x pool) := by
  obtain ⟨party, c⟩ := x
  cases party with
  | listener i =>
    refine h.listen (i := i) hx ?_ rfl fun party hne => tasks_step hne pool
    rw [listener_step_self]
  | worker k => exact h.work (worked_step k c pool) (fun party hne => tasks_step hne pool) hx.1 hx.2

/-- If it is for a delivery, its attempts pay for it. -/
theorem Settling.affords_step (h : Settling db pool) {x : Party × RunChoice}
    (hx : Faultless x (Pool.map (taskOf createHmac) pool)) {d : Id} {left : ℕ → ℕ} (haffords : Affords pool d left) :
    ∃ left', priceFor d x (Pool.map (taskOf createHmac) pool) + attemptsLeft left' ≤ attemptsLeft left ∧
      Affords (Pool.step (pointsStep createHmac) x pool) d left' := by
  obtain ⟨party, c⟩ := x
  cases party with
  | listener i =>
    refine ⟨left, (Nat.zero_add _).le, haffords.congr rfl fun k job p _ => ?_⟩
    rw [tasks_step (show Party.worker k ≠ .listener i from nofun) pool]
  | worker k =>
    exact h.affords_work haffords (worked_step k c pool) (fun party hne => tasks_step hne pool) hx.1 hx.2

theorem settling_start (events : ℕ → Id) (db : World) : Settling db (startPoints events db) where
  attempted := attempted_start events db
  jobIds _ hjob := nomatch hjob
  nodup := List.nodup_nil
  activeNodup := List.nodup_nil
  owned _ hjob := nomatch hjob
  attemptsMade _ := rfl
  prepared _ := trivial
  sendable d row hnew hrow := by
    rw [show (startPoints events db).state.db.deliveries = db.deliveries from rfl, hnew] at hrow
    cases hrow
  tracked d := .inl ⟨⟨rfl, rfl, fun _ _ _ htask => nomatch htask⟩, fun _ => nofun, rfl⟩

theorem affords_start (events : ℕ → Id) (db : World) (d : Id) : Affords (startPoints events db) d fun _ => 7 where
  held _ _ _ htask := nomatch htask
  waits _ _ _ := le_rfl

/-- What holds after a run in which nothing fails. -/
theorem settling_run {events : ℕ → Id} {sched : List (Party × RunChoice)}
    (hg : Pool.Guarded (hooksStep createHmac) Faultless sched (startHooks events db)) :
    Settling db (Pool.run (pointsStep createHmac) sched (startPoints events db)) := by
  rw [← map_startPoints createHmac, Pool.guarded_map (simulatesHooks createHmac)] at hg
  exact Pool.invariant (fun _ _ hx h => h.step hx) hg (settling_start events db)

/-- What the steps for a delivery come to. -/
theorem stepsFor_le {events : ℕ → Id} {sched : List (Party × RunChoice)}
    (hg : Pool.Guarded (hooksStep createHmac) Faultless sched (startHooks events db)) (d : Id) :
    stepsFor createHmac d sched (startHooks events db) ≤ 21 := by
  rw [← map_startPoints createHmac, Pool.guarded_map (simulatesHooks createHmac)] at hg
  unfold stepsFor
  rw [← map_startPoints createHmac, Pool.cost_map (simulatesHooks createHmac)]
  refine Pool.cost_le (I := fun pool n => Settling db pool ∧ ∃ left, Affords pool d left ∧ attemptsLeft left = n)
    ?_ sched hg ⟨settling_start events db, _, affords_start events db d, rfl⟩
  rintro x pool n hx ⟨h, left, haffords, rfl⟩
  obtain ⟨left', hprice, haffords'⟩ := h.affords_step hx haffords
  exact ⟨_, hprice, h.step hx, left', haffords', rfl⟩

/-- No worker runs a job of the delivery. -/
theorem Settling.between (h : Settling db pool) {d : Id} (hactive : Active pool d)
    (hidle : ∀ k job p, pool.tasks (.worker k) = some (job, p) → job.data.deliveryId ≠ d) :
    ∃ row, pool.state.db.deliveries.find? d = some row ∧ Between pool.state d row := by
  -- without workers every job that is left is the next one
  have hnext : ∀ job ∈ pool.state.jobsOf d, job.data.attempt = (pool.state.postsOf d).length + 1 := by
    intro job hjob
    obtain ⟨hmem, hd⟩ := mem_jobsOf.mp hjob
    have hle := (h.attempted.queued job hmem).le
    rw [hd] at hle
    by_contra hne
    obtain ⟨k, p, htask⟩ := hactive.held job hjob (by omega)
    exact hidle k job p htask hd
  have hone : ∀ job ∈ pool.state.jobsOf d, pool.state.jobsOf d = [job] := by
    intro job hjob
    refine List.perm_singleton.mp ((List.perm_ext_iff_of_nodup ?_ (List.nodup_singleton job)).mpr fun other => ?_)
    · exact (List.Nodup.of_map _ h.nodup).filter _
    · rw [List.mem_singleton]
      constructor
      · exact fun hother => h.job_ext hother hjob ((hnext other hother).trans (hnext job hjob).symm)
      · rintro rfl
        exact hjob
  have hwaits : ∀ job ∈ pool.state.jobsOf d, pool.state.waiting? job.jobId = some job := by
    intro job hjob
    obtain ⟨hmem, hd⟩ := mem_jobsOf.mp hjob
    have hfind : pool.state.db.webhookQueue.find? (fun other => other.jobId = job.jobId) = some job := by
      cases hfound : pool.state.db.webhookQueue.find? (fun other => other.jobId = job.jobId) with
      | none => exact absurd (decide_eq_true rfl) (List.find?_eq_none.mp hfound job hmem)
      | some other =>
        have hid : other.jobId = job.jobId := by simpa using List.find?_some hfound
        rw [List.inj_on_of_nodup_map h.nodup (List.mem_of_find?_eq_some hfound) hmem hid]
    have hfree : job.jobId ∉ pool.state.active := by
      intro howned
      obtain ⟨k, other, p, htask, hid⟩ := h.owned job.jobId howned
      obtain ⟨_, hactive'⟩ := h.active_of_worker htask
      obtain rfl := List.inj_on_of_nodup_map h.nodup (hactive'.holds k other p htask rfl).1 hmem hid
      exact hidle k other p htask hd
    unfold Hooks.waiting?
    rw [hfind, Option.filter_some, if_pos]
    refine decide_eq_true ⟨hfree, ?_⟩
    rw [h.attemptsMade]
    exact Nat.zero_lt_succ 2
  cases hactive.progress with
  | next job hjob hattempt hpending =>
    obtain ⟨row, hrow, hstatus, hcode⟩ := hpending
    obtain ⟨hmem, hd⟩ := mem_jobsOf.mp hjob
    have hallowed := h.attempted.queued job hmem
    have hopen := hallowed.next (by rw [hd]; exact hattempt)
    have hle := hallowed.le_three
    rw [hd] at hopen
    refine ⟨row, hrow, ?_, ?_, hcode, ?_, fun hne => absurd hstatus hne, hwaits⟩
    · rw [hstatus]
      refine ⟨nofun, ?_⟩
      rintro ⟨post, hlast, hok⟩
      rw [hopen.posts post (List.mem_of_getLast? hlast)] at hok
      cases hok
    · rw [hstatus]
      refine ⟨nofun, fun hthree => ?_⟩
      omega
    · rw [hone job hjob]
      exact ⟨fun _ => rfl, fun _ => hstatus⟩
  | writes k job p result htask hd => exact absurd hd (hidle k job p htask)
  | done hsettled =>
    have hnone : pool.state.jobsOf d = [] :=
      List.eq_nil_iff_forall_not_mem.mpr fun job hjob => hsettled.jobs job hjob (hnext job hjob)
    obtain ⟨row, hrow, hcode, ⟨hsent, post, hlast, hok⟩ | ⟨hfailed, hthree, hall⟩⟩ := hsettled.row
    · refine ⟨row, hrow, ⟨fun _ => ⟨post, hlast, hok⟩, fun _ => hsent⟩, ?_, hcode, ?_, fun _ => hnone, hwaits⟩
      · rw [hsent]
        refine ⟨nofun, fun hthree => ?_⟩
        rw [hthree.2 post (List.mem_of_getLast? hlast)] at hok
        cases hok
      · rw [hsent, hnone]
        exact ⟨nofun, nofun⟩
    · refine ⟨row, hrow, ?_, ⟨fun _ => ⟨hthree, hall⟩, fun _ => hfailed⟩, hcode, ?_, fun _ => hnone, hwaits⟩
      · rw [hfailed]
        refine ⟨nofun, ?_⟩
        rintro ⟨post, hlast, hok⟩
        rw [hall post (List.mem_of_getLast? hlast)] at hok
        cases hok
      · rw [hfailed, hnone]
        exact ⟨nofun, nofun⟩

/-- A delivery that a listener has stored and enqueued is on its way. -/
theorem Settling.active_of_enqueued (h : Settling db pool) {d : Id}
    (henqueued : Enqueued db (Pool.map (taskOf createHmac) pool) d) : Active pool d := by
  rcases h.tracked d with ⟨_, _, hrow⟩ | ⟨_, ⟨i, hannounced⟩ | hactive⟩
  · have hstored : (pool.state.db.deliveries.find? d).isSome = true := henqueued.stored
    rw [hrow, henqueued.new] at hstored
    cases hstored
  · obtain ⟨payload, delivery, subscriptions, htask, hd⟩ := adds_iff.mp ((hannounced.listeners i).mpr rfl)
    refine absurd ?_ (henqueued.enqueued i)
    show enqueues (pool.tasks (.listener i)).code = some d
    rw [htask, ← hd]
    rfl
  · exact hactive

end Runs

/-- **Main**: in a run in which nothing fails, the workers take at most 21 steps for a delivery
    and send at most three POSTs, of which only the last may be answered ok. Once it is
    enqueued and while no worker runs a job of it, its row is as `Between` says: PENDING with
    one job that waits, or SENT or FAILED with none. -/
theorem deliveries_settle {createHmac : String → String → String} {events : ℕ → Id} {db : World}
    {sched : List (Party × RunChoice)}
    (hg : Pool.Guarded (hooksStep createHmac) Faultless sched (startHooks events db)) (d : Id) :
    let final := Pool.run (hooksStep createHmac) sched (startHooks events db)
    Enqueued db final d →
      stepsFor createHmac d sched (startHooks events db) ≤ 21 ∧ (final.state.postsOf d).length ≤ 3 ∧
        (∀ post ∈ (final.state.postsOf d).dropLast, post.ok = false) ∧
          (¬ Busy final d → ∃ row, final.state.db.deliveries.find? d = some row ∧ Between final.state d row) := by
  intro final henqueued
  have h := settling_run hg
  have hfinal : final = Pool.map (taskOf createHmac) (Pool.run (pointsStep createHmac) sched (startPoints events db)) := by
    show Pool.run _ _ _ = _
    rw [← map_startPoints createHmac, Pool.run_map (simulatesHooks createHmac)]
  rw [hfinal] at henqueued ⊢
  have hactive := h.active_of_enqueued henqueued
  refine ⟨stepsFor_le hg d, h.attempted.le_three d, h.attempted.early d, fun hidle => ?_⟩
  refine h.between hactive fun k job p htask hd => hidle ⟨k, job, p.code createHmac job.data, ?_, hd⟩
  show Option.map _ _ = _
  rw [htask]
  rfl

/-- The first POST was answered 500, and the second one 204. -/
def retried : Pool Party Task Hooks := Pool.run (hooksStep digest) retriedSched startOne

theorem faultless_retried : Pool.Guarded (hooksStep digest) Faultless retriedSched startOne := by decide +kernel

section OneWorker

variable {sched : List (Party × RunChoice)}

/-- Only listener 0 and worker 0 took steps. -/
theorem tasks_of_one (hsched : ∀ x ∈ sched, x.1 = .listener 0 ∨ x.1 = .worker 0) {party : Party}
    (hlistener : party ≠ .listener 0) (hworker : party ≠ .worker 0) :
    (Pool.run (hooksStep digest) sched startOne).tasks party = startOne.tasks party := by
  refine Pool.run_tasks_of_not_mem (fun x hx heq => ?_) startOne
  rcases hsched x hx with h | h
  · exact hlistener (heq.symm.trans h)
  · exact hworker (heq.symm.trans h)

theorem idle_of_one (hsched : ∀ x ∈ sched, x.1 = .listener 0 ∨ x.1 = .worker 0)
    (hnone : ((Pool.run (hooksStep digest) sched startOne).tasks (.worker 0)).isNone = true) (d : Id) :
    ¬ Busy (Pool.run (hooksStep digest) sched startOne) d := by
  rintro ⟨k, job, p, htask, _⟩
  by_cases hk : k = 0
  · subst hk
    rw [htask] at hnone
    cases hnone
  · have hne : Party.worker k ≠ .worker 0 := fun heq => hk (by injection heq)
    rw [tasks_of_one hsched (show Party.worker k ≠ .listener 0 from nofun) hne] at htask
    cases htask

end OneWorker

theorem retried_schedule : ∀ x ∈ retriedSched, x.1 = .listener 0 ∨ x.1 = .worker 0 := by decide +kernel

theorem retried_enqueued : Enqueued (registered (some "c1")) retried "d1" := by
  refine ⟨by decide +kernel, by decide +kernel, fun i => ?_⟩
  by_cases hi : i = 0
  · subst hi
    decide +kernel
  · have hne : Party.listener i ≠ .listener 0 := fun heq => hi (by injection heq)
    rw [retried, tasks_of_one retried_schedule hne nofun]
    exact nofun

theorem retried_idle : ¬ Busy retried "d1" := idle_of_one retried_schedule (by decide +kernel) "d1"

/-- SENT, and nothing is left to do. -/
theorem deliveries_settle_retried :
    (retried.state.postsOf "d1").map Post.ok = [false, true] ∧
      ∃ row, retried.state.db.deliveries.find? "d1" = some row ∧ Between retried.state "d1" row := by
  have hretried : Pool.run (hooksStep digest) retriedSched (startHooks (fun _ => "c1") (registered (some "c1"))) =
      retried := rfl
  have hsettle := deliveries_settle faultless_retried "d1"
  dsimp only at hsettle
  rw [hretried] at hsettle
  exact ⟨by decide +kernel, (hsettle retried_enqueued).2.2.2 retried_idle⟩

end CodeWeaknesses.Webhooks
