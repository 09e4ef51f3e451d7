import CodeWeaknesses.Webhooks.Settled

/-!
# The audit of a delivery

`attempts` is written with the row: 0 by `createDelivery`, the maximum of 1 and what was read by
`tryDeliver`, and the number of the next attempt by `markDeliveryRetrying`.

Results:
* `Counted.work`, `Counted.listen`: what each step leaves in `attempts`.
* `attempts_count_iff`: **between two jobs `attempts` is the number of POSTs that were sent iff the
  delivery does not wait for a retry.**
* `attempts_ahead`: one POST, and `attempts` is 2.
-/

namespace CodeWeaknesses.Webhooks

open Lib Lib.Prog

/-! ## The property -/

/-- One or two POSTs were sent, and none was answered ok. -/
structure AwaitsRetry (w : Hooks) (deliveryId : Id) : Prop where
  sent : w.postsOf deliveryId ≠ []
  left : (w.postsOf deliveryId).length < 3
  failed : ∀ post ∈ w.postsOf deliveryId, post.ok = false

/-! ## What `attempts` is -/

/-- `attempts` of a row that no worker writes, after `n` POSTs. -/
def counted (status : WebhookDeliveryStatus) (n : ℕ) : ℕ := if status = .pending ∧ n ≠ 0 then n + 1 else n

/-- What a job at the point has read, or left in the row, after `n` POSTs. -/
def JobPoint.Counts (n attempts : ℕ) : JobPoint → Prop
  | .posting delivery _ => delivery.attempts = counted .pending n
  | .updating delivery _ => max delivery.attempts 1 = n
  | .failing .. => attempts = n
  | .adding .. => attempts = n + 1
  | _ => True

/-- The job has read its delivery and goes on to write it. -/
def JobPoint.Counting (p : JobPoint) : Prop :=
  (∃ delivery request, p = .posting delivery request) ∨ p.result? ≠ none

/-- What holds of `attempts` in a run in which nothing fails. -/
structure Counted (db : World) (pool : Pool Party PointTask Hooks) : Prop where
  row : ∀ d row, db.deliveries.find? d = none → pool.state.db.deliveries.find? d = some row →
    (∀ k, resultFor d (pool.tasks (.worker k)) = none) →
      row.attempts = counted row.status (pool.state.postsOf d).length
  points : ∀ k job p row, pool.tasks (.worker k) = some (job, p) →
    pool.state.db.deliveries.find? job.data.deliveryId = some row →
      p.Counts (pool.state.postsOf job.data.deliveryId).length row.attempts

theorem JobPoint.counts_of_not {p : JobPoint} (h : ¬ p.Counting) (n attempts : ℕ) : p.Counts n attempts := by
  cases p with
  | posting delivery request => exact absurd (.inl ⟨delivery, request, rfl⟩) h
  | updating delivery result => exact absurd (.inr nofun) h
  | failing delivery result => exact absurd (.inr nofun) h
  | adding delivery result => exact absurd (.inr nofun) h
  | _ => trivial

section Steps

variable {createHmac : String → String → String} {db : World} {pool pool' : Pool Party PointTask Hooks} {k : ℕ}
  {job : Job}

/-! ## Who counts -/

/-- While the next job is queued, nobody writes. -/
theorem Settling.nobody_writes (h : Settling db pool) {d : Id} (hjob : job ∈ pool.state.jobsOf d)
    (hattempt : job.data.attempt = (pool.state.postsOf d).length + 1) (k : ℕ) :
    resultFor d (pool.tasks (.worker k)) = none := by
  by_contra hk
  obtain ⟨result, hresult⟩ := Option.ne_none_iff_exists'.mp hk
  obtain ⟨other, p, htask, rfl, hp⟩ := resultFor_some hresult
  exact h.no_next htask hp hjob hattempt

/-- While the next job is queued, PENDING is stored. -/
theorem Settling.pending_next (h : Settling db pool) {d : Id} (hjob : job ∈ pool.state.jobsOf d)
    (hattempt : job.data.attempt = (pool.state.postsOf d).length + 1) : Pending pool.state d := by
  obtain ⟨hmem, rfl⟩ := Webhooks.mem_jobsOf.mp hjob
  cases (h.active_of_queued hmem).2.progress with
  | next _ _ _ hpending => exact hpending
  | writes k other p result htask hd hp =>
    have hnone := h.nobody_writes hjob hattempt k
    rw [htask, ← hd, resultFor_eq, hp] at hnone
    cases hnone
  | done hsettled => exact absurd hattempt (hsettled.jobs job hjob)

/-- One worker at a time counts for a delivery. -/
theorem Settling.alone (h : Settling db pool) {k' : ℕ} {other : Job} {p p' : JobPoint}
    (htask : pool.tasks (.worker k) = some (job, p)) (htask' : pool.tasks (.worker k') = some (other, p'))
    (hd : other.data.deliveryId = job.data.deliveryId) (hp : p.Counting) (hp' : p'.Counting) : k' = k := by
  obtain ⟨_, hactive⟩ := h.active_of_worker htask
  have hnext : ∀ {k job p}, pool.tasks (.worker k) = some (job, p) →
      (∃ delivery request, p = .posting delivery request) →
        job.data.attempt = (pool.state.postsOf job.data.deliveryId).length + 1 := by
    rintro k job p htask ⟨delivery, request, rfl⟩
    exact (h.holds_of_worker htask).2.2
  rcases hp with hposting | hresult <;> rcases hp' with hposting' | hresult'
  · have hattempt' := hnext htask' hposting'
    rw [hd] at hattempt'
    exact h.worker_ext hactive htask' htask hd rfl (hattempt'.trans (hnext htask hposting).symm)
  · have hnone := h.nobody_writes (hactive.mem_jobsOf htask rfl) (hnext htask hposting) k'
    rw [htask', ← hd, resultFor_eq] at hnone
    exact absurd hnone hresult'
  · have hattempt' := hnext htask' hposting'
    rw [hd] at hattempt'
    have hnone := h.nobody_writes (hactive.mem_jobsOf htask' hd) hattempt' k
    rw [htask, resultFor_eq] at hnone
    exact absurd hnone hresult
  · refine h.attempted.unique job.data.deliveryId k' k ?_ ?_
    · rwa [htask', ← hd, resultFor_eq]
    · rwa [htask, resultFor_eq]

/-! ## Steps of a worker -/

/-- A step that writes no delivery and sends no POST, of a worker that has sent none. -/
theorem Counted.keep (hc : Counted db pool)
    (hdeliveries : pool'.state.db.deliveries = pool.state.db.deliveries)
    (hposts : pool'.state.posts = pool.state.posts)
    (hother : ∀ party, party ≠ .worker k → pool'.tasks party = pool.tasks party)
    (hbefore : ∀ d, resultFor d (pool.tasks (.worker k)) = none)
    (hafter : ∀ job p row, pool'.tasks (.worker k) = some (job, p) →
      pool.state.db.deliveries.find? job.data.deliveryId = some row →
        p.Counts (pool.state.postsOf job.data.deliveryId).length row.attempts) : Counted db pool' := by
  have hpostsOf : ∀ d, pool'.state.postsOf d = pool.state.postsOf d := by
    intro d
    rw [Hooks.postsOf, hposts, Hooks.postsOf]
  constructor
  · intro d row hnew hrow hnone
    rw [hdeliveries] at hrow
    rw [hpostsOf]
    refine hc.row d row hnew hrow fun k' => ?_
    by_cases hk : k' = k
    · rw [hk]
      exact hbefore d
    · rw [← task_of_other hother hk]
      exact hnone k'
  · intro k' job p row htask hrow
    rw [hdeliveries] at hrow
    rw [hpostsOf]
    by_cases hk : k' = k
    · subst hk
      exact hafter job p row htask hrow
    · rw [task_of_other hother hk] at htask
      exact hc.points k' job p row htask hrow

/-- A step of the worker that counts for a delivery. -/
theorem Counted.of_worker (h : Settling db pool) (hc : Counted db pool) {p p' : JobPoint}
    (htask : pool.tasks (.worker k) = some (job, p)) (htask' : pool'.tasks (.worker k) = some (job, p'))
    (hother : ∀ party, party ≠ .worker k → pool'.tasks party = pool.tasks party) (hp : p.Counting)
    (hrows : ∀ d, job.data.deliveryId ≠ d →
      pool'.state.db.deliveries.find? d = pool.state.db.deliveries.find? d)
    (hposts : ∀ d, job.data.deliveryId ≠ d → pool'.state.postsOf d = pool.state.postsOf d)
    (hself : ∀ row, pool'.state.db.deliveries.find? job.data.deliveryId = some row →
      p'.Counts (pool'.state.postsOf job.data.deliveryId).length row.attempts ∧
        (p'.result? = none → row.attempts = counted row.status (pool'.state.postsOf job.data.deliveryId).length)) :
    Counted db pool' := by
  constructor
  · intro d row hnew hrow hnone
    by_cases hd : job.data.deliveryId = d
    · subst hd
      have hresult := hnone k
      rw [htask', resultFor_eq] at hresult
      exact (hself row hrow).2 hresult
    · rw [hrows d hd] at hrow
      rw [hposts d hd]
      refine hc.row d row hnew hrow fun k' => ?_
      by_cases hk : k' = k
      · rw [hk, htask]
        exact if_neg hd
      · rw [← task_of_other hother hk]
        exact hnone k'
  · intro k' other q row htask₂ hrow
    by_cases hk : k' = k
    · subst hk
      cases htask'.symm.trans htask₂
      exact (hself row hrow).1
    · rw [task_of_other hother hk] at htask₂
      by_cases hd : job.data.deliveryId = other.data.deliveryId
      · exact JobPoint.counts_of_not (fun hq => hk (h.alone htask htask₂ hd.symm hp hq)) _ _
      · rw [hrows _ hd] at hrow
        rw [hposts _ hd]
        exact hc.points k' other q row htask₂ hrow

/-- The delivery that a job finds awaits the next attempt. -/
theorem counts_afterFind {row : WebhookDelivery} {subscription : Option WebhookSubscription} {n attempts : ℕ}
    (hrow : row.attempts = counted .pending n) :
    (afterFind createHmac (some (row, subscription))).Counts n attempts := by
  unfold afterFind
  dsimp only
  cases Json.parse row.payload with
  | error e => trivial
  | ok payload =>
    cases subscription with
    | none => trivial
    | some subscription => exact hrow

/-- A job finds its delivery. -/
theorem Counted.finds (h : Settling db pool) (hc : Counted db pool)
    (htask : pool.tasks (.worker k) = some (job, .finding)) {row : WebhookDelivery}
    (hrow : pool.state.db.deliveries.find? job.data.deliveryId = some row) :
    row.attempts = counted .pending (pool.state.postsOf job.data.deliveryId).length := by
  obtain ⟨hnew, hactive⟩ := h.active_of_worker htask
  have hjob := hactive.mem_jobsOf htask rfl
  have hattempt : job.data.attempt = (pool.state.postsOf job.data.deliveryId).length + 1 :=
    (h.holds_of_worker htask).2.2
  obtain ⟨row', hrow', hpending, _⟩ := h.pending_next hjob hattempt
  cases hrow.symm.trans hrow'
  rw [hc.row _ row hnew hrow (h.nobody_writes hjob hattempt), hpending]

/-- The number that `tryDeliver` stores after its POST. -/
theorem max_counted (n : ℕ) : max (counted .pending n) 1 = n + 1 := by
  unfold counted
  split_ifs with hn
  · omega
  · have hzero : n = 0 := by simpa using hn
    rw [hzero]
    rfl

theorem counted_sent (n : ℕ) : counted .sent n = n := if_neg fun h => nomatch h.1

theorem counted_failed (n : ℕ) : counted .failed n = n := if_neg fun h => nomatch h.1

/-- A job updates its delivery. -/
theorem Update.counts {c : RunChoice} {p p' : JobPoint} {delivery row : WebhookDelivery}
    {status : WebhookDeliveryStatus} {attempts : Option ℕ} {result : DeliveryResult}
    (hupdate : Update job.data p p' delivery status attempts result) (hsound : p.Sound job.data) {n : ℕ}
    (hattempt : job.data.attempt = n) (hp : p.Counts n row.attempts) :
    p'.Counts n (stored c status attempts result.responseCode row).attempts ∧
      (p'.result? = none → (stored c status attempts result.responseCode row).attempts =
        counted (stored c status attempts result.responseCode row).status n) := by
  cases hupdate with
  | updating =>
    unfold afterUpdate
    split_ifs with hsent hthree
    · refine ⟨trivial, fun _ => ?_⟩
      rw [show (stored c result.status _ result.responseCode row).status = .sent from hsent,
        counted_sent]
      exact hp
    · exact ⟨hp, nofun⟩
    · exact ⟨trivial, nofun⟩
  | failing => exact ⟨trivial, fun _ => hp.trans (counted_failed n).symm⟩
  | retrying => exact ⟨congrArg (· + 1) hattempt, nofun⟩

/-- What a step of a worker leaves in `attempts`. -/
theorem Counted.work (h : Settling db pool) (hc : Counted db pool) {c : RunChoice}
    (hworked : Worked createHmac c pool.state (pool.tasks (.worker k)) (pool'.tasks (.worker k)) pool'.state)
    (hother : ∀ party, party ≠ .worker k → pool'.tasks party = pool.tasks party) (hgoes : c.stops = false)
    (hflawless : c.call.fails = none) : Counted db pool' := by
  generalize ht : pool.tasks (.worker k) = t at hworked
  generalize ht' : pool'.tasks (.worker k) = t' at hworked
  generalize hw' : pool'.state = w' at hworked
  have hquiet : ∀ {job p}, t = some (job, p) → p.result? = none → ∀ d, resultFor d (pool.tasks (.worker k)) = none := by
    rintro job p rfl hp d
    rw [ht]
    show (if job.data.deliveryId = d then p.result? else none) = none
    rw [hp, ite_self]
  have hidle : t = none → ∀ d, resultFor d (pool.tasks (.worker k)) = none := by
    rintro rfl d
    rw [ht]
    rfl
  cases hworked with
  | idle =>
    refine hc.keep (by rw [hw']) (by rw [hw']) hother (hidle rfl) fun _ _ _ htask _ => ?_
    cases ht'.symm.trans htask
  | takes hwaiting =>
    refine hc.keep (by rw [hw']; rfl) (by rw [hw']; rfl) hother (hidle rfl) fun _ _ _ htask _ => ?_
    cases ht'.symm.trans htask
    trivial
  | stops job p hstops =>
    rw [hgoes] at hstops
    cases hstops
  | completes job =>
    refine hc.keep (by rw [hw']; rfl) (by rw [hw']; rfl) hother (hquiet rfl rfl) fun _ _ _ htask _ => ?_
    cases ht'.symm.trans htask
  | throws job e =>
    exact (h.holds_of_worker ht).2.2.elim
  | fails job p e hfails =>
    rw [hflawless] at hfails
    cases hfails
  | finds job =>
    refine hc.keep (by rw [hw']) (by rw [hw']) hother (hquiet rfl rfl) fun _ _ row htask hrow => ?_
    cases ht'.symm.trans htask
    rw [hrow]
    exact counts_afterFind (hc.finds h ht hrow)
  | posts job delivery request _ =>
    refine hc.of_worker h ht ht' hother (.inl ⟨delivery, request, rfl⟩) ?_ ?_ fun row hrow => ⟨?_, nofun⟩
    · rw [hw']
      exact fun _ _ => rfl
    · rw [hw']
      intro d hd
      rw [postsOf_send rfl, if_neg hd]
    · rw [hw'] at hrow
      have hread : delivery.attempts = counted .pending (pool.state.postsOf job.data.deliveryId).length :=
        hc.points k job _ row ht hrow
      rw [hw', postsOf_send rfl, if_pos rfl, List.length_append, List.length_singleton]
      show max delivery.attempts 1 = _
      rw [hread, max_counted]
  | updates job hupdate =>
    rename_i p p' delivery status attempts result
    have hsound := (h.attempted.running k job p ht).2
    obtain ⟨hresult, hid, _⟩ := hupdate.spec hsound
    have hfind := find?_updateDelivery pool.state.db delivery.id c status attempts result.responseCode
    refine hc.of_worker h ht ht' hother (.inr (by rw [hresult]; exact nofun)) ?_ ?_ fun row hrow => ?_
    · rw [hw']
      intro d hd
      rw [hfind, if_neg fun heq => hd (hid.symm.trans heq.symm)]
    · rw [hw']
      exact fun _ _ => rfl
    · rw [hw', hfind, if_pos hid.symm] at hrow
      obtain ⟨old, hold, rfl⟩ := Option.map_eq_some_iff.mp hrow
      rw [hw']
      exact hupdate.counts hsound (h.attempt_writer ht hresult) (hc.points k job p old ht hold)
  | adds job delivery result =>
    have hdeliveries : pool'.state.db.deliveries = pool.state.db.deliveries := by
      rw [hw', h.queue_enqueue ht]
    have hposts : pool'.state.posts = pool.state.posts := by rw [hw']; rfl
    refine hc.of_worker h ht ht' hother (.inr nofun) ?_ ?_ fun row hrow => ⟨trivial, fun _ => ?_⟩
    · rw [hdeliveries]
      exact fun _ _ => rfl
    · intro d _
      rw [Hooks.postsOf, hposts, Hooks.postsOf]
    · rw [hdeliveries] at hrow
      rw [Hooks.postsOf, hposts, ← Hooks.postsOf]
      have hcount : row.attempts = (pool.state.postsOf job.data.deliveryId).length + 1 :=
        hc.points k job _ row ht hrow
      obtain ⟨row', hrow', hpending, _⟩ := h.pending_adding ht
      cases hrow.symm.trans hrow'
      obtain ⟨post, hlast, _⟩ := h.last_writer ht rfl
      have hsent : (pool.state.postsOf job.data.deliveryId).length ≠ 0 := by
        intro hzero
        rw [List.length_eq_zero_iff.mp hzero] at hlast
        cases hlast
      rw [hcount, counted, if_pos ⟨hpending, hsent⟩]

/-! ## Steps of a listener -/

/-- What a step of a listener leaves in `attempts`. -/
theorem Counted.listen (h : Settling db pool) (hc : Counted db pool) {i : ℕ} {c : Choice} {p p' : ListenerPoint}
    {w' : World} (hlistened : Listened c pool.state.db p p' w')
    (hstate : pool'.state = { pool.state with db := w' })
    (hother : ∀ party, party ≠ .listener i → pool'.tasks party = pool.tasks party) : Counted db pool' := by
  have hworkers : ∀ k, pool'.tasks (.worker k) = pool.tasks (.worker k) := fun k => hother (.worker k) nofun
  have hkeep : w'.deliveries = pool.state.db.deliveries → Counted db pool' := by
    intro hdeliveries
    constructor
    · intro d row hnew hrow hnone
      rw [hstate] at hrow ⊢
      simp only [hworkers] at hnone
      exact hc.row d row hnew (hdeliveries ▸ hrow) hnone
    · intro k job q row htask hrow
      rw [hstate] at hrow ⊢
      rw [hworkers] at htask
      exact hc.points k job q row htask (hdeliveries ▸ hrow)
  cases hlistened with
  | reads => exact hkeep rfl
  | adds => exact hkeep (deliveries_addJob _ _ _ _)
  | saves payload subscription subscriptions hfree =>
    have hquiet := (h.quiet_of_free hfree).1
    constructor
    · intro d row hnew hrow hnone
      rw [hstate] at hrow ⊢
      simp only [hworkers] at hnone
      dsimp only at hrow
      rw [Table.find?_upsert] at hrow
      split_ifs at hrow with hd
      · cases hrow
        show 0 = counted .pending (pool.state.postsOf d).length
        rw [show d = c.uuid from hd, hquiet.posts]
        rfl
      · exact hc.row d row hnew hrow hnone
    · intro k job q row htask hrow
      rw [hstate] at hrow ⊢
      rw [hworkers] at htask
      dsimp only at hrow
      rw [Table.find?_upsert] at hrow
      split_ifs at hrow with hd
      · exact absurd hd (hquiet.workers k job q htask)
      · exact hc.points k job q row htask hrow

/-! ## Runs -/

theorem counted_start (events : ℕ → Id) (db : World) : Counted db (startPoints events db) where
  row d row hnew hrow _ := by
    rw [show (startPoints events db).state.db.deliveries = db.deliveries from rfl, hnew] at hrow
    cases hrow
  points _ _ _ _ htask := nomatch htask

/-- What a step keeps in which nothing fails. -/
theorem Counted.step (h : Settling db pool) (hc : Counted db pool) {x : Party × RunChoice}
    (hx : Faultless x (Pool.map (taskOf createHmac) pool)) :
    Counted db (Pool.step (pointsStep createHmac) x pool) := by
  obtain ⟨party, c⟩ := x
  cases party with
  | listener i =>
    exact hc.listen h (i := i) (listened c.call pool.state.db (pool.tasks (.listener i))) rfl
      fun party hne => tasks_step hne pool
  | worker k => exact hc.work h (worked_step k c pool) (fun party hne => tasks_step hne pool) hx.1 hx.2

/-- A PENDING delivery that has sent a POST waits for a retry. -/
theorem Settling.awaitsRetry_iff (h : Settling db pool) {d : Id} {row : WebhookDelivery}
    (hnew : db.deliveries.find? d = none) (hrow : pool.state.db.deliveries.find? d = some row)
    (hidle : ∀ k job p, pool.tasks (.worker k) = some (job, p) → job.data.deliveryId ≠ d) :
    AwaitsRetry pool.state d ↔ row.status = .pending ∧ (pool.state.postsOf d).length ≠ 0 := by
  rcases h.tracked d with ⟨_, _, hold⟩ | ⟨_, ⟨i, hannounced⟩ | hactive⟩
  · rw [hold, hnew] at hrow
    cases hrow
  · refine ⟨fun hawaits => absurd hannounced.posts hawaits.sent, fun hpending => ?_⟩
    rw [hannounced.posts] at hpending
    exact absurd rfl hpending.2
  obtain ⟨row', hrow', hbetween⟩ := h.between hactive hidle
  cases hrow.symm.trans hrow'
  constructor
  · rintro ⟨hsent, hleft, hfailed⟩
    refine ⟨?_, fun hzero => hsent (List.length_eq_zero_iff.mp hzero)⟩
    cases hstatus : row.status with
    | pending => rfl
    | sent =>
      obtain ⟨post, hlast, hok⟩ := hbetween.sent.mp hstatus
      rw [hfailed post (List.mem_of_getLast? hlast)] at hok
      cases hok
    | failed =>
      obtain ⟨hthree, _⟩ := hbetween.failed.mp hstatus
      omega
  · rintro ⟨hpending, hlength⟩
    have hsent : pool.state.postsOf d ≠ [] := fun hnil => hlength (by rw [hnil]; rfl)
    have hlast := List.getLast?_eq_some_getLast hsent
    have hfailed : ∀ post ∈ pool.state.postsOf d, post.ok = false := by
      refine h.attempted.posts_failed hlast (Bool.eq_false_iff.mpr fun hok => ?_)
      rw [hbetween.sent.mpr ⟨_, hlast, hok⟩] at hpending
      cases hpending
    refine ⟨hsent, lt_of_le_of_ne (h.attempted.le_three d) fun hthree => ?_, hfailed⟩
    rw [hbetween.failed.mpr ⟨hthree, hfailed⟩] at hpending
    cases hpending

end Steps

/-- **Main**: in every state of a run in which nothing fails, for each delivery that was created in
    the run and while no worker runs a job of it, `attempts` is the number of POSTs that were sent
    iff the delivery does not wait for a retry. -/
theorem attempts_count_iff {createHmac : String → String → String} {events : ℕ → Id} {db : World}
    {sched : List (Party × RunChoice)}
    (hg : Pool.Guarded (hooksStep createHmac) Faultless sched (startHooks events db)) {d : Id}
    (hnew : db.deliveries.find? d = none) :
    let final := Pool.run (hooksStep createHmac) sched (startHooks events db)
    ∀ row, final.state.db.deliveries.find? d = some row → ¬ Busy final d →
      (row.attempts = (final.state.postsOf d).length ↔ ¬ AwaitsRetry final.state d) := by
  intro final row hrow hbusy
  have hfinal : final = Pool.map (taskOf createHmac) (Pool.run (pointsStep createHmac) sched (startPoints events db)) := by
    show Pool.run _ _ _ = _
    rw [← map_startPoints createHmac, Pool.run_map (simulatesHooks createHmac)]
  rw [← map_startPoints createHmac, Pool.guarded_map (simulatesHooks createHmac)] at hg
  obtain ⟨h, hc⟩ := Pool.invariant (I := fun pool => Settling db pool ∧ Counted db pool)
    (fun _ _ hx hI => ⟨hI.1.step hx, hI.2.step hI.1 hx⟩) hg ⟨settling_start events db, counted_start events db⟩
  rw [hfinal] at hrow hbusy ⊢
  set pool := Pool.run (pointsStep createHmac) sched (startPoints events db)
  have hidle : ∀ k job p, pool.tasks (.worker k) = some (job, p) → job.data.deliveryId ≠ d := by
    refine fun k job p htask hd => hbusy ⟨k, job, p.code createHmac job.data, ?_, hd⟩
    show Option.map _ _ = _
    rw [htask]
    rfl
  have hnone : ∀ k, resultFor d (pool.tasks (.worker k)) = none := by
    intro k
    by_contra hk
    obtain ⟨result, hresult⟩ := Option.ne_none_iff_exists'.mp hk
    obtain ⟨job, p, htask, hd, _⟩ := resultFor_some hresult
    exact hidle k job p htask hd
  have hcount := hc.row d row hnew hrow hnone
  have hawaits := h.awaitsRetry_iff hnew hrow hidle
  show row.attempts = (pool.state.postsOf d).length ↔ ¬ AwaitsRetry pool.state d
  rw [hcount, hawaits, counted]
  split_ifs with hpending
  · exact ⟨fun heq => by omega, fun hnot => absurd hpending hnot⟩
  · exact ⟨fun _ => hpending, fun _ => rfl⟩

/-- SENT after two POSTs, and `attempts` is 2. -/
theorem attempts_count_retried :
    ∃ row, retried.state.db.deliveries.find? "d1" = some row ∧ row.status = .sent ∧
      row.attempts = (retried.state.postsOf "d1").length := by
  have hretried : Pool.run (hooksStep digest) retriedSched (startHooks (fun _ => "c1") (registered (some "c1"))) =
      retried := rfl
  have hstatus : (retried.state.db.deliveries.find? "d1").map WebhookDelivery.status = some .sent := by
    decide +kernel
  obtain ⟨row, hrow, hsent⟩ := Option.map_eq_some_iff.mp hstatus
  have hcount := attempts_count_iff faultless_retried (d := "d1") (by decide +kernel)
  dsimp only at hcount
  rw [hretried] at hcount
  refine ⟨row, hrow, hsent, (hcount row hrow retried_idle).mpr fun hawaits => ?_⟩
  have hok : ∃ post ∈ retried.state.postsOf "d1", post.ok = true := by decide +kernel
  obtain ⟨post, hpost, hok⟩ := hok
  rw [hawaits.failed post hpost] at hok
  cases hok

/-- The first POST is answered 500, and the job completes. -/
def failedSched : List (Party × RunChoice) := announced ++ working 7 (answering ("d1", 1) 500)

/-- Between the first job and the second one, one POST was sent and `attempts` is 2. -/
theorem attempts_ahead :
    let final := Pool.run (hooksStep digest) failedSched startOne
    Pool.Guarded (hooksStep digest) Faultless failedSched startOne ∧ ¬ Busy final "d1" ∧
      (final.state.postsOf "d1").length = 1 ∧
        (final.state.db.deliveries.find? "d1").map WebhookDelivery.attempts = some 2 := by
  refine ⟨by decide +kernel, idle_of_one (by decide +kernel) (by decide +kernel) "d1", ?_, ?_⟩
  · decide +kernel
  · decide +kernel

end CodeWeaknesses.Webhooks
