import CodeWeaknesses.Sse.Registry

/-!
# Reference counts of the live streams

`SubmissionSseService` counts the clients of a submission under its id. A client joins
the stream that is current when it connects, but the cleanup on its disconnect names the
submission only: it counts down whatever stream is current by then.

Results:
* `Counted.step`: a timely call keeps the counts.
* `counted_iff`: **the counts are right throughout a run iff no disconnect arrives when
  a later stream of its submission is current.**
* `stale_cleanup`: the disconnect of an earlier client completes a later stream.
-/

namespace CodeWeaknesses.Sse

open Lib

/-! ## Clients and calls -/

/-- The service, and for every client that has not disconnected the submission and the
    stream that it joined. -/
structure Registry where
  sse : SubmissionSseService
  attached : List (Id × SubjectRef)

/-- What reaches the service: a client connects, a client that joined the stream `ref`
    of a submission disconnects, or the processor calls. -/
inductive RegistryCall where
  | connect (submissionId : Id)
  | disconnect (submissionId : Id) (ref : SubjectRef)
  | push (submissionId : Id) (event : SseEvent)
  | complete (submissionId : Id)
  | error (submissionId : Id) (message : String)

namespace Registry

def init : Registry := ⟨.init, []⟩

/-- One call. Each connected client disconnects once. -/
def step (r : Registry) : RegistryCall → Registry
  | .connect id => ⟨(r.sse.getOrCreate id).2, (id, (r.sse.getOrCreate id).1) :: r.attached⟩
  | .disconnect id ref =>
    if (id, ref) ∈ r.attached then ⟨r.sse.cleanup id, r.attached.erase (id, ref)⟩ else r
  | .push id event => { r with sse := r.sse.push id event }
  | .complete id => { r with sse := r.sse.complete id }
  | .error id message => { r with sse := r.sse.error id message }

def run (calls : List RegistryCall) : Registry := calls.foldl step init

/-! ## What should hold -/

/-- The number of clients attached to the stream. -/
def clientsOf (r : Registry) (id : Id) (ref : SubjectRef) : ℕ := r.attached.count (id, ref)

/-- The counts are those of the clients attached to the current streams. -/
structure Counted (r : Registry) : Prop where
  keys : ∀ id, id ∈ r.sse.streams.keys ↔ id ∈ r.sse.refCounts.keys
  count : ∀ id ref, r.sse.streams.get? id = some ref →
    r.sse.refCounts.get? id = some (r.clientsOf id ref : ℤ)
  pos : ∀ id ref, r.sse.streams.get? id = some ref → 1 ≤ r.clientsOf id ref

/-- The call, if it is a disconnect, completes no stream that another client is still
    attached to. -/
def Harmless (r : Registry) : RegistryCall → Prop
  | .disconnect id ref => (id, ref) ∈ r.attached → ∀ id' ref', r.sse.streams.get? id' = some ref' →
      (r.step (.disconnect id ref)).sse.streams.get? id' ≠ some ref' →
      (r.step (.disconnect id ref)).clientsOf id' ref' = 0
  | _ => True

/-- The call, if a client disconnects, comes while the stream that the client joined is
    current, or when the submission has no stream. -/
def Timely (r : Registry) : RegistryCall → Prop
  | .disconnect id ref => (id, ref) ∈ r.attached →
      r.sse.streams.get? id = some ref ∨ r.sse.streams.get? id = none
  | _ => True

end Registry

/-! ## The maps after a call -/

namespace SubmissionSseService

variable (s : SubmissionSseService)

theorem maps_push (id : Id) (event : SseEvent) :
    (s.push id event).streams = s.streams ∧ (s.push id event).refCounts = s.refCounts ∧
      (s.push id event).fresh = s.fresh := by
  unfold push
  cases s.streams.get? id with
  | none => exact ⟨rfl, rfl, rfl⟩
  | some ref =>
    simp only [next]
    split_ifs <;> exact ⟨rfl, rfl, rfl⟩

theorem maps_close (ref : SubjectRef) :
    (s.close ref).streams = s.streams ∧ (s.close ref).refCounts = s.refCounts ∧
      (s.close ref).fresh = s.fresh := by
  unfold close
  split_ifs <;> exact ⟨rfl, rfl, rfl⟩

theorem get?_streams_complete (id id' : Id) :
    (s.complete id).streams.get? id' = if id' = id then none else s.streams.get? id' := by
  unfold complete
  cases h : s.streams.get? id with
  | none =>
    simp only
    split_ifs with hid
    · rw [hid, h]
    · rfl
  | some ref => simp only [(maps_close s ref).1, OrdMap.get?_erase]

theorem get?_refCounts_complete (id id' : Id) (h : (s.refCounts.get? id).isSome = (s.streams.get? id).isSome) :
    (s.complete id).refCounts.get? id' = if id' = id then none else s.refCounts.get? id' := by
  unfold complete
  cases hget : s.streams.get? id with
  | none =>
    rw [hget] at h
    simp only
    split_ifs with hid
    · rw [hid]
      exact Option.not_isSome_iff_eq_none.mp (by rw [h]; decide)
    · rfl
  | some ref => simp only [(maps_close s ref).2.1, OrdMap.get?_erase]

theorem fresh_complete (id : Id) : (s.complete id).fresh = s.fresh := by
  unfold complete
  cases s.streams.get? id with
  | none => rfl
  | some ref => exact (maps_close s ref).2.2

/-- `error` does to the maps what `complete` does. -/
theorem maps_error (id : Id) (message : String) :
    (s.error id message).streams = (s.complete id).streams ∧
      (s.error id message).refCounts = (s.complete id).refCounts ∧
      (s.error id message).fresh = (s.complete id).fresh := by
  have hpush := maps_push s id (.submissionError message)
  unfold push at hpush
  unfold error
  cases hget : s.streams.get? id with
  | none =>
    have hcomplete : s.complete id = s := by simp [complete, hget]
    rw [hcomplete]
    exact ⟨rfl, rfl, rfl⟩
  | some ref =>
    rw [hget] at hpush
    obtain ⟨hstreams, hcounts, hfresh⟩ := hpush
    simp only at hstreams hcounts hfresh
    simp only [complete, hstreams, hget, (maps_close _ ref).1, (maps_close _ ref).2.1, hcounts,
      (maps_close _ ref).2.2, hfresh]
    exact ⟨trivial, trivial, trivial⟩

/-- A client joins the current stream, or a new one. -/
theorem maps_getOrCreate (id : Id) (h : (s.refCounts.get? id).isSome = (s.streams.get? id).isSome) :
    (∀ id', (s.getOrCreate id).2.streams.get? id' =
        if id' = id then some (s.getOrCreate id).1 else s.streams.get? id') ∧
      (∀ id', (s.getOrCreate id).2.refCounts.get? id' =
        if id' = id then some ((s.refCounts.get? id).getD 0 + 1) else s.refCounts.get? id') ∧
      ((s.streams.get? id = some (s.getOrCreate id).1 ∧ (s.getOrCreate id).2.fresh = s.fresh) ∨
        (s.streams.get? id = none ∧ (s.getOrCreate id).1 = s.fresh ∧
          (s.getOrCreate id).2.fresh = s.fresh + 1)) := by
  cases hget : s.streams.get? id with
  | some ref =>
    simp only [getOrCreate, ensure_of_some hget, hget, Option.getD_some, OrdMap.get?_set]
    refine ⟨?_, fun id' => trivial, .inl ⟨trivial, trivial⟩⟩
    intro id'
    split_ifs with hid
    · rw [hid, hget]
    · rfl
  | none =>
    rw [hget] at h
    have hcount : s.refCounts.get? id = none := Option.not_isSome_iff_eq_none.mp (by rw [h]; decide)
    simp only [getOrCreate, ensure_of_none hget, OrdMap.get?_set_self, Option.getD_some, OrdMap.get?_set,
      OrdMap.set_set, hcount, Option.getD_none]
    exact ⟨fun _ => trivial, fun _ => trivial, .inr ⟨trivial, trivial, trivial⟩⟩

end SubmissionSseService

/-! ## One call -/

namespace Registry

variable {r : Registry}

/-- Every stream that is current or was joined has been created. -/
structure Created (r : Registry) : Prop where
  current : ∀ id ref, r.sse.streams.get? id = some ref → ref < r.sse.fresh
  joined : ∀ x ∈ r.attached, x.2 < r.sse.fresh

theorem Counted.isSome_eq (h : Counted r) (id : Id) :
    (r.sse.refCounts.get? id).isSome = (r.sse.streams.get? id).isSome := by
  rw [← OrdMap.has_eq_isSome, ← OrdMap.has_eq_isSome, Bool.eq_iff_iff, OrdMap.has_iff, OrdMap.has_iff]
  exact (h.keys id).symm

/-- The three conditions read off the two maps. -/
theorem counted_of_get? (hcount : ∀ id, r.sse.refCounts.get? id =
      (r.sse.streams.get? id).map fun ref => (r.clientsOf id ref : ℤ))
    (hpos : ∀ id ref, r.sse.streams.get? id = some ref → 1 ≤ r.clientsOf id ref) : Counted r where
  keys := by
    intro id
    rw [← OrdMap.has_iff, ← OrdMap.has_iff, OrdMap.has_eq_isSome, OrdMap.has_eq_isSome, hcount, Option.isSome_map]
  count := by
    intro id ref h
    rw [hcount, h]
    rfl
  pos := hpos

theorem Counted.get? (h : Counted r) (id : Id) : r.sse.refCounts.get? id =
    (r.sse.streams.get? id).map fun ref => (r.clientsOf id ref : ℤ) := by
  cases hget : r.sse.streams.get? id with
  | some ref => exact h.count id ref hget
  | none =>
    have hsome := h.isSome_eq id
    rw [hget] at hsome
    exact Option.not_isSome_iff_eq_none.mp (by rw [hsome]; decide)

/-- A call that leaves clients and maps alone. -/
theorem Counted.congr {r' : Registry} (h : Counted r) (hattached : r'.attached = r.attached)
    (hstreams : r'.sse.streams = r.sse.streams) (hcounts : r'.sse.refCounts = r.sse.refCounts) :
    Counted r' where
  keys := by
    rw [hstreams, hcounts]
    exact h.keys
  count := by
    unfold clientsOf
    rw [hstreams, hcounts, hattached]
    exact h.count
  pos := by
    unfold clientsOf
    rw [hstreams, hattached]
    exact h.pos

/-- A call that removes the stream of `id`. -/
theorem Counted.remove {r' : Registry} (h : Counted r) (id : Id)
    (hclients : ∀ id' ref, id' ≠ id → r'.clientsOf id' ref = r.clientsOf id' ref)
    (hstreams : ∀ id', r'.sse.streams.get? id' = if id' = id then none else r.sse.streams.get? id')
    (hcounts : ∀ id', r'.sse.refCounts.get? id' = if id' = id then none else r.sse.refCounts.get? id') :
    Counted r' := by
  refine counted_of_get? ?_ ?_
  · intro id'
    rw [hcounts, hstreams]
    split_ifs with hid
    · rfl
    · simp only [h.get? id', hclients id' _ hid]
  · intro id' ref hget
    rw [hstreams] at hget
    split_ifs at hget with hid
    rw [hclients id' ref hid]
    exact h.pos id' ref hget

/-- A call after which `ref` is the stream of `id`, with `n` clients. -/
theorem Counted.recount {r' : Registry} (h : Counted r) (id : Id) (ref : SubjectRef)
    (hclients : ∀ id' ref', id' ≠ id → r'.clientsOf id' ref' = r.clientsOf id' ref')
    (hstreams : ∀ id', r'.sse.streams.get? id' = if id' = id then some ref else r.sse.streams.get? id')
    (hcounts : ∀ id', r'.sse.refCounts.get? id' =
      if id' = id then some (r'.clientsOf id ref : ℤ) else r.sse.refCounts.get? id')
    (hpos : 1 ≤ r'.clientsOf id ref) : Counted r' := by
  refine counted_of_get? ?_ ?_
  · intro id'
    rw [hcounts, hstreams]
    split_ifs with hid
    · rw [hid]
      rfl
    · simp only [h.get? id', hclients id' _ hid]
  · intro id' ref' hget
    rw [hstreams] at hget
    split_ifs at hget with hid
    · cases hget
      rw [hid]
      exact hpos
    · rw [hclients id' ref' hid]
      exact h.pos id' ref' hget

theorem Counted.connect (h : Counted r) (hcreated : Created r) (id : Id) :
    Counted (r.step (.connect id)) := by
  obtain ⟨hstreams, hcounts, hwhich⟩ := SubmissionSseService.maps_getOrCreate r.sse id (h.isSome_eq id)
  have hclients : (r.step (.connect id)).clientsOf id (r.sse.getOrCreate id).1 =
      r.clientsOf id (r.sse.getOrCreate id).1 + 1 := List.count_cons_self
  have hcount : (r.sse.refCounts.get? id).getD 0 = (r.clientsOf id (r.sse.getOrCreate id).1 : ℤ) := by
    rcases hwhich with ⟨hget, _⟩ | ⟨hget, hfresh, _⟩
    · rw [h.count id _ hget]
      rfl
    · -- nobody has joined a stream that is about to be created
      have hnone : r.clientsOf id r.sse.fresh = 0 := by
        refine List.count_eq_zero.mpr fun hmem => ?_
        exact Nat.lt_irrefl _ (hcreated.joined _ hmem)
      rw [h.get? id, hget, hfresh, hnone]
      rfl
  refine h.recount id _ ?_ hstreams ?_ (by omega)
  · intro id' ref' hid
    exact List.count_cons_of_ne (fun heq => hid (congrArg Prod.fst heq).symm)
  · intro id'
    rw [hclients]
    push_cast
    rw [← hcount]
    exact hcounts id'

theorem step_disconnect {id : Id} {ref : SubjectRef} (hmem : (id, ref) ∈ r.attached) :
    r.step (.disconnect id ref) = ⟨r.sse.cleanup id, r.attached.erase (id, ref)⟩ := if_pos hmem

/-- A disconnect takes one client off the stream that it joined, and none off others. -/
theorem clientsOf_disconnect {id : Id} {ref : SubjectRef} (hmem : (id, ref) ∈ r.attached) (id' : Id)
    (ref' : SubjectRef) : (r.step (.disconnect id ref)).clientsOf id' ref' =
      if (id', ref') = (id, ref) then r.clientsOf id ref - 1 else r.clientsOf id' ref' := by
  rw [step_disconnect hmem, clientsOf]
  split_ifs with heq
  · rw [heq]
    exact List.count_erase_self
  · exact List.count_erase_of_ne heq

/-- `cleanup` on a stream with its last client completes it, otherwise it counts down. -/
theorem cleanup_of_count {s : SubmissionSseService} {id : Id} {n : ℕ}
    (h : s.refCounts.get? id = some (n : ℤ)) :
    s.cleanup id = if n ≤ 1 then s.complete id else { s with refCounts := s.refCounts.set id (n - 1) } := by
  unfold SubmissionSseService.cleanup
  simp only [h]
  have hle : (n : ℤ) - 1 ≤ 0 ↔ n ≤ 1 := by omega
  simp only [hle]

/-- A disconnect from the current stream. -/
theorem Counted.disconnect_current (h : Counted r) {id : Id} {ref : SubjectRef}
    (hmem : (id, ref) ∈ r.attached) (hget : r.sse.streams.get? id = some ref) :
    Counted (r.step (.disconnect id ref)) ∧ Harmless r (.disconnect id ref) := by
  have hclients := clientsOf_disconnect hmem
  have hpos := h.pos id ref hget
  have hcleanup := cleanup_of_count (h.count id ref hget)
  have hother : ∀ id' ref', id' ≠ id →
      (r.step (.disconnect id ref)).clientsOf id' ref' = r.clientsOf id' ref' := by
    intro id' ref' hid
    rw [hclients, if_neg fun heq => hid (congrArg Prod.fst heq)]
  by_cases hlast : r.clientsOf id ref ≤ 1
  · -- the last client: the stream is completed
    rw [if_pos hlast] at hcleanup
    have hstreams : ∀ id', (r.step (.disconnect id ref)).sse.streams.get? id' =
        if id' = id then none else r.sse.streams.get? id' := by
      rw [step_disconnect hmem, hcleanup]
      exact SubmissionSseService.get?_streams_complete r.sse id
    refine ⟨h.remove id hother hstreams ?_, ?_⟩
    · intro id'
      rw [step_disconnect hmem, hcleanup]
      exact SubmissionSseService.get?_refCounts_complete r.sse id id' (h.isSome_eq id)
    · intro _ id' ref' hget' hgone
      rw [hstreams] at hgone
      split_ifs at hgone with hid
      · subst hid
        cases hget.symm.trans hget'
        rw [hclients, if_pos rfl]
        omega
      · exact absurd hget' hgone
  · rw [if_neg hlast] at hcleanup
    have hstreams : (r.step (.disconnect id ref)).sse.streams = r.sse.streams := by
      rw [step_disconnect hmem, hcleanup]
    refine ⟨h.recount id ref hother ?_ ?_ ?_, ?_⟩
    · intro id'
      rw [hstreams]
      split_ifs with hid
      · rw [hid, hget]
      · rfl
    · intro id'
      rw [hclients, if_pos rfl, step_disconnect hmem, hcleanup]
      simp only [OrdMap.get?_set]
      push_cast [show 1 ≤ r.clientsOf id ref from hpos]
      rfl
    · rw [hclients, if_pos rfl]
      omega
    · intro _ id' ref' hget' hgone
      rw [hstreams] at hgone
      exact absurd hget' hgone

/-- A disconnect when the submission has no stream. -/
theorem Counted.disconnect_none (h : Counted r) {id : Id} {ref : SubjectRef}
    (hmem : (id, ref) ∈ r.attached) (hget : r.sse.streams.get? id = none) :
    Counted (r.step (.disconnect id ref)) ∧ Harmless r (.disconnect id ref) := by
  have hcount : r.sse.refCounts.get? id = none := by
    rw [h.get? id, hget]
    rfl
  have hcleanup : r.sse.cleanup id = r.sse := by
    unfold SubmissionSseService.cleanup
    simp only [hcount]
  have hsse : (r.step (.disconnect id ref)).sse = r.sse := by rw [step_disconnect hmem, hcleanup]
  refine ⟨h.remove id ?_ ?_ ?_, ?_⟩
  · intro id' ref' hid
    rw [clientsOf_disconnect hmem, if_neg fun heq => hid (congrArg Prod.fst heq)]
  · intro id'
    rw [hsse]
    split_ifs with hid
    · rw [hid, hget]
    · rfl
  · intro id'
    rw [hsse]
    split_ifs with hid
    · rw [hid, hcount]
    · rfl
  · intro _ id' ref' hget' hgone
    rw [hsse] at hgone
    exact absurd hget' hgone

/-- A stale disconnect: it counts down, or completes, the stream of other clients. -/
theorem Counted.disconnect_stale (h : Counted r) {id : Id} {ref ref' : SubjectRef}
    (hmem : (id, ref) ∈ r.attached) (hget : r.sse.streams.get? id = some ref') (hne : ref' ≠ ref)
    (hharmless : Harmless r (.disconnect id ref)) : ¬ Counted (r.step (.disconnect id ref)) := by
  have hcleanup := cleanup_of_count (h.count id ref' hget)
  have hpos := h.pos id ref' hget
  have hclients : (r.step (.disconnect id ref)).clientsOf id ref' = r.clientsOf id ref' := by
    rw [clientsOf_disconnect hmem, if_neg fun heq => hne (congrArg Prod.snd heq)]
  by_cases hlast : r.clientsOf id ref' ≤ 1
  · rw [if_pos hlast] at hcleanup
    have hgone : (r.step (.disconnect id ref)).sse.streams.get? id ≠ some ref' := by
      rw [step_disconnect hmem, hcleanup, SubmissionSseService.get?_streams_complete, if_pos rfl]
      exact nofun
    have hzero := hharmless hmem id ref' hget hgone
    omega
  · intro hcounted
    rw [if_neg hlast] at hcleanup
    have hstream : (r.step (.disconnect id ref)).sse.streams.get? id = some ref' := by
      rw [step_disconnect hmem, hcleanup]
      exact hget
    have hcount := hcounted.count id ref' hstream
    rw [hclients, step_disconnect hmem, hcleanup] at hcount
    simp only [OrdMap.get?_set_self, Option.some.injEq] at hcount
    omega

/-- A timely call keeps the counts and completes no stream under another client. -/
theorem Counted.step (h : Counted r) (hcreated : Created r) {c : RegistryCall} (hc : Timely r c) :
    Counted (r.step c) ∧ Harmless r c := by
  cases c with
  | connect id => exact ⟨h.connect hcreated id, trivial⟩
  | disconnect id ref =>
    by_cases hmem : (id, ref) ∈ r.attached
    · rcases hc hmem with hget | hget
      · exact h.disconnect_current hmem hget
      · exact h.disconnect_none hmem hget
    · have hstep : r.step (.disconnect id ref) = r := if_neg hmem
      refine ⟨?_, fun hmem' => absurd hmem' hmem⟩
      rw [hstep]
      exact h
  | push id event =>
    obtain ⟨hstreams, hcounts, _⟩ := SubmissionSseService.maps_push r.sse id event
    exact ⟨h.congr rfl hstreams hcounts, trivial⟩
  | complete id =>
    refine ⟨h.remove id (fun _ _ _ => rfl) ?_ ?_, trivial⟩
    · exact SubmissionSseService.get?_streams_complete r.sse id
    · exact fun id' => SubmissionSseService.get?_refCounts_complete r.sse id id' (h.isSome_eq id)
  | error id message =>
    obtain ⟨hstreams, hcounts, _⟩ := SubmissionSseService.maps_error r.sse id message
    refine ⟨h.remove id (fun _ _ _ => rfl) ?_ ?_, trivial⟩
    · intro id'
      show (r.sse.error id message).streams.get? id' = _
      rw [hstreams, SubmissionSseService.get?_streams_complete]
    · intro id'
      show (r.sse.error id message).refCounts.get? id' = _
      rw [hcounts, SubmissionSseService.get?_refCounts_complete r.sse id id' (h.isSome_eq id)]

/-- An untimely call breaks the counts or completes a stream under another client. -/
theorem Counted.timely (h : Counted r) {c : RegistryCall} (hnext : Counted (r.step c))
    (hharmless : Harmless r c) : Timely r c := by
  cases c with
  | disconnect id ref =>
    intro hmem
    cases hget : r.sse.streams.get? id with
    | none => exact .inr rfl
    | some ref' =>
      by_cases hne : ref' = ref
      · exact .inl (congrArg some hne)
      · exact absurd hnext (h.disconnect_stale hmem hget hne hharmless)
  | _ => trivial

theorem Created.of_le {r' : Registry} (h : Created r) (hfresh : r'.sse.fresh = r.sse.fresh)
    (hstreams : ∀ id ref, r'.sse.streams.get? id = some ref → r.sse.streams.get? id = some ref)
    (hattached : r'.attached ⊆ r.attached) : Created r' where
  current := fun id ref hget => hfresh ▸ h.current id ref (hstreams id ref hget)
  joined := fun x hx => hfresh ▸ h.joined x (hattached hx)

theorem streams_complete_le {s : SubmissionSseService} {id id' : Id} {ref : SubjectRef}
    (h : (s.complete id).streams.get? id' = some ref) : s.streams.get? id' = some ref := by
  rw [SubmissionSseService.get?_streams_complete] at h
  split_ifs at h
  exact h

theorem Created.step (hcreated : Created r) (h : Counted r) (c : RegistryCall) : Created (r.step c) := by
  cases c with
  | connect id =>
    obtain ⟨hstreams, _, hwhich⟩ := SubmissionSseService.maps_getOrCreate r.sse id (h.isSome_eq id)
    have hle : r.sse.fresh ≤ (r.sse.getOrCreate id).2.fresh := by
      rcases hwhich with ⟨_, hfresh⟩ | ⟨_, _, hfresh⟩
      · exact Nat.le_of_eq hfresh.symm
      · rw [hfresh]
        exact Nat.le_succ _
    have hnew : (r.sse.getOrCreate id).1 < (r.sse.getOrCreate id).2.fresh := by
      rcases hwhich with ⟨hget, hfresh⟩ | ⟨_, href, hfresh⟩
      · rw [hfresh]
        exact hcreated.current id _ hget
      · rw [href, hfresh]
        exact Nat.lt_succ_self _
    constructor
    · intro id' ref hget
      have hget : (r.sse.getOrCreate id).2.streams.get? id' = some ref := hget
      rw [hstreams] at hget
      split_ifs at hget
      · cases hget
        exact hnew
      · exact Nat.lt_of_lt_of_le (hcreated.current id' ref hget) hle
    · intro x hx
      rcases List.mem_cons.mp hx with rfl | hx
      · exact hnew
      · exact Nat.lt_of_lt_of_le (hcreated.joined x hx) hle
  | disconnect id ref =>
    by_cases hmem : (id, ref) ∈ r.attached
    · rw [step_disconnect hmem]
      refine hcreated.of_le ?_ ?_ List.erase_subset
      all_goals unfold SubmissionSseService.cleanup
      · cases r.sse.refCounts.get? id with
        | none => rfl
        | some count =>
          simp only
          split_ifs
          · exact SubmissionSseService.fresh_complete r.sse id
          · rfl
      · intro id' ref' hget
        cases hcount : r.sse.refCounts.get? id with
        | none => rwa [hcount] at hget
        | some count =>
          simp only [hcount] at hget
          split_ifs at hget
          · exact streams_complete_le hget
          · exact hget
    · rw [show r.step (.disconnect id ref) = r from if_neg hmem]
      exact hcreated
  | push id event =>
    obtain ⟨hstreams, _, hfresh⟩ := SubmissionSseService.maps_push r.sse id event
    exact hcreated.of_le hfresh (fun id' ref hget => hstreams ▸ hget) (List.Subset.refl _)
  | complete id =>
    exact hcreated.of_le (SubmissionSseService.fresh_complete r.sse id)
      (fun id' ref hget => streams_complete_le hget) (List.Subset.refl _)
  | error id message =>
    obtain ⟨hstreams, _, hfresh⟩ := SubmissionSseService.maps_error r.sse id message
    refine hcreated.of_le (hfresh.trans (SubmissionSseService.fresh_complete r.sse id)) ?_ (List.Subset.refl _)
    intro id' ref hget
    have hget : (r.sse.error id message).streams.get? id' = some ref := hget
    rw [hstreams] at hget
    exact streams_complete_le hget

/-! ## Whole runs -/

theorem counted_init : Counted init where
  keys := fun _ => Iff.rfl
  count := nofun
  pos := nofun

theorem created_init : Created init where
  current := nofun
  joined := nofun

theorem run_append (calls : List RegistryCall) (c : RegistryCall) : run (calls ++ [c]) = (run calls).step c := by
  rw [run, List.foldl_append]
  rfl

/-- After timely calls the counts are right. -/
theorem counted_run (calls : List RegistryCall) :
    (∀ pre c, pre ++ [c] <+: calls → Timely (run pre) c) → Counted (run calls) ∧ Created (run calls) := by
  induction calls using List.reverseRecOn with
  | nil => exact fun _ => ⟨counted_init, created_init⟩
  | append_singleton calls c ih =>
    intro h
    obtain ⟨hcounted, hcreated⟩ := ih fun pre c' hpre => h pre c' (hpre.trans (List.prefix_append _ _))
    rw [run_append]
    exact ⟨(hcounted.step hcreated (h calls c List.prefix_rfl)).1, hcreated.step hcounted c⟩

/-- **Main**: in every state of a run the counts are those of the attached clients, and
    no disconnect completes a stream that another client is attached to, iff every
    disconnect is timely. -/
theorem counted_iff (calls : List RegistryCall) :
    ((∀ pre, pre <+: calls → Counted (run pre)) ∧
        ∀ pre c, pre ++ [c] <+: calls → Harmless (run pre) c) ↔
      ∀ pre c, pre ++ [c] <+: calls → Timely (run pre) c := by
  constructor
  · rintro ⟨hcounted, hharmless⟩ pre c hpre
    have hnext := hcounted _ hpre
    rw [run_append] at hnext
    exact (hcounted pre ((List.prefix_append _ _).trans hpre)).timely hnext (hharmless pre c hpre)
  · intro h
    have hrun : ∀ pre, pre <+: calls → Counted (run pre) ∧ Created (run pre) := fun pre hpre =>
      counted_run pre fun pre' c hpre' => h pre' c (hpre'.trans hpre)
    refine ⟨fun pre hpre => (hrun pre hpre).1, ?_⟩
    intro pre c hpre
    obtain ⟨hcounted, hcreated⟩ := hrun pre ((List.prefix_append _ _).trans hpre)
    exact (hcounted.step hcreated (h pre c hpre)).2

/-- A client watches a submission that completes; a second client connects after that,
    and then the first one disconnects. -/
def staleCalls : List RegistryCall :=
  [.connect "s1", .complete "s1", .connect "s1", .disconnect "s1" 0]

/-- The second client is still attached to the stream 1, which the cleanup completes. -/
theorem stale_cleanup :
    (run (staleCalls.take 3)).sse.streams.get? "s1" = some 1 ∧
      (run staleCalls).sse.streams.get? "s1" = none ∧ ("s1", 1) ∈ (run staleCalls).attached ∧
      ¬ Harmless (run (staleCalls.take 3)) (.disconnect "s1" 0) := by
  refine ⟨rfl, rfl, by decide, ?_⟩
  intro h
  have hzero := h (by decide) "s1" 1 rfl (by decide)
  revert hzero
  decide

end Registry

end CodeWeaknesses.Sse
