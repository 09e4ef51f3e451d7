import CodeWeaknesses.Sse.Roles

/-!
# The streams of `SubmissionSseService`

The invariant of the service's maps, and what the operations mean for one connection.

Results:
* `Sound.getOrCreate`, `Sound.push`, …: every operation keeps the stored subjects open
  and different for different submissions.
* `Attached.push`, `Attached.complete`: an attached connection gets what is pushed, and
  the completion.
* `Absent.push`, `Absent.complete`: a connection that is not subscribed gets nothing.
-/

namespace CodeWeaknesses.Sse

open Lib

namespace SubmissionSseService

/-! ## The invariant -/

/-- A stored subject has been created, is open, and is that of one submission. -/
structure Sound (s : SubmissionSseService) : Prop where
  lt_fresh : ∀ {id ref}, s.streams.get? id = some ref → ref < s.fresh
  isOpen : ∀ {id ref}, s.streams.get? id = some ref → (s.subjects ref).closed = false
  distinct : ∀ {id id' ref}, s.streams.get? id = some ref → s.streams.get? id' = some ref → id = id'

theorem sound_init : Sound .init where
  lt_fresh := by simp [init]
  isOpen := by simp [init]
  distinct := by simp [init]

theorem ensure_of_some {s : SubmissionSseService} {id : Id} {ref : SubjectRef}
    (h : s.streams.get? id = some ref) : s.ensure id = s := by
  simp [ensure, OrdMap.has_eq_isSome, h]

theorem ensure_of_none {s : SubmissionSseService} {id : Id} (h : s.streams.get? id = none) :
    s.ensure id =
      { s with
        streams := s.streams.set id s.fresh
        refCounts := s.refCounts.set id 0
        subjects := Function.update s.subjects s.fresh ⟨[], false⟩
        fresh := s.fresh + 1 } := by
  simp [ensure, OrdMap.has_eq_isSome, h]

theorem Sound.ensure {s : SubmissionSseService} (h : s.Sound) (id : Id) : (s.ensure id).Sound := by
  cases hget : s.streams.get? id with
  | some ref => rwa [ensure_of_some hget]
  | none =>
    rw [ensure_of_none hget]
    have hold : ∀ {id' ref}, s.streams.get? id' = some ref → ref ≠ s.fresh := by
      intro id' ref hget'
      exact Nat.ne_of_lt (h.lt_fresh hget')
    constructor
    · intro id' ref hget'
      rw [OrdMap.get?_set] at hget'
      split_ifs at hget'
      · cases hget'
        exact Nat.lt_succ_self _
      · exact Nat.lt_succ_of_lt (h.lt_fresh hget')
    · intro id' ref hget'
      rw [OrdMap.get?_set] at hget'
      split_ifs at hget'
      · cases hget'
        simp
      · simp only [Function.update_of_ne (hold hget')]
        exact h.isOpen hget'
    · intro id₁ id₂ ref h₁ h₂
      rw [OrdMap.get?_set] at h₁ h₂
      split_ifs at h₁ h₂ with e₁ e₂ e₂
      · rw [e₁, e₂]
      · cases h₁
        exact absurd rfl (hold h₂)
      · cases h₂
        exact absurd rfl (hold h₁)
      · exact h.distinct h₁ h₂

theorem Sound.getOrCreate {s : SubmissionSseService} (h : s.Sound) (id : Id) :
    (s.getOrCreate id).2.Sound := by
  obtain ⟨hlt, hopen, hdistinct⟩ := h.ensure id
  exact ⟨hlt, hopen, hdistinct⟩

theorem Sound.push {s : SubmissionSseService} (h : s.Sound) (id : Id) (event : SseEvent) :
    (s.push id event).Sound := by
  unfold SubmissionSseService.push
  cases s.streams.get? id with
  | none => exact h
  | some ref =>
    simp only [next]
    split_ifs
    · exact h
    · exact ⟨h.lt_fresh, h.isOpen, h.distinct⟩

theorem Sound.complete {s : SubmissionSseService} (h : s.Sound) (id : Id) : (s.complete id).Sound := by
  unfold SubmissionSseService.complete
  cases hget : s.streams.get? id with
  | none => exact h
  | some ref =>
    have hold : ∀ {id' ref'}, (s.streams.erase id).get? id' = some ref' →
        id' ≠ id ∧ s.streams.get? id' = some ref' := by
      intro id' ref' hget'
      rw [OrdMap.get?_erase] at hget'
      split_ifs at hget' with hid
      exact ⟨hid, hget'⟩
    simp only [close, h.isOpen hget, Bool.false_eq_true, if_false]
    constructor
    · exact fun hget' => h.lt_fresh (hold hget').2
    · intro id' ref' hget'
      obtain ⟨hid, hget'⟩ := hold hget'
      have hne : ref' ≠ ref := fun he => hid (h.distinct (he ▸ hget') hget)
      simp only [Function.update_of_ne hne]
      exact h.isOpen hget'
    · exact fun h₁ h₂ => h.distinct (hold h₁).2 (hold h₂).2

theorem Sound.error {s : SubmissionSseService} (h : s.Sound) (id : Id) (message : String) :
    (s.error id message).Sound := by
  have hpush := h.push id (.submissionError message)
  unfold SubmissionSseService.push at hpush
  unfold SubmissionSseService.error
  cases hget : s.streams.get? id with
  | none => exact h
  | some ref =>
    rw [hget] at hpush
    exact hpush.complete id

theorem Sound.cleanup {s : SubmissionSseService} (h : s.Sound) (id : Id) : (s.cleanup id).Sound := by
  unfold SubmissionSseService.cleanup
  cases s.refCounts.get? id with
  | none => exact h
  | some count =>
    simp only
    split_ifs
    · exact h.complete id
    · exact ⟨h.lt_fresh, h.isOpen, h.distinct⟩

/-- A change of the observers of a subject. -/
theorem Sound.update {s : SubmissionSseService} (h : s.Sound) (ref : SubjectRef) (os : List Observer) :
    Sound { s with subjects := Function.update s.subjects ref { s.subjects ref with observers := os } } := by
  refine ⟨h.lt_fresh, ?_, h.distinct⟩
  intro id ref' hget
  by_cases hne : ref' = ref
  · subst hne
    simp only [Function.update_self]
    exact h.isOpen hget
  · simp only [Function.update_of_ne hne]
    exact h.isOpen hget

theorem Sound.subscribe {s : SubmissionSseService} (h : s.Sound) (ref : SubjectRef) (o : Observer) :
    (s.subscribe ref o).Sound := by
  unfold SubmissionSseService.subscribe
  split_ifs
  · exact ⟨h.lt_fresh, h.isOpen, h.distinct⟩
  · exact h.update ref _

theorem Sound.unsubscribe {s : SubmissionSseService} (h : s.Sound) (ref : SubjectRef) (o : Observer) :
    (s.unsubscribe ref o).Sound := h.update ref _

/-! ## One connection -/

/-- What the connection has received so far. -/
def inbox (s : SubmissionSseService) (o : Observer) : List Message := messagesOf o s.received

/-- The connection is subscribed nowhere. -/
def Absent (s : SubmissionSseService) (o : Observer) : Prop := ∀ ref, o ∉ (s.subjects ref).observers

/-- The connection is subscribed once, to the stored subject of `id`. -/
def Attached (s : SubmissionSseService) (id : Id) (o : Observer) : Prop :=
  ∃ ref, s.streams.get? id = some ref ∧ (s.subjects ref).observers.count o = 1 ∧
    ∀ ref', ref' ≠ ref → o ∉ (s.subjects ref').observers

section Connection

variable {s : SubmissionSseService} {id : Id} {o : Observer}

/-! ### `getOrCreate` -/

@[simp] theorem inbox_getOrCreate : (s.getOrCreate id).2.inbox o = s.inbox o := by
  unfold getOrCreate ensure inbox
  split_ifs <;> rfl

/-- `getOrCreate` returns the stored subject. -/
theorem get?_getOrCreate : (s.getOrCreate id).2.streams.get? id = some (s.getOrCreate id).1 := by
  show (s.ensure id).streams.get? id = some (((s.ensure id).streams.get? id).getD 0)
  cases hget : s.streams.get? id with
  | some ref => rw [ensure_of_some hget, hget, Option.getD_some]
  | none => simp [ensure_of_none hget]

theorem Absent.getOrCreate (h : s.Absent o) : (s.getOrCreate id).2.Absent o := by
  show ∀ ref, o ∉ ((s.ensure id).subjects ref).observers
  cases hget : s.streams.get? id with
  | some ref => rwa [ensure_of_some hget]
  | none =>
    intro ref
    rw [ensure_of_none hget]
    by_cases hne : ref = s.fresh
    · simp [hne]
    · simp only [Function.update_of_ne hne]
      exact h ref

/-- An existing stream is not replaced. -/
theorem get?_getOrCreate_of_some {ref : SubjectRef} (h : s.streams.get? id = some ref) :
    (s.getOrCreate id).2.streams.get? id = some ref := by
  show (s.ensure id).streams.get? id = some ref
  rwa [ensure_of_some h]

theorem Attached.getOrCreate (h : s.Attached id o) : (s.getOrCreate id).2.Attached id o := by
  obtain ⟨ref, hget, hrest⟩ := h
  refine ⟨ref, get?_getOrCreate_of_some hget, ?_⟩
  show ((s.ensure id).subjects ref).observers.count o = 1 ∧
    ∀ ref', ref' ≠ ref → o ∉ ((s.ensure id).subjects ref').observers
  rwa [ensure_of_some hget]

/-! ### `subscribe` -/

/-- A subscription sends nothing but a completion, and that to its own connection. -/
theorem inbox_subscribe (ref : SubjectRef) (o' : Observer) :
    (s.subscribe ref o').inbox o = s.inbox o ∨
      o' = o ∧ (s.subscribe ref o').inbox o = s.inbox o ++ [.complete] := by
  unfold subscribe inbox
  split_ifs
  · by_cases ho : o' = o
    · exact .inr ⟨ho, by simp [messagesOf, ho]⟩
    · exact .inl (by simp [messagesOf, ho])
  · exact .inl rfl

theorem inbox_subscribe_of_ne {o' : Observer} (h : o' ≠ o) (ref : SubjectRef) :
    (s.subscribe ref o').inbox o = s.inbox o :=
  (inbox_subscribe ref o').resolve_right fun hr => h hr.1

@[simp] theorem streams_subscribe (ref : SubjectRef) (o' : Observer) :
    (s.subscribe ref o').streams = s.streams := by
  unfold subscribe
  split_ifs <;> rfl

/-- The observers after a subscription. -/
theorem observers_subscribe (ref ref' : SubjectRef) (o' : Observer) :
    ((s.subscribe ref o').subjects ref').observers =
      if ref' = ref ∧ (s.subjects ref).closed = false then (s.subjects ref).observers ++ [o']
      else (s.subjects ref').observers := by
  unfold subscribe
  cases hclosed : (s.subjects ref).closed with
  | true => simp
  | false =>
    by_cases hne : ref' = ref
    · subst hne
      simp
    · simp [hne]

theorem Absent.subscribe {o' : Observer} (h : s.Absent o) (hne : o' ≠ o) (ref : SubjectRef) :
    (s.subscribe ref o').Absent o := by
  intro ref'
  rw [observers_subscribe]
  split_ifs
  · simp [h ref, Ne.symm hne]
  · exact h ref'

theorem Attached.subscribe {o' : Observer} (h : s.Attached id o) (hne : o' ≠ o) (ref : SubjectRef) :
    (s.subscribe ref o').Attached id o := by
  obtain ⟨ref₀, hget, hcount, hother⟩ := h
  refine ⟨ref₀, by rwa [streams_subscribe], ?_, ?_⟩
  · rw [observers_subscribe]
    split_ifs with hr
    · rw [List.count_append, ← hr.1, hcount, List.count_singleton]
      simp [hne]
    · exact hcount
  · intro ref' hne'
    rw [observers_subscribe]
    split_ifs with hr
    · rw [← hr.1]
      simp [hother ref' hne', Ne.symm hne]
    · exact hother ref' hne'

/-- A connection that subscribes to the stored subject is attached. -/
theorem Absent.attached {ref : SubjectRef} (h : s.Absent o) (hs : s.Sound)
    (hget : s.streams.get? id = some ref) :
    (s.subscribe ref o).Attached id o ∧ (s.subscribe ref o).inbox o = s.inbox o := by
  have hopen := hs.isOpen hget
  refine ⟨⟨ref, by rwa [streams_subscribe], ?_, ?_⟩, ?_⟩
  · rw [observers_subscribe, if_pos ⟨rfl, hopen⟩, List.count_append,
      List.count_eq_zero_of_not_mem (h ref), List.count_singleton_self]
  · intro ref' hne
    rw [observers_subscribe, if_neg fun hr => hne hr.1]
    exact h ref'
  · unfold inbox SubmissionSseService.subscribe
    simp [hopen]

/-! ### `push` -/

@[simp] theorem streams_push (event : SseEvent) : (s.push id event).streams = s.streams := by
  unfold push next
  cases s.streams.get? id with
  | none => rfl
  | some ref =>
    simp only
    split_ifs <;> rfl

@[simp] theorem subjects_push (event : SseEvent) : (s.push id event).subjects = s.subjects := by
  unfold push next
  cases s.streams.get? id with
  | none => rfl
  | some ref =>
    simp only
    split_ifs <;> rfl

theorem Absent.push (h : s.Absent o) (id : Id) (event : SseEvent) :
    (s.push id event).Absent o ∧ (s.push id event).inbox o = s.inbox o := by
  refine ⟨fun ref => by rw [subjects_push]; exact h ref, ?_⟩
  unfold SubmissionSseService.push next inbox
  cases s.streams.get? id with
  | none => rfl
  | some ref =>
    simp only
    split_ifs
    · rfl
    · have hnil : messagesOf o (handOut (s.subjects ref).observers event) = [] :=
        messagesOf_eq_nil (by rw [map_fst_handOut]; exact h ref)
      rw [messagesOf_append, hnil, List.append_nil]

/-- An event without hidden fields reaches each observer as it is. -/
theorem messagesOf_handOut_plain {event : SseEvent} (he : ∀ b, mapEvent b event = event) (os : List Observer) :
    messagesOf o (handOut os event) = List.replicate (os.count o) (.next event) := by
  induction os with
  | nil => rfl
  | cons o' os ih =>
    rw [handOut, he, ← List.singleton_append, messagesOf_append, ih]
    by_cases ho : o' = o
    · subst ho
      simp [messagesOf, List.replicate_succ]
    · simp [messagesOf, ho]

theorem Attached.push (h : s.Attached id o) (hs : s.Sound) {event : SseEvent}
    (he : ∀ b, mapEvent b event = event) :
    (s.push id event).Attached id o ∧ (s.push id event).inbox o = s.inbox o ++ [.next event] := by
  obtain ⟨ref, hget, hcount, hother⟩ := h
  refine ⟨⟨ref, by rwa [streams_push], by rwa [subjects_push], fun ref' hne => ?_⟩, ?_⟩
  · rw [subjects_push]
    exact hother ref' hne
  · simp only [SubmissionSseService.push, hget, next, hs.isOpen hget, Bool.false_eq_true, if_false, inbox]
    rw [messagesOf_append, messagesOf_handOut_plain he, hcount]
    rfl

/-! ### `complete` -/

theorem messagesOf_completed (os : List Observer) :
    messagesOf o (os.map fun o' => (o', .complete)) = List.replicate (os.count o) .complete := by
  induction os with
  | nil => rfl
  | cons o' os ih =>
    rw [List.map_cons, ← List.singleton_append, messagesOf_append, ih]
    by_cases ho : o' = o
    · subst ho
      simp [messagesOf, List.replicate_succ]
    · simp [messagesOf, ho]

/-- `complete` sends nothing but completions. -/
theorem inbox_complete (s : SubmissionSseService) (id : Id) (o : Observer) :
    ∃ n, (s.complete id).inbox o = s.inbox o ++ List.replicate n .complete := by
  unfold complete close inbox
  cases s.streams.get? id with
  | none => exact ⟨0, by simp⟩
  | some ref =>
    simp only
    split_ifs
    · exact ⟨0, by simp⟩
    · exact ⟨_, by rw [messagesOf_append, messagesOf_completed]⟩

theorem Absent.complete (h : s.Absent o) (id : Id) :
    (s.complete id).Absent o ∧ (s.complete id).inbox o = s.inbox o := by
  unfold SubmissionSseService.complete close inbox Absent
  cases s.streams.get? id with
  | none => exact ⟨h, rfl⟩
  | some ref =>
    simp only
    split_ifs
    · exact ⟨h, rfl⟩
    · refine ⟨fun ref' => ?_, ?_⟩
      · by_cases hne : ref' = ref
        · simp [hne]
        · simp only [Function.update_of_ne hne]
          exact h ref'
      · rw [messagesOf_append, messagesOf_completed, List.count_eq_zero_of_not_mem (h ref)]
        simp

theorem Attached.complete (h : s.Attached id o) (hs : s.Sound) :
    (s.complete id).Absent o ∧ (s.complete id).inbox o = s.inbox o ++ [.complete] := by
  obtain ⟨ref, hget, hcount, hother⟩ := h
  simp only [SubmissionSseService.complete, hget, close, hs.isOpen hget, Bool.false_eq_true, if_false, inbox,
    Absent]
  refine ⟨fun ref' => ?_, ?_⟩
  · by_cases hne : ref' = ref
    · simp [hne]
    · simp only [Function.update_of_ne hne]
      exact hother ref' hne
  · rw [messagesOf_append, messagesOf_completed, hcount]
    rfl

end Connection

end SubmissionSseService

end CodeWeaknesses.Sse
