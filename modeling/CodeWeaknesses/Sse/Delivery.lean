import CodeWeaknesses.Sse.Registry
import CodeWeaknesses.Sse.Replay
import CodeWeaknesses.Submissions.Transcripts

/-!
# Delivery

`SubmissionSseService` keeps subjects, reference counts and two maps. To a client it is a channel:
what is told to its submission from its subscription on reaches it once and in order, up to the end
of the stream, and nothing else does.

Results:
* `Watching.apply`, `Watching.push_self`, `Watching.push_other`, …: what each call does to a client
  that is on a stream.
* `delivered`: a run of jobs delivers to a client what is told to its stream.
* `client_sees_attempt`: **in every run of jobs a client that is on the stream of one of them sees
  the first attempt of that job, so far, and all of it when the job has ended.**
-/

namespace CodeWeaknesses.Sse

open Lib Lib.Prog Submissions

/-! ## The channel -/

/-- What reaches a client of what is told to its stream: nothing after the end. -/
def deliver : List Told → List Message
  | [] => []
  | .push event :: told => .next event :: deliver told
  | .complete :: _ => [.complete]
  | .error message :: _ => [.next (.submissionError message), .complete]

/-- The message as `o` may get it: through its own filter, or as another client's left it. -/
def Shown (o : Observer) : Message → Message → Prop
  | .next event, m => m = .next (mapEvent o.isAdmin event) ∨ m = .next (mapEvent false event)
  | .complete, m => m = .complete

/-- An event that ends the stream of the submission after the live results `tests`. -/
def Ends (id : Id) (tests : List TestResultEvent) : SseEvent → Prop
  | .testResult _ => False
  | .submissionCompleted e => Summarises id tests e
  | .submissionError message => message ≠ ""

/-- What a client should see of a submission: the live results, one terminal event, the end. -/
def Seen (id : Id) (messages : List Message) : Prop :=
  ∃ tests event, Numbered id tests ∧ Ends id tests event ∧
    messages = tests.map (fun e => .next (.testResult e)) ++ [.next event, .complete]

theorem deliver_prefix (told rest : List Told) : deliver told <+: deliver (told ++ rest) := by
  induction told with
  | nil => exact List.nil_prefix
  | cons x told ih =>
    cases x with
    | push event => exact List.cons_prefix_cons.mpr ⟨rfl, ih⟩
    | complete => exact List.prefix_rfl
    | error message => exact List.prefix_rfl

theorem deliver_pushes (tests : List TestResultEvent) (told : List Told) :
    deliver (pushes tests ++ told) = tests.map (fun e => .next (.testResult e)) ++ deliver told := by
  induction tests with
  | nil => rfl
  | cons e tests ih => exact congrArg (.next (.testResult e) :: ·) ih

/-- Nothing that is told after an attempt arrives. -/
theorem seen_attempt {id : Id} {told : List Told} {r : Except Err JobResult} (h : AttemptTold id told r)
    (rest : List Told) : Seen id (deliver (told ++ rest)) := by
  obtain ⟨tests, hnumbered, hr⟩ := h
  cases r with
  | ok res =>
    obtain ⟨e, hsummary, _, _, rfl⟩ := hr
    refine ⟨tests, .submissionCompleted e, hnumbered, hsummary, ?_⟩
    rw [List.append_assoc, deliver_pushes]
    rfl
  | error e =>
    obtain ⟨message, hne, rfl⟩ := hr
    refine ⟨tests, .submissionError message, hnumbered, hne, ?_⟩
    rw [List.append_assoc, deliver_pushes]
    rfl

/-- Of a job, the first attempt arrives. -/
theorem seen_job {id : Id} {attempts : ℕ} {told : List Told} {r : Except Err JobResult}
    (h : JobTold id attempts told r) : Seen id (deliver told) := by
  obtain ⟨failed, last, rfl, hfailed, hlast, _⟩ := h
  cases failed with
  | nil => simpa using seen_attempt hlast []
  | cons first failed =>
    obtain ⟨e, hfirst⟩ := hfailed first List.mem_cons_self
    rw [List.flatten_cons, List.append_assoc]
    exact seen_attempt hfirst _

/-- One event is handed to an observer that is subscribed once. -/
theorem shown_handOut {os : List Observer} {o : Observer} (hone : os.count o = 1) (event : SseEvent) :
    ∃ m, Shown o (.next event) m ∧ messagesOf o (handOut os event) = [m] := by
  obtain ⟨pre, post, rfl, hpre⟩ := List.eq_append_cons_of_mem (List.count_pos_iff.mp (by rw [hone]; exact Nat.one_pos))
  have hpost : o ∉ post := by
    rw [List.count_append, List.count_cons_self, List.count_eq_zero_of_not_mem hpre] at hone
    exact List.count_eq_zero.mp (by omega)
  refine ⟨.next (mapEvent (allAdmin pre && o.isAdmin) event), ?_, ?_⟩
  · cases allAdmin pre
    · exact .inr rfl
    · exact .inl rfl
  · have hnil : ∀ {os : List Observer} {e : SseEvent}, o ∉ os → messagesOf o (handOut os e) = [] := fun h =>
      messagesOf_eq_nil (by rwa [map_fst_handOut])
    rw [handOut_append, messagesOf_append, hnil hpre, handOut, ← List.singleton_append, messagesOf_append,
      mapEvent_mapEvent, hnil hpost]
    simp [messagesOf]

/-! ## A client on a stream -/

/-- `o` is on the stream of `id`, and the count of that stream is that of its clients. -/
structure Watching (s : SubmissionSseService) (id : Id) (o : Observer) : Prop where
  sound : s.Sound
  attached : s.Attached id o
  counted : ∀ ref, s.streams.get? id = some ref →
    s.refCounts.get? id = some ((s.subjects ref).observers.length : ℤ)

/-- An action of another client. While `o` is on the stream of `id`, only clients of that stream
    disconnect from `id`. -/
def Orderly (id : Id) (o : Observer) (s : SubmissionSseService) : ClientAction → Prop
  | .connect _ o' => o' ≠ o
  | .disconnect id' o' => o' ≠ o ∧ (id' = id → ∀ ref ∈ s.streams.get? id,
      o ∈ (s.subjects ref).observers → o' ∈ (s.subjects ref).observers)

instance (id : Id) (o : Observer) (s : SubmissionSseService) (a : ClientAction) : Decidable (Orderly id o s a) :=
  match a with
  | .connect _ _ => inferInstanceAs (Decidable (_ ≠ _))
  | .disconnect _ _ => inferInstanceAs (Decidable (_ ∧ _))

/-- Actions of other clients, one after the other. -/
def AllOrderly (id : Id) (o : Observer) : SubmissionSseService → List ClientAction → Prop
  | _, [] => True
  | s, a :: as => Orderly id o s a ∧ AllOrderly id o (a.apply s) as

instance decidableAllOrderly (id : Id) (o : Observer) : (as : List ClientAction) → (s : SubmissionSseService) →
    Decidable (AllOrderly id o s as)
  | [], _ => inferInstanceAs (Decidable True)
  | a :: as, s =>
    haveI := decidableAllOrderly id o as (a.apply s)
    inferInstanceAs (Decidable (Orderly id o s a ∧ AllOrderly id o (a.apply s) as))

instance (id : Id) (o : Observer) (s : SubmissionSseService) (as : List ClientAction) :
    Decidable (AllOrderly id o s as) := decidableAllOrderly id o as s

/-! ## What the calls do to the client -/

namespace SubmissionSseService

variable {s : SubmissionSseService} {id id' : Id} {o o' : Observer}

/-- A stream that exists stays when a client asks for a stream. -/
theorem streams_getOrCreate_of_some {ref : SubjectRef} (h : s.streams.get? id = some ref) :
    (s.getOrCreate id').2.streams.get? id = some ref := by
  by_cases hid : id' = id
  · rw [hid]
    exact get?_getOrCreate_of_some h
  · unfold getOrCreate ensure
    split_ifs
    · exact h
    · exact (OrdMap.get?_set ..).trans ((if_neg (Ne.symm hid)).trans h)

theorem refCounts_getOrCreate_of_ne (h : id' ≠ id) :
    (s.getOrCreate id').2.refCounts.get? id = s.refCounts.get? id := by
  unfold getOrCreate ensure
  split_ifs <;> simp [OrdMap.get?_set, Ne.symm h]

theorem subjects_getOrCreate {ref : SubjectRef} (h : ref < s.fresh) :
    (s.getOrCreate id').2.subjects ref = s.subjects ref := by
  unfold getOrCreate ensure
  split_ifs
  · rfl
  · exact Function.update_of_ne (Nat.ne_of_lt h) _ _

theorem not_mem_getOrCreate {ref : SubjectRef} (h : o ∉ (s.subjects ref).observers) :
    o ∉ ((s.getOrCreate id').2.subjects ref).observers := by
  unfold getOrCreate ensure
  split_ifs
  · exact h
  · by_cases href : ref = s.fresh
    · simp [href]
    · simpa only [Function.update_of_ne href] using h

theorem Attached.getOrCreate_any (h : s.Attached id o) (hs : s.Sound) (id' : Id) :
    (s.getOrCreate id').2.Attached id o := by
  obtain ⟨ref, hget, hcount, hother⟩ := h
  refine ⟨ref, streams_getOrCreate_of_some hget, ?_, fun ref' hne => not_mem_getOrCreate (hother ref' hne)⟩
  rwa [subjects_getOrCreate (hs.lt_fresh hget)]

@[simp] theorem refCounts_subscribe (ref : SubjectRef) (o : Observer) :
    (s.subscribe ref o).refCounts = s.refCounts := by
  unfold subscribe
  split_ifs <;> rfl

end SubmissionSseService

/-- What one call does to a client that is on the stream of `id`, by what it tells the stream. -/
def Reached (s s' : SubmissionSseService) (id : Id) (o : Observer) : Option Told → Prop
  | none => Watching s' id o ∧ s'.inbox o = s.inbox o
  | some (.push event) => Watching s' id o ∧ ∃ m, Shown o (.next event) m ∧ s'.inbox o = s.inbox o ++ [m]
  | some .complete => s'.Absent o ∧ s'.inbox o = s.inbox o ++ [.complete]
  | some (.error message) =>
    s'.Absent o ∧ ∃ m, Shown o (.next (.submissionError message)) m ∧ s'.inbox o = s.inbox o ++ [m, .complete]

theorem Reached.of_inbox {s₀ s s' : SubmissionSseService} {id : Id} {o : Observer} {t : Option Told}
    (h : Reached s s' id o t) (hinbox : s.inbox o = s₀.inbox o) : Reached s₀ s' id o t := by
  unfold Reached at h ⊢
  rwa [← hinbox]

theorem told?_ite {id id' : Id} {x y : Told} (h : (if id' = id then some x else none) = some y) :
    id' = id ∧ x = y := by
  split_ifs at h with hid
  exact ⟨hid, Option.some.inj h⟩

theorem SubmissionSseService.error_eq (s : SubmissionSseService) (id : Id) (message : String) :
    s.error id message = (s.push id (.submissionError message)).complete id := by
  cases hget : s.streams.get? id with
  | none => simp [error, push, complete, hget]
  | some ref => simp [error, push, hget]

namespace Watching

open SubmissionSseService

variable {s : SubmissionSseService} {id id' : Id} {o o' : Observer}

/-- The stream that `o` is on. -/
theorem exists_ref (h : Watching s id o) : ∃ ref, s.streams.get? id = some ref ∧
    (s.subjects ref).closed = false ∧ (s.subjects ref).observers.count o = 1 ∧
      (∀ ref', ref' ≠ ref → o ∉ (s.subjects ref').observers) ∧
        s.refCounts.get? id = some ((s.subjects ref).observers.length : ℤ) := by
  obtain ⟨ref, hget, hcount, hother⟩ := h.attached
  exact ⟨ref, hget, h.sound.isOpen hget, hcount, hother, h.counted ref hget⟩

/-- Another client connects. -/
theorem connect (h : Watching s id o) (hne : o' ≠ o) (id' : Id) :
    Watching ((s.getOrCreate id').2.subscribe (s.getOrCreate id').1 o') id o := by
  obtain ⟨ref, hget, hopen, _, _, hcount⟩ := h.exists_ref
  have hget' : (s.getOrCreate id').2.streams.get? id = some ref := streams_getOrCreate_of_some hget
  have hlt := h.sound.lt_fresh hget
  refine ⟨(h.sound.getOrCreate id').subscribe _ o',
    (h.attached.getOrCreate_any h.sound id').subscribe hne _, ?_⟩
  intro ref₁ hget₁
  rw [streams_subscribe] at hget₁
  cases hget'.symm.trans hget₁
  rw [refCounts_subscribe, observers_subscribe]
  by_cases hid : id' = id
  · subst hid
    have href : (s.getOrCreate id').1 = ref := Option.some.inj (get?_getOrCreate.symm.trans hget')
    rw [href, if_pos ⟨rfl, by rw [subjects_getOrCreate hlt]; exact hopen⟩, subjects_getOrCreate hlt]
    simp [getOrCreate, ensure_of_some hget, hcount]
  · have href : ref ≠ (s.getOrCreate id').1 := by
      rintro rfl
      exact hid ((h.sound.getOrCreate id').distinct get?_getOrCreate hget')
    rw [if_neg fun hr => href hr.1, subjects_getOrCreate hlt, refCounts_getOrCreate_of_ne hid, hcount]

/-- A client connects to a submission that has no stream yet. -/
theorem of_none (hs : s.Sound) (habsent : s.Absent o) (hnone : s.streams.get? id = none) :
    Watching ((ClientAction.connect id o).apply s) id o := by
  have hsound := hs.getOrCreate id
  have habsent' : (s.getOrCreate id).2.Absent o := habsent.getOrCreate
  have hattached := habsent'.attached hsound get?_getOrCreate
  refine ⟨hsound.subscribe _ o, hattached.1, ?_⟩
  intro ref hget
  have hget : ((s.getOrCreate id).2.subscribe (s.getOrCreate id).1 o).streams.get? id = some ref := hget
  rw [streams_subscribe] at hget
  cases get?_getOrCreate.symm.trans hget
  show ((s.getOrCreate id).2.subscribe (s.getOrCreate id).1 o).refCounts.get? id =
    some ((((s.getOrCreate id).2.subscribe (s.getOrCreate id).1 o).subjects (s.getOrCreate id).1).observers.length : ℤ)
  rw [refCounts_subscribe, observers_subscribe, if_pos ⟨rfl, hsound.isOpen get?_getOrCreate⟩]
  simp [getOrCreate, ensure_of_none hnone]

/-- The stream of another submission completes. -/
theorem complete_other (h : Watching s id o) (hid : id' ≠ id) :
    Watching (s.complete id') id o ∧ (s.complete id').inbox o = s.inbox o := by
  obtain ⟨ref, hget, hopen, hone, hother, hcount⟩ := h.exists_ref
  have hsound := h.sound.complete id'
  cases hget' : s.streams.get? id' with
  | none =>
    have hsame : s.complete id' = s := by simp [complete, hget']
    rw [hsame]
    exact ⟨h, rfl⟩
  | some ref' =>
    have hne : ref ≠ ref' := by
      rintro rfl
      exact hid (h.sound.distinct hget' hget)
    have hopen' := h.sound.isOpen hget'
    revert hsound
    simp only [complete, hget', close, hopen', Bool.false_eq_true, if_false, inbox]
    refine fun hsound => ⟨⟨hsound, ⟨ref, ?_, ?_, ?_⟩, ?_⟩, ?_⟩
    · rwa [OrdMap.get?_erase, if_neg (Ne.symm hid)]
    · simpa only [Function.update_of_ne hne] using hone
    · intro ref₁ hne₁
      by_cases hr : ref₁ = ref'
      · simp [hr]
      · simpa only [Function.update_of_ne hr] using hother ref₁ hne₁
    · intro ref₁ hget₁
      simp only [OrdMap.get?_erase, if_neg (Ne.symm hid)] at hget₁ ⊢
      cases hget.symm.trans hget₁
      simpa only [Function.update_of_ne hne] using hcount
    · rw [messagesOf_append, messagesOf_completed, List.count_eq_zero_of_not_mem (hother ref' (Ne.symm hne))]
      simp

/-- A client of another stream goes away. -/
theorem unsubscribe_other (h : Watching s id o) {ref' : SubjectRef} (hget' : s.streams.get? id' = some ref')
    (hid : id' ≠ id) (o' : Observer) : Watching (s.unsubscribe ref' o') id o := by
  obtain ⟨ref, hget, hopen, hone, hother, hcount⟩ := h.exists_ref
  have hne : ref ≠ ref' := by
    rintro rfl
    exact hid (h.sound.distinct hget' hget)
  refine ⟨h.sound.unsubscribe ref' o', ⟨ref, hget, ?_, ?_⟩, ?_⟩
  · simpa only [unsubscribe, Function.update_of_ne hne] using hone
  · intro ref₁ hne₁
    by_cases hr : ref₁ = ref'
    · subst hr
      simp only [unsubscribe, Function.update_self]
      exact fun hmem => hother ref₁ hne₁ (List.mem_of_mem_erase hmem)
    · simpa only [unsubscribe, Function.update_of_ne hr] using hother ref₁ hne₁
  · intro ref₁ hget₁
    cases hget.symm.trans hget₁
    simpa only [unsubscribe, Function.update_of_ne hne] using hcount

/-- `cleanup` for another submission. -/
theorem cleanup_other (h : Watching s id o) (hid : id' ≠ id) :
    Watching (s.cleanup id') id o ∧ (s.cleanup id').inbox o = s.inbox o := by
  unfold cleanup
  cases s.refCounts.get? id' with
  | none => exact ⟨h, rfl⟩
  | some count =>
    simp only
    split_ifs
    · exact h.complete_other hid
    · refine ⟨⟨⟨h.sound.lt_fresh, h.sound.isOpen, h.sound.distinct⟩, h.attached, ?_⟩, rfl⟩
      intro ref hget
      rw [OrdMap.get?_set, if_neg (Ne.symm hid)]
      exact h.counted ref hget

/-- Another client of the stream goes away: the count does not reach 0. -/
theorem leave (h : Watching s id o) {ref : SubjectRef} (hget : s.streams.get? id = some ref) (hne : o' ≠ o)
    (hmem : o' ∈ (s.subjects ref).observers) :
    Watching ((s.unsubscribe ref o').cleanup id) id o ∧
      ((s.unsubscribe ref o').cleanup id).inbox o = s.inbox o := by
  obtain ⟨ref₀, hget₀, hopen, hone, hother, hcount⟩ := h.exists_ref
  cases hget₀.symm.trans hget
  have hlength : ((s.subjects ref).observers.erase o').length + 1 = (s.subjects ref).observers.length :=
    List.length_erase_add_one hmem
  have hone' : ((s.subjects ref).observers.erase o').count o = 1 := by
    rwa [List.count_erase_of_ne (Ne.symm hne)]
  have hmem' : o ∈ (s.subjects ref).observers.erase o' :=
    List.count_pos_iff.mp (by rw [hone']; exact Nat.one_pos)
  have hpos := List.length_pos_of_mem hmem'
  have hlast : ¬ ((s.subjects ref).observers.length : ℤ) - 1 ≤ 0 := by omega
  have hcleanup : (s.unsubscribe ref o').cleanup id =
      { s.unsubscribe ref o' with
        refCounts := s.refCounts.set id (((s.subjects ref).observers.length : ℤ) - 1) } := by
    have hcount' : (s.unsubscribe ref o').refCounts.get? id =
        some ((s.subjects ref).observers.length : ℤ) := hcount
    unfold cleanup
    simp only [hcount']
    rw [if_neg hlast]
    rfl
  rw [hcleanup]
  have hsound := h.sound.unsubscribe ref o'
  refine ⟨⟨⟨hsound.lt_fresh, hsound.isOpen, hsound.distinct⟩, ⟨ref, hget, ?_, ?_⟩, ?_⟩, rfl⟩
  · simpa only [unsubscribe, Function.update_self] using hone'
  · intro ref₁ hne₁
    simpa only [unsubscribe, Function.update_of_ne hne₁] using hother ref₁ hne₁
  · intro ref₁ hget₁
    cases hget.symm.trans hget₁
    simp only [unsubscribe, Function.update_self, OrdMap.get?_set_self]
    congr 1
    omega

/-- What other clients do does not reach `o`. -/
theorem apply (h : Watching s id o) {a : ClientAction} (ha : Orderly id o s a) :
    Watching (a.apply s) id o ∧ (a.apply s).inbox o = s.inbox o := by
  cases a with
  | connect id' o' =>
    refine ⟨h.connect ha id', ?_⟩
    show ((s.getOrCreate id').2.subscribe (s.getOrCreate id').1 o').inbox o = _
    rw [inbox_subscribe_of_ne ha]
    unfold getOrCreate ensure inbox
    split_ifs <;> rfl
  | disconnect id' o' =>
    obtain ⟨hne, hon⟩ := ha
    by_cases hid : id' = id
    · subst hid
      obtain ⟨ref, hget, _, hone, _⟩ := h.exists_ref
      simp only [ClientAction.apply, hget]
      exact h.leave hget hne (hon rfl ref hget (List.count_pos_iff.mp (by omega)))
    · simp only [ClientAction.apply]
      cases hget' : s.streams.get? id' with
      | none => exact h.cleanup_other hid
      | some ref' => exact (h.unsubscribe_other hget' hid o').cleanup_other hid

theorem applyAll (as : List ClientAction) : ∀ {s : SubmissionSseService}, Watching s id o → AllOrderly id o s as →
    Watching (as.foldl ClientAction.apply s) id o ∧ (as.foldl ClientAction.apply s).inbox o = s.inbox o := by
  induction as with
  | nil => exact fun h _ => ⟨h, rfl⟩
  | cons a as ih =>
    intro s h horderly
    obtain ⟨hnext, hinbox⟩ := h.apply horderly.1
    obtain ⟨hend, hinbox'⟩ := ih hnext horderly.2
    exact ⟨hend, hinbox'.trans hinbox⟩

theorem push_self (h : Watching s id o) (event : SseEvent) :
    Watching (s.push id event) id o ∧
      ∃ m, Shown o (.next event) m ∧ (s.push id event).inbox o = s.inbox o ++ [m] := by
  obtain ⟨ref, hget, hopen, hone, hother, hcount⟩ := h.exists_ref
  obtain ⟨m, hshown, hm⟩ := shown_handOut hone event
  have hpush : s.push id event =
      { s with
        produced := s.produced ++ [(id, event)]
        received := s.received ++ handOut (s.subjects ref).observers event } := by
    simp [push, next, hget, hopen]
  rw [hpush]
  refine ⟨⟨⟨h.sound.lt_fresh, h.sound.isOpen, h.sound.distinct⟩, h.attached, h.counted⟩, m, hshown, ?_⟩
  rw [inbox, inbox, messagesOf_append, hm]

/-- An event of another submission. -/
theorem push_other (h : Watching s id o) (hid : id' ≠ id) (event : SseEvent) :
    Watching (s.push id' event) id o ∧ (s.push id' event).inbox o = s.inbox o := by
  obtain ⟨ref, hget, _, _, hother, _⟩ := h.exists_ref
  cases hget' : s.streams.get? id' with
  | none =>
    have hpush : s.push id' event = s := by simp [push, hget']
    rw [hpush]
    exact ⟨h, rfl⟩
  | some ref' =>
    have hne : ref' ≠ ref := by
      rintro rfl
      exact hid (h.sound.distinct hget' hget)
    have hnil : messagesOf o (handOut (s.subjects ref').observers event) = [] :=
      messagesOf_eq_nil (by rw [map_fst_handOut]; exact hother ref' hne)
    have hpush : s.push id' event =
        { s with
          produced := s.produced ++ [(id', event)]
          received := s.received ++ handOut (s.subjects ref').observers event } := by
      simp [push, next, hget', h.sound.isOpen hget']
    rw [hpush]
    refine ⟨⟨⟨h.sound.lt_fresh, h.sound.isOpen, h.sound.distinct⟩, h.attached, h.counted⟩, ?_⟩
    rw [inbox, inbox, messagesOf_append, hnil, List.append_nil]

/-- What is not told to the stream of `id` does not reach `o`. -/
theorem reach_none (h : Watching s id o) {op : Op} (hnone : op.told? id = none) :
    Watching (reach s op) id o ∧ (reach s op).inbox o = s.inbox o := by
  have hid : ∀ {id' : Id} {x : Told}, (if id' = id then some x else none) = none → id' ≠ id := by
    rintro id' x hx rfl
    rw [if_pos rfl] at hx
    cases hx
  cases op with
  | push id' event => exact h.push_other (hid hnone) event
  | complete id' => exact h.complete_other (hid hnone)
  | error id' message =>
    have hne := hid hnone
    obtain ⟨hpush, hinbox⟩ := h.push_other hne (.submissionError message)
    obtain ⟨hcomplete, hinbox'⟩ := hpush.complete_other hne
    show Watching (s.error id' message) id o ∧ (s.error id' message).inbox o = _
    rw [error_eq]
    exact ⟨hcomplete, hinbox'.trans hinbox⟩
  | _ => exact ⟨h, rfl⟩

/-- What is told to the stream reaches `o`. -/
theorem reach_served (h : Watching s id o) (op : Op) : Reached s (reach s op) id o (op.told? id) := by
  cases htold : op.told? id with
  | none => exact h.reach_none htold
  | some x =>
    cases op with
    | push id' event =>
      obtain ⟨rfl, rfl⟩ := told?_ite htold
      exact h.push_self event
    | complete id' =>
      obtain ⟨rfl, rfl⟩ := told?_ite htold
      exact h.attached.complete h.sound
    | error id' message =>
      obtain ⟨rfl, rfl⟩ := told?_ite htold
      obtain ⟨hpush, m, hshown, hinbox⟩ := h.push_self (.submissionError message)
      obtain ⟨habsent, hinbox'⟩ := hpush.attached.complete hpush.sound
      show (s.error id' message).Absent o ∧ ∃ m, _ ∧ (s.error id' message).inbox o = _
      rw [error_eq]
      exact ⟨habsent, m, hshown, by rw [hinbox', hinbox, List.append_assoc]; rfl⟩
    | _ => cases htold

end Watching

/-! ## Runs -/

section Runs

variable {id : Id} {o : Observer}

theorem absent_apply {s : SubmissionSseService} (h : s.Absent o) {a : ClientAction} (ha : Orderly id o s a) :
    (a.apply s).Absent o ∧ (a.apply s).inbox o = s.inbox o := by
  cases a with
  | connect id' o' =>
    have hjoined : (s.getOrCreate id').2.Absent o := h.getOrCreate
    refine ⟨hjoined.subscribe ha _, ?_⟩
    exact (SubmissionSseService.inbox_subscribe_of_ne ha _).trans SubmissionSseService.inbox_getOrCreate
  | disconnect id' o' =>
    have hcleanup : ∀ {s' : SubmissionSseService}, s'.Absent o →
        (s'.cleanup id').Absent o ∧ (s'.cleanup id').inbox o = s'.inbox o := by
      intro s' h'
      unfold SubmissionSseService.cleanup
      cases s'.refCounts.get? id' with
      | none => exact ⟨h', rfl⟩
      | some count =>
        simp only
        split_ifs
        · exact h'.complete id'
        · exact ⟨h', rfl⟩
    simp only [ClientAction.apply]
    cases s.streams.get? id' with
    | none => exact hcleanup h
    | some ref =>
      have hgone : (s.unsubscribe ref o').Absent o := by
        intro ref'
        by_cases hr : ref' = ref
        · subst hr
          simp only [SubmissionSseService.unsubscribe, Function.update_self]
          exact fun hmem => h ref' (List.mem_of_mem_erase hmem)
        · simpa only [SubmissionSseService.unsubscribe, Function.update_of_ne hr] using h ref'
      exact hcleanup hgone

theorem absent_applyAll (as : List ClientAction) : ∀ {s : SubmissionSseService}, s.Absent o → AllOrderly id o s as →
    (as.foldl ClientAction.apply s).Absent o ∧ (as.foldl ClientAction.apply s).inbox o = s.inbox o := by
  induction as with
  | nil => exact fun h _ => ⟨h, rfl⟩
  | cons a as ih =>
    intro s h horderly
    obtain ⟨hnext, hinbox⟩ := absent_apply h horderly.1
    obtain ⟨hend, hinbox'⟩ := ih hnext horderly.2
    exact ⟨hend, hinbox'.trans hinbox⟩

theorem absent_reach {s : SubmissionSseService} (h : s.Absent o) (op : Op) :
    (reach s op).Absent o ∧ (reach s op).inbox o = s.inbox o := by
  cases op with
  | push id' event => exact h.push id' event
  | complete id' => exact h.complete id'
  | error id' message =>
    obtain ⟨hpush, hinbox⟩ := h.push id' (.submissionError message)
    obtain ⟨hcomplete, hinbox'⟩ := hpush.complete id'
    show (s.error id' message).Absent o ∧ (s.error id' message).inbox o = _
    rw [SubmissionSseService.error_eq]
    exact ⟨hcomplete, hinbox'.trans hinbox⟩
  | _ => exact ⟨h, rfl⟩

theorem sse_answer_clients (op : Op) (c : Choice) (w : World) :
    (answer op c w).2.sse = reach (c.clients.foldl ClientAction.apply w.sse) op :=
  sse_answer op { c with clients := [] } (w.clients c.clients) rfl

variable {ι : Type} [DecidableEq ι]

/-- While `o` is on the stream of `id`, the clients of the step are in order. -/
def ClientsOrderly (id : Id) (o : Observer) (x : ι × Choice) (pool : Pool ι (fun _ => M JobResult) World) : Prop :=
  AllOrderly id o pool.state.sse x.2.clients

instance (id : Id) (o : Observer) (x : ι × Choice) (pool : Pool ι (fun _ => M JobResult) World) :
    Decidable (ClientsOrderly id o x pool) :=
  inferInstanceAs (Decidable (AllOrderly id o pool.state.sse x.2.clients))

/-- After the end of the stream nothing arrives. -/
theorem absent_run (sched : List (ι × Choice)) : ∀ {pool : Pool ι (fun _ => M JobResult) World},
    pool.state.sse.Absent o → Pool.Guarded (Pool.programs answer) (ClientsOrderly id o) sched pool →
      (Pool.run (Pool.programs answer) sched pool).state.sse.inbox o = pool.state.sse.inbox o := by
  induction sched with
  | nil => exact fun _ _ => rfl
  | cons x sched ih =>
    intro pool h hguard
    have hstep : (Pool.step (Pool.programs answer) x pool).state.sse.Absent o ∧
        (Pool.step (Pool.programs answer) x pool).state.sse.inbox o = pool.state.sse.inbox o := by
      show (Prog.step answer x.2 (pool.tasks x.1, pool.state)).2.sse.Absent o ∧
        (Prog.step answer x.2 (pool.tasks x.1, pool.state)).2.sse.inbox o = _
      cases pool.tasks x.1 with
      | ret a => exact ⟨h, rfl⟩
      | raise e => exact ⟨h, rfl⟩
      | call op k =>
        obtain ⟨hclients, hinbox⟩ := absent_applyAll x.2.clients h hguard.1
        obtain ⟨hreach, hinbox'⟩ := absent_reach hclients op
        show (answer op x.2 pool.state).2.sse.Absent o ∧ (answer op x.2 pool.state).2.sse.inbox o = _
        rw [sse_answer_clients]
        exact ⟨hreach, hinbox'.trans hinbox⟩
    exact (ih hstep.1 hguard.2).trans hstep.2

/-- The jobs keep to their submissions, and that of job `i` is `id`. -/
structure Apart (id : Id) (i : ι) (jobs : ι → JobData) (pool : Pool ι (fun _ => M JobResult) World) : Prop where
  confined : ∀ j, Confined answer (Op.Of (jobs j).submissionId) (fun _ => True) (pool.tasks j)
  own : (jobs i).submissionId = id
  others : ∀ j, j ≠ i → (jobs j).submissionId ≠ id

theorem Apart.step {i : ι} {jobs : ι → JobData} {pool : Pool ι (fun _ => M JobResult) World}
    (h : Apart id i jobs pool) (x : ι × Choice) : Apart id i jobs (Pool.step (Pool.programs answer) x pool) :=
  ⟨Pool.confined_step h.confined x, h.own, h.others⟩

theorem told?_other {id' : Id} (hne : id' ≠ id) {op : Op} (hop : op.Of id') : op.told? id = none := by
  cases op with
  | push submissionId event =>
    cases hop
    exact if_neg hne
  | complete submissionId =>
    cases hop
    exact if_neg hne
  | error submissionId message =>
    cases hop
    exact if_neg hne
  | _ => rfl

/-- What a step tells the stream of `id`, if it is one of job `i`. -/
def toldBy (id : Id) (i : ι) (x : ι × Choice) (pool : Pool ι (fun _ => M JobResult) World) : Option Told :=
  if x.1 = i then (pool.tasks i).next?.bind (Op.told? id) else none

theorem told_madeBy_cons (id : Id) (i : ι) (x : ι × Choice) (sched : List (ι × Choice))
    (pool : Pool ι (fun _ => M JobResult) World) :
    told id (Pool.madeBy answer i (x :: sched) pool) = (toldBy id i x pool).toList ++
      told id (Pool.madeBy answer i sched (Pool.step (Pool.programs answer) x pool)) := by
  rw [Pool.madeBy, told_append, toldBy]
  congr 1
  split_ifs
  · cases (pool.tasks i).next? with
    | none => rfl
    | some op =>
      show List.filterMap _ [op] = (op.told? id).toList
      cases h : op.told? id <;> simp [h]
  · rfl

theorem served_step {i : ι} {jobs : ι → JobData} {x : ι × Choice} {pool : Pool ι (fun _ => M JobResult) World}
    (h : Watching pool.state.sse id o) (hapart : Apart id i jobs pool) (horderly : ClientsOrderly id o x pool) :
    Reached pool.state.sse (Pool.step (Pool.programs answer) x pool).state.sse id o (toldBy id i x pool) := by
  have hstay : Reached pool.state.sse pool.state.sse id o none := ⟨h, rfl⟩
  have htold : toldBy id i x pool = (pool.tasks x.1).next?.bind (Op.told? id) := by
    unfold toldBy
    split_ifs with hi
    · rw [hi]
    · have hconf := hapart.confined x.1
      cases hp : pool.tasks x.1 with
      | ret a => rfl
      | raise e => rfl
      | call op k =>
        rw [hp] at hconf
        exact (told?_other (hapart.others x.1 hi) hconf.1).symm
  rw [htold]
  show Reached _ (Prog.step answer x.2 (pool.tasks x.1, pool.state)).2.sse id o _
  cases pool.tasks x.1 with
  | ret a => exact hstay
  | raise e => exact hstay
  | call op k =>
    obtain ⟨hclients, hinbox⟩ := h.applyAll x.2.clients horderly
    show Reached _ (answer op x.2 pool.state).2.sse id o (op.told? id)
    rw [sse_answer_clients]
    exact (hclients.reach_served op).of_inbox hinbox

/-- A run delivers to `o` what job `i` tells the stream that `o` is on. -/
theorem delivered {i : ι} {jobs : ι → JobData} (sched : List (ι × Choice)) :
    ∀ {pool : Pool ι (fun _ => M JobResult) World}, Watching pool.state.sse id o → Apart id i jobs pool →
      Pool.Guarded (Pool.programs answer) (ClientsOrderly id o) sched pool →
        ∃ got, (Pool.run (Pool.programs answer) sched pool).state.sse.inbox o = pool.state.sse.inbox o ++ got ∧
          List.Forall₂ (Shown o) (deliver (told id (Pool.madeBy answer i sched pool))) got := by
  induction sched with
  | nil => exact fun _ _ _ => ⟨[], by simp [Pool.run], .nil⟩
  | cons x sched ih =>
    intro pool h hapart hguard
    have hserved := served_step h hapart hguard.1
    rw [told_madeBy_cons]
    cases htold : toldBy id i x pool with
    | none =>
      rw [htold] at hserved
      obtain ⟨hnext, hinbox⟩ := hserved
      obtain ⟨got, hrun, harrived⟩ := ih hnext (hapart.step x) hguard.2
      exact ⟨got, hrun.trans (by rw [hinbox]), harrived⟩
    | some t =>
      rw [htold] at hserved
      cases t with
      | push event =>
        obtain ⟨hnext, m, hshown, hinbox⟩ := hserved
        obtain ⟨got, hrun, harrived⟩ := ih hnext (hapart.step x) hguard.2
        refine ⟨m :: got, hrun.trans ?_, .cons hshown harrived⟩
        rw [hinbox, List.append_assoc]
        rfl
      | complete =>
        obtain ⟨habsent, hinbox⟩ := hserved
        exact ⟨[.complete], (absent_run sched habsent hguard.2).trans hinbox, .cons rfl .nil⟩
      | error message =>
        obtain ⟨habsent, m, hshown, hinbox⟩ := hserved
        exact ⟨[m, .complete], (absent_run sched habsent hguard.2).trans hinbox, .cons hshown (.cons rfl .nil)⟩

/-- What a client that is on a stream sees of the job: `sofar` of `messages`, as it got them. -/
structure Sees (id : Id) (o : Observer) (sse sse' : SubmissionSseService) (messages sofar : List Message) : Prop where
  seen : Seen id messages
  isPrefix : sofar <+: messages
  inbox : ∃ got, sse'.inbox o = sse.inbox o ++ got ∧ List.Forall₂ (Shown o) sofar got

end Runs

/-! ## Two jobs and their clients -/

/-- The author of the second submission, and an admin who watches both. -/
def authorOfSecond : Observer := { client := 1, isAdmin := false }

def adminOf (client : ℕ) : Observer := { client := client, isAdmin := true }

/-- They connect before the jobs start. -/
def watchedBoth : World :=
  { pendingBoth with
    sse := (ClientAction.connect "s1" (adminOf 2)).apply
      ((ClientAction.connect "s2" (adminOf 3)).apply ((ClientAction.connect "s2" authorOfSecond).apply .init)) }

theorem watching_author : Watching watchedBoth.sse "s2" authorOfSecond := by
  have hfirst : Watching ((ClientAction.connect "s2" authorOfSecond).apply .init) "s2" authorOfSecond :=
    .of_none SubmissionSseService.sound_init (fun _ => List.not_mem_nil) rfl
  have hsecond := hfirst.connect (show adminOf 3 ≠ authorOfSecond by decide) "s2"
  exact hsecond.connect (show adminOf 2 ≠ authorOfSecond by decide) "s1"

/-- The jobs take turns, and the admin leaves the second one meanwhile. -/
def adminLeaves : List (Bool × Choice) :=
  takingTurns.take 8 ++
    (false, { answeredFor false with clients := [.disconnect "s2" (adminOf 3)] }) :: takingTurns.drop 9

theorem adminLeaves_orderly :
    Pool.Guarded (Pool.programs answer) (ClientsOrderly "s2" authorOfSecond) adminLeaves
      (startJobs jobsOfBoth watchedBoth) := by
  decide +kernel

end CodeWeaknesses.Sse
