import CodeWeaknesses.Sse.Service

/-!
# What a subscriber sees, by its role

A subject hands one event object to its observers in subscription order, and the
filter of a non-admin deletes fields of that object. So a later admin gets what the
earlier filters left.

Results:
* `handOut_append`: an observer gets the event through the filters up to its own.
* `received_pushAll`: a sequence of pushes hands out each event in turn.
* `viewsByRole_iff`: **every subscriber's view depends on its own role only iff no
  non-admin subscribed before an admin or no hidden result carried its output.**
* `viewsByRole_fails`: an owner before an admin.
-/

namespace CodeWeaknesses.Sse

/-! ## Views -/

/-- What a subscriber should get of an event: an admin the event itself, anyone else
    the event without the output of a hidden test. -/
def roleView (isAdmin : Bool) : SseEvent → SseEvent
  | .testResult event =>
    if isAdmin = false ∧ event.isHidden = true then
      .testResult { event with output := none, expectedOutput := none }
    else .testResult event
  | event => event

theorem mapEvent_eq_roleView (isAdmin : Bool) (event : SseEvent) :
    mapEvent isAdmin event = roleView isAdmin event := by
  cases event with
  | testResult e => cases isAdmin <;> cases h : e.isHidden <;> simp [mapEvent, roleView, h, TestResultEvent.strip]
  | submissionCompleted e => rfl
  | submissionError m => rfl

/-- Two filters in a row strip the event if one of them does. -/
theorem mapEvent_mapEvent (a b : Bool) (event : SseEvent) :
    mapEvent b (mapEvent a event) = mapEvent (a && b) event := by
  cases event with
  | testResult e =>
    cases a <;> cases b <;> cases h : e.isHidden <;> simp [mapEvent, TestResultEvent.strip, h]
  | submissionCompleted e => rfl
  | submissionError m => rfl

@[simp] theorem mapEvent_true (event : SseEvent) : mapEvent true event = event := by
  cases event <;> simp [mapEvent]

/-- A hidden test result that carries an output or an expected output. -/
def SseEvent.hasHiddenOutput : SseEvent → Bool
  | .testResult event => event.isHidden && (event.output.isSome || event.expectedOutput.isSome)
  | _ => false

/-- A filter of a non-admin leaves exactly the events without hidden output. -/
theorem mapEvent_false_eq_iff (event : SseEvent) :
    mapEvent false event = event ↔ event.hasHiddenOutput = false := by
  cases event with
  | testResult e =>
    obtain ⟨sid, idx, tid, verdict, ms, hidden, output, expected⟩ := e
    cases hidden <;> cases output <;> cases expected <;>
      simp [mapEvent, TestResultEvent.strip, SseEvent.hasHiddenOutput]
  | submissionCompleted e => simp [mapEvent, SseEvent.hasHiddenOutput]
  | submissionError m => simp [mapEvent, SseEvent.hasHiddenOutput]

/-! ## One event -/

/-- Whether all of the observers are admins. -/
def allAdmin (os : List Observer) : Bool := os.all fun o => o.isAdmin

/-- The observers after `os` get the event as the filters of `os` left it. -/
theorem handOut_append (os os' : List Observer) (event : SseEvent) :
    handOut (os ++ os') event = handOut os event ++ handOut os' (mapEvent (allAdmin os) event) := by
  induction os generalizing event with
  | nil => simp [handOut, allAdmin]
  | cons o os ih =>
    simp only [List.cons_append, handOut, ih, mapEvent_mapEvent]
    rfl

theorem map_fst_handOut (os : List Observer) (event : SseEvent) :
    (handOut os event).map Prod.fst = os := by
  induction os generalizing event with
  | nil => rfl
  | cons o os ih => simp [handOut, ih]

/-- The messages of one observer. -/
def messagesOf (o : Observer) (log : List (Observer × Message)) : List Message :=
  (log.filter fun x => x.1 = o).map Prod.snd

theorem messagesOf_append (o : Observer) (log log' : List (Observer × Message)) :
    messagesOf o (log ++ log') = messagesOf o log ++ messagesOf o log' := by
  simp [messagesOf]

theorem messagesOf_eq_nil {o : Observer} {log : List (Observer × Message)}
    (h : o ∉ log.map Prod.fst) : messagesOf o log = [] := by
  rw [messagesOf, List.map_eq_nil_iff, List.filter_eq_nil_iff]
  intro x hx hxo
  exact h (List.mem_map.mpr ⟨x, hx, of_decide_eq_true hxo⟩)

/-- The observer `o` subscribed after `pre` gets the event through the filters of `pre`
    and its own. -/
theorem messagesOf_handOut {pre post : List Observer} {o : Observer} (hnodup : (pre ++ o :: post).Nodup)
    (event : SseEvent) :
    messagesOf o (handOut (pre ++ o :: post) event) =
      [.next (mapEvent (allAdmin pre && o.isAdmin) event)] := by
  obtain ⟨_, hpost, hdisj⟩ := List.nodup_append.mp hnodup
  have hpre : o ∉ pre := fun h => hdisj o h o List.mem_cons_self rfl
  have hpost : o ∉ (handOut post (mapEvent (allAdmin pre && o.isAdmin) event)).map Prod.fst := by
    rw [map_fst_handOut]
    exact (List.nodup_cons.mp hpost).1
  rw [handOut_append, messagesOf_append, messagesOf_eq_nil (by rwa [map_fst_handOut]), handOut,
    ← List.singleton_append, messagesOf_append, mapEvent_mapEvent, messagesOf_eq_nil hpost]
  simp [messagesOf]

/-! ## A sequence of pushes -/

/-- `push` for each of the events. -/
def pushAll (s : SubmissionSseService) (id : Id) (events : List SseEvent) : SubmissionSseService :=
  events.foldl (fun s event => s.push id event) s

/-- The open subject of a submission, with its observers. -/
structure Live (s : SubmissionSseService) (id : Id) (os : List Observer) : Prop where
  exists_ref : ∃ ref, s.streams.get? id = some ref ∧ s.subjects ref = ⟨os, false⟩

theorem Live.push {s : SubmissionSseService} {id : Id} {os : List Observer} (h : Live s id os)
    (event : SseEvent) :
    Live (s.push id event) id os ∧ (s.push id event).received = s.received ++ handOut os event := by
  obtain ⟨ref, hget, hsubject⟩ := h.exists_ref
  simp only [SubmissionSseService.push, hget, SubmissionSseService.next, hsubject]
  exact ⟨⟨ref, hget, hsubject⟩, rfl⟩

theorem received_pushAll {id : Id} {os : List Observer} (events : List SseEvent) :
    ∀ {s : SubmissionSseService}, Live s id os →
      (pushAll s id events).received = s.received ++ events.flatMap (handOut os) := by
  induction events with
  | nil =>
    intro s _
    simp [pushAll]
  | cons event events ih =>
    intro s h
    obtain ⟨hlive, hreceived⟩ := h.push event
    have hrest := ih hlive
    rw [hreceived, List.append_assoc] at hrest
    exact hrest

/-- What a subscriber gets while the events are pushed. -/
def viewOf (s : SubmissionSseService) (id : Id) (events : List SseEvent) (o : Observer) : List Message :=
  messagesOf o ((pushAll s id events).received.drop s.received.length)

theorem viewOf_eq {s : SubmissionSseService} {id : Id} {pre post : List Observer} {o : Observer}
    (h : Live s id (pre ++ o :: post)) (hnodup : (pre ++ o :: post).Nodup) (events : List SseEvent) :
    viewOf s id events o = events.map fun e => .next (mapEvent (allAdmin pre && o.isAdmin) e) := by
  rw [viewOf, received_pushAll events h, List.drop_left]
  induction events with
  | nil => rfl
  | cons event events ih =>
    rw [List.flatMap_cons, messagesOf_append, messagesOf_handOut hnodup, ih]
    rfl

/-! ## Views by role -/

/-- Every subscriber of `s` gets each pushed event as its role allows, and as it would
    in any other service `t` with a live stream that it is subscribed to alone. -/
structure ViewsByRole (s : SubmissionSseService) (id : Id) (os : List Observer)
    (events : List SseEvent) : Prop where
  views : ∀ o ∈ os, viewOf s id events o = events.map fun e => .next (roleView o.isAdmin e)
  alone : ∀ o ∈ os, ∀ t, Live t id [o] → viewOf s id events o = viewOf t id events o

/-- A subscriber alone gets its role's view. -/
theorem viewOf_alone {t : SubmissionSseService} {id : Id} {o : Observer} (h : Live t id [o])
    (events : List SseEvent) :
    viewOf t id events o = events.map fun e => .next (roleView o.isAdmin e) := by
  have hview := viewOf_eq (show Live t id ([] ++ o :: []) from h) (List.nodup_singleton o) events
  rw [hview]
  simp [allAdmin, mapEvent_eq_roleView]

/-- No non-admin before an admin: before each admin there are only admins. -/
theorem pairwise_iff_allAdmin (os : List Observer) :
    os.Pairwise (fun a b => b.isAdmin = true → a.isAdmin = true) ↔
      ∀ pre o post, os = pre ++ o :: post → o.isAdmin = true → allAdmin pre = true := by
  constructor
  · rintro h pre o post rfl ho
    have hbefore := (List.pairwise_append.mp h).2.2
    exact List.all_eq_true.mpr fun a ha => hbefore a ha o List.mem_cons_self ho
  · induction os with
    | nil => exact fun _ => .nil
    | cons a os ih =>
      intro h
      refine .cons ?_ (ih fun pre o post hos ho => ?_)
      · intro b hb hadmin
        obtain ⟨pre, post, rfl⟩ := List.append_of_mem hb
        have hall := h (a :: pre) b post rfl hadmin
        exact List.all_eq_true.mp hall a List.mem_cons_self
      · have hall := h (a :: pre) o post (by rw [hos]; rfl) ho
        exact List.all_eq_true.mpr fun b hb => List.all_eq_true.mp hall b (List.mem_cons_of_mem _ hb)

/-- The view of a subscriber is its role's view iff it is no admin, or only admins
    subscribed before it, or no event has hidden output. -/
theorem viewOf_eq_roleView_iff {s : SubmissionSseService} {id : Id} {pre post : List Observer}
    {o : Observer} (h : Live s id (pre ++ o :: post)) (hnodup : (pre ++ o :: post).Nodup)
    (events : List SseEvent) :
    viewOf s id events o = events.map (fun e => .next (roleView o.isAdmin e)) ↔
      (o.isAdmin = true → allAdmin pre = true) ∨ ∀ e ∈ events, e.hasHiddenOutput = false := by
  rw [viewOf_eq h hnodup, List.map_inj_left]
  simp only [Message.next.injEq, ← mapEvent_eq_roleView]
  cases hadmin : o.isAdmin with
  | false => simp
  | true =>
    cases hall : allAdmin pre with
    | true => simp
    | false => simp [mapEvent_false_eq_iff]

/-- **Main**: every subscriber's view depends on its own role only iff no non-admin
    subscribed before an admin, or no pushed event is a hidden result with its output. -/
theorem viewsByRole_iff {s : SubmissionSseService} {id : Id} {os : List Observer}
    (h : Live s id os) (hnodup : os.Nodup) (events : List SseEvent) :
    ViewsByRole s id os events ↔
      os.Pairwise (fun a b => b.isAdmin = true → a.isAdmin = true) ∨
        ∀ e ∈ events, e.hasHiddenOutput = false := by
  have hviews : (∀ o ∈ os, viewOf s id events o = events.map fun e => .next (roleView o.isAdmin e)) ↔
      os.Pairwise (fun a b => b.isAdmin = true → a.isAdmin = true) ∨
        ∀ e ∈ events, e.hasHiddenOutput = false := by
    rw [pairwise_iff_allAdmin]
    constructor
    · intro hall
      by_cases hbare : ∀ e ∈ events, e.hasHiddenOutput = false
      · exact .inr hbare
      · left
        rintro pre o post rfl
        have hview := hall o (List.mem_append_right _ List.mem_cons_self)
        exact ((viewOf_eq_roleView_iff h hnodup events).mp hview).resolve_right hbare
    · intro hcond o ho
      obtain ⟨pre, post, rfl⟩ := List.append_of_mem ho
      exact (viewOf_eq_roleView_iff h hnodup events).mpr (hcond.imp_left fun hadm => hadm pre o post rfl)
  constructor
  · intro hrole
    exact hviews.mp hrole.views
  · intro hcond
    have hall := hviews.mpr hcond
    refine ⟨hall, ?_⟩
    intro o ho t ht
    rw [hall o ho, viewOf_alone ht]

/-! ## An owner before an admin -/

def owner : Observer := { client := 0, isAdmin := false }

def admin : Observer := { client := 1, isAdmin := true }

/-- The clients connect in turn to the stream of a submission. -/
def connectAll (os : List Observer) (id : Id) : SubmissionSseService :=
  os.foldl (fun s o => let (ref, s) := s.getOrCreate id; s.subscribe ref o) .init

/-- The result of a hidden test, as the processor pushes it. -/
def hiddenResult : SseEvent :=
  .testResult
    { submissionId := "s1", testCaseIndex := 0, testCaseId := "t1", verdict := .fail, executionMs := 10,
      isHidden := true, output := some (some "41"), expectedOutput := some (some "42") }

theorem live_connectAll_admin_owner : Live (connectAll [admin, owner] "s1") "s1" [admin, owner] :=
  ⟨0, rfl, rfl⟩

/-- An admin who subscribed first sees the hidden output, an owner after it does not. -/
theorem viewsByRole_admin_first :
    ViewsByRole (connectAll [admin, owner] "s1") "s1" [admin, owner] [hiddenResult] :=
  (viewsByRole_iff live_connectAll_admin_owner (by decide) [hiddenResult]).mpr (.inl (by decide))

/-- An owner who subscribed first deletes the hidden output of the admin's event. -/
theorem viewsByRole_fails :
    Live (connectAll [owner, admin] "s1") "s1" [owner, admin] ∧
      ¬ ViewsByRole (connectAll [owner, admin] "s1") "s1" [owner, admin] [hiddenResult] := by
  refine ⟨⟨0, rfl, rfl⟩, ?_⟩
  intro h
  have hadmin := h.views admin (by decide)
  revert hadmin
  decide

end CodeWeaknesses.Sse
