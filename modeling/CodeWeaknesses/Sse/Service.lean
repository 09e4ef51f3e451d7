import CodeWeaknesses.Common.Basic
import CodeWeaknesses.Lib.OrdMap

/-!
# `SubmissionSseService`

Model of `sse/sse-events.types.ts` and `sse/submission-sse.service.ts`, with the rxjs
`Subject`s that the service stores and the per-subscriber filter of
`sse.controller.ts:75-85`, which runs inside `Subject.next`.

* A `Subject` is a reference into `subjects`, since a client holds the subject that
  `getOrCreate` returned until it subscribes.
* `Subject.next` hands one event object to each observer in subscription order. The
  filter of an observer edits that object, so `handOut` threads it through.
* `produced` records the events handed to a subject, `received` what observers got.
-/

namespace CodeWeaknesses.Sse

open Lib

/-! ## Events -/

/-- The `verdict` of a `TestResultEvent`. -/
inductive Verdict where
  | pass
  | fail
  | tle
  | mle
  | error
  deriving DecidableEq, Repr

/-- `TestResultEvent`. An optional text is `none` when the property is absent and
    `some none` when it is `null`. -/
structure TestResultEvent where
  submissionId : Id
  testCaseIndex : ℕ
  testCaseId : Id
  verdict : Verdict
  executionMs : ℤ
  isHidden : Bool
  output : Option (Option String)
  expectedOutput : Option (Option String)
  deriving DecidableEq, Repr

/-- `SubmissionCompletedEvent`. -/
structure SubmissionCompletedEvent where
  submissionId : Id
  finalVerdict : SubmissionStatus
  score : ℤ
  totalExecutionMs : ℤ
  passedCount : ℕ
  totalCount : ℕ
  deriving DecidableEq, Repr

/-- The `data` of a `MessageEvent`, by its `type`. -/
inductive SseEvent where
  | testResult (event : TestResultEvent)
  | submissionCompleted (event : SubmissionCompletedEvent)
  | submissionError (message : String)
  deriving DecidableEq, Repr

/-- `submission.completed` or `submission.error`. -/
def SseEvent.isTerminal : SseEvent → Bool
  | .testResult _ => false
  | .submissionCompleted _ => true
  | .submissionError _ => true

/-! ## The filter of a subscriber -/

/-- `delete testResult.output; delete testResult.expectedOutput`. -/
def TestResultEvent.strip (event : TestResultEvent) : TestResultEvent :=
  { event with output := none, expectedOutput := none }

/-- The `map` of `sse.controller.ts:75-85`: the event as it leaves the filter of a
    subscriber with the role `isAdmin`. -/
def mapEvent (isAdmin : Bool) : SseEvent → SseEvent
  | .testResult event => .testResult (if event.isHidden && !isAdmin then event.strip else event)
  | event => event

/-! ## Subjects -/

/-- A subscribed client. -/
structure Observer where
  client : ℕ
  isAdmin : Bool
  deriving DecidableEq, Repr

/-- What an observer gets: an event or the completion. -/
inductive Message where
  | next (event : SseEvent)
  | complete
  deriving DecidableEq, Repr

/-- An rxjs `Subject`. -/
structure Subject where
  observers : List Observer
  closed : Bool
  deriving DecidableEq, Repr

abbrev SubjectRef := ℕ

/-- `Subject.next(event)`: each observer in turn gets the object as the filters before
    it left it, and its own filter edits it in place. -/
def handOut : List Observer → SseEvent → List (Observer × Message)
  | [], _ => []
  | o :: os, event =>
    let event := mapEvent o.isAdmin event
    (o, .next event) :: handOut os event

/-! ## The service -/

/-- The two maps of the service and the subjects created so far; `fresh` is the next
    reference. -/
structure SubmissionSseService where
  streams : OrdMap Id SubjectRef
  refCounts : OrdMap Id ℤ
  subjects : SubjectRef → Subject
  fresh : SubjectRef
  produced : List (Id × SseEvent)
  received : List (Observer × Message)

namespace SubmissionSseService

def init : SubmissionSseService where
  streams := .empty
  refCounts := .empty
  subjects := fun _ => ⟨[], false⟩
  fresh := 0
  produced := []
  received := []

/-- Lines 12–15: a subject for the submission exists. -/
def ensure (s : SubmissionSseService) (submissionId : Id) : SubmissionSseService :=
  if s.streams.has submissionId then s
  else
    { s with
      streams := s.streams.set submissionId s.fresh
      refCounts := s.refCounts.set submissionId 0
      subjects := Function.update s.subjects s.fresh ⟨[], false⟩
      fresh := s.fresh + 1 }

/-- `getOrCreate` (lines 11–22). -/
def getOrCreate (s : SubmissionSseService) (submissionId : Id) : SubjectRef × SubmissionSseService :=
  let s := s.ensure submissionId
  let currentCount := (s.refCounts.get? submissionId).getD 0
  let s := { s with refCounts := s.refCounts.set submissionId (currentCount + 1) }
  ((s.streams.get? submissionId).getD 0, s)

/-- `Subject.next` on the subject of a submission; a closed subject ignores it. -/
def next (s : SubmissionSseService) (submissionId : Id) (ref : SubjectRef) (event : SseEvent) :
    SubmissionSseService :=
  if (s.subjects ref).closed then s
  else
    { s with
      produced := s.produced ++ [(submissionId, event)]
      received := s.received ++ handOut (s.subjects ref).observers event }

/-- `push` (lines 24–26). -/
def push (s : SubmissionSseService) (submissionId : Id) (event : SseEvent) : SubmissionSseService :=
  match s.streams.get? submissionId with
  | some ref => s.next submissionId ref event
  | none => s

/-- `Subject.complete`: the observers get the completion and are dropped. -/
def close (s : SubmissionSseService) (ref : SubjectRef) : SubmissionSseService :=
  if (s.subjects ref).closed then s
  else
    { s with
      subjects := Function.update s.subjects ref ⟨[], true⟩
      received := s.received ++ (s.subjects ref).observers.map fun o => (o, .complete) }

/-- `complete` (lines 28–35). -/
def complete (s : SubmissionSseService) (submissionId : Id) : SubmissionSseService :=
  match s.streams.get? submissionId with
  | some ref =>
    let s := s.close ref
    { s with
      streams := s.streams.erase submissionId
      refCounts := s.refCounts.erase submissionId }
  | none => s

/-- `error` (lines 37–45). -/
def error (s : SubmissionSseService) (submissionId : Id) (message : String) : SubmissionSseService :=
  match s.streams.get? submissionId with
  | some ref => (s.next submissionId ref (.submissionError message)).complete submissionId
  | none => s

/-- `cleanup` (lines 47–59). -/
def cleanup (s : SubmissionSseService) (submissionId : Id) : SubmissionSseService :=
  match s.refCounts.get? submissionId with
  | none => s
  | some count =>
    let currentCount := count - 1
    if currentCount ≤ 0 then s.complete submissionId
    else { s with refCounts := s.refCounts.set submissionId currentCount }

/-- `subject.subscribe`: a closed subject completes the observer at once. -/
def subscribe (s : SubmissionSseService) (ref : SubjectRef) (o : Observer) : SubmissionSseService :=
  if (s.subjects ref).closed then { s with received := s.received ++ [(o, .complete)] }
  else
    { s with
      subjects := Function.update s.subjects ref
        { s.subjects ref with observers := (s.subjects ref).observers ++ [o] } }

/-- The framework drops the subscription of a client that disconnects. -/
def unsubscribe (s : SubmissionSseService) (ref : SubjectRef) (o : Observer) : SubmissionSseService :=
  { s with
    subjects := Function.update s.subjects ref
      { s.subjects ref with observers := (s.subjects ref).observers.erase o } }

/-! ## What the operations produce -/

@[simp] theorem produced_ensure (s : SubmissionSseService) (id : Id) :
    (s.ensure id).produced = s.produced := by
  unfold ensure
  split_ifs <;> rfl

@[simp] theorem produced_getOrCreate (s : SubmissionSseService) (id : Id) :
    (s.getOrCreate id).2.produced = s.produced := produced_ensure s id

@[simp] theorem produced_subscribe (s : SubmissionSseService) (ref : SubjectRef) (o : Observer) :
    (s.subscribe ref o).produced = s.produced := by
  unfold subscribe
  split_ifs <;> rfl

@[simp] theorem produced_close (s : SubmissionSseService) (ref : SubjectRef) :
    (s.close ref).produced = s.produced := by
  unfold close
  split_ifs <;> rfl

@[simp] theorem produced_complete (s : SubmissionSseService) (id : Id) :
    (s.complete id).produced = s.produced := by
  unfold complete
  cases s.streams.get? id with
  | none => rfl
  | some ref => exact produced_close s ref

@[simp] theorem produced_cleanup (s : SubmissionSseService) (id : Id) :
    (s.cleanup id).produced = s.produced := by
  unfold cleanup
  cases s.refCounts.get? id with
  | none => rfl
  | some count =>
    simp only
    split_ifs
    · exact produced_complete s id
    · rfl

/-- `push` produces the event once or, without a live stream, not at all. -/
theorem produced_push (s : SubmissionSseService) (id : Id) (event : SseEvent) :
    (s.push id event).produced = s.produced ∨
      (s.push id event).produced = s.produced ++ [(id, event)] := by
  unfold push
  cases s.streams.get? id with
  | none => exact .inl rfl
  | some ref =>
    simp only [next]
    split_ifs
    · exact .inl rfl
    · exact .inr rfl

/-- So does `error`. -/
theorem produced_error (s : SubmissionSseService) (id : Id) (message : String) :
    (s.error id message).produced = s.produced ∨
      (s.error id message).produced = s.produced ++ [(id, .submissionError message)] := by
  have hpush := produced_push s id (.submissionError message)
  unfold push at hpush
  unfold error
  cases hget : s.streams.get? id with
  | none => exact .inl rfl
  | some ref =>
    rw [hget] at hpush
    simpa using hpush

end SubmissionSseService

end CodeWeaknesses.Sse
