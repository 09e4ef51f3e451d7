import CodeWeaknesses.Lib.Unwind
import CodeWeaknesses.Submissions.Engine

/-!
# The container of an execution

`executeCode` once more, with the local variable `container` and the calls on the Docker client that
it awaits, for any answers of the client. Containers are numbered by the `createContainer` call that
made them. The listener that awaits `wait` runs on its own and makes no entry.

Results:
* `executeCode_spec`: the calls of an execution, and that its result is the one of `executeCode`.
* `executeCode_cleansUp`: **`executeCode` returns, removes the container it created exactly once and
  starts no container that it has not attached to.**
-/

namespace CodeWeaknesses.Submissions.Containers

open Lib.Unwind Std.Do

set_option mvcgen.warning false

/-! ## Calls on the client -/

/-- The awaited calls: `pull` with its progress, `stream` the race of the attached stream with the
    timer. -/
inductive Call where
  | createContainer (n : ℕ)
  | pull
  | attach (container : ℕ)
  | start (container : ℕ)
  | stream (container : ℕ)
  | kill (container : ℕ)
  | stats (container : ℕ)
  | remove (container : ℕ)
  deriving DecidableEq, Repr

/-- The local variable `container`, `none` for `null`, and the calls so far, each with whether it
    succeeded. -/
structure Session where
  container : Option ℕ
  calls : List (Call × Bool)

/-- One more call. -/
def Session.log (s : Session) (c : Call) (ok : Bool) : Session := { s with calls := s.calls ++ [(c, ok)] }

/-- Before an execution. -/
def Session.initial : Session := ⟨none, []⟩

/-- An error leaves the session as it is. -/
abbrev Client := EStateM Rejection Session

/-- `await` of a call that the client answers with `answer`. -/
def call {α : Type} (c : Call) (answer : Except Rejection α) : Client α := do
  modify fun s => s.log c answer.isOk
  liftExcept answer

/-- `container = await this.docker.createContainer(createOptions)`. -/
def createContainer (n : ℕ) (answer : Except Rejection Unit) : Client ℕ := do
  call (.createContainer n) answer
  modify fun s => { s with container := some n }
  pure n

/-! ## `executeCode` -/

/-- Lines 88–109. -/
def getContainer (d : Docker) (options : CreateOptions) : Client ℕ :=
  tryCatch (createContainer 0 (d.createContainer options)) fun err =>
    if err.statusCode = some 404 then do
      call .pull (d.pull options.image)
      createContainer 1 (d.createContainerAgain options)
    else throw err

/-- The inner `try` (lines 126–149). -/
def awaitContainer (cfg : JudgeConfig) (d : Docker) (container : ℕ) : Client (ExecutionResult ⊕ String × String) :=
  tryCatch
    (do
      match ← call (.stream container) (race d) with
      | .timeout =>
        call (.kill container) d.kill
        pure (.inl (timeoutResult cfg))
      | .texts output error => pure (.inr (output, error)))
    fun _ => do
      tryCatch (call (.kill container) d.killAgain) fun _ => pure ()
      pure (.inr ("", ""))

/-- The outer `try` (lines 65–170). -/
def runContainer (cfg : JudgeConfig) (d : Docker) (options : CreateOptions) : Client ExecutionResult := do
  let container ← getContainer d options
  call (.attach container) d.attach
  call (.start container) d.start
  match ← awaitContainer cfg d container with
  | .inl result => pure result
  | .inr (output, error) =>
    let memoryUsed ← call (.stats container) (memoryUsage d)
    pure (finishedResult cfg d output error memoryUsed)

/-- The `finally` block (lines 182–191). -/
def cleanUp (d : Docker) : Client Unit := do
  match (← get).container with
  | some container => tryCatch (call (.remove container) d.remove) fun _ => pure ()
  | none => pure ()

/-- `executeCode` (lines 57–192). -/
def executeCode (cfg : JudgeConfig) (d : Docker) (language : SubmissionLanguage) (code input : String) :
    Client ExecutionResult :=
  let options := createOptions cfg language code input
  tryFinally (tryCatch (runContainer cfg d options) fun err => pure (failureResult d err)) (cleanUp d)

/-! ## What the calls say -/

/-- The containers that were created. -/
def createdBy (calls : List (Call × Bool)) : List ℕ := calls.filterMap fun
  | (.createContainer n, true) => some n
  | _ => none

/-- The containers that `remove` was called on, successfully or not. -/
def removedBy (calls : List (Call × Bool)) : List ℕ := calls.filterMap fun
  | (.remove container, _) => some container
  | _ => none

/-- At most one container was created; it was removed once, and nothing else was. -/
structure CleanedUp (calls : List (Call × Bool)) : Prop where
  atMostOne : (createdBy calls).length ≤ 1
  removed : removedBy calls = createdBy calls

/-- `start` was called only on containers that had been attached to. -/
def AttachedFirst (calls : List (Call × Bool)) : Prop :=
  ∀ before container ok after, calls = before ++ (.start container, ok) :: after →
    (.attach container, true) ∈ before

theorem createdBy_log (s : Session) (c : Call) (ok : Bool) :
    createdBy (s.log c ok).calls = createdBy s.calls ++ createdBy [(c, ok)] := List.filterMap_append

theorem removedBy_log (s : Session) (c : Call) (ok : Bool) :
    removedBy (s.log c ok).calls = removedBy s.calls ++ removedBy [(c, ok)] := List.filterMap_append

theorem attachedFirst_log {s : Session} {c : Call} {ok : Bool} (h : AttachedFirst s.calls)
    (hstart : ∀ n, c = .start n → (.attach n, true) ∈ s.calls) : AttachedFirst (s.log c ok).calls := by
  intro before container ok' after heq
  rcases List.eq_nil_or_concat after with rfl | ⟨rest, last, rfl⟩
  · obtain ⟨hcalls, hlast⟩ := List.append_inj' heq rfl
    cases hlast
    rw [← hcalls]
    exact hstart container rfl
  · rw [List.concat_eq_append, ← List.cons_append, ← List.append_assoc] at heq
    obtain ⟨hcalls, _⟩ := List.append_inj' heq rfl
    exact h before container ok' rest hcalls

/-- A call that neither creates, starts nor removes a container. -/
def Call.Quiet : Call → Prop
  | .createContainer _ | .start _ | .remove _ => False
  | _ => True

/-- During the `try`: the variable has what was created, and nothing was removed. -/
structure Held (s : Session) : Prop where
  created : createdBy s.calls = s.container.toList
  removed : removedBy s.calls = []
  attachedFirst : AttachedFirst s.calls

/-- Nothing was created yet. -/
structure Fresh (s : Session) : Prop extends Held s where
  none : s.container = none

/-- A call that neither creates nor removes anything. -/
theorem Held.log {s : Session} (h : Held s) {c : Call} {ok : Bool} (hcreated : createdBy [(c, ok)] = [])
    (hremoved : removedBy [(c, ok)] = []) (hstart : ∀ n, c = .start n → (.attach n, true) ∈ s.calls) :
    Held (s.log c ok) where
  created := by
    rw [createdBy_log, hcreated, List.append_nil]
    exact h.created
  removed := by rw [removedBy_log, hremoved, h.removed, List.append_nil]
  attachedFirst := attachedFirst_log h.attachedFirst hstart

theorem Held.quiet {s : Session} (h : Held s) {c : Call} (hc : c.Quiet) (ok : Bool) : Held (s.log c ok) := by
  cases c with
  | pull | attach | stream | kill | stats => exact h.log rfl rfl (by rintro _ ⟨⟩)
  | createContainer | start | remove => cases hc

theorem Fresh.log {s : Session} (h : Fresh s) {c : Call} {ok : Bool} (hcreated : createdBy [(c, ok)] = [])
    (hremoved : removedBy [(c, ok)] = []) (hstart : ∀ n, c = .start n → (.attach n, true) ∈ s.calls) :
    Fresh (s.log c ok) where
  toHeld := h.toHeld.log hcreated hremoved hstart
  none := h.none

theorem fresh_initial : Fresh .initial where
  created := rfl
  removed := rfl
  attachedFirst := by
    intro before container ok after heq
    simp [Session.initial] at heq
  none := rfl

/-- The container is created and the variable set. -/
theorem Fresh.create {s : Session} (h : Fresh s) (n : ℕ) :
    Held { s.log (.createContainer n) true with container := some n } where
  created := by
    show createdBy (s.log _ true).calls = _
    rw [createdBy_log, h.created, h.none]
    rfl
  removed := by
    show removedBy (s.log _ true).calls = _
    rw [removedBy_log, h.removed]
    rfl
  attachedFirst := attachedFirst_log h.attachedFirst (by rintro _ ⟨⟩)

/-- The container in the variable is removed. -/
theorem Held.remove {s : Session} (h : Held s) {n : ℕ} (hn : s.container = some n) (ok : Bool) :
    CleanedUp (s.log (.remove n) ok).calls where
  atMostOne := by
    rw [createdBy_log, h.created, hn]
    rfl
  removed := by
    rw [removedBy_log, createdBy_log, h.removed, h.created, hn]
    rfl

theorem Held.nothing {s : Session} (h : Held s) (hnone : s.container = none) : CleanedUp s.calls where
  atMostOne := by
    rw [h.created, hnone]
    simp
  removed := by rw [h.removed, h.created, hnone, Option.toList_none]

/-! ## One call -/

/-- A call makes its entry and ends as the client answers. -/
theorem call_spec {α : Type} {c : Call} {answer : Except Rejection α} {P Q E : Session → Prop}
    (hok : ∀ s, P s → Q (s.log c true)) (herr : ∀ s, P s → E (s.log c false)) :
    ⦃fun s => ⌜P s⌝⦄ call c answer
    ⦃post⟨fun a s => ⌜Q s ∧ answer = .ok a⌝, fun e s => ⌜E s ∧ answer = .error e⌝⟩⦄ := by
  apply triple_iff.mpr
  intro s hs
  cases answer with
  | ok a => exact ⟨hok s hs, rfl⟩
  | error e => exact ⟨herr s hs, rfl⟩

@[spec] theorem createContainer_spec (n : ℕ) (answer : Except Rejection Unit) :
    ⦃fun s => ⌜Fresh s⌝⦄ createContainer n answer
    ⦃post⟨fun _ s => ⌜Held s ∧ answer = .ok ()⌝, fun e s => ⌜Fresh s ∧ answer = .error e⌝⟩⦄ := by
  apply triple_iff.mpr
  intro s hs
  cases answer with
  | ok u => exact ⟨hs.create n, rfl⟩
  | error e => exact ⟨hs.log rfl rfl (by rintro _ ⟨⟩), rfl⟩

@[spec] theorem pull_spec (answer : Except Rejection Unit) :
    ⦃fun s => ⌜Fresh s⌝⦄ call .pull answer
    ⦃post⟨fun a s => ⌜Fresh s ∧ answer = .ok a⌝, fun e s => ⌜Fresh s ∧ answer = .error e⌝⟩⦄ :=
  call_spec (fun _ hs => hs.log rfl rfl (by rintro _ ⟨⟩)) (fun _ hs => hs.log rfl rfl (by rintro _ ⟨⟩))

@[spec] theorem attach_spec (container : ℕ) (answer : Except Rejection Unit) :
    ⦃fun s => ⌜Held s⌝⦄ call (.attach container) answer
    ⦃post⟨fun a s => ⌜(Held s ∧ (.attach container, true) ∈ s.calls) ∧ answer = .ok a⌝,
      fun e s => ⌜Held s ∧ answer = .error e⌝⟩⦄ := by
  refine call_spec (fun s hs => ⟨hs.quiet (by trivial) true, ?_⟩) ?_
  · simp [Session.log]
  · exact fun s hs => hs.quiet (by trivial) false

@[spec] theorem start_spec (container : ℕ) (answer : Except Rejection Unit) :
    ⦃fun s => ⌜Held s ∧ (.attach container, true) ∈ s.calls⌝⦄ call (.start container) answer
    ⦃post⟨fun a s => ⌜Held s ∧ answer = .ok a⌝, fun e s => ⌜Held s ∧ answer = .error e⌝⟩⦄ :=
  call_spec (fun _ hs => hs.1.log rfl rfl (by rintro _ ⟨⟩; exact hs.2))
    (fun _ hs => hs.1.log rfl rfl (by rintro _ ⟨⟩; exact hs.2))

/-- A call that leaves the container as it is. -/
theorem held_spec {α : Type} {c : Call} {answer : Except Rejection α} (hc : c.Quiet) :
    ⦃fun s => ⌜Held s⌝⦄ call c answer
    ⦃post⟨fun a s => ⌜Held s ∧ answer = .ok a⌝, fun e s => ⌜Held s ∧ answer = .error e⌝⟩⦄ :=
  call_spec (fun _ hs => hs.quiet hc true) (fun _ hs => hs.quiet hc false)

@[spec] theorem stream_spec (container : ℕ) (answer : Except Rejection RaceResult) :
    ⦃fun s => ⌜Held s⌝⦄ call (.stream container) answer
    ⦃post⟨fun a s => ⌜Held s ∧ answer = .ok a⌝, fun e s => ⌜Held s ∧ answer = .error e⌝⟩⦄ :=
  held_spec trivial

@[spec] theorem kill_spec (container : ℕ) (answer : Except Rejection Unit) :
    ⦃fun s => ⌜Held s⌝⦄ call (.kill container) answer
    ⦃post⟨fun a s => ⌜Held s ∧ answer = .ok a⌝, fun e s => ⌜Held s ∧ answer = .error e⌝⟩⦄ :=
  held_spec trivial

@[spec] theorem stats_spec (container : ℕ) (answer : Except Rejection ℕ) :
    ⦃fun s => ⌜Held s⌝⦄ call (.stats container) answer
    ⦃post⟨fun a s => ⌜Held s ∧ answer = .ok a⌝, fun e s => ⌜Held s ∧ answer = .error e⌝⟩⦄ :=
  held_spec trivial

/-! ## An execution -/

theorem getContainer_of_error {d : Docker} {options : CreateOptions} {err : Rejection}
    (h : d.createContainer options = .error err) : Submissions.getContainer d options =
      if err.statusCode = some 404 then do
        d.pull options.image
        d.createContainerAgain options
      else .error err := by
  unfold Submissions.getContainer
  rw [h]
  rfl

@[spec] theorem getContainer_spec (d : Docker) (options : CreateOptions) :
    ⦃fun s => ⌜Fresh s⌝⦄ getContainer d options
    ⦃post⟨fun _ s => ⌜Held s ∧ Submissions.getContainer d options = .ok ()⌝,
      fun e s => ⌜Held s ∧ Submissions.getContainer d options = .error e⌝⟩⦄ := by
  mvcgen [getContainer]
  · -- created at once
    rintro hs hcreate
    refine ⟨hs, ?_⟩
    unfold Submissions.getContainer
    rw [hcreate]
    rfl
  · rename_i hs
    exact hs.1
  · rename_i hs
    exact hs.1
  · -- created after a pull
    rename_i h404 hcreate _ _ hpull _ _
    intro hs hagain
    rw [getContainer_of_error hcreate.2, if_pos h404, hpull.2]
    exact ⟨hs, hagain⟩
  · rename_i h404 hcreate _ _ hpull _ _
    intro hs hagain
    rw [getContainer_of_error hcreate.2, if_pos h404, hpull.2]
    exact ⟨hs.toHeld, hagain⟩
  · -- the image cannot be pulled
    rename_i h404 hcreate _ _
    intro hs hpull
    rw [getContainer_of_error hcreate.2, if_pos h404, hpull]
    exact ⟨hs.toHeld, rfl⟩
  · -- refused for another reason
    rename_i h404 hcreate
    rw [getContainer_of_error hcreate.2, if_neg h404]
    exact ⟨hcreate.1.toHeld, rfl⟩

@[spec] theorem awaitContainer_spec (cfg : JudgeConfig) (d : Docker) (container : ℕ) :
    ⦃fun s => ⌜Held s⌝⦄ awaitContainer cfg d container
    ⦃post⟨fun a s => ⌜Held s ∧ Submissions.awaitContainer cfg d = .ok a⌝,
      fun e s => ⌜Held s ∧ Submissions.awaitContainer cfg d = .error e⌝⟩⦄ := by
  mvcgen [awaitContainer]
  · rename_i hs
    exact hs.1
  · -- killed in time
    rename_i hrace _ _ hkill
    exact ⟨hkill.1, awaitContainer_of_killed hrace.2 hkill.2⟩
  · rename_i hs
    exact hs.1
  · rename_i hrace _ _ hkill _ _ hagain
    exact ⟨hagain.1, awaitContainer_of_swallowed (.inr ⟨hrace.2, _, hkill.2⟩)⟩
  · rename_i hrace _ _ hkill _ _ hagain
    exact ⟨hagain.1, awaitContainer_of_swallowed (.inr ⟨hrace.2, _, hkill.2⟩)⟩
  · rename_i hrace
    exact ⟨hrace.1, awaitContainer_of_texts hrace.2⟩
  · rename_i hs
    exact hs.1
  · rename_i hrace _ _ hagain
    exact ⟨hagain.1, awaitContainer_of_swallowed (.inl ⟨_, hrace.2⟩)⟩
  · rename_i hrace _ _ hagain
    exact ⟨hagain.1, awaitContainer_of_swallowed (.inl ⟨_, hrace.2⟩)⟩

@[spec] theorem runContainer_spec (cfg : JudgeConfig) (d : Docker) (options : CreateOptions) :
    ⦃fun s => ⌜Fresh s⌝⦄ runContainer cfg d options
    ⦃post⟨fun a s => ⌜Held s ∧ Submissions.runContainer cfg d options = .ok a⌝,
      fun e s => ⌜Held s ∧ Submissions.runContainer cfg d options = .error e⌝⟩⦄ := by
  mvcgen [runContainer]
  · rename_i hs
    exact hs.1
  · rename_i hs
    exact hs.1
  · rename_i hs
    exact hs.1
  · -- the inner `try` returned a result
    rename_i hcreate _ _ hattach _ _ hstart _ _ _ _ hawait
    rw [runContainer_of_started ⟨hcreate.2, hattach.2, hstart.2⟩, hawait.2]
    exact ⟨hawait.1, rfl⟩
  · rename_i hs
    exact hs.1
  · rename_i hcreate _ _ hattach _ _ hstart _ _ _ _ _ hawait _ _ hstats
    rw [runContainer_of_started ⟨hcreate.2, hattach.2, hstart.2⟩, hawait.2]
    refine ⟨hstats.1, ?_⟩
    show (memoryUsage d).bind _ = _
    rw [hstats.2]
    rfl
  · rename_i hcreate _ _ hattach _ _ hstart _ _ _ _ _ hawait _ _
    intro hs hstats
    rw [runContainer_of_started ⟨hcreate.2, hattach.2, hstart.2⟩, hawait.2]
    refine ⟨hs, ?_⟩
    show (memoryUsage d).bind _ = _
    rw [hstats]
    rfl
  · rename_i hcreate _ _ hattach _ _ hstart _ _
    intro hs hawait
    rw [runContainer_of_started ⟨hcreate.2, hattach.2, hstart.2⟩, hawait]
    exact ⟨hs, rfl⟩
  · -- not started
    rename_i hcreate _ _ hattach _ _
    intro hs hstart
    unfold Submissions.runContainer
    rw [hcreate.2, hattach.2, hstart]
    exact ⟨hs, rfl⟩
  · rename_i hcreate _ _
    intro hs hattach
    unfold Submissions.runContainer
    rw [hcreate.2, hattach]
    exact ⟨hs, rfl⟩
  · intro hs hcreate
    unfold Submissions.runContainer
    rw [hcreate]
    exact ⟨hs, rfl⟩

/-- The `finally` block does not throw, whatever `remove` does. -/
theorem run_cleanUp (d : Docker) (s : Session) : (cleanUp d).run s = match s.container with
    | some container => .ok () (s.log (.remove container) d.remove.isOk)
    | none => .ok () s := by
  show EStateM.run (match s.container with
    | some container => tryCatch (call (.remove container) d.remove) fun _ => pure ()
    | none => pure ()) s = _
  cases s.container with
  | none => rfl
  | some container => cases d.remove <;> rfl

@[spec] theorem cleanUp_spec (d : Docker) :
    ⦃fun s => ⌜Held s⌝⦄ cleanUp d ⦃⇓ _ s => ⌜CleanedUp s.calls ∧ AttachedFirst s.calls⌝⦄ := by
  apply triple_iff.mpr
  intro s hs
  rw [run_cleanUp]
  cases hcontainer : s.container with
  | none => exact ⟨hs.nothing hcontainer, hs.attachedFirst⟩
  | some container =>
    exact ⟨hs.remove hcontainer _, attachedFirst_log hs.attachedFirst (by rintro _ ⟨⟩)⟩

/-- The calls of an execution, and its result. -/
theorem executeCode_spec (cfg : JudgeConfig) (d : Docker) (language : SubmissionLanguage) (code input : String) :
    ⦃fun s => ⌜Fresh s⌝⦄ executeCode cfg d language code input
    ⦃⇓ result s => ⌜(CleanedUp s.calls ∧ AttachedFirst s.calls) ∧
      Submissions.executeCode cfg d language code input = .ok result⌝⦄ := by
  mvcgen [executeCode]
  · rename_i hs
    exact hs.1
  · rename_i hrun _ _
    intro hclean hattached
    rw [executeCode_eq, hrun.2]
    exact ⟨⟨hclean, hattached⟩, rfl⟩
  · rename_i hs
    exact hs.1
  · rename_i hrun _ _
    intro hclean hattached
    rw [executeCode_eq, hrun.2]
    exact ⟨⟨hclean, hattached⟩, rfl⟩

/-- **Main**: whatever the client answers, `executeCode` returns a result; the container that was
    created, if any, is removed exactly once and nothing else is, and `start` comes after `attach`. -/
theorem executeCode_cleansUp (cfg : JudgeConfig) (d : Docker) (language : SubmissionLanguage)
    (code input : String) : ∃ result s, (executeCode cfg d language code input).run .initial = .ok result s ∧
      Submissions.executeCode cfg d language code input = .ok result ∧
      CleanedUp s.calls ∧ AttachedFirst s.calls := by
  have hspec := triple_iff.mp (executeCode_spec cfg d language code input) .initial fresh_initial
  cases hrun : (executeCode cfg d language code input).run .initial with
  | error e s =>
    rw [hrun] at hspec
    exact hspec.elim
  | ok result s =>
    rw [hrun] at hspec
    exact ⟨result, s, rfl, hspec.2, hspec.1⟩

/-- The image is missing, and the container does not start. -/
example : ((executeCode defaults
      { printing "" 5 with
        createContainer := fun _ => .error ⟨some 404, some "no such image"⟩
        start := .error ⟨some 500, some "cannot start"⟩ }
      .python "" "").run .initial) =
    .ok ⟨false, "", some "cannot start", 5, 0, false, false⟩
      ⟨some 1, [(.createContainer 0, false), (.pull, true), (.createContainer 1, true), (.attach 1, true),
        (.start 1, false), (.remove 1, true)]⟩ := rfl

end CodeWeaknesses.Submissions.Containers
