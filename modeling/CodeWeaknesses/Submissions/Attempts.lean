import CodeWeaknesses.Sse.Controller
import CodeWeaknesses.Submissions.Processor

/-!
# Attempts of a submission job

A job that throws is run again, up to three times. An attempt writes RUNNING over
whatever the attempt before it stored, and its own catch block stores RUNTIME_ERROR and
sends `submission.error` before it throws.

Results:
* `quiet_frame`: the calls that touch neither the status nor the terminal events.
* `processSubmission_settles`: an attempt that starts on an open submission settles it
  at most once.
* `runJob_settles`: **in every run whose attempts all start on an open submission, a
  final status is never changed and at most one terminal event is produced.**
* `runJob_unsettles`: an attempt that starts on a settled submission takes the verdict
  back.
-/

namespace CodeWeaknesses.Submissions

open Lib Lib.Prog Sse

/-! ## Status and terminal events -/

/-- The stored status of a submission. -/
def status (w : World) (id : Id) : Option SubmissionStatus := (w.submissions.find? id).map fun s => s.status

/-- The number of terminal events produced for a submission. -/
def terminals (w : World) (id : Id) : ℕ := w.sse.produced.countP fun x => x.1 = id ∧ x.2.isTerminal = true

/-- The stored status is final. -/
def Final (w : World) (id : Id) : Prop := ∃ st, status w id = some st ∧ isFinalStatus st = true

/-- No verdict has been stored or announced. -/
structure Open (w : World) (id : Id) : Prop where
  notFinal : ¬ Final w id
  terminals_eq : terminals w id = 0

/-- What a step may do: a final status stays, and there is at most one terminal event. -/
structure Keeps (id : Id) (w w' : World) : Prop where
  status_eq : Final w id → status w' id = status w id
  terminals_le : terminals w' id ≤ 1

theorem terminals_congr {w w' : World} (h : w'.sse.produced = w.sse.produced) (id : Id) :
    terminals w' id = terminals w id := by
  rw [terminals, h, terminals]

theorem Open.congr {w w' : World} {id : Id} (hw : Open w id) (hs : status w' id = status w id)
    (ht : terminals w' id = terminals w id) : Open w' id := by
  refine ⟨?_, by rw [ht, hw.terminals_eq]⟩
  rintro ⟨st, hst, hfinal⟩
  exact hw.notFinal ⟨st, by rw [← hs, hst], hfinal⟩

/-- A step from an open submission keeps no verdict. -/
theorem Open.keeps {w w' : World} {id : Id} (hw : Open w id) (ht : terminals w' id ≤ 1) : Keeps id w w' :=
  ⟨fun hfinal => absurd hfinal hw.notFinal, ht⟩

/-! ## Calls that keep both -/

/-- Clients come and go without an event. -/
@[simp] theorem produced_apply (s : SubmissionSseService) (action : ClientAction) :
    (action.apply s).produced = s.produced := by
  cases action with
  | connect id o => simp [ClientAction.apply]
  | disconnect id o =>
    unfold ClientAction.apply
    rw [SubmissionSseService.produced_cleanup]
    cases s.streams.get? id <;> rfl

@[simp] theorem produced_clients (w : World) (actions : List ClientAction) :
    (w.clients actions).sse.produced = w.sse.produced := by
  unfold World.clients
  induction actions generalizing w with
  | nil => rfl
  | cons action actions ih =>
    have hrest := ih { w with sse := action.apply w.sse }
    rw [produced_apply] at hrest
    exact hrest

/-- The calls that write no submission and produce no terminal event. -/
def Quiet : Op → Prop
  | .saveSubmission _ => False
  | .push _ event => event.isTerminal = false
  | .error .. => False
  | _ => True

theorem terminals_clients (w : World) (actions : List ClientAction) (id : Id) :
    terminals (w.clients actions) id = terminals w id := terminals_congr (produced_clients w actions) id

/-- `push` adds at most the pushed event to the terminal events. -/
theorem terminals_push_le (w : World) (id id' : Id) (event : SseEvent) :
    terminals { w with sse := w.sse.push id' event } id ≤
      terminals w id + if event.isTerminal then 1 else 0 := by
  have hproduced := SubmissionSseService.produced_push w.sse id' event
  unfold terminals
  rcases hproduced with h | h <;> rw [h]
  · omega
  · rw [List.countP_append, List.countP_singleton]
    cases event.isTerminal <;> simp
    split_ifs <;> omega

theorem terminals_push_ge (w : World) (id id' : Id) (event : SseEvent) :
    terminals w id ≤ terminals { w with sse := w.sse.push id' event } id := by
  have hproduced := SubmissionSseService.produced_push w.sse id' event
  unfold terminals
  rcases hproduced with h | h <;> rw [h]
  rw [List.countP_append]
  omega

theorem terminals_error_le (w : World) (id id' : Id) (message : String) :
    terminals { w with sse := w.sse.error id' message } id ≤ terminals w id + 1 := by
  have hproduced := SubmissionSseService.produced_error w.sse id' message
  unfold terminals
  rcases hproduced with h | h <;> rw [h]
  · omega
  · rw [List.countP_append, List.countP_singleton]
    split_ifs <;> omega

/-- A quiet call keeps the status and the terminal events of every submission. -/
theorem quiet_frame {o : Op} (ho : Quiet o) (c : Choice) (w : World) (id : Id) :
    status (answer o c w).2 id = status w id ∧ terminals (answer o c w).2 id = terminals w id := by
  have hsave : o.writesSubmission = false := by
    cases o with
    | saveSubmission s => exact ho.elim
    | _ => rfl
  refine ⟨by rw [status, submissions_answer hsave, status], ?_⟩
  have hok : ∀ w' : World, terminals (answerOk c w' o).2 id = terminals w' id := by
    intro w'
    cases o with
    | saveSubmission s => exact ho.elim
    | error i m => exact ho.elim
    | saveTestResult =>
      simp only [answerOk]
      split_ifs <;> rfl
    | push i event =>
      have hle := terminals_push_le w' id i event
      have hge := terminals_push_ge w' id i event
      rw [ho] at hle
      exact Nat.le_antisymm hle hge
    | complete i => exact terminals_congr (SubmissionSseService.produced_complete _ _) _
    | _ => rfl
  unfold answer
  cases c.fails with
  | none => exact (hok _).trans (terminals_clients w _ id)
  | some message =>
    simp only
    split_ifs
    · exact terminals_clients w _ id
    · exact (hok _).trans (terminals_clients w _ id)

/-- A call that throws keeps both. -/
theorem error_frame {o : Op} {c : Choice} {w w' : World} {e : Err} (h : answer o c w = (.error e, w'))
    (id : Id) : status w' id = status w id ∧ terminals w' id = terminals w id := by
  have hthrown : status (w.clients c.clients) id = status w id ∧
      terminals (w.clients c.clients) id = terminals w id := ⟨rfl, terminals_clients w _ id⟩
  have hok : ∀ {w₁ : World}, answerOk c w₁ o = (.error e, w') → w' = w₁ := by
    intro w₁ h
    cases o <;> simp only [answerOk] at h
    case saveTestResult =>
      split_ifs at h <;> cases h
      rfl
    all_goals cases h
  unfold answer at h
  cases hf : c.fails with
  | none =>
    simp only [hf] at h
    rw [hok h]
    exact hthrown
  | some message =>
    simp only [hf] at h
    split_ifs at h
    · cases h
      exact hthrown
    · rw [hok h]
      exact hthrown

/-- A pushed event keeps the status and adds at most one terminal event. -/
theorem push_frame (id' : Id) (event : SseEvent) (c : Choice) (w : World) (id : Id) :
    status (answer (.push id' event) c w).2 id = status w id ∧
      terminals (answer (.push id' event) c w).2 id ≤ terminals w id + 1 := by
  rw [answer_of_not_mayThrow rfl]
  refine ⟨rfl, ?_⟩
  have hle := terminals_push_le (w.clients c.clients) id id' event
  rw [terminals_clients] at hle
  refine le_trans hle ?_
  split_ifs <;> omega

/-- So does `error`. -/
theorem sseError_frame (id' : Id) (message : String) (c : Choice) (w : World) (id : Id) :
    status (answer (.error id' message) c w).2 id = status w id ∧
      terminals (answer (.error id' message) c w).2 id ≤ terminals w id + 1 := by
  rw [answer_of_not_mayThrow rfl]
  refine ⟨rfl, ?_⟩
  have hle := terminals_error_le (w.clients c.clients) id id' message
  rw [terminals_clients] at hle
  exact hle

/-- A row that was saved. -/
theorem save_frame {s : Submission} {c : Choice} {w w' : World} {u : Unit}
    (h : answer (.saveSubmission s) c w = (.ok u, w')) :
    status w' s.id = some s.status ∧ ∀ id, terminals w' id = terminals w id := by
  rw [submissions_save h]
  refine ⟨?_, terminals_clients w c.clients⟩
  show ((w.submissions.upsert s).find? s.id).map (fun s => s.status) = _
  rw [Table.find?_upsert_self]
  rfl

/-! ## One attempt -/

/-- Every attempt starts on an open submission. -/
def StartsOpen (id : Id) (o : Op) (_ : Choice) (w : World) : Prop := o = .takeJob id → Open w id

section Attempt

variable {id : Id} {α : Type}

/-- A program of quiet calls keeps the submission open. -/
theorem ensures_quiet {p : M α} {w : World} (hp : OnlyCalls Quiet p) (hw : Open w id) :
    Ensures answer (StartsOpen id) (Keeps id) (fun _ w' => Open w' id) p w := by
  refine hp.ensures ?_ hw
  intro o c w ho _ hw
  obtain ⟨hstatus, hterm⟩ := quiet_frame ho c w id
  have hopen := hw.congr hstatus hterm
  exact ⟨hw.keeps (by rw [hopen.terminals_eq]; omega), hopen⟩

theorem quiet_of_ofTests {o : Op} (ho : o.OfTests) : Quiet o := by
  cases o with
  | saveSubmission s => exact ho.elim
  | error id message => exact ho.elim
  | push id event => exact ho
  | _ => trivial

/-- A quiet call, answered: the submission stays open. -/
theorem Open.quiet {o : Op} {c : Choice} {w w' : World} {r : Except Err (Res o)} (hw : Open w id)
    (ho : Quiet o) (h : answer o c w = (r, w')) : Keeps id w w' ∧ Open w' id := by
  obtain ⟨hstatus, hterm⟩ := quiet_frame ho c w id
  rw [h] at hstatus hterm
  have hopen := hw.congr hstatus hterm
  exact ⟨hw.keeps (by rw [hopen.terminals_eq]; omega), hopen⟩

/-- A call that throws: the submission stays open. -/
theorem Open.thrown {o : Op} {c : Choice} {w w' : World} {e : Err} (hw : Open w id)
    (h : answer o c w = (.error e, w')) : Keeps id w w' ∧ Open w' id := by
  obtain ⟨hstatus, hterm⟩ := error_frame h id
  have hopen := hw.congr hstatus hterm
  exact ⟨hw.keeps (by rw [hopen.terminals_eq]; omega), hopen⟩

/-- Lines 33–48 keep the submission open. -/
theorem start_spec {job : JobData} {w : World} (hw : Open w job.submissionId) :
    Ensures answer (StartsOpen job.submissionId) (Keeps job.submissionId)
      (fun _ w' => Open w' job.submissionId) (start job) w := by
  refine ensures_await_bind ?_ fun c e w' _ h => hw.thrown h
  intro c found w₁ _ hfind
  obtain ⟨hkeeps, hw₁⟩ := hw.quiet (by trivial) hfind
  refine ⟨hkeeps, ?_⟩
  cases found with
  | none => exact hw₁
  | some s =>
    have hid : s.id = job.submissionId := (Table.find?_eq_some_iff.mp (find?_of_findSubmission hfind)).2
    refine ensures_await_bind ?_ fun c e w' _ h => hw₁.thrown h
    intro c now w₂ _ hnow
    obtain ⟨hkeeps, hw₂⟩ := hw₁.quiet (by trivial) hnow
    refine ⟨hkeeps, ensures_await_bind ?_ fun c e w' _ h => hw₂.thrown h⟩
    intro c u w₃ _ hsave
    obtain ⟨hstatus, hterm⟩ := save_frame hsave
    -- the row is RUNNING now, which is not final
    have hw₃ : Open w₃ job.submissionId := by
      refine ⟨?_, by rw [hterm, hw₂.terminals_eq]⟩
      rintro ⟨st, hst, hfinal⟩
      rw [← hid, hstatus] at hst
      cases hst
      cases hfinal
    exact ⟨hw₂.keeps (by rw [hw₃.terminals_eq]; omega), hw₃⟩

/-- A quiet call, or one that throws, keeps the status and the number of events. -/
theorem Keeps.frame {w w' : World} (hs : status w' id = status w id)
    (ht : terminals w' id = terminals w id) (hw : terminals w id ≤ 1) :
    Keeps id w w' ∧ terminals w' id ≤ 1 :=
  ⟨⟨fun _ => hs, by omega⟩, by omega⟩

theorem Keeps.quiet {o : Op} {c : Choice} {w w' : World} {r : Except Err (Res o)} (ho : Quiet o)
    (hw : terminals w id ≤ 1) (h : answer o c w = (r, w')) : Keeps id w w' ∧ terminals w' id ≤ 1 := by
  obtain ⟨hstatus, hterm⟩ := quiet_frame ho c w id
  exact Keeps.frame (by rw [← hstatus, h]) (by rw [← hterm, h]) hw

theorem not_final_congr {w w' : World} (hs : status w' id = status w id) (hw : ¬ Final w id) :
    ¬ Final w' id := by
  rintro ⟨st, hst, hfinal⟩
  exact hw ⟨st, by rw [← hs, hst], hfinal⟩

/-- Lines 165–212: before the final save the submission is open; after it the status
    stays, and `push` produces the only terminal event. -/
theorem finish_spec {job : JobData} {s : Submission} {testCases : List TestCase} {t : Totals} {w : World}
    (hw : Open w job.submissionId) :
    Ensures answer (StartsOpen job.submissionId) (Keeps job.submissionId)
      (fun r w' => ∀ e, r = .error e → Open w' job.submissionId)
      (finish job s testCases t) w := by
  refine ensures_await_bind ?_ fun c e w' _ h => ⟨(hw.thrown h).1, fun _ _ => (hw.thrown h).2⟩
  intro c now w₁ _ hnow
  obtain ⟨hkeeps, hw₁⟩ := hw.quiet (by trivial) hnow
  refine ⟨hkeeps, ensures_await_bind ?_ fun c e w' _ h => ⟨(hw₁.thrown h).1, fun _ _ => (hw₁.thrown h).2⟩⟩
  intro c u w₂ _ hsave
  obtain ⟨_, hterm⟩ := save_frame hsave
  have hzero : terminals w₂ job.submissionId = 0 := by rw [hterm, hw₁.terminals_eq]
  refine ⟨hw₁.keeps (by omega), ?_⟩
  -- the verdict is stored; from here on no call throws
  refine ensures_await_bind ?_ fun c e w' _ h => absurd h (not_error_of_not_mayThrow rfl)
  intro c u w₃ _ hpush
  obtain ⟨hstatus, hle⟩ := push_frame job.submissionId (.submissionCompleted _) c w₂ job.submissionId
  rw [hpush, hzero] at hle
  rw [hpush] at hstatus
  refine ⟨⟨fun _ => hstatus, hle⟩, ?_⟩
  refine ensures_await_bind ?_ fun c e w' _ h => absurd h (not_error_of_not_mayThrow rfl)
  intro c u w₄ _ hcomplete
  obtain ⟨hkeeps, hle⟩ := Keeps.quiet (by trivial) hle hcomplete
  refine ⟨hkeeps, ?_⟩
  split_ifs
  · refine ensures_await_bind ?_ fun c e w' _ h => absurd h (not_error_of_not_mayThrow rfl)
    intro c u w₅ _ hbroadcast
    exact ⟨(Keeps.quiet (by trivial) hle hbroadcast).1, fun e he => by cases he⟩
  · exact fun e he => by cases he

/-- Lines 213–230: from an open submission, one terminal event and one final status. -/
theorem recover_spec {job : JobData} {error : Err} {w : World} (hw : Open w job.submissionId) :
    Ensures answer (StartsOpen job.submissionId) (Keeps job.submissionId) (fun _ _ => True)
      (recover job error) w := by
  refine ensures_await_bind ?_ fun c e w' _ h => absurd h (not_error_of_not_mayThrow rfl)
  intro c u w₁ _ herror
  obtain ⟨hstatus, hle⟩ := sseError_frame job.submissionId _ c w job.submissionId
  rw [herror] at hstatus hle
  rw [hw.terminals_eq] at hle
  have hnot := not_final_congr hstatus hw.notFinal
  refine ⟨hw.keeps hle, ensures_await_bind ?_ ?_⟩
  · intro c found w₂ _ hfind
    obtain ⟨hstatus, hterm⟩ := quiet_frame (o := .findSubmission job.submissionId) (by trivial) c w₁
      job.submissionId
    rw [hfind] at hstatus hterm
    obtain ⟨hkeeps, hle⟩ := Keeps.frame hstatus hterm hle
    have hnot := not_final_congr hstatus hnot
    refine ⟨hkeeps, ?_⟩
    cases found with
    | none => trivial
    | some s =>
      refine ensures_await_bind ?_ fun c e w' _ h => absurd h (not_error_of_not_mayThrow rfl)
      intro c now w₃ _ hnow
      obtain ⟨hstatus, hterm⟩ := quiet_frame (o := .newDate) (by trivial) c w₂ job.submissionId
      rw [hnow] at hstatus hterm
      obtain ⟨hkeeps, hle⟩ := Keeps.frame hstatus hterm hle
      have hnot := not_final_congr hstatus hnot
      refine ⟨hkeeps, ensures_await_bind ?_ ?_⟩
      · intro c u w₄ _ hsave
        -- the status was not final, so storing RUNTIME_ERROR takes nothing back
        obtain ⟨_, hterm⟩ := save_frame hsave
        exact ⟨⟨fun hfinal => absurd hfinal hnot, by rw [hterm]; exact hle⟩, trivial⟩
      · intro c e w₄ _ hsave
        obtain ⟨hstatus, hterm⟩ := error_frame hsave job.submissionId
        exact ⟨(Keeps.frame hstatus hterm hle).1, trivial⟩
  · intro c e w₂ _ hfind
    obtain ⟨hstatus, hterm⟩ := error_frame hfind job.submissionId
    exact ⟨(Keeps.frame hstatus hterm hle).1, trivial⟩

/-- An attempt that starts on an open submission settles it at most once. -/
theorem processSubmission_settles {job : JobData} {w : World} (hw : Open w job.submissionId) :
    Ensures answer (StartsOpen job.submissionId) (Keeps job.submissionId) (fun _ _ => True)
      (processSubmission job) w := by
  unfold processSubmission
  refine Ensures.tryCatch (R := fun r w' => ∀ e, r = .error e → Open w' job.submissionId) ?_ ?_ ?_
  · exact fun _ _ _ => trivial
  · exact fun e w' h => recover_spec (h e rfl)
  · refine (start_spec hw).bind ?_ fun e w' h _ _ => h
    intro s w₁ hw₁
    refine (ensures_quiet ((onlyCalls_runTestCases job).mono fun _ => quiet_of_ofTests) hw₁).bind ?_ fun e w' h _ _ => h
    intro r w₂ hw₂
    exact finish_spec hw₂

theorem runAttempts_settles (job : JobData) (attempts : ℕ) : ∀ w : World,
    Ensures answer (StartsOpen job.submissionId) (Keeps job.submissionId) (fun _ _ => True)
      (runAttempts job attempts) w := by
  induction attempts with
  | zero => exact fun _ => trivial
  | succ attempts ih =>
    intro w
    refine ensures_await_bind ?_ ?_
    · intro c u w₁ hstart htake
      have hopen := hstart rfl
      obtain ⟨hkeeps, hw₁⟩ := hopen.quiet (by trivial) htake
      refine ⟨hkeeps, Ensures.tryCatch (fun _ _ _ => trivial) ?_ (processSubmission_settles hw₁)⟩
      intro e w' _
      by_cases hlast : attempts = 0
      · rw [if_pos hlast]
        trivial
      · rw [if_neg hlast]
        exact ih w'
    · intro c e w₁ hstart htake
      exact ⟨((hstart rfl).thrown htake).1, trivial⟩

/-- Along the steps of a run a final status stays, and there is at most one event. -/
theorem keeps_of_reachable {w w' : World} (h : Relation.ReflTransGen (Keeps id) w w') :
    (Final w id → status w' id = status w id) ∧ terminals w' id ≤ max 1 (terminals w id) := by
  induction h with
  | refl => exact ⟨fun _ => rfl, le_max_right _ _⟩
  | tail _ hstep ih =>
    refine ⟨fun hfinal => ?_, le_max_of_le_left hstep.terminals_le⟩
    obtain ⟨st, hst, hf⟩ := hfinal
    have hmid := ih.1 ⟨st, hst, hf⟩
    rw [hstep.status_eq ⟨st, by rw [hmid, hst], hf⟩, hmid]

end Attempt

/-! ## Runs of a job -/

/-- **Main**: in every run of a job whose attempts all start on an open submission, a
    final status is never changed by a later step, and at most one terminal event is
    produced. -/
theorem runJob_settles {job : JobData} {w : World} {cs cs' : List Choice}
    (h : Guarded answer (StartsOpen job.submissionId) (cs ++ cs') (runJob job, w)) :
    (Final (run answer cs (runJob job, w)).2 job.submissionId →
      status (run answer (cs ++ cs') (runJob job, w)).2 job.submissionId =
        status (run answer cs (runJob job, w)).2 job.submissionId) ∧
      terminals (run answer (cs ++ cs') (runJob job, w)).2 job.submissionId ≤
        max 1 (terminals w job.submissionId) := by
  have hspec := runAttempts_settles job 3 w
  obtain ⟨hcs, hcs'⟩ := (guarded_append answer _ cs cs' (runJob job, w)).mp h
  have hmid := Ensures.run (w := (runJob job, w)) hspec hcs
  have hlast := keeps_of_reachable (Ensures.reachable hmid hcs')
  have hall := keeps_of_reachable (Ensures.reachable (w := (runJob job, w)) hspec h)
  rw [← run_append] at hlast
  exact ⟨hlast.1, hall.2⟩

/-! ## A verdict that is taken back -/

/-- A submission that waits for its job, on a problem with one visible test. -/
def pendingOne : World where
  users := .empty
  problems := .empty
  submissions := Table.empty.upsert
    { id := "s1", code := "print(42)", language := .python, status := .pending, userId := "u1",
      problemId := "p1", contestId := "c1", submittedAt := some 1000, startedAt := none,
      completedAt := none, score := 0, executionTime := none, memoryUsed := none, user := none,
      problem := none, testResults := none }
  testCases := Table.empty.upsert
    { id := "t1", problemId := "p1", input := "", expectedOutput := "42", isHidden := false, orderIndex := 0 }
  testResults := .empty
  sse := .init
  broadcasts := []
  nullsFirst := false

def jobOne : JobData := { submissionId := "s1", code := "print(42)", language := .python, problemId := "p1" }

/-- A call that is answered. -/
def answered : Choice :=
  { fails := none, uuid := "r1", now := 5000, clients := []
    result := { success := true, output := "42", error := none, executionTime := 10, memoryUsed := 20,
                timedOut := false, memoryExceeded := false } }

/-- A call that throws. -/
def dropped : Choice := { answered with fails := some "Connection terminated" }

/-- A call before which a client opens the stream of the submission. -/
def joined (client : ℕ) : Choice :=
  { answered with clients := [.connect "s1" { client := client, isAdmin := false }] }

theorem open_pendingOne : Open pendingOne "s1" where
  notFinal := by
    rintro ⟨st, hst, hfinal⟩
    have hpending : status pendingOne "s1" = some .pending := rfl
    rw [hpending] at hst
    cases hst
    cases hfinal
  terminals_eq := rfl

/-- In a single attempt that succeeds, the status saved by the tenth call stays. -/
theorem runJob_settles_one :
    status (run answer (List.replicate 10 answered ++ List.replicate 3 answered)
        (runJob jobOne, pendingOne)).2 "s1" = some .accepted ∧
      terminals (run answer (List.replicate 10 answered ++ List.replicate 3 answered)
        (runJob jobOne, pendingOne)).2 "s1" ≤ 1 := by
  have hlater : ∀ {o : Op} {w : World}, o ≠ .takeJob "s1" → StartsOpen "s1" o answered w :=
    fun ho h => absurd h ho
  have hguard : Guarded answer (StartsOpen "s1") (List.replicate 10 answered ++ List.replicate 3 answered)
      (runJob jobOne, pendingOne) :=
    ⟨fun _ => open_pendingOne, hlater nofun, hlater nofun, hlater nofun, hlater nofun, hlater nofun,
      hlater nofun, hlater nofun, hlater nofun, hlater nofun, hlater nofun, hlater nofun, hlater nofun,
      trivial⟩
  have hrun := @runJob_settles jobOne
  obtain ⟨hstatus, hle⟩ := hrun hguard
  exact ⟨hstatus ⟨.accepted, rfl, rfl⟩, hle⟩

/-- The read of the test cases throws: the attempt stores RUNTIME_ERROR. -/
def firstAttempt : List Choice :=
  [joined 0, answered, answered, answered, dropped, answered, answered, answered, answered]

/-- The second attempt succeeds. -/
def secondAttempt : List Choice :=
  [answered, joined 1, answered, answered, answered, answered, answered, answered, answered, answered,
    answered]

/-- The stored RUNTIME_ERROR becomes ACCEPTED, and two terminal events are produced. -/
theorem runJob_unsettles :
    Final (run answer firstAttempt (runJob jobOne, pendingOne)).2 "s1" ∧
      status (run answer firstAttempt (runJob jobOne, pendingOne)).2 "s1" = some .runtimeError ∧
      status (run answer (firstAttempt ++ secondAttempt) (runJob jobOne, pendingOne)).2 "s1" =
        some .accepted ∧
      terminals (run answer (firstAttempt ++ secondAttempt) (runJob jobOne, pendingOne)).2 "s1" = 2 :=
  ⟨⟨.runtimeError, rfl, rfl⟩, rfl, by decide, by decide⟩

end CodeWeaknesses.Submissions
