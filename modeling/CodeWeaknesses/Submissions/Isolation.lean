import CodeWeaknesses.Lib.Isolation
import CodeWeaknesses.Submissions.Attempts

/-!
# Submissions that are judged at the same time

The workers of the submissions queue run several jobs at once (`concurrency`,
`queue.service.ts:62-65`), each taking its calls at any time. The id of a job is that of its
submission, so no two jobs are of the same one.

Results:
* `runJob_confined`: a job saves its own submission and its own test results only.
* `sameFor_answer`, `sameFor_answer_other`: what a call does to the rows of one submission.
* `runJobs_isolated`: **each of the jobs that run at the same time does what it would do alone.**
* `runJobs_anyOrder`: **and what is stored in the end does not depend on the order of their
  steps.**
-/

namespace CodeWeaknesses.Submissions

open Lib Lib.Prog Sse

/-! ## The calls of a job -/

/-- The calls that the job of the submission `id` can make. -/
def Op.Of (id : Id) : Op → Prop
  | .takeJob submissionId => submissionId = id
  | .findSubmission submissionId => submissionId = id
  | .saveSubmission submission => submission.id = id
  | .saveTestResult submissionId .. => submissionId = id
  | .push submissionId _ => submissionId = id
  | .complete submissionId => submissionId = id
  | .error submissionId _ => submissionId = id
  | .findTestCases _ => True
  | .executeCode .. => True
  | .newDate => True
  | .broadcastLeaderboard _ => True

section Calls

variable {job : JobData}

theorem runTestCase_of (t : Totals) (testCase : TestCase) (index : ℕ) :
    OnlyCalls (Op.Of job.submissionId) (runTestCase job t testCase index) := by
  unfold runTestCase
  refine (onlyCalls_await trivial).bind fun result => ?_
  refine OnlyCalls.bind (onlyCalls_await (by rfl)) fun _ => ?_
  exact OnlyCalls.bind (onlyCalls_await (by rfl)) fun _ => trivial

theorem runVisible_of (testCases : List TestCase) : ∀ (visibleCasesPassed : Bool) (index : ℕ) (t : Totals),
    OnlyCalls (Op.Of job.submissionId) (runVisible job testCases visibleCasesPassed index t) := by
  induction testCases with
  | nil => exact fun _ _ _ => trivial
  | cons testCase rest ih =>
    intro visibleCasesPassed index t
    exact (runTestCase_of t testCase index).bind fun r => ih _ _ _

theorem runHidden_of (testCases : List TestCase) : ∀ (index : ℕ) (t : Totals),
    OnlyCalls (Op.Of job.submissionId) (runHidden job testCases index t) := by
  induction testCases with
  | nil => exact fun _ _ => trivial
  | cons testCase rest ih =>
    intro index t
    refine (runTestCase_of t testCase index).bind fun r => ?_
    show OnlyCalls _ (if r.1 then runHidden job rest (index + 1) r.2 else pure r.2)
    split_ifs
    · exact ih _ _
    · trivial

theorem runTestCases_of : OnlyCalls (Op.Of job.submissionId) (runTestCases job) := by
  unfold runTestCases
  refine (onlyCalls_await trivial).bind fun testCases => ?_
  simp only
  split_ifs
  · trivial
  · refine (runVisible_of _ _ _ _).bind fun r => ?_
    show OnlyCalls _ (if r.1 then _ else _)
    split_ifs
    · exact (runHidden_of _ _ _).bind fun _ => trivial
    · trivial

/-- The submission that a job finds is the one of the job. -/
theorem id_of_findSubmission {id : Id} {s : Submission} {c : Choice} {w w' : World}
    (h : answer (.findSubmission id) c w = (.ok (some s), w')) : s.id = id :=
  (Table.find?_eq_some_iff.mp (find?_of_findSubmission h)).2

theorem start_of : Confined answer (Op.Of job.submissionId)
    (fun r => ∀ s : Submission, r = .ok s → s.id = job.submissionId) (start job) := by
  refine confined_await_bind (by rfl) ?_ (by rintro e s ⟨⟩)
  intro c w w' found hfound
  cases found with
  | none =>
    rintro s ⟨⟩
  | some s =>
    have hid := id_of_findSubmission hfound
    refine confined_await_bind trivial ?_ (by rintro e s ⟨⟩)
    intro _ _ _ now _
    refine confined_await_bind hid ?_ (by rintro e s ⟨⟩)
    rintro _ _ _ _ _ _ ⟨⟩
    exact hid

theorem finish_of {s : Submission} (hs : s.id = job.submissionId) (testCases : List TestCase) (t : Totals) :
    Confined answer (Op.Of job.submissionId) (fun _ => True) (finish job s testCases t) := by
  refine confined_await_bind trivial (fun _ _ _ now _ => ?_) fun _ => trivial
  refine confined_await_bind hs (fun _ _ _ _ _ => ?_) fun _ => trivial
  refine confined_await_bind (by rfl) (fun _ _ _ _ _ => ?_) fun _ => trivial
  refine confined_await_bind (by rfl) (fun _ _ _ _ _ => ?_) fun _ => trivial
  split_ifs
  · exact confined_await_bind trivial (fun _ _ _ _ _ => trivial) fun _ => trivial
  · trivial

theorem recover_of (e : Err) :
    Confined answer (Op.Of job.submissionId) (fun _ => True) (recover job e) := by
  refine confined_await_bind (by rfl) (fun _ _ _ _ _ => ?_) fun _ => trivial
  refine confined_await_bind (by rfl) ?_ fun _ => trivial
  intro c w w' found hfound
  cases found with
  | none => trivial
  | some s =>
    refine confined_await_bind trivial (fun _ _ _ _ _ => ?_) fun _ => trivial
    have hid : s.id = job.submissionId := id_of_findSubmission hfound
    exact confined_await_bind hid (fun _ _ _ _ _ => trivial) fun _ => trivial

theorem processSubmission_of :
    Confined answer (Op.Of job.submissionId) (fun _ => True) (processSubmission job) := by
  refine Confined.tryCatch (R := fun _ => True) ?_ (fun _ _ => trivial) fun e _ => recover_of e
  refine Confined.bind start_of ?_ fun _ _ => trivial
  intro s hs
  refine Confined.bind runTestCases_of.confined ?_ fun _ _ => trivial
  exact fun r _ => finish_of (hs s rfl) r.1 r.2

theorem runAttempts_of (attempts : ℕ) :
    Confined answer (Op.Of job.submissionId) (fun _ => True) (runAttempts job attempts) := by
  induction attempts with
  | zero => trivial
  | succ attempts ih =>
    refine confined_await_bind (by rfl) (fun _ _ _ _ _ => ?_) fun _ => trivial
    refine Confined.tryCatch processSubmission_of (fun _ _ => trivial) fun e _ => ?_
    split_ifs
    · trivial
    · exact ih

/-- A job makes calls of its own submission only. -/
theorem runJob_confined (job : JobData) :
    Confined answer (Op.Of job.submissionId) (fun _ => True) (runJob job) := runAttempts_of 3

end Calls

/-! ## The rows of a submission -/

/-- Two worlds look the same to the job of a submission: the test cases, its row, and its results
    in their order. Every row of the second world is one of the first. -/
structure SameFor (id : Id) (w w' : World) : Prop where
  testCases : w'.testCases = w.testCases
  submission : w'.submissions.find? id = w.submissions.find? id
  results : w'.testResults.rows.filter (fun r => r.submissionId = id) =
    w.testResults.rows.filter fun r => r.submissionId = id
  known : ∀ uuid, w.testResults.find? uuid = none → w'.testResults.find? uuid = none

/-- The uuid of a new test result is not that of a stored one. -/
def Fresh : Op → Choice → World → Prop
  | .saveTestResult .., c, w => w.testResults.find? c.uuid = none
  | _, _, _ => True

instance : ∀ (o : Op) (c : Choice) (w : World), Decidable (Fresh o c w)
  | .saveTestResult .., c, w => inferInstanceAs (Decidable (w.testResults.find? c.uuid = none))
  | .takeJob _, _, _ => .isTrue trivial
  | .findSubmission _, _, _ => .isTrue trivial
  | .saveSubmission _, _, _ => .isTrue trivial
  | .findTestCases _, _, _ => .isTrue trivial
  | .executeCode .., _, _ => .isTrue trivial
  | .newDate, _, _ => .isTrue trivial
  | .push .., _, _ => .isTrue trivial
  | .complete _, _, _ => .isTrue trivial
  | .error .., _, _ => .isTrue trivial
  | .broadcastLeaderboard _, _, _ => .isTrue trivial

theorem Fresh.clients {o : Op} {c : Choice} {w : World} (h : Fresh o c w) (actions : List ClientAction) :
    Fresh o c (w.clients actions) := by
  cases o with
  | saveTestResult => exact h
  | _ => trivial

theorem SameFor.refl (id : Id) (w : World) : SameFor id w w := ⟨rfl, rfl, rfl, fun _ h => h⟩

section Rows

variable {id : Id} {w w' : World}

/-- The clients of the streams change none of the rows. -/
theorem SameFor.clients (h : SameFor id w w') (actions actions' : List ClientAction) :
    SameFor id (w.clients actions) (w'.clients actions') := ⟨h.testCases, h.submission, h.results, h.known⟩

/-- Any change of the streams and of the broadcasts. -/
theorem SameFor.congr {v v' : World} (h : SameFor id w w') (hv : v.testCases = w.testCases)
    (hsub : v.submissions = w.submissions) (hres : v.testResults = w.testResults)
    (hv' : v'.testCases = w'.testCases) (hsub' : v'.submissions = w'.submissions)
    (hres' : v'.testResults = w'.testResults) : SameFor id v v' := by
  refine ⟨?_, ?_, ?_, ?_⟩
  · rw [hv, hv', h.testCases]
  · rw [hsub, hsub', h.submission]
  · rw [hres, hres', h.results]
  · rw [hres, hres']
    exact h.known

theorem find?_testResults_upsert {r : TestResult} {uuid : Id} {w : World}
    (h : (w.testResults.upsert r).find? uuid = none) : uuid ≠ r.id ∧ w.testResults.find? uuid = none := by
  rw [Table.find?_upsert] at h
  split_ifs at h with hid
  exact ⟨hid, h⟩

/-- The results of a submission after a new row. -/
theorem filter_testResults_upsert {r : TestResult} {w : World} (hr : w.testResults.find? r.id = none) :
    (w.testResults.upsert r).rows.filter (fun r' => r'.submissionId = id) =
      (w.testResults.rows.filter fun r' => r'.submissionId = id) ++ if r.submissionId = id then [r] else [] := by
  rw [Table.rows_upsert_of_find?_eq_none hr, List.filter_append, List.filter_singleton]
  by_cases h : r.submissionId = id <;> simp [h]

/-- A call of the job itself, when it does not throw. -/
theorem sameFor_answerOk (h : SameFor id w w') {o : Op} (ho : o.Of id) {c : Choice} (hfresh : Fresh o c w) :
    (answerOk c w' o).1 = (answerOk c w o).1 ∧ SameFor id (answerOk c w o).2 (answerOk c w' o).2 := by
  cases o with
  | findSubmission submissionId =>
    obtain rfl : submissionId = id := ho
    exact ⟨congrArg Except.ok h.submission, h⟩
  | saveSubmission s =>
    obtain rfl : s.id = id := ho
    refine ⟨rfl, h.testCases, ?_, h.results, h.known⟩
    show (w'.submissions.upsert s).find? s.id = (w.submissions.upsert s).find? s.id
    rw [Table.find?_upsert_self, Table.find?_upsert_self]
  | findTestCases problemId =>
    refine ⟨?_, h⟩
    simp only [answerOk, h.testCases]
  | saveTestResult submissionId testCaseId passed isHidden output expectedOutput error executionTime memoryUsed =>
    have hnone : w.testResults.find? c.uuid = none := hfresh
    have hnone' := h.known _ hnone
    simp only [answerOk, hnone, hnone', Option.isSome_none, Bool.false_eq_true, if_false, true_and]
    generalize hrow : testResultRow c.uuid submissionId testCaseId passed isHidden output expectedOutput error
      executionTime memoryUsed = row
    have hid : row.id = c.uuid := by rw [← hrow]; rfl
    rw [← hid] at hnone hnone'
    refine ⟨h.testCases, h.submission, ?_, ?_⟩
    · show (w'.testResults.upsert row).rows.filter _ = (w.testResults.upsert row).rows.filter _
      rw [filter_testResults_upsert hnone, filter_testResults_upsert hnone', h.results]
    · intro uuid huuid
      obtain ⟨hne, hold⟩ := find?_testResults_upsert huuid
      show (w'.testResults.upsert _).find? uuid = none
      rw [Table.find?_upsert, if_neg hne]
      exact h.known uuid hold
  | takeJob _ => exact ⟨rfl, h⟩
  | executeCode _ _ _ => exact ⟨rfl, h⟩
  | newDate => exact ⟨rfl, h⟩
  | push _ _ => exact ⟨rfl, h.congr rfl rfl rfl rfl rfl rfl⟩
  | complete _ => exact ⟨rfl, h.congr rfl rfl rfl rfl rfl rfl⟩
  | error _ _ => exact ⟨rfl, h.congr rfl rfl rfl rfl rfl rfl⟩
  | broadcastLeaderboard _ => exact ⟨rfl, h.congr rfl rfl rfl rfl rfl rfl⟩

/-- A call of another job, when it does not throw. -/
theorem sameFor_answerOk_other (h : SameFor id w w') {id' : Id} (hid : id' ≠ id) {o : Op} (ho : o.Of id')
    {c : Choice} (hfresh : Fresh o c w) : SameFor id (answerOk c w o).2 w' := by
  cases o with
  | saveSubmission s =>
    obtain rfl : s.id = id' := ho
    refine ⟨h.testCases, ?_, h.results, h.known⟩
    show w'.submissions.find? id = (w.submissions.upsert s).find? id
    rw [Table.find?_upsert, if_neg (Ne.symm hid), h.submission]
  | saveTestResult submissionId testCaseId passed isHidden output expectedOutput error executionTime memoryUsed =>
    obtain rfl : submissionId = id' := ho
    have hnone : w.testResults.find? c.uuid = none := hfresh
    simp only [answerOk, hnone, Option.isSome_none, Bool.false_eq_true, if_false]
    refine ⟨h.testCases, h.submission, ?_, ?_⟩
    · rw [h.results]
      refine (Table.filter_rows_upsert (by exact decide_eq_false hid) ?_).symm
      exact fun r hr hkey => absurd hkey (Table.find?_eq_none_iff.mp hnone r hr)
    · intro uuid huuid
      exact h.known uuid (find?_testResults_upsert huuid).2
  | takeJob _ => exact h
  | findSubmission _ => exact h
  | findTestCases _ => exact h
  | executeCode _ _ _ => exact h
  | newDate => exact h
  | push _ _ => exact h.congr rfl rfl rfl rfl rfl rfl
  | complete _ => exact h.congr rfl rfl rfl rfl rfl rfl
  | error _ _ => exact h.congr rfl rfl rfl rfl rfl rfl
  | broadcastLeaderboard _ => exact h.congr rfl rfl rfl rfl rfl rfl

/-- A call of the job itself. -/
theorem sameFor_answer (h : SameFor id w w') {o : Op} (ho : o.Of id) {c : Choice} (hfresh : Fresh o c w) :
    (answer o c w').1 = (answer o c w).1 ∧ SameFor id (answer o c w).2 (answer o c w').2 := by
  have hclients := h.clients c.clients c.clients
  have hok := sameFor_answerOk hclients ho (hfresh.clients c.clients)
  unfold answer
  cases c.fails with
  | none => exact hok
  | some message =>
    dsimp only
    split_ifs
    · exact ⟨rfl, hclients⟩
    · exact hok

/-- A call of another job. -/
theorem sameFor_answer_other (h : SameFor id w w') {id' : Id} (hid : id' ≠ id) {o : Op} (ho : o.Of id')
    {c : Choice} (hfresh : Fresh o c w) : SameFor id (answer o c w).2 w' := by
  have hclients : SameFor id (w.clients c.clients) w' := h.clients c.clients []
  have hok := sameFor_answerOk_other hclients hid ho (hfresh.clients c.clients)
  unfold answer
  cases c.fails with
  | none => exact hok
  | some message =>
    dsimp only
    split_ifs
    · exact hclients
    · exact hok

/-- The jobs of different submissions do not see each other. -/
theorem separates_answer : Pool.Separates answer (fun id o => Op.Of id o) Fresh SameFor where
  answers ho hfresh hsim := sameFor_answer hsim ho hfresh
  hides hid ho hfresh hsim := sameFor_answer_other hsim hid ho hfresh

end Rows

/-! ## The tables of a run -/

section Tables

variable {id : Id} {w : World}

/-- What no job writes, and the order of the submissions. -/
structure SameFrame (w v : World) : Prop where
  users : v.users = w.users
  problems : v.problems = w.problems
  nullsFirst : v.nullsFirst = w.nullsFirst
  ids : v.submissions.rows.map Submission.id = w.submissions.rows.map Submission.id

/-- No call writes users or problems. -/
theorem users_answer (o : Op) (c : Choice) (w : World) : (answer o c w).2.users = w.users ∧
    (answer o c w).2.problems = w.problems ∧ (answer o c w).2.nullsFirst = w.nullsFirst := by
  have hok : ∀ w : World, (answerOk c w o).2.users = w.users ∧ (answerOk c w o).2.problems = w.problems ∧
      (answerOk c w o).2.nullsFirst = w.nullsFirst := by
    intro w
    cases o with
    | saveTestResult =>
      simp only [answerOk]
      split_ifs <;> exact ⟨rfl, rfl, rfl⟩
    | _ => exact ⟨rfl, rfl, rfl⟩
  unfold answer
  cases c.fails with
  | none => exact hok _
  | some message =>
    dsimp only
    split_ifs
    · exact ⟨rfl, rfl, rfl⟩
    · exact hok _

/-- A job of a stored submission writes its row in place. -/
theorem ids_answer {o : Op} (ho : o.Of id) (hid : id ∈ w.submissions.rows.map Submission.id) (c : Choice) :
    (answer o c w).2.submissions.rows.map Submission.id = w.submissions.rows.map Submission.id := by
  cases hw : o.writesSubmission with
  | false => rw [submissions_answer hw]
  | true =>
    cases o with
    | saveSubmission s =>
      obtain rfl : s.id = id := ho
      have hupsert : (w.submissions.upsert s).rows.map Submission.id = w.submissions.rows.map Submission.id :=
        (Table.map_key_upsertRows _ _ _).trans (if_pos hid)
      unfold answer
      cases c.fails with
      | none => exact hupsert
      | some message => rfl
    | _ => cases hw

theorem SameFrame.answer {v : World} (h : SameFrame w v) {o : Op} (ho : o.Of id)
    (hid : id ∈ w.submissions.rows.map Submission.id) (c : Choice) : SameFrame w (answer o c v).2 := by
  obtain ⟨husers, hproblems, hnulls⟩ := users_answer o c v
  refine ⟨husers.trans h.users, hproblems.trans h.problems, hnulls.trans h.nullsFirst, ?_⟩
  rw [← h.ids] at hid
  exact (ids_answer ho hid c).trans h.ids

end Tables

/-! ## Jobs that run at the same time -/

section Jobs

variable {ι : Type}

/-- The jobs; none has taken a step yet. -/
def startJobs (jobs : ι → JobData) (w : World) : Pool ι (fun _ => M JobResult) World where
  tasks i := runJob (jobs i)
  state := w

theorem startJobs_confined {jobs : ι → JobData} {w : World} (i : ι) :
    Confined answer (Op.Of (jobs i).submissionId) (fun _ => True) ((startJobs jobs w).tasks i) :=
  runJob_confined (jobs i)

variable [DecidableEq ι] (jobs : ι → JobData) (w : World)

/-- The jobs after the steps of the schedule. -/
def together (sched : List (ι × Choice)) : Pool ι (fun _ => M JobResult) World :=
  Pool.run (Pool.programs answer) sched (startJobs jobs w)

/-- One job after its own steps of the schedule, when no other job runs. -/
def aloneWith (i : ι) (sched : List (ι × Choice)) : M JobResult × World :=
  Prog.run answer (Pool.own i sched) (runJob (jobs i), w)

/-- Every uuid of the schedule is new when it is used. -/
def FreshIds (sched : List (ι × Choice)) : Prop :=
  Pool.Guarded (Pool.programs answer) (Pool.Admitted Fresh) sched (startJobs jobs w)

/-- What a job has in common with itself when it runs alone: where it is, its submission, its
    results, and the calls it has made, among them the events it has pushed. -/
structure RunsAsAlone (sched : List (ι × Choice)) (i : ι) : Prop where
  point : (together jobs w sched).tasks i = (aloneWith jobs w i sched).1
  submission : (together jobs w sched).state.submissions.find? (jobs i).submissionId =
    (aloneWith jobs w i sched).2.submissions.find? (jobs i).submissionId
  results : (together jobs w sched).state.testResults.rows.filter
      (fun r => r.submissionId = (jobs i).submissionId) =
    (aloneWith jobs w i sched).2.testResults.rows.filter fun r => r.submissionId = (jobs i).submissionId
  calls : Pool.madeBy answer i sched (startJobs jobs w) =
    made answer (Pool.own i sched) (runJob (jobs i), w)

variable {jobs w}

/-- **Main**: jobs of different submissions that run at the same time do what each of them does
    alone, whatever the order of their calls. -/
theorem runJobs_isolated (hdistinct : Function.Injective fun i => (jobs i).submissionId)
    {sched : List (ι × Choice)} (hfresh : FreshIds jobs w sched) (i : ι) : RunsAsAlone jobs w sched i := by
  obtain ⟨hpoint, hsame, hcalls⟩ := separates_answer.run_alone hdistinct i sched startJobs_confined hfresh
    (SameFor.refl (jobs i).submissionId w)
  exact ⟨hpoint.symm, hsame.submission.symm, hsame.results.symm, hcalls.symm⟩

/-- The jobs keep to their submissions and have changed nothing else. -/
structure KeepsFrame (jobs : ι → JobData) (w : World) (pool : Pool ι (fun _ => M JobResult) World) : Prop where
  confined : ∀ i, Confined answer (Op.Of (jobs i).submissionId) (fun _ => True) (pool.tasks i)
  frame : SameFrame w pool.state

theorem KeepsFrame.step {pool : Pool ι (fun _ => M JobResult) World} (h : KeepsFrame jobs w pool)
    (hstored : ∀ i, (w.submissions.find? (jobs i).submissionId).isSome) (x : ι × Choice) :
    KeepsFrame jobs w (Pool.step (Pool.programs answer) x pool) := by
  obtain ⟨i, c⟩ := x
  refine ⟨Pool.confined_step h.confined (i, c), ?_⟩
  show SameFrame w (Prog.step answer c (pool.tasks i, pool.state)).2
  have hi := h.confined i
  cases hp : pool.tasks i with
  | ret a => exact h.frame
  | raise e => exact h.frame
  | call o k =>
    rw [hp] at hi
    exact h.frame.answer hi.1 (Table.find?_isSome_iff.mp (hstored i)) c

theorem together_sameFrame (hstored : ∀ i, (w.submissions.find? (jobs i).submissionId).isSome)
    (sched : List (ι × Choice)) : SameFrame w (together jobs w sched).state := by
  have hstart : KeepsFrame jobs w (startJobs jobs w) := ⟨startJobs_confined, ⟨rfl, rfl, rfl, rfl⟩⟩
  have hend : KeepsFrame jobs w (together jobs w sched) :=
    Pool.run_keeps (fun x _ h => h.step hstored x) sched hstart
  exact hend.frame

/-- What the clients of `SubmissionsService` read is the same. -/
structure SameReads (w w' : World) : Prop where
  findOne : ∀ id, findOne w id = findOne w' id
  findByUser : ∀ userId, findByUser w userId = findByUser w' userId
  findByProblem : ∀ problemId, findByProblem w problemId = findByProblem w' problemId
  findByContest : ∀ contestId, findByContest w contestId = findByContest w' contestId

theorem sameReads_of {w w' : World} (husers : w.users = w'.users) (hproblems : w.problems = w'.problems)
    (hnulls : w.nullsFirst = w'.nullsFirst) (hsubmissions : w.submissions = w'.submissions)
    (hresults : ∀ id, w.testResults.rows.filter (fun r => r.submissionId = id) =
      w'.testResults.rows.filter fun r => r.submissionId = id) : SameReads w w' := by
  have hwith : w.withTestResults = w'.withTestResults := by
    funext s
    rw [World.withTestResults, World.withTestResults, hresults]
  have huser : w.withUser = w'.withUser := by
    funext s
    rw [World.withUser, World.withUser, husers]
  have hproblem : w.withProblem = w'.withProblem := by
    funext s
    rw [World.withProblem, World.withProblem, hproblems]
  have horder : orderBySubmittedAtDesc w = orderBySubmittedAtDesc w' := by
    funext rows
    rw [orderBySubmittedAtDesc, orderBySubmittedAtDesc, hnulls]
  refine ⟨?_, ?_, ?_, ?_⟩ <;> intro id
  · rw [Submissions.findOne, Submissions.findOne, hsubmissions, hwith, huser, hproblem]
  · rw [Submissions.findByUser, Submissions.findByUser, hsubmissions, hwith, hproblem, horder]
  · rw [Submissions.findByProblem, Submissions.findByProblem, hsubmissions, hwith, huser, horder]
  · rw [Submissions.findByContest, Submissions.findByContest, hsubmissions, hwith, huser, hproblem, horder]

/-- The rows of any submission after two schedules that answer each job alike. -/
theorem together_sameFor (hdistinct : Function.Injective fun i => (jobs i).submissionId)
    {sched sched' : List (ι × Choice)} (hfresh : FreshIds jobs w sched) (hfresh' : FreshIds jobs w sched')
    (hown : ∀ i, Pool.own i sched = Pool.own i sched') (id : Id) :
    ∃ v, SameFor id (together jobs w sched).state v ∧ SameFor id (together jobs w sched').state v := by
  by_cases hjob : ∃ i, (jobs i).submissionId = id
  · obtain ⟨i, rfl⟩ := hjob
    exact (separates_answer.run_eq hdistinct startJobs_confined (SameFor.refl _ w) hfresh hfresh' (hown i)).2
  · have hnone : ∀ i, (jobs i).submissionId ≠ id := fun i hi => hjob ⟨i, hi⟩
    exact ⟨w, separates_answer.run_hidden hnone sched startJobs_confined hfresh (SameFor.refl id w),
      separates_answer.run_hidden hnone sched' startJobs_confined hfresh' (SameFor.refl id w)⟩

/-- **Main**: two orders of the calls, in which each job is answered alike, leave the jobs at the
    same points, the same submissions, and the same to read. -/
theorem runJobs_anyOrder (hdistinct : Function.Injective fun i => (jobs i).submissionId)
    (hstored : ∀ i, (w.submissions.find? (jobs i).submissionId).isSome)
    {sched sched' : List (ι × Choice)} (hfresh : FreshIds jobs w sched) (hfresh' : FreshIds jobs w sched')
    (hown : ∀ i, Pool.own i sched = Pool.own i sched') :
    (together jobs w sched).tasks = (together jobs w sched').tasks ∧
      (together jobs w sched).state.submissions = (together jobs w sched').state.submissions ∧
        SameReads (together jobs w sched).state (together jobs w sched').state := by
  have hframe := together_sameFrame hstored sched
  have hframe' := together_sameFrame hstored sched'
  have hsame := together_sameFor hdistinct hfresh hfresh' hown
  have hsubmissions : (together jobs w sched).state.submissions = (together jobs w sched').state.submissions := by
    refine Table.eq_of_find? (hframe.ids.trans hframe'.ids.symm) ?_
    intro id
    obtain ⟨v, hv, hv'⟩ := hsame id
    exact hv.submission.symm.trans hv'.submission
  refine ⟨?_, hsubmissions, ?_⟩
  · funext i
    exact (separates_answer.run_eq hdistinct startJobs_confined (SameFor.refl _ w) hfresh hfresh' (hown i)).1
  · refine sameReads_of (hframe.users.trans hframe'.users.symm) (hframe.problems.trans hframe'.problems.symm)
      (hframe.nullsFirst.trans hframe'.nullsFirst.symm) hsubmissions ?_
    intro id
    obtain ⟨v, hv, hv'⟩ := hsame id
    exact hv.results.symm.trans hv'.results

end Jobs

/-! ## Two submissions -/

/-- Two submissions to one problem. -/
def pendingBoth : World :=
  { pendingOne with
    submissions := pendingOne.submissions.upsert
      { id := "s2", code := "print(41)", language := .python, status := .pending, userId := "u2",
        problemId := "p1", contestId := "c1", submittedAt := some 2000, startedAt := none,
        completedAt := none, score := 0, executionTime := none, memoryUsed := none, user := none,
        problem := none, testResults := none } }

def jobsOfBoth : Bool → JobData
  | false => jobOne
  | true => { submissionId := "s2", code := "print(41)", language := .python, problemId := "p1" }

/-- The second program fails the test. -/
def answeredFor : Bool → Choice
  | false => answered
  | true => { answered with uuid := "r2", result := { answered.result with output := "41" } }

/-- The jobs take turns. -/
def takingTurns : List (Bool × Choice) :=
  (List.replicate 13 [(false, answeredFor false), (true, answeredFor true)]).flatten

/-- One job after the other. -/
def oneByOne : List (Bool × Choice) :=
  List.replicate 13 (true, answeredFor true) ++ List.replicate 13 (false, answeredFor false)

theorem jobsOfBoth_distinct : Function.Injective fun i => (jobsOfBoth i).submissionId := by
  decide

theorem takingTurns_fresh : FreshIds jobsOfBoth pendingBoth takingTurns := by
  unfold FreshIds
  decide +kernel

theorem oneByOne_fresh : FreshIds jobsOfBoth pendingBoth oneByOne := by
  unfold FreshIds
  decide +kernel

/-- The second job fails while the first one is judged. -/
theorem runJobs_isolated_both : RunsAsAlone jobsOfBoth pendingBoth takingTurns true :=
  runJobs_isolated jobsOfBoth_distinct takingTurns_fresh true

/-- Both orders end with the same two verdicts. -/
theorem runJobs_anyOrder_both :
    (together jobsOfBoth pendingBoth takingTurns).tasks = (together jobsOfBoth pendingBoth oneByOne).tasks ∧
      (together jobsOfBoth pendingBoth takingTurns).state.submissions =
        (together jobsOfBoth pendingBoth oneByOne).state.submissions ∧
      SameReads (together jobsOfBoth pendingBoth takingTurns).state
        (together jobsOfBoth pendingBoth oneByOne).state := by
  refine runJobs_anyOrder jobsOfBoth_distinct (by decide) takingTurns_fresh oneByOne_fresh ?_
  rintro (_ | _) <;> rfl

end CodeWeaknesses.Submissions
