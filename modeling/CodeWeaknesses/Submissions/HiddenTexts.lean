import CodeWeaknesses.Graphql.Standings

/-!
# What non-admin reads reveal of hidden tests

Two states that differ only in the texts of hidden test results are read through the
four methods of `SubmissionsService` and the two queries of `StandingsResolver`.
Both sanitizers clear `output` and `expectedOutput` of a hidden result and pass its
`error` on.

Results:
* `sanitizeTestResult_eq_iff`, `toTestResultType_eq_iff`: two hidden results that differ
  in their texts look the same iff their `error` is the same.
* `readsAgree_iff`: **all six reads agree iff the `error` of every hidden result of a
  stored submission is the same in both states.**
* `readsAgree_fails`: a hidden `error` reaches a non-admin caller.
-/

namespace CodeWeaknesses.Submissions

open Lib Graphql

/-! ## Results up to their hidden texts -/

/-- A hidden result without its texts. -/
def mask (r : TestResult) : TestResult :=
  if r.isHidden then { r with output := none, expectedOutput := none, error := none } else r

@[simp] theorem mask_id (r : TestResult) : (mask r).id = r.id := by
  unfold mask
  split_ifs <;> rfl

@[simp] theorem mask_submissionId (r : TestResult) : (mask r).submissionId = r.submissionId := by
  unfold mask
  split_ifs <;> rfl

@[simp] theorem mask_isHidden (r : TestResult) : (mask r).isHidden = r.isHidden := by
  unfold mask
  split_ifs <;> rfl

/-- Both sanitizers look the same on `r` and `r'` iff a hidden `error` is the same. -/
theorem sanitizeTestResult_eq_iff {r r' : TestResult} (h : mask r = mask r') :
    sanitizeTestResult r = sanitizeTestResult r' ↔ (r.isHidden = true → r.error = r'.error) := by
  have hhidden : r.isHidden = r'.isHidden := by rw [← mask_isHidden r, h, mask_isHidden]
  obtain ⟨id, sid, tid, passed, hidden, out, exp, err, time, mem⟩ := r
  obtain ⟨id', sid', tid', passed', hidden', out', exp', err', time', mem'⟩ := r'
  cases hhidden
  cases hidden <;> simp_all [mask, sanitizeTestResult]

theorem toTestResultType_eq_iff {r r' : TestResult} (h : mask r = mask r') :
    toTestResultType r false = toTestResultType r' false ↔
      (r.isHidden = true → r.error = r'.error) := by
  have hhidden : r.isHidden = r'.isHidden := by rw [← mask_isHidden r, h, mask_isHidden]
  obtain ⟨id, sid, tid, passed, hidden, out, exp, err, time, mem⟩ := r
  obtain ⟨id', sid', tid', passed', hidden', out', exp', err', time', mem'⟩ := r'
  cases hhidden
  cases hidden <;> simp_all [mask, toTestResultType]

/-- Two databases that differ only in the texts of hidden test results. -/
structure SameUpToHidden (w w' : World) : Prop where
  users : w'.users = w.users
  problems : w'.problems = w.problems
  submissions : w'.submissions = w.submissions
  nullsFirst : w'.nullsFirst = w.nullsFirst
  results : w.testResults.rows.map mask = w'.testResults.rows.map mask

/-- Every read of a caller that is not an admin returns the same in both states. -/
structure ReadsAgree (w w' : World) : Prop where
  findOne : ∀ id, findOne w id = findOne w' id
  findByUser : ∀ userId, findByUser w userId = findByUser w' userId
  findByProblem : ∀ problemId, findByProblem w problemId = findByProblem w' problemId
  findByContest : ∀ contestId, findByContest w contestId = findByContest w' contestId
  mySubmissions : ∀ contestId caller, caller.role ≠ .admin →
    mySubmissions w contestId caller = mySubmissions w' contestId caller
  submissionDetail : ∀ id caller, caller.role ≠ .admin →
    submissionDetail w id caller = submissionDetail w' id caller

/-- The `error` of every hidden result of a stored submission is the same. -/
def SameErrors (w w' : World) : Prop :=
  ∀ r ∈ w.testResults.rows, ∀ r' ∈ w'.testResults.rows, r.id = r'.id → r.isHidden = true →
    (w.submissions.find? r.submissionId).isSome → r.error = r'.error

/-! ## The results of one submission -/

/-- The stored results of a submission. -/
def resultsOf (w : World) (id : Id) : List TestResult :=
  w.testResults.rows.filter fun r => r.submissionId = id

section TwoStates

variable {w w' : World}

theorem SameUpToHidden.map_id (h : SameUpToHidden w w') :
    w.testResults.rows.map TestResult.id = w'.testResults.rows.map TestResult.id := by
  have hids := congrArg (List.map TestResult.id) h.results
  simpa [List.map_map, Function.comp_def] using hids

/-- Results with one id differ at most in hidden texts. -/
theorem SameUpToHidden.mask_eq (h : SameUpToHidden w w') {r r' : TestResult}
    (hr : r ∈ w.testResults.rows) (hr' : r' ∈ w'.testResults.rows) (hid : r.id = r'.id) :
    mask r = mask r' :=
  (map_eq_map_iff_of_keys mask h.map_id w'.testResults.nodup).mp h.results r hr r' hr' hid

theorem map_id_resultsOf (h : SameUpToHidden w w') (id : Id) :
    (resultsOf w id).map TestResult.id = (resultsOf w' id).map TestResult.id := by
  have hfilter : ∀ rows : List TestResult, (rows.filter fun r => r.submissionId = id).map TestResult.id =
      ((rows.map mask).filter fun r => r.submissionId = id).map TestResult.id := by
    intro rows
    rw [List.filter_map, List.map_map]
    simp [Function.comp_def]
  rw [resultsOf, hfilter, h.results, ← hfilter]
  rfl

/-- A view of results that differs on masked-equal results only by a hidden `error` is
    the same on the results of a submission iff their hidden errors are. -/
theorem map_resultsOf_eq_iff {β : Type} (view : TestResult → β)
    (hview : ∀ r r', mask r = mask r' → (view r = view r' ↔ (r.isHidden = true → r.error = r'.error)))
    (h : SameUpToHidden w w') (id : Id) :
    (resultsOf w id).map view = (resultsOf w' id).map view ↔
      ∀ r ∈ w.testResults.rows, ∀ r' ∈ w'.testResults.rows, r.id = r'.id → r.submissionId = id →
        r.isHidden = true → r.error = r'.error := by
  have hnodup : ((resultsOf w' id).map TestResult.id).Nodup :=
    w'.testResults.nodup.sublist (List.filter_sublist.map _)
  rw [map_eq_map_iff_of_keys view (map_id_resultsOf h id) hnodup]
  simp only [resultsOf, List.mem_filter, decide_eq_true_eq]
  constructor
  · intro hall r hr r' hr' hid hsub
    have hmask := h.mask_eq hr hr' hid
    have hsub' : r'.submissionId = id := by rw [← mask_submissionId, ← hmask, mask_submissionId, hsub]
    exact (hview r r' hmask).mp (hall r ⟨hr, hsub⟩ r' ⟨hr', hsub'⟩ hid)
  · rintro hall r ⟨hr, hsub⟩ r' ⟨hr', _⟩ hid
    exact (hview r r' (h.mask_eq hr hr' hid)).mpr (hall r hr r' hr' hid hsub)

/-! ## The reads -/

theorem sanitize_withTestResults (w : World) (s : Submission) :
    sanitizeSubmissionResults (w.withTestResults s) =
      { s with testResults := some ((resultsOf w s.id).map sanitizeTestResult) } := rfl

/-- The sanitized rows of a stored submission are the same when the hidden errors are. -/
theorem sanitize_eq (h : SameUpToHidden w w') (hsame : SameErrors w w') {s : Submission}
    (hs : (w.submissions.find? s.id).isSome) :
    sanitizeSubmissionResults (w.withTestResults s) = sanitizeSubmissionResults (w'.withTestResults s) := by
  have hresults : (resultsOf w s.id).map sanitizeTestResult = (resultsOf w' s.id).map sanitizeTestResult := by
    rw [map_resultsOf_eq_iff _ (fun _ _ => sanitizeTestResult_eq_iff) h]
    intro r hr r' hr' hid hsub hhidden
    exact hsame r hr r' hr' hid hhidden (hsub ▸ hs)
  rw [sanitize_withTestResults, sanitize_withTestResults, hresults]

/-- A list read through the sanitizer is the same when the hidden errors are. -/
theorem map_sanitize_eq (h : SameUpToHidden w w') (hsame : SameErrors w w') {rows : List Submission}
    {load : Submission → Submission} (hrows : ∀ s ∈ rows, s ∈ w.submissions.rows)
    (hload : ∀ s, (load s).id = s.id) :
    (rows.map fun s => sanitizeSubmissionResults (w.withTestResults (load s))) =
      rows.map fun s => sanitizeSubmissionResults (w'.withTestResults (load s)) := by
  apply List.map_congr_left
  intro s hs
  apply sanitize_eq h hsame
  rw [hload, Table.find?_key (hrows s hs)]
  rfl

theorem orderBySubmittedAtDesc_eq (h : SameUpToHidden w w') :
    orderBySubmittedAtDesc w' = orderBySubmittedAtDesc w := by
  unfold orderBySubmittedAtDesc
  rw [h.nullsFirst]

theorem mem_orderBySubmittedAtDesc {rows : List Submission} {p : Submission → Bool} {s : Submission}
    (hs : s ∈ orderBySubmittedAtDesc w (rows.filter p)) : s ∈ rows :=
  (List.mem_filter.mp ((sortBy_perm _ _).mem_iff.mp hs)).1

theorem withUser_eq (h : SameUpToHidden w w') : w'.withUser = w.withUser := by
  unfold World.withUser
  rw [h.users]

theorem withProblem_eq (h : SameUpToHidden w w') : w'.withProblem = w.withProblem := by
  unfold World.withProblem
  rw [h.problems]

theorem findOne_eq (h : SameUpToHidden w w') (hsame : SameErrors w w') (id : Id) :
    findOne w id = findOne w' id := by
  unfold findOne
  rw [h.submissions, withUser_eq h, withProblem_eq h]
  cases hfind : w.submissions.find? id with
  | none => rfl
  | some s =>
    have hid : s.id = id := (Table.find?_eq_some_iff.mp hfind).2
    simp only [Except.ok.injEq]
    apply sanitize_eq h hsame
    show (w.submissions.find? s.id).isSome
    rw [hid, hfind]
    rfl

/-- `submissionDetail` agrees on a stored submission iff its hidden errors do. -/
theorem submissionDetail_eq (h : SameUpToHidden w w') (hsame : SameErrors w w') (id : Id)
    {caller : JwtUser} (hcaller : caller.role ≠ .admin) :
    submissionDetail w id caller = submissionDetail w' id caller := by
  unfold submissionDetail
  rw [h.submissions]
  cases hfind : w.submissions.find? id with
  | none => rfl
  | some s =>
    have hid : s.id = id := (Table.find?_eq_some_iff.mp hfind).2
    have hresults : (resultsOf w s.id).map (fun tr => toTestResultType tr false) =
        (resultsOf w' s.id).map fun tr => toTestResultType tr false := by
      rw [map_resultsOf_eq_iff _ (fun _ _ => toTestResultType_eq_iff) h]
      intro r hr r' hr' hrid hsub hhidden
      refine hsame r hr r' hr' hrid hhidden ?_
      rw [hsub, hid, hfind]
      rfl
    have hview : toSubmissionType (w.withTestResults s) false true =
        toSubmissionType (w'.withTestResults s) false true := by
      rw [toSubmissionType, toSubmissionType]
      exact congrArg _ (congrArg some hresults)
    simp only [hcaller, decide_false, hview]
    rfl

/-- Equal hidden errors make all reads agree. -/
theorem readsAgree_of_sameErrors (h : SameUpToHidden w w') (hsame : SameErrors w w') : ReadsAgree w w' where
  findOne := findOne_eq h hsame
  findByUser userId := by
    unfold findByUser
    rw [h.submissions, orderBySubmittedAtDesc_eq h, withProblem_eq h]
    exact map_sanitize_eq h hsame (fun s hs => mem_orderBySubmittedAtDesc hs) fun _ => rfl
  findByProblem problemId := by
    unfold findByProblem
    rw [h.submissions, orderBySubmittedAtDesc_eq h, withUser_eq h]
    exact map_sanitize_eq h hsame (fun s hs => mem_orderBySubmittedAtDesc hs) fun _ => rfl
  findByContest contestId := by
    unfold findByContest
    rw [h.submissions, orderBySubmittedAtDesc_eq h, withUser_eq h, withProblem_eq h]
    exact map_sanitize_eq h hsame (fun s hs => mem_orderBySubmittedAtDesc hs) fun s =>
      show (w.withProblem (w.withUser s)).id = s.id from rfl
  mySubmissions contestId caller _ := by
    unfold mySubmissions
    rw [h.submissions, orderBySubmittedAtDesc_eq h]
  submissionDetail id caller hcaller := submissionDetail_eq h hsame id hcaller

/-- `findOne` alone shows every hidden `error` of a stored submission. -/
theorem sameErrors_of_findOne (h : SameUpToHidden w w')
    (hfind : ∀ id, findOne w id = findOne w' id) : SameErrors w w' := by
  intro r hr r' hr' hid hhidden hstored
  obtain ⟨s, hs⟩ := Option.isSome_iff_exists.mp hstored
  have hsid : s.id = r.submissionId := (Table.find?_eq_some_iff.mp hs).2
  have hread := hfind r.submissionId
  unfold findOne at hread
  rw [h.submissions, hs] at hread
  simp only [Except.ok.injEq, sanitize_withTestResults, Submission.mk.injEq, Option.some.injEq] at hread
  have hresults := hread.2.2.2.2.2.2.2.2.2.2.2.2.2.2.2
  exact (map_resultsOf_eq_iff _ (fun _ _ => sanitizeTestResult_eq_iff) h s.id).mp hresults
    r hr r' hr' hid hsid.symm hhidden

/-- **Main**: for two states that differ only in the texts of hidden results, all reads
    agree iff the `error` of every hidden result of a stored submission is the same. -/
theorem readsAgree_iff (h : SameUpToHidden w w') : ReadsAgree w w' ↔ SameErrors w w' :=
  ⟨fun hreads => sameErrors_of_findOne h hreads.findOne, readsAgree_of_sameErrors h⟩

end TwoStates

/-- A database with one judged submission and one hidden result with the given texts. -/
def oneHidden (output error : Option String) : World where
  users := .empty
  problems := .empty
  submissions := Table.empty.upsert
    { id := "s1", code := "print(input())", language := .python, status := .wrong, userId := "u1",
      problemId := "p1", contestId := "c1", submittedAt := some 1000, startedAt := some 2000,
      completedAt := some 3000, score := 0, executionTime := some 10, memoryUsed := some 20,
      user := none, problem := none, testResults := none }
  testCases := .empty
  testResults := Table.empty.upsert
    { id := "r1", submissionId := "s1", testCaseId := "t1", passed := false, isHidden := true,
      output := output, expectedOutput := some "42", error := error, executionTime := some 10,
      memoryUsed := some 20 }
  sse := .init
  broadcasts := []
  nullsFirst := false

/-- The output of a hidden test stays unknown. -/
theorem readsAgree_output : ReadsAgree (oneHidden (some "41") none) (oneHidden (some "40") none) := by
  have hsame : SameUpToHidden (oneHidden (some "41") none) (oneHidden (some "40") none) :=
    ⟨rfl, rfl, rfl, rfl, rfl⟩
  refine (readsAgree_iff hsame).mpr ?_
  have hnone : ∀ r ∈ (oneHidden (some "41") none).testResults.rows, r.error = none := by decide
  have hnone' : ∀ r ∈ (oneHidden (some "40") none).testResults.rows, r.error = none := by decide
  intro r hr r' hr' _ _ _
  rw [hnone r hr, hnone' r' hr']

/-- The error of a hidden test, here a trace of its input, does not. -/
theorem readsAgree_fails :
    SameUpToHidden (oneHidden none (some "KeyError: 7")) (oneHidden none (some "KeyError: 8")) ∧
      ¬ ReadsAgree (oneHidden none (some "KeyError: 7")) (oneHidden none (some "KeyError: 8")) := by
  refine ⟨⟨rfl, rfl, rfl, rfl, rfl⟩, ?_⟩
  intro h
  have hdetail := h.submissionDetail "s1" { userId := "u1", name := "alice", role := .user } (by decide)
  have herror := congrArg (fun r => r.toOption.bind fun t => t.testResults.bind fun rs =>
    rs.head?.bind fun tr => tr.error) hdetail
  revert herror
  decide

end CodeWeaknesses.Submissions
