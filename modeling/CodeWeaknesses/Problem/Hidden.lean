import CodeWeaknesses.Lib.Isolation
import CodeWeaknesses.Problem.Service

/-!
# Hidden test cases

What the responses of `ProblemController` tell about hidden test cases, and who changes the
problems and test cases. Any number of requests run at the same time.

The requests that list all test cases of a problem, add a hidden one or delete one are *secret*.
The others should not depend on hidden test cases. The ids of hidden test cases are a set `H`.

Results:
* `separates_hidden`: a call that is not secret is answered, and changes the visible rows, as if
  there were no hidden ones.
* `hidden_noninterference`: **requests that are not secret are answered as if no secret request had
  been made and the hidden test cases were other ones.**
* `separates_editors`: a call that does not write.
* `strangers_purged`: **the requests of callers without an editor's token change nothing, whatever
  they ask for.**
-/

namespace CodeWeaknesses.Problems

open Lib Lib.Prog Auth

/-! ## What is hidden -/

/-- Hidden test cases have the ids in `H`, the visible ones have others. -/
def ByIds (H : Id → Bool) (w : World) : Prop := ∀ row ∈ w.testCases.rows, row.isHidden = H row.id

/-- The states differ in hidden test cases only. -/
structure SameVisible (H : Id → Bool) (w w' : World) : Prop where
  contests : w.contests = w'.contests
  problems : w.problems = w'.problems
  visible : w.testCases.rows.filter (fun t => !t.isHidden) = w'.testCases.rows.filter fun t => !t.isHidden
  byIds : ByIds H w
  byIds' : ByIds H w'

/-- Whether a test case is to be hidden. -/
def NewTestCase.hides (testCase : NewTestCase) : Bool := testCase.isHidden.join.getD false

/-- The calls of secret requests; `true` are the secret ones. -/
def Op.Of (H : Id → Bool) : Bool → Op → Prop
  | true, .verify _ => True
  | true, .findTestCases _ => True
  | true, .insertTestCase testCase => testCase.hides = true
  | true, .deleteTestCase testCaseId => H testCaseId = true
  | true, _ => False
  | false, .findTestCases _ => False
  | false, .insertTestCase testCase => testCase.hides = false
  | false, .deleteTestCase testCaseId => H testCaseId = false
  | false, _ => True

/-- The uuid of a new test case is in `H` iff it is hidden. -/
def IdsOf (H : Id → Bool) : Op → Choice → World → Prop
  | .insertTestCase testCase, c, _ => H c.uuid = testCase.hides
  | _, _, _ => True

instance (H : Id → Bool) (o : Op) (c : Choice) (w : World) : Decidable (IdsOf H o c w) :=
  match o with
  | .insertTestCase _ => inferInstanceAs (Decidable (_ = _))
  | .verify _ | .find | .findOne _ | .findByContest _ | .insertProblem _ | .saveProblem _ | .softDelete _
  | .restore _ | .findTestCases _ | .findVisibleTestCases _ | .deleteTestCase _ => inferInstanceAs (Decidable True)

/-- A request that reads or writes hidden test cases. -/
def Secret (H : Id → Bool) : Request → Bool
  | .addTestCase _ dto => dto.isHidden.join.getD false
  | .getTestCases _ => true
  | .deleteTestCase _ testCaseId => H testCaseId
  | _ => false

section Calls

variable {H : Id → Bool} {issued : List JwtPayload} {w w' : World} {c : Choice}

theorem visible_delete (testCaseId : Id) :
    (w.testCases.delete testCaseId).rows.filter (fun t => !t.isHidden) =
      (w.testCases.rows.filter fun t => !t.isHidden).filter fun t => t.id ≠ testCaseId :=
  List.filter_comm ..

theorem ByIds.delete (h : ByIds H w) (testCaseId : Id) :
    ByIds H { w with testCases := w.testCases.delete testCaseId } :=
  fun row hrow => h row (List.mem_of_mem_filter hrow)

/-- Visible rows are found among the visible ones. -/
theorem find?_eq_none_of_visible (h : ByIds H w) {id : Id} (hid : H id = false) :
    w.testCases.find? id = none ↔ ∀ t ∈ w.testCases.rows.filter (fun t => !t.isHidden), t.id ≠ id := by
  rw [Table.find?_eq_none_iff]
  constructor
  · exact fun hall t ht => hall t (List.mem_of_mem_filter ht)
  · intro hall t ht htid
    have hvisible : t.isHidden = false := by rw [h t ht, htid, hid]
    exact hall t (List.mem_filter.mpr ⟨ht, by rw [hvisible]; rfl⟩) htid

theorem SameVisible.find?_eq_none_iff (h : SameVisible H w w') {id : Id} (hid : H id = false) :
    w.testCases.find? id = none ↔ w'.testCases.find? id = none := by
  rw [find?_eq_none_of_visible h.byIds hid, find?_eq_none_of_visible h.byIds' hid, h.visible]

/-- The row of a test case with the given values. -/
def NewTestCase.row (testCase : NewTestCase) (uuid : Id) (isHidden : Bool) (orderIndex : ℕ) : TestCase :=
  { id := uuid, problemId := testCase.problemId, input := testCase.input,
    expectedOutput := testCase.expectedOutput, isHidden := isHidden, orderIndex := orderIndex }

/-- An insert that is refused for its values, in any state, or that puts in its row if the problem
    is stored and the uuid is free. -/
theorem insertTestCase_cases (testCase : NewTestCase) (uuid : Id) :
    (∃ e, ∀ w : World, w.insertTestCase testCase uuid = (.error e, w)) ∨
      ∃ orderIndex, ∀ w : World, w.insertTestCase testCase uuid =
        if w.problems.find? testCase.problemId = none then
          (.error (.error "insert violates foreign key constraint"), w)
        else if w.testCases.find? uuid ≠ none then
          (.error (.error "duplicate key value violates unique constraint"), w)
        else (.ok (testCase.row uuid testCase.hides orderIndex),
          { w with testCases := w.testCases.upsert (testCase.row uuid testCase.hides orderIndex) }) := by
  have hhides : ∀ isHidden, testCase.isHidden.getD (some false) = some isHidden → testCase.hides = isHidden := by
    intro isHidden h
    unfold NewTestCase.hides
    rcases hh : testCase.isHidden with _ | _ | b <;> rw [hh] at h <;> cases h <;> rfl
  unfold World.insertTestCase
  cases hhidden : testCase.isHidden.getD (some false) with
  | none => exact .inl ⟨_, fun w => rfl⟩
  | some isHidden =>
    rw [hhides isHidden hhidden]
    cases horder : testCase.orderIndex.getD (some 0) with
    | none => exact .inl ⟨_, fun w => rfl⟩
    | some orderIndex =>
      cases hint : intColumn? orderIndex with
      | none => exact .inl ⟨.error "invalid value for type integer", fun w => by simp only [hint]⟩
      | some n => exact .inr ⟨n, fun w => by simp only [hint]; rfl⟩

/-- A visible row is put in on both sides. -/
theorem SameVisible.upsert (h : SameVisible H w w') {row : TestCase} (hvisible : row.isHidden = false)
    (hid : H row.id = false) (hnone : w.testCases.find? row.id = none) :
    SameVisible H { w with testCases := w.testCases.upsert row } { w' with testCases := w'.testCases.upsert row } := by
  have hnone' := (h.find?_eq_none_iff hid).mp hnone
  have hbyIds : ∀ {v : World}, ByIds H v → ByIds H { v with testCases := v.testCases.upsert row } := by
    intro v hv t ht
    rcases Table.mem_upsert.mp ht with rfl | ⟨ht, _⟩
    · rw [hvisible, hid]
    · exact hv t ht
  refine ⟨h.contests, h.problems, ?_, hbyIds h.byIds, hbyIds h.byIds'⟩
  show (w.testCases.upsert row).rows.filter _ = (w'.testCases.upsert row).rows.filter _
  rw [Table.rows_upsert_of_find?_eq_none hnone, Table.rows_upsert_of_find?_eq_none hnone', List.filter_append,
    List.filter_append, h.visible]

/-- A hidden row is put in on one side. -/
theorem SameVisible.upsert_hidden (h : SameVisible H w w') {row : TestCase} (hhidden : row.isHidden = true)
    (hid : H row.id = true) (hnone : w.testCases.find? row.id = none) :
    SameVisible H { w with testCases := w.testCases.upsert row } w' := by
  refine ⟨h.contests, h.problems, ?_, ?_, h.byIds'⟩
  · show (w.testCases.upsert row).rows.filter _ = _
    rw [Table.rows_upsert_of_find?_eq_none hnone, List.filter_append, ← h.visible]
    simp [hhidden]
  · intro t ht
    rcases Table.mem_upsert.mp ht with rfl | ⟨ht, _⟩
    · rw [hhidden, hid]
    · exact h.byIds t ht

/-- The states of the visible requests; nothing is said of what secret ones see. -/
def Sim (H : Id → Bool) : Bool → World → World → Prop
  | false, w, w' => SameVisible H w w'
  | true, _, _ => False

/-- A query of visible rows. -/
theorem SameVisible.filter_eq (h : SameVisible H w w') (p : TestCase → Prop) [DecidablePred p] :
    w.testCases.rows.filter (fun t => p t ∧ t.isHidden = false) =
      w'.testCases.rows.filter fun t => p t ∧ t.isHidden = false := by
  have hsplit : ∀ rows : List TestCase, rows.filter (fun t => p t ∧ t.isHidden = false) =
      (rows.filter fun t => !t.isHidden).filter fun t => p t := by
    intro rows
    rw [List.filter_filter]
    refine List.filter_congr fun t _ => ?_
    cases t.isHidden <;> simp
  rw [hsplit, hsplit, h.visible]

/-- The same change of the problems on both sides. -/
theorem SameVisible.withProblems (h : SameVisible H w w') {problems : Table ProblemRow Id ProblemRow.key} :
    SameVisible H { w with problems := problems } { w' with problems := problems } :=
  ⟨h.contests, rfl, h.visible, h.byIds, h.byIds'⟩

theorem SameVisible.setDeletedAt (h : SameVisible H w w') (id : Id) (deletedAt : Option Date) :
    SameVisible H (w.setDeletedAt id deletedAt) (w'.setDeletedAt id deletedAt) := by
  unfold World.setDeletedAt
  rw [← h.problems]
  cases w.problems.find? id with
  | none => exact h
  | some row => exact h.withProblems

theorem SameVisible.insertTestCase (h : SameVisible H w w') {testCase : NewTestCase} {uuid : Id}
    (hvisible : testCase.hides = false) (hid : H uuid = false) :
    (w'.insertTestCase testCase uuid).1 = (w.insertTestCase testCase uuid).1 ∧
      SameVisible H (w.insertTestCase testCase uuid).2 (w'.insertTestCase testCase uuid).2 := by
  rcases insertTestCase_cases testCase uuid with ⟨e, herror⟩ | ⟨orderIndex, hrow⟩
  · rw [herror, herror]
    exact ⟨rfl, h⟩
  · rw [hrow, hrow]
    have hsame : w'.problems.find? testCase.problemId = w.problems.find? testCase.problemId := by rw [h.problems]
    by_cases hproblem : w.problems.find? testCase.problemId = none
    · rw [if_pos hproblem, if_pos (hsame.trans hproblem)]
      exact ⟨rfl, h⟩
    · rw [if_neg hproblem, if_neg (hsame.trans_ne hproblem)]
      by_cases hnone : w.testCases.find? uuid = none
      · have hnone' := (h.find?_eq_none_iff hid).mp hnone
        rw [if_neg (not_not.mpr hnone), if_neg (not_not.mpr hnone')]
        exact ⟨rfl, h.upsert hvisible hid hnone⟩
      · have hsome' : ¬ w'.testCases.find? uuid = none := fun hnone' => hnone ((h.find?_eq_none_iff hid).mpr hnone')
        rw [if_pos hnone, if_pos hsome']
        exact ⟨rfl, h⟩

theorem SameVisible.insertProblem (h : SameVisible H w w') (problem : NewProblem) (uuid : Id) :
    (w'.insertProblem problem uuid).1 = (w.insertProblem problem uuid).1 ∧
      SameVisible H (w.insertProblem problem uuid).2 (w'.insertProblem problem uuid).2 := by
  obtain ⟨contests, problems, testCases⟩ := w
  obtain ⟨contests', problems', testCases'⟩ := w'
  obtain rfl : contests = contests' := h.contests
  obtain rfl : problems = problems' := h.problems
  unfold World.insertProblem
  cases intColumn? problem.timeLimitMs with
  | none => exact ⟨rfl, h⟩
  | some timeLimitMs =>
    simp only
    split_ifs
    · exact ⟨rfl, h⟩
    · exact ⟨rfl, h⟩
    · exact ⟨rfl, h.withProblems⟩

/-- A call that is not secret, answered without a throw. -/
theorem SameVisible.answerOk (h : SameVisible H w w') {o : Op} (ho : o.Of H false) (hc : IdsOf H o c w) :
    (answerOk issued c w' o).1 = (answerOk issued c w o).1 ∧
      SameVisible H (answerOk issued c w o).2 (answerOk issued c w' o).2 := by
  have hproblems := h.problems
  cases o with
  | verify bearer => exact ⟨rfl, h⟩
  | find => exact ⟨by simp only [Problems.answerOk, hproblems], h⟩
  | findOne id => exact ⟨by simp only [Problems.answerOk, hproblems], h⟩
  | findByContest contestId => exact ⟨by simp only [Problems.answerOk, hproblems, h.contests], h⟩
  | insertProblem problem =>
    exact h.insertProblem problem c.uuid
  | saveProblem problem =>
    show (w'.saveProblem problem).1 = (w.saveProblem problem).1 ∧
      SameVisible H (w.saveProblem problem).2 (w'.saveProblem problem).2
    unfold World.saveProblem
    cases problem.row? with
    | none => exact ⟨rfl, h⟩
    | some row =>
      refine ⟨rfl, ?_⟩
      simp only [← hproblems]
      exact h.withProblems
  | softDelete id => exact ⟨rfl, h.setDeletedAt id (some c.now)⟩
  | restore id => exact ⟨by simp only [Problems.answerOk, hproblems], h.setDeletedAt id none⟩
  | insertTestCase testCase => exact h.insertTestCase ho (Eq.trans hc ho)
  | findTestCases problemId => cases ho
  | findVisibleTestCases problemId =>
    exact ⟨by simp only [Problems.answerOk, h.filter_eq fun t => t.problemId = problemId], h⟩
  | deleteTestCase testCaseId =>
    refine ⟨rfl, h.contests, hproblems, ?_, h.byIds.delete testCaseId, h.byIds'.delete testCaseId⟩
    exact (visible_delete testCaseId).trans ((congrArg _ h.visible).trans (visible_delete testCaseId).symm)

/-- A call of a secret request, answered without a throw. -/
theorem SameVisible.secret (h : SameVisible H w w') {o : Op} (ho : o.Of H true) (hc : IdsOf H o c w) :
    SameVisible H (Problems.answerOk issued c w o).2 w' := by
  cases o with
  | verify bearer => exact h
  | findTestCases problemId => exact h
  | insertTestCase testCase =>
    show SameVisible H (w.insertTestCase testCase c.uuid).2 w'
    rcases insertTestCase_cases testCase c.uuid with ⟨e, herror⟩ | ⟨orderIndex, hrow⟩
    · rw [herror]
      exact h
    · rw [hrow]
      split_ifs with hproblem hsome
      · exact h
      · exact h
      · exact h.upsert_hidden ho (Eq.trans hc ho) (not_not.mp hsome)
  | deleteTestCase testCaseId =>
    refine ⟨h.contests, h.problems, ?_, h.byIds.delete testCaseId, h.byIds'⟩
    refine (visible_delete testCaseId).trans (Eq.trans (List.filter_eq_self.mpr fun t ht => ?_) h.visible)
    obtain ⟨hmem, hvisible⟩ := List.mem_filter.mp ht
    refine decide_eq_true ?_
    rintro rfl
    have hhidden : H t.id = true := ho
    rw [h.byIds t hmem, hhidden] at hvisible
    cases hvisible
  | _ => cases ho

/-- Calls that are not secret cannot tell whether there are secret ones. -/
theorem separates_hidden : Pool.Separates (answer issued) (fun k => Op.Of H k) (IdsOf H) (Sim H) where
  answers := by
    intro k o c w w' ho hc hsim
    cases k with
    | true => exact hsim.elim
    | false =>
      have hok : (answerOk issued c w' o).1 = (answerOk issued c w o).1 ∧
          SameVisible H (answerOk issued c w o).2 (answerOk issued c w' o).2 := SameVisible.answerOk hsim ho hc
      unfold answer
      cases c.fails with
      | none => exact hok
      | some message =>
        simp only
        split_ifs
        · exact ⟨rfl, hsim⟩
        · exact hok
  hides := by
    intro k k' o c w w' hne ho hc hsim
    cases k with
    | true => exact hsim.elim
    | false =>
      obtain rfl : k' = true := by simpa using hne
      have hok : SameVisible H (answerOk issued c w o).2 w' := SameVisible.secret hsim ho hc
      unfold answer
      cases c.fails with
      | none => exact hok
      | some message =>
        simp only
        split_ifs
        · exact hsim
        · exact hok

end Calls

/-! ## The calls of a request -/

section Requests

variable {ok : Op → Prop}

theorem onlyCalls_activate (hverify : ∀ bearer, ok (.verify bearer)) (roles : Option (List Role))
    (bearer : Option JwtPayload) : ∀ (guards : List Guard) (user : Option JwtUser),
      OnlyCalls ok (activate roles bearer guards user)
  | [], _ => trivial
  | .jwt :: guards, _ => by
    refine .bind (onlyCalls_await (hverify bearer)) fun found => ?_
    cases found with
    | none => trivial
    | some payload => exact onlyCalls_activate hverify roles bearer guards _
  | .roles :: guards, user => by
    unfold activate
    split_ifs
    · exact onlyCalls_activate hverify roles bearer guards user
    · trivial

theorem onlyCalls_program (isUUID : String → Bool) {x : Call} (hverify : ∀ bearer, ok (.verify bearer))
    (hhandler : OnlyCalls ok (handler x.request)) : OnlyCalls ok (program isUUID x) := by
  refine .bind (onlyCalls_activate hverify _ _ _ _) fun _ => .bind ?_ fun _ => hhandler
  unfold check
  split_ifs <;> trivial

theorem onlyCalls_findOne {id : Id} (hfind : ok (.findOne id)) : OnlyCalls ok (findOne id) := by
  refine .bind (onlyCalls_await hfind) fun found => ?_
  cases found <;> trivial

/-- A handler makes its own calls only. -/
theorem onlyCalls_handler (H : Id → Bool) (request : Request) :
    OnlyCalls (Op.Of H (Secret H request)) (handler request) := by
  have hone : ∀ {o : Op} {f : Res o → Outcome} {ok : Op → Prop}, ok o →
      OnlyCalls ok (await o >>= fun a => pure (f a)) := fun ho => .bind (onlyCalls_await ho) fun _ => trivial
  cases request with
  | create dto => exact hone trivial
  | findAll => exact hone trivial
  | findOne id => exact .bind (onlyCalls_findOne trivial) fun _ => trivial
  | findByContest contestId => exact hone trivial
  | update id dto =>
    exact .bind (.bind (onlyCalls_findOne trivial) fun _ => onlyCalls_await trivial) fun _ => trivial
  | remove id => exact .bind (.bind (onlyCalls_findOne trivial) fun _ => onlyCalls_await trivial) fun _ => trivial
  | restore id =>
    refine .bind (.bind (onlyCalls_await trivial) fun affected => ?_) fun _ => trivial
    split_ifs <;> trivial
  | addTestCase problemId dto =>
    refine hone ?_
    show Op.Of H (dto.isHidden.join.getD false) _
    cases hhidden : dto.isHidden.join.getD false <;> exact hhidden
  | getTestCases problemId => exact hone trivial
  | getVisibleTestCases problemId => exact hone trivial
  | deleteTestCase problemId testCaseId =>
    refine hone ?_
    show Op.Of H (H testCaseId) _
    cases hhidden : H testCaseId <;> exact hhidden

theorem program_confined (isUUID : String → Bool) (issued : List JwtPayload) (H : Id → Bool) (x : Call) :
    Confined (answer issued) (Op.Of H (Secret H x.request)) (fun _ => True) (program isUUID x) := by
  refine (onlyCalls_program isUUID (fun bearer => ?_) (onlyCalls_handler H x.request)).confined
  cases Secret H x.request <;> trivial

end Requests

/-! ## Requests at the same time -/

section Runs

variable {ι : Type} (isUUID : String → Bool) (issued : List JwtPayload) (requests : ι → Call)

/-- The requests; none has taken a step yet. -/
def startRequests (w : World) : Pool ι (fun _ => M Outcome) World where
  tasks i := program isUUID (requests i)
  state := w

/-- The requests after the steps of the schedule. -/
def served [DecidableEq ι] (w : World) (sched : List (ι × Choice)) : Pool ι (fun _ => M Outcome) World :=
  Pool.run (Pool.programs (answer issued)) sched (startRequests isUUID requests w)

variable [DecidableEq ι] {isUUID issued requests}

/-- **Main**: whatever the order of their calls, the requests that are not secret come to the same
    points, with the same responses, when no secret request is made and the hidden test cases are
    other ones. -/
theorem hidden_noninterference {H : Id → Bool} {w w' : World} (hsame : SameVisible H w w')
    {sched : List (ι × Choice)}
    (hids : Pool.Guarded (Pool.programs (answer issued)) (Pool.Admitted (IdsOf H)) sched
      (startRequests isUUID requests w)) :
    let others := sched.filter fun x => Secret H (requests x.1).request = false
    SameVisible H (served isUUID issued requests w sched).state (served isUUID issued requests w' others).state ∧
      ∀ i, Secret H (requests i).request = false →
        (served isUUID issued requests w' others).tasks i = (served isUUID issued requests w sched).tasks i := by
  have hconf : ∀ i, Confined (answer issued) (Op.Of H (Secret H (requests i).request)) (fun _ => True)
      ((startRequests isUUID requests w).tasks i) := fun i => program_confined isUUID issued H (requests i)
  have hsim : Sim H false (startRequests isUUID requests w).state (startRequests isUUID requests w').state := hsame
  exact separates_hidden.run_purged sched hconf hids hsim fun _ _ => rfl

end Runs

/-! ## A hidden test case -/

/-- A problem with a visible test case. -/
def oneProblem : World where
  contests := .empty
  problems := Table.empty.upsert
    { id := "p1", title := "Sum", description := "Add", timeLimitMs := 1000, contest := none, deletedAt := none }
  testCases := Table.empty.upsert
    { id := "t1", problemId := "p1", input := "1 1", expectedOutput := "2", isHidden := false, orderIndex := 0 }

def editorToken : JwtPayload := { name := "eve", sub := "u1", role := .editor }

/-- An editor adds a hidden test case; anyone reads the visible ones. -/
def addsAndReads : Bool → Call
  | false =>
    { request := .addTestCase "p1"
        { input := "2 2", expectedOutput := "4", isHidden := some (some true), orderIndex := none }
      bearer := some editorToken }
  | true => { request := .getVisibleTestCases "p1", bearer := none }

/-- The editor's request is served first. -/
def addThenRead : List (Bool × Choice) :=
  [(false, ⟨none, "", 0, false⟩), (false, ⟨none, "h1", 0, false⟩), (true, ⟨none, "", 0, false⟩)]

theorem sameVisible_oneProblem : SameVisible (fun id => id = "h1") oneProblem oneProblem := by
  have hbyIds : ByIds (fun id => id = "h1") oneProblem := by
    unfold ByIds
    decide
  exact ⟨rfl, rfl, rfl, hbyIds, hbyIds⟩

/-- The reader gets what it would have got without the hidden test case. -/
theorem hidden_noninterference_reader :
    (served (fun _ => true) [editorToken] addsAndReads oneProblem
        (addThenRead.filter fun x => Secret (fun id => id = "h1") (addsAndReads x.1).request = false)).tasks true =
      (served (fun _ => true) [editorToken] addsAndReads oneProblem addThenRead).tasks true :=
  (hidden_noninterference sameVisible_oneProblem (by decide +kernel)).2 true rfl

/-! ## Callers without an editor's token -/

/-- The caller has no token of an admin or an editor. -/
def Stranger (issued : List JwtPayload) (x : Call) : Prop :=
  ∀ payload ∈ x.bearer, payload ∈ issued → payload.role = .user

instance (issued : List JwtPayload) (x : Call) : Decidable (Stranger issued x) :=
  inferInstanceAs (Decidable (∀ payload ∈ x.bearer, payload ∈ issued → payload.role = .user))

/-- The calls of open handlers, and of guards. -/
def Op.reads : Op → Bool
  | .verify _ => true
  | .find => true
  | .findOne _ => true
  | .findByContest _ => true
  | .findVisibleTestCases _ => true
  | _ => false

/-- Who may make which calls; `true` are the editors. -/
def MayCall (byEditor : Bool) (o : Op) : Prop := byEditor = true ∨ o.reads = true

section Strangers

variable {issued : List JwtPayload}

theorem answer_of_reads {o : Op} (ho : o.reads = true) (c : Choice) (w : World) : (answer issued o c w).2 = w := by
  have hok : (answerOk issued c w o).2 = w := by
    cases o <;> first | rfl | cases ho
  unfold answer
  cases c.fails with
  | none => exact hok
  | some message =>
    simp only
    split_ifs
    · rfl
    · exact hok

/-- Editors see everything; of strangers nothing is said. -/
theorem separates_editors : Pool.Separates (answer issued) MayCall (fun _ _ _ => True)
    (fun k w w' => k = true ∧ w = w') where
  answers := by
    rintro k o c w w' _ _ ⟨rfl, rfl⟩
    exact ⟨rfl, rfl, rfl⟩
  hides := by
    rintro k k' o c w w' hne ho _ ⟨rfl, rfl⟩
    refine ⟨rfl, answer_of_reads ?_ c w⟩
    rcases ho with rfl | hreads
    · exact absurd rfl hne
    · exact hreads

/-- What a stranger gets: an open handler's answer, or an error. -/
def Refused (request : Request) (r : Except HttpError Outcome) : Prop :=
  routeOf request = editorRoute → ∃ e, r = .error e

/-- The answer to `verify`. -/
theorem answer_verify (bearer : Option JwtPayload) (c : Choice) (w : World) :
    answer issued (.verify bearer) c w =
      (.ok (bearer.filter fun payload => payload ∈ issued ∧ c.expired = false), w) := by
  unfold answer
  cases c.fails <;> rfl

/-- A stranger does not pass the guards of an editor's route. -/
theorem confined_editorRoute {x : Call} (hx : Stranger issued x) {f : Unit → M Outcome} :
    Confined (answer issued) (MayCall false) (fun r => ∃ e, r = .error e)
      (activate editorRoute.roles x.bearer editorRoute.useGuards none >>= f) := by
  show Confined _ _ _ ((Prog.await (.verify x.bearer) >>= _) >>= f)
  rw [Prog.bind_bind]
  refine confined_await_bind (.inr rfl) ?_ fun e => ⟨e, rfl⟩
  intro c w w' found hfound
  rw [answer_verify] at hfound
  cases hfound
  cases hbearer : x.bearer.filter fun payload => payload ∈ issued ∧ c.expired = false with
  | none => exact ⟨_, rfl⟩
  | some payload =>
    obtain ⟨hpayload, hissued⟩ := Option.filter_eq_some_iff.mp hbearer
    have hrole : payload.role = .user := hx payload hpayload (of_decide_eq_true hissued).1
    have hrefused : canActivate (some [.admin, .editor]) (some (validate payload)) = false := by
      refine Bool.eq_false_iff.mpr fun hroles => ?_
      rw [canActivate, List.any_cons, List.any_cons, List.any_nil, Bool.or_false, Bool.or_eq_true,
        includes_some_iff, includes_some_iff] at hroles
      rcases hroles with hadmin | heditor
      · cases hadmin.symm.trans hrole
      · cases heditor.symm.trans hrole
    show Confined _ _ _ ((if canActivate (some [.admin, .editor]) (some (validate payload)) = true then _ else _) >>= f)
    rw [if_neg (by rw [hrefused]; exact Bool.false_ne_true)]
    exact ⟨_, rfl⟩

/-- An open handler only reads. -/
theorem onlyCalls_open {request : Request} (hroute : routeOf request = openRoute) :
    OnlyCalls (MayCall false) (handler request) := by
  have hone : ∀ {o : Op} {f : Res o → Outcome}, o.reads = true →
      OnlyCalls (MayCall false) (await o >>= fun a => pure (f a)) := fun ho =>
    .bind (onlyCalls_await (.inr ho)) fun _ => trivial
  cases request with
  | findAll => exact hone rfl
  | findOne id => exact .bind (onlyCalls_findOne (.inr rfl)) fun _ => trivial
  | findByContest contestId => exact hone rfl
  | getVisibleTestCases problemId => exact hone rfl
  | _ => cases hroute

theorem routeOf_cases (request : Request) : routeOf request = openRoute ∨ routeOf request = editorRoute := by
  cases request <;> first | exact .inl rfl | exact .inr rfl

theorem stranger_confined (isUUID : String → Bool) {x : Call} (hx : Stranger issued x) :
    Confined (answer issued) (MayCall false) (Refused x.request) (program isUUID x) := by
  rcases routeOf_cases x.request with hroute | hroute
  · have hcalls : OnlyCalls (MayCall false) (program isUUID x) :=
      onlyCalls_program isUUID (fun _ => .inr rfl) (onlyCalls_open hroute)
    refine hcalls.confined.mono (fun _ h => h) fun r _ heditor => ?_
    cases hroute.symm.trans heditor
  · unfold program
    rw [hroute]
    exact (confined_editorRoute hx).mono (fun _ h => h) fun r hr _ => hr

/-- What is known of the end of a request: nothing, if an editor made it. -/
def EndsAs (issued : List JwtPayload) (x : Call) (r : Except HttpError Outcome) : Prop :=
  Stranger issued x → Refused x.request r

theorem request_confined (isUUID : String → Bool) (x : Call) :
    Confined (answer issued) (MayCall (decide ¬ Stranger issued x)) (EndsAs issued x) (program isUUID x) := by
  by_cases hx : Stranger issued x
  · refine (stranger_confined isUUID hx).mono (fun _ ho => ?_) fun r hr _ => hr
    exact .inr (ho.resolve_left Bool.false_ne_true)
  · exact confined_of_forall (fun _ => .inl (decide_eq_true hx)) (fun _ h => absurd h hx) _

end Strangers

section Runs

variable {ι : Type} [DecidableEq ι] {isUUID : String → Bool} {issued : List JwtPayload} {requests : ι → Call}

theorem guarded_true (sched : List (ι × Choice)) : ∀ (pool : Pool ι (fun _ => M Outcome) World),
    Pool.Guarded (Pool.programs (answer issued)) (Pool.Admitted fun _ _ _ => True) sched pool := by
  induction sched with
  | nil => exact fun _ => trivial
  | cons x sched ih =>
    intro pool
    refine ⟨?_, ih _⟩
    show Prog.Admits _ x.2 (pool.tasks x.1, pool.state)
    cases pool.tasks x.1 <;> trivial

/-- **Main**: whatever the order of their calls, the contests, problems and test cases, and the
    points and responses of the requests of editors, are those of a run without the requests of
    strangers. What a stranger asks for on an editor's route ends with an error. -/
theorem strangers_purged (w : World) (sched : List (ι × Choice)) :
    let byEditors := sched.filter fun x => ¬ Stranger issued (requests x.1)
    (served isUUID issued requests w sched).state = (served isUUID issued requests w byEditors).state ∧
      (∀ i, ¬ Stranger issued (requests i) →
        (served isUUID issued requests w byEditors).tasks i = (served isUUID issued requests w sched).tasks i) ∧
      ∀ i outcome, Stranger issued (requests i) →
        (served isUUID issued requests w sched).tasks i = .ret outcome → routeOf (requests i).request = openRoute := by
  have hconf : ∀ i, Confined (answer issued) (MayCall (decide ¬ Stranger issued (requests i)))
      (EndsAs issued (requests i)) ((startRequests isUUID requests w).tasks i) :=
    fun i => request_confined isUUID (requests i)
  have hfilter : (sched.filter fun x => ¬ Stranger issued (requests x.1)) =
      sched.filter fun x => (decide ¬ Stranger issued (requests x.1)) = true :=
    List.filter_congr fun x _ => by simp
  obtain ⟨⟨_, hstate⟩, htasks⟩ := separates_editors.run_purged (k := true) sched hconf (guarded_true sched _)
    ⟨rfl, rfl⟩ fun _ _ => rfl
  intro byEditors
  refine ⟨?_, ?_, ?_⟩
  · simp only [byEditors, hfilter]
    exact hstate
  · intro i hi
    simp only [byEditors, hfilter]
    exact htasks i (decide_eq_true hi)
  · intro i outcome hi hret
    have hend := Pool.confined_run sched hconf i
    have hret' : (Pool.run (Pool.programs (answer issued)) sched (startRequests isUUID requests w)).tasks i =
        .ret outcome := hret
    rw [hret'] at hend
    rcases routeOf_cases (requests i).request with hroute | hroute
    · exact hroute
    · obtain ⟨e, he⟩ := hend hi hroute
      cases he

end Runs

end CodeWeaknesses.Problems
