import CodeWeaknesses.Lib.Reliance
import CodeWeaknesses.Problem.Hidden

/-!
# Problems in the trash

A problem that is soft-deleted stays in its table. What is asked of the rows in the trash is not
answered with them, so two states that differ only there are told apart by no request, until one of
the rows is restored.

Results:
* `SameButTrash.answerOk`: a call that leaves the trash alone is answered alike.
* `program_within`: the calls of a request that does not restore a row of the trash.
* `trash_unseen`: **requests at the same time that restore none of the deleted problems answer as if
  these had any other content, and leave them as they are.**
-/

namespace CodeWeaknesses.Problems

open Lib Lib.Prog Auth

/-! ## The trash -/

/-- The states differ only in the problems of `T`, which are stored and deleted in both. -/
structure SameButTrash (T : Id → Prop) (w w' : World) : Prop where
  contests : w.contests = w'.contests
  testCases : w.testCases = w'.testCases
  keys : w.problems.rows.map ProblemRow.key = w'.problems.rows.map ProblemRow.key
  others : ∀ id, ¬ T id → w.problems.find? id = w'.problems.find? id
  stored : ∀ id, T id → w.problems.find? id ≠ none
  deleted : ∀ row ∈ w.problems.rows, T row.id → row.deletedAt ≠ none
  deleted' : ∀ row ∈ w'.problems.rows, T row.id → row.deletedAt ≠ none

/-- The calls that do not write the problems of `T`. -/
def Op.LeavesOut (T : Id → Prop) : Op → Prop
  | .saveProblem problem => ¬ T problem.id
  | .softDelete id => ¬ T id
  | .restore id => ¬ T id
  | _ => True

/-- An editor's request to restore a problem of `T`. -/
def Restores (T : Id → Prop) (issued : List JwtPayload) (x : Call) : Prop :=
  ∃ id, x.request = .restore id ∧ T id ∧ ¬ Stranger issued x

section Calls

variable {T : Id → Prop} {issued : List JwtPayload} {w w' : World} {c : Choice}

theorem SameButTrash.find?_eq_none_iff (h : SameButTrash T w w') (id : Id) :
    w.problems.find? id = none ↔ w'.problems.find? id = none := by
  rw [← Option.not_isSome_iff_eq_none, ← Option.not_isSome_iff_eq_none, Table.find?_isSome_iff,
    Table.find?_isSome_iff, h.keys]

/-- A query skips the trash. -/
theorem SameButTrash.filter_eq (h : SameButTrash T w w') (p : ProblemRow → Bool)
    (hp : ∀ row, p row = true → row.deletedAt = none) :
    w'.problems.rows.filter p = w.problems.rows.filter p := by
  have hview : w'.problems.rows.map (fun row => if p row then some row else none) =
      w.problems.rows.map fun row => if p row then some row else none := by
    refine (map_eq_map_iff_of_keys _ h.keys.symm w.problems.nodup).mpr ?_
    intro row' hrow' row hrow hkey
    have hid : row'.id = row.id := hkey
    by_cases hT : T row.id
    · have hp' : p row' = false := Bool.eq_false_iff.mpr fun hrow =>
        h.deleted' row' hrow' (hid ▸ hT) (hp row' hrow)
      have hp : p row = false := Bool.eq_false_iff.mpr fun hrow' => h.deleted row hrow hT (hp row hrow')
      rw [hp', hp, if_neg Bool.false_ne_true, if_neg Bool.false_ne_true]
    · have hsame := h.others row.id hT
      have hrow := Table.find?_key hrow
      have hrow' := Table.find?_key hrow'
      rw [hkey] at hrow'
      obtain rfl : row = row' := Option.some.inj (hrow.symm.trans (hsame.trans hrow'))
      rfl
  have hfilter : ∀ rows : List ProblemRow,
      rows.filter p = (rows.map fun row => if p row then some row else none).reduceOption := by
    intro rows
    induction rows with
    | nil => rfl
    | cons row rows ih =>
      rw [List.filter_cons, List.map_cons]
      cases p row with
      | true => rw [if_pos rfl, if_pos rfl, List.reduceOption_cons_of_some, ih]
      | false =>
        rw [if_neg Bool.false_ne_true, if_neg Bool.false_ne_true, List.reduceOption_cons_of_none, ih]
  rw [hfilter, hfilter, hview]

theorem SameButTrash.findOne_eq (h : SameButTrash T w w') (id : Id) :
    ((w'.problems.find? id).filter fun row => row.deletedAt = none) =
      (w.problems.find? id).filter fun row => row.deletedAt = none := by
  have hnone : ∀ {t : Table ProblemRow Id ProblemRow.key}, (∀ row ∈ t.rows, T row.id → row.deletedAt ≠ none) →
      T id → ((t.find? id).filter fun row => row.deletedAt = none) = none := by
    intro t hdeleted hT
    rw [Option.filter_eq_none_iff]
    intro row hrow
    obtain ⟨hmem, rfl⟩ := Table.find?_eq_some_iff.mp hrow
    simpa using hdeleted row hmem hT
  by_cases hT : T id
  · rw [hnone h.deleted hT, hnone h.deleted' hT]
  · rw [h.others id hT]

/-- The same write of another problem on both sides. -/
theorem SameButTrash.upsert (h : SameButTrash T w w') {row : ProblemRow} (hrow : ¬ T row.id) :
    SameButTrash T { w with problems := w.problems.upsert row } { w' with problems := w'.problems.upsert row } := by
  refine ⟨h.contests, h.testCases, ?_, ?_, ?_, ?_, ?_⟩
  · show (Table.upsertRows _ _ _).map _ = (Table.upsertRows _ _ _).map _
    rw [Table.map_key_upsertRows, Table.map_key_upsertRows, h.keys]
  · intro id hid
    show (w.problems.upsert row).find? id = (w'.problems.upsert row).find? id
    rw [Table.find?_upsert, Table.find?_upsert, h.others id hid]
  · intro id hid
    show (w.problems.upsert row).find? id ≠ none
    rw [Table.find?_upsert, if_neg (by rintro rfl; exact hrow hid)]
    exact h.stored id hid
  · intro row' hrow' hid
    rcases Table.mem_upsert.mp hrow' with rfl | ⟨hrow', _⟩
    · exact absurd hid hrow
    · exact h.deleted row' hrow' hid
  · intro row' hrow' hid
    rcases Table.mem_upsert.mp hrow' with rfl | ⟨hrow', _⟩
    · exact absurd hid hrow
    · exact h.deleted' row' hrow' hid

theorem SameButTrash.setDeletedAt (h : SameButTrash T w w') {id : Id} (hid : ¬ T id) (deletedAt : Option Date) :
    SameButTrash T (w.setDeletedAt id deletedAt) (w'.setDeletedAt id deletedAt) := by
  unfold World.setDeletedAt
  rw [← h.others id hid]
  cases hfind : w.problems.find? id with
  | none => exact h
  | some row =>
    obtain ⟨_, rfl⟩ := Table.find?_eq_some_iff.mp hfind
    exact h.upsert hid

theorem SameButTrash.insertProblem (h : SameButTrash T w w') (problem : NewProblem) (uuid : Id) :
    (w'.insertProblem problem uuid).1 = (w.insertProblem problem uuid).1 ∧
      SameButTrash T (w.insertProblem problem uuid).2 (w'.insertProblem problem uuid).2 := by
  unfold World.insertProblem
  cases intColumn? problem.timeLimitMs with
  | none => exact ⟨rfl, h⟩
  | some timeLimitMs =>
    simp only
    have hsame : w'.contests.find? problem.contest = w.contests.find? problem.contest := by rw [h.contests]
    by_cases hcontest : w.contests.find? problem.contest = none
    · rw [if_pos hcontest, if_pos (hsame.trans hcontest)]
      exact ⟨rfl, h⟩
    · rw [if_neg hcontest, if_neg (hsame.trans_ne hcontest)]
      by_cases hnone : w.problems.find? uuid = none
      · have hnone' := (h.find?_eq_none_iff uuid).mp hnone
        rw [if_neg (not_not.mpr hnone), if_neg (not_not.mpr hnone')]
        -- the rows of `T` are stored, so the new one is none of them
        exact ⟨rfl, h.upsert fun hT => h.stored uuid hT hnone⟩
      · have hsome' : ¬ w'.problems.find? uuid = none := fun hnone' => hnone ((h.find?_eq_none_iff uuid).mpr hnone')
        rw [if_pos hnone, if_pos hsome']
        exact ⟨rfl, h⟩

theorem SameButTrash.withTestCases (h : SameButTrash T w w') {testCases : Table TestCase Id TestCase.id} :
    SameButTrash T { w with testCases := testCases } { w' with testCases := testCases } :=
  ⟨h.contests, rfl, h.keys, h.others, h.stored, h.deleted, h.deleted'⟩

theorem SameButTrash.insertTestCase (h : SameButTrash T w w') (testCase : NewTestCase) (uuid : Id) :
    (w'.insertTestCase testCase uuid).1 = (w.insertTestCase testCase uuid).1 ∧
      SameButTrash T (w.insertTestCase testCase uuid).2 (w'.insertTestCase testCase uuid).2 := by
  rcases insertTestCase_cases testCase uuid with ⟨e, herror⟩ | ⟨orderIndex, hrow⟩
  · rw [herror, herror]
    exact ⟨rfl, h⟩
  · rw [hrow, hrow, ← h.testCases]
    by_cases hproblem : w.problems.find? testCase.problemId = none
    · rw [if_pos hproblem, if_pos ((h.find?_eq_none_iff _).mp hproblem)]
      exact ⟨rfl, h⟩
    · rw [if_neg hproblem, if_neg fun hnone => hproblem ((h.find?_eq_none_iff _).mpr hnone)]
      split_ifs
      · exact ⟨rfl, h⟩
      · exact ⟨rfl, h.withTestCases⟩

/-- A call that leaves the trash alone, answered without a throw. -/
theorem SameButTrash.answerOk (h : SameButTrash T w w') {o : Op} (ho : o.LeavesOut T) :
    (answerOk issued c w' o).1 = (answerOk issued c w o).1 ∧
      SameButTrash T (answerOk issued c w o).2 (answerOk issued c w' o).2 := by
  cases o with
  | verify bearer => exact ⟨rfl, h⟩
  | find => exact ⟨congrArg Except.ok (h.filter_eq _ fun row hrow => of_decide_eq_true hrow), h⟩
  | findOne id => exact ⟨congrArg Except.ok (h.findOne_eq id), h⟩
  | findByContest contestId =>
    refine ⟨congrArg Except.ok ?_, h⟩
    rw [← h.contests]
    exact h.filter_eq _ fun row hrow => (of_decide_eq_true hrow).1
  | insertProblem problem => exact h.insertProblem problem c.uuid
  | saveProblem problem =>
    show (w'.saveProblem problem).1 = (w.saveProblem problem).1 ∧
      SameButTrash T (w.saveProblem problem).2 (w'.saveProblem problem).2
    unfold World.saveProblem
    cases hrow : problem.row? with
    | none => exact ⟨rfl, h⟩
    | some row =>
      obtain ⟨_, _, rfl⟩ := Option.map_eq_some_iff.mp hrow
      exact ⟨rfl, h.upsert ho⟩
  | softDelete id => exact ⟨rfl, h.setDeletedAt ho (some c.now)⟩
  | restore id =>
    refine ⟨congrArg Except.ok ?_, h.setDeletedAt ho none⟩
    rw [h.others id ho]
  | insertTestCase testCase => exact h.insertTestCase testCase c.uuid
  | findTestCases problemId =>
    refine ⟨congrArg Except.ok ?_, h⟩
    rw [h.testCases]
  | findVisibleTestCases problemId =>
    refine ⟨congrArg Except.ok ?_, h⟩
    rw [h.testCases]
  | deleteTestCase testCaseId =>
    refine ⟨rfl, ?_⟩
    show SameButTrash T { w with testCases := _ } { w' with testCases := _ }
    rw [h.testCases]
    exact h.withTestCases

theorem SameButTrash.answer (h : SameButTrash T w w') {o : Op} (ho : o.LeavesOut T) :
    (answer issued o c w').1 = (answer issued o c w).1 ∧
      SameButTrash T (answer issued o c w).2 (answer issued o c w').2 := by
  have hok : (Problems.answerOk issued c w' o).1 = (Problems.answerOk issued c w o).1 ∧
      SameButTrash T (Problems.answerOk issued c w o).2 (Problems.answerOk issued c w' o).2 := h.answerOk ho
  unfold Problems.answer
  cases c.fails with
  | none => exact hok
  | some message =>
    simp only
    split_ifs
    · exact ⟨rfl, h⟩
    · exact hok

theorem find?_setDeletedAt {id id' : Id} (hne : id ≠ id') (deletedAt : Option Date) :
    (w.setDeletedAt id' deletedAt).problems.find? id = w.problems.find? id := by
  unfold World.setDeletedAt
  cases hfind : w.problems.find? id' with
  | none => rfl
  | some row =>
    obtain ⟨_, rfl⟩ := Table.find?_eq_some_iff.mp hfind
    show (w.problems.upsert _).find? id = w.problems.find? id
    rw [Table.find?_upsert]
    exact if_neg hne

/-- A stored problem of `T` stays as it is. -/
theorem find?_answerOk {o : Op} (ho : o.LeavesOut T) {id : Id} (hid : T id) (hstored : w.problems.find? id ≠ none) :
    (answerOk issued c w o).2.problems.find? id = w.problems.find? id := by
  cases o with
  | insertProblem problem =>
    show (w.insertProblem problem c.uuid).2.problems.find? id = w.problems.find? id
    unfold World.insertProblem
    cases intColumn? problem.timeLimitMs with
    | none => rfl
    | some timeLimitMs =>
      simp only
      split_ifs with hcontest hnone
      · rfl
      · rfl
      · show (w.problems.upsert _).find? id = w.problems.find? id
        rw [Table.find?_upsert, if_neg (by rintro rfl; exact hstored (not_not.mp hnone))]
  | saveProblem problem =>
    show (w.saveProblem problem).2.problems.find? id = w.problems.find? id
    unfold World.saveProblem
    cases hrow : problem.row? with
    | none => rfl
    | some row =>
      obtain ⟨_, _, rfl⟩ := Option.map_eq_some_iff.mp hrow
      show (w.problems.upsert _).find? id = w.problems.find? id
      rw [Table.find?_upsert, if_neg (by rintro rfl; exact ho hid)]
  | softDelete id' => exact find?_setDeletedAt (by rintro rfl; exact ho hid) (some c.now)
  | restore id' => exact find?_setDeletedAt (by rintro rfl; exact ho hid) none
  | insertTestCase testCase =>
    show (w.insertTestCase testCase c.uuid).2.problems.find? id = w.problems.find? id
    rcases insertTestCase_cases testCase c.uuid with ⟨e, herror⟩ | ⟨orderIndex, hrow⟩
    · rw [herror]
    · rw [hrow]
      split_ifs <;> rfl
  | _ => rfl

theorem find?_answer {o : Op} (ho : o.LeavesOut T) {id : Id} (hid : T id) (hstored : w.problems.find? id ≠ none) :
    (answer issued o c w).2.problems.find? id = w.problems.find? id := by
  have hok : (Problems.answerOk issued c w o).2.problems.find? id = w.problems.find? id :=
    find?_answerOk ho hid hstored
  unfold Problems.answer
  cases c.fails with
  | none => exact hok
  | some message =>
    simp only
    split_ifs
    · rfl
    · exact hok

end Calls

/-! ## The calls of a request -/

/-- The problems of `T` are in the trash. -/
def Deleted (T : Id → Prop) (w : World) : Prop := ∀ row ∈ w.problems.rows, T row.id → row.deletedAt ≠ none

section Requests

variable {T : Id → Prop} {issued : List JwtPayload}

theorem leavesOut_of_reads {o : Op} (ho : o.reads = true) : o.LeavesOut T := by
  cases o <;> trivial

/-- A call that returned did not throw. -/
theorem answerOk_of_answer {o : Op} {c : Choice} {w w' : World} {r : Res o}
    (h : answer issued o c w = (.ok r, w')) : answerOk issued c w o = (.ok r, w') := by
  unfold answer at h
  cases hf : c.fails with
  | none => simpa only [hf] using h
  | some message =>
    simp only [hf] at h
    split_ifs at h
    · cases h
    · exact h

/-- A problem that was read is not in the trash. -/
theorem findOne_within (id : Id) :
    Within (answer issued) (Deleted T) (Op.LeavesOut T) (fun r => ∀ row, r = .ok row → ¬ T id ∧ row.id = id)
      (findOne id) := by
  unfold findOne
  refine within_await_bind trivial ?_ fun e row h => by cases h
  intro c w w' found hw hr
  cases found with
  | none =>
    intro row h
    cases h
  | some entity =>
    intro row h
    cases h
    have hfound : (w.problems.find? id).filter (fun row => row.deletedAt = none) = some entity :=
      Except.ok.inj (congrArg Prod.fst (answerOk_of_answer hr))
    obtain ⟨hfind, hopen⟩ := Option.filter_eq_some_iff.mp hfound
    obtain ⟨hmem, rfl⟩ := Table.find?_eq_some_iff.mp hfind
    exact ⟨fun hT => hw entity hmem hT (of_decide_eq_true hopen), rfl⟩

theorem handler_within {request : Request} (hrestore : ∀ id, request = .restore id → ¬ T id) :
    Within (answer issued) (Deleted T) (Op.LeavesOut T) (fun _ => True) (handler request) := by
  have hone : ∀ {o : Op} {f : Res o → Outcome}, o.LeavesOut T →
      Within (answer issued) (Deleted T) (Op.LeavesOut T) (fun _ => True) (await o >>= fun a => pure (f a)) :=
    fun ho => within_await_bind ho (fun _ _ _ _ _ _ => trivial) fun e => trivial
  cases request with
  | create dto => exact hone trivial
  | findAll => exact hone trivial
  | findOne id => exact Within.bind (findOne_within id) (fun _ _ => trivial) fun e _ => trivial
  | findByContest contestId => exact hone trivial
  | update id dto =>
    refine Within.bind (R := fun _ => True) ?_ (fun _ _ => trivial) fun e _ => trivial
    refine Within.bind (findOne_within id) (fun row hrow => ?_) fun e _ => trivial
    obtain ⟨hT, hid⟩ := hrow row rfl
    have hother : ¬ T (merge row dto).id := by
      show ¬ T row.id
      rwa [hid]
    exact within_await hother (fun _ _ _ _ _ _ => trivial) fun e => trivial
  | remove id =>
    refine Within.bind (R := fun _ => True) ?_ (fun _ _ => trivial) fun e _ => trivial
    refine Within.bind (findOne_within id) (fun row hrow => ?_) fun e _ => trivial
    obtain ⟨hT, _⟩ := hrow row rfl
    exact within_await hT (fun _ _ _ _ _ _ => trivial) fun e => trivial
  | restore id =>
    refine Within.bind (R := fun _ => True) ?_ (fun _ _ => trivial) fun e _ => trivial
    refine within_await_bind (hrestore id rfl) (fun _ _ _ affected _ _ => ?_) fun e => trivial
    split_ifs <;> trivial
  | addTestCase problemId dto => exact hone trivial
  | getTestCases problemId => exact hone trivial
  | getVisibleTestCases problemId => exact hone trivial
  | deleteTestCase problemId testCaseId => exact hone trivial

/-- A request that does not restore a problem of `T` does not write one. -/
theorem program_within (isUUID : String → Bool) {x : Call} (hx : ¬ Restores T issued x) :
    Within (answer issued) (Deleted T) (Op.LeavesOut T) (fun _ => True) (program isUUID x) := by
  by_cases hstranger : Stranger issued x
  · have hreads : Confined (answer issued) (Op.LeavesOut T) (fun _ => True) (program isUUID x) :=
      (stranger_confined isUUID hstranger).mono
        (fun _ ho => leavesOut_of_reads (ho.resolve_left Bool.false_ne_true)) fun _ _ => trivial
    exact hreads.within
  · have hguards : OnlyCalls (Op.LeavesOut T) (activate (routeOf x.request).roles x.bearer
        (routeOf x.request).useGuards none) := onlyCalls_activate (fun _ => trivial) _ _ _ _
    refine Within.bind hguards.confined.within (fun _ _ => ?_) fun e _ => trivial
    have hcheck : OnlyCalls (Op.LeavesOut T) (check (x.request.errors isUUID)) := by
      unfold check
      split_ifs <;> trivial
    refine Within.bind hcheck.confined.within (fun _ _ => ?_) fun e _ => trivial
    exact handler_within fun id hid hT => hx ⟨id, hid, hT, hstranger⟩

end Requests

/-! ## Requests at the same time -/

section Runs

variable {ι : Type} [DecidableEq ι] {isUUID : String → Bool} {issued : List JwtPayload} {requests : ι → Call}

/-- States that no request tells apart, and the problems of `T` as they were at the start. -/
structure Alike (T : Id → Prop) (start w w' : World) : Prop where
  same : SameButTrash T w w'
  kept : ∀ id, T id → w.problems.find? id = start.problems.find? id

/-- **Main**: whatever the order of their calls and whatever fails, the requests come to the same
    points, with the same responses, whatever the problems in the trash hold, and leave these as they
    are, as long as no editor restores one of them. -/
theorem trash_unseen {T : Id → Prop} {w w' : World} (hsame : SameButTrash T w w') {sched : List (ι × Choice)}
    (hrestore : ∀ x ∈ sched, ¬ Restores T issued (requests x.1)) :
    SameButTrash T (served isUUID issued requests w sched).state (served isUUID issued requests w' sched).state ∧
      (∀ id, T id → (served isUUID issued requests w sched).state.problems.find? id = w.problems.find? id) ∧
      ∀ i, (served isUUID issued requests w' sched).tasks i = (served isUUID issued requests w sched).tasks i := by
  have hanswers : ∀ (o : Op) (c : Choice) (s s' : World), o.LeavesOut T → Alike T w s s' →
      (answer issued o c s').1 = (answer issued o c s).1 ∧
        Alike T w (answer issued o c s).2 (answer issued o c s').2 := by
    intro o c s s' ho h
    obtain ⟨hanswer, hnext⟩ := h.same.answer ho
    refine ⟨hanswer, hnext, ?_⟩
    intro id hid
    rw [find?_answer ho hid (h.same.stored id hid), h.kept id hid]
  have hstart : Alike T w (startRequests isUUID requests w).state (startRequests isUUID requests w').state :=
    ⟨hsame, fun _ _ => rfl⟩
  have hwithin : ∀ x ∈ sched, Within (answer issued) (Deleted T) (Op.LeavesOut T) (fun _ => True)
      ((startRequests isUUID requests w).tasks x.1) := fun x hx => program_within isUUID (hrestore x hx)
  obtain ⟨hstate, htasks⟩ := Pool.run_within_eq (α := fun _ => Outcome) (Q := fun _ _ => True)
    (fun _ _ h => h.same.deleted) hanswers sched hstart (fun _ => rfl) hwithin
  exact ⟨hstate.same, hstate.kept, htasks⟩

end Runs

/-! ## A problem that is deleted -/

def trashed (description : String) : World where
  contests := .empty
  problems := Table.empty.upsert
    { id := "p1", title := "Sum", description := description, timeLimitMs := 1000, contest := none,
      deletedAt := some 5 }
  testCases := .empty

theorem sameButTrash_trashed (description description' : String) :
    SameButTrash (fun id => id = "p1") (trashed description) (trashed description') := by
  refine ⟨rfl, rfl, rfl, ?_, ?_, ?_, ?_⟩
  · intro id hid
    show (Table.empty.upsert _).find? id = (Table.empty.upsert _).find? id
    rw [Table.find?_upsert, Table.find?_upsert]
    exact (if_neg hid).trans (if_neg hid).symm
  · rintro _ rfl
    exact Option.some_ne_none _
  all_goals
    intro row hrow _
    obtain rfl := List.mem_singleton.mp hrow
    exact Option.some_ne_none 5

/-- Someone lists the problems, an editor edits the deleted one, a caller without a token tries to
    restore it. -/
def rummages : Fin 3 → Call :=
  ![{ request := .findAll, bearer := none },
    { request := .update "p1" { title := "Sum", description := "Add", timeLimitMs := 1000 },
      bearer := some editorToken },
    { request := .restore "p1", bearer := none }]

theorem not_restores_rummages (i : Fin 3) : ¬ Restores (fun id => id = "p1") [editorToken] (rummages i) := by
  rintro ⟨id, hid, _, hstranger⟩
  fin_cases i
  · cases hid
  · cases hid
  · refine hstranger ?_
    rintro _ ⟨⟩

/-- Their calls, in turns. -/
def rummaging : List (Fin 3 × Choice) :=
  [(1, ⟨none, "", 0, false⟩), (0, ⟨none, "", 0, false⟩), (1, ⟨none, "", 0, false⟩), (2, ⟨none, "", 0, false⟩)]

/-- The editor cannot tell what the problem says. -/
theorem trash_unseen_rummaged :
    (served (fun _ => true) [editorToken] rummages (trashed "Multiply") rummaging).tasks 1 =
      (served (fun _ => true) [editorToken] rummages (trashed "Add") rummaging).tasks 1 :=
  (trash_unseen (sameButTrash_trashed "Add" "Multiply") fun x _ => not_restores_rummages x.1).2.2 1

end CodeWeaknesses.Problems
