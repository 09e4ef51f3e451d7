import CodeWeaknesses.Auth.Users
import CodeWeaknesses.Lib.Ranking

/-!
# `ProblemController` and `ProblemService`

Model of `problem/problem.controller.ts`, `problem/problem.service.ts`, `problem/dto/*.ts` and of
the parts of `commun/generic-crud.service.ts` that they use.

* A request passes the guards of its route, then the `ValidationPipe`, then its handler.
* These controllers issue no tokens: the tokens issued by the application are a parameter.
* A repository call may throw at any time (`Choice.fails`); then it has no effect.
* A number in a body is a rational number. A column of type `integer` takes only some of them.
* In a body, a field that is left out is `none` and a `null` is `some none`.
* The columns `createdAt` and `updatedAt` are left out.
-/

namespace CodeWeaknesses.Problems

open Lib Auth

/-! ## Data -/

/-- A row of the problems, with the column of `TimestampEntity` that the queries filter on. -/
structure ProblemRow extends Problem where
  deletedAt : Option Date
  deriving DecidableEq, Repr

def ProblemRow.key (row : ProblemRow) : Id := row.id

/-- `CreateProblemDto`. -/
structure CreateProblemDto where
  title : String
  description : String
  timeLimitMs : ℚ
  contestId : Id

/-- `UpdateProblemDto`: the same fields without `contestId`, none of them optional. -/
structure UpdateProblemDto where
  title : String
  description : String
  timeLimitMs : ℚ

/-- `CreateTestCaseDto`. -/
structure CreateTestCaseDto where
  input : String
  expectedOutput : String
  isHidden : Option (Option Bool)
  orderIndex : Option (Option ℚ)

/-- The problem that `create` saves, and the one that `update` has merged. -/
structure NewProblem where
  title : String
  description : String
  timeLimitMs : ℚ
  contest : Id

structure MergedProblem where
  id : Id
  title : String
  description : String
  timeLimitMs : ℚ
  contest : Option Id
  deletedAt : Option Date

/-- The test case that `addTestCase` saves. -/
structure NewTestCase where
  problemId : Id
  input : String
  expectedOutput : String
  isHidden : Option (Option Bool)
  orderIndex : Option (Option ℚ)

/-! ## The environment -/

structure World where
  contests : Table Contest Id Contest.id
  problems : Table ProblemRow Id ProblemRow.key
  testCases : Table TestCase Id TestCase.id

/-- The calls of the controller, its guards and its service. -/
inductive Op where
  | verify (bearer : Option JwtPayload)
  | find
  | findOne (id : Id)
  | findByContest (contestId : Id)
  | insertProblem (problem : NewProblem)
  | saveProblem (problem : MergedProblem)
  | softDelete (id : Id)
  | restore (id : Id)
  | insertTestCase (testCase : NewTestCase)
  | findTestCases (problemId : Id)
  | findVisibleTestCases (problemId : Id)
  | deleteTestCase (testCaseId : Id)

/-- What a call returns; `restore` the number of rows that it affected. -/
@[reducible] def Res : Op → Type
  | .verify _ => Option JwtPayload
  | .find => List ProblemRow
  | .findOne _ => Option ProblemRow
  | .findByContest _ => List ProblemRow
  | .insertProblem _ => ProblemRow
  | .saveProblem _ => ProblemRow
  | .softDelete _ => Unit
  | .restore _ => ℕ
  | .insertTestCase _ => TestCase
  | .findTestCases _ => List TestCase
  | .findVisibleTestCases _ => List TestCase
  | .deleteTestCase _ => Unit

/-- Whether the call goes to the database. -/
def Op.mayThrow : Op → Bool
  | .verify _ => false
  | _ => true

/-- What the model leaves open about a call: whether it throws, the uuid of a new row, the
    time, and whether the token has expired. -/
structure Choice where
  fails : Option String
  uuid : Id
  now : Date
  expired : Bool

/-- What a column of type `integer` stores of a number, if it is not negative. -/
def intColumn? (n : ℚ) : Option ℕ :=
  if n.den = 1 ∧ 0 ≤ n.num ∧ n.num ≤ 2147483647 then some n.num.toNat else none

/-- The row of a problem, if its columns take the values. -/
def MergedProblem.row? (problem : MergedProblem) : Option ProblemRow :=
  (intColumn? problem.timeLimitMs).map fun timeLimitMs =>
    { id := problem.id, title := problem.title, description := problem.description, timeLimitMs := timeLimitMs,
      contest := problem.contest, deletedAt := problem.deletedAt }

/-- `INSERT INTO problems`: the contest must be stored. -/
def World.insertProblem (w : World) (problem : NewProblem) (uuid : Id) : Except HttpError ProblemRow × World :=
  match intColumn? problem.timeLimitMs with
  | none => (.error (.error "invalid value for type integer"), w)
  | some timeLimitMs =>
    if w.contests.find? problem.contest = none then
      (.error (.error "insert violates foreign key constraint"), w)
    else if w.problems.find? uuid ≠ none then
      (.error (.error "duplicate key value violates unique constraint"), w)
    else
      let row : ProblemRow :=
        { id := uuid, title := problem.title, description := problem.description, timeLimitMs := timeLimitMs,
          contest := some problem.contest, deletedAt := none }
      (.ok row, { w with problems := w.problems.upsert row })

/-- `UPDATE` of a stored problem. -/
def World.saveProblem (w : World) (problem : MergedProblem) : Except HttpError ProblemRow × World :=
  match problem.row? with
  | none => (.error (.error "invalid value for type integer"), w)
  | some row => (.ok row, { w with problems := w.problems.upsert row })

/-- `softDelete` and `restore`: what the column `deletedAt` of a stored row becomes. -/
def World.setDeletedAt (w : World) (id : Id) (deletedAt : Option Date) : World :=
  (w.problems.find? id).elim w fun row => { w with problems := w.problems.upsert { row with deletedAt := deletedAt } }

/-- `INSERT INTO test_cases`: the problem must be stored; a column that is left out has its default. -/
def World.insertTestCase (w : World) (testCase : NewTestCase) (uuid : Id) : Except HttpError TestCase × World :=
  match testCase.isHidden.getD (some false), testCase.orderIndex.getD (some 0) with
  | some isHidden, some orderIndex =>
    match intColumn? orderIndex with
    | none => (.error (.error "invalid value for type integer"), w)
    | some orderIndex =>
      if w.problems.find? testCase.problemId = none then
        (.error (.error "insert violates foreign key constraint"), w)
      else if w.testCases.find? uuid ≠ none then
        (.error (.error "duplicate key value violates unique constraint"), w)
      else
        let row : TestCase :=
          { id := uuid, problemId := testCase.problemId, input := testCase.input,
            expectedOutput := testCase.expectedOutput, isHidden := isHidden, orderIndex := orderIndex }
        (.ok row, { w with testCases := w.testCases.upsert row })
  | _, _ => (.error (.error "null value in column violates not-null constraint"), w)

/-- `find` with `order: { orderIndex: 'ASC' }`. -/
def byOrderIndex (testCases : List TestCase) : List TestCase :=
  sortBy (fun a b => (a.orderIndex : ℤ) - b.orderIndex) testCases

/-- A call that does not throw. -/
def answerOk (issued : List JwtPayload) (c : Choice) (w : World) : (o : Op) → Except HttpError (Res o) × World
  | .verify bearer => (.ok (bearer.filter fun payload => payload ∈ issued ∧ c.expired = false), w)
  | .find => (.ok (w.problems.rows.filter fun row => row.deletedAt = none), w)
  | .findOne id => (.ok ((w.problems.find? id).filter fun row => row.deletedAt = none), w)
  | .findByContest contestId =>
    -- the join leaves out a contest that is deleted
    (.ok (w.problems.rows.filter fun row => row.deletedAt = none ∧ row.contest = some contestId ∧
      (w.contests.find? contestId).any fun contest => contest.deletedAt = none), w)
  | .insertProblem problem => w.insertProblem problem c.uuid
  | .saveProblem problem => w.saveProblem problem
  | .softDelete id => (.ok (), w.setDeletedAt id (some c.now))
  | .restore id => (.ok (if (w.problems.find? id).isSome then 1 else 0), w.setDeletedAt id none)
  | .insertTestCase testCase => w.insertTestCase testCase c.uuid
  | .findTestCases problemId => (.ok (byOrderIndex (w.testCases.rows.filter fun t => t.problemId = problemId)), w)
  | .findVisibleTestCases problemId =>
    (.ok (byOrderIndex (w.testCases.rows.filter fun t => t.problemId = problemId ∧ t.isHidden = false)), w)
  | .deleteTestCase testCaseId => (.ok (), { w with testCases := w.testCases.delete testCaseId })

/-- The answer to a call. -/
def answer (issued : List JwtPayload) : Backend Op Res HttpError Choice World := fun o c w =>
  match c.fails with
  | some message => if o.mayThrow then (.error (.error message), w) else answerOk issued c w o
  | none => answerOk issued c w o

/-- The calls of the controller. -/
abbrev M := Prog Op Res HttpError

/-- `await` of one call. -/
abbrev await (o : Op) : M (Res o) := Prog.await o

/-! ## `ProblemService` -/

/-- `BaseService.findAll`. -/
def findAll : M (List ProblemRow) := await .find

/-- `BaseService.findOne` (lines 22–32). -/
def findOne (id : Id) : M ProblemRow := do
  match ← await (.findOne id) with
  | none => throw (.notFound "Not Found")
  | some entity => pure entity

/-- `repository.merge`. -/
def merge (problem : ProblemRow) (updateDto : UpdateProblemDto) : MergedProblem where
  id := problem.id
  title := updateDto.title
  description := updateDto.description
  timeLimitMs := updateDto.timeLimitMs
  contest := problem.contest
  deletedAt := problem.deletedAt

/-- `BaseService.update` (lines 34–38). -/
def update (id : Id) (updateDto : UpdateProblemDto) : M ProblemRow := do
  let existingEntity ← findOne id
  let mergedEntity := merge existingEntity updateDto
  await (.saveProblem mergedEntity)

/-- `BaseService.remove` (lines 40–43). -/
def remove (id : Id) : M Unit := do
  let _ ← findOne id
  await (.softDelete id)

/-- `BaseService.restore` (lines 45–49). -/
def restore (id : Id) : M ℕ := do
  let affected ← await (.restore id)
  if affected = 0 then throw (.notFound "Entity not found")
  pure affected

/-- `findByContest` (lines 22–27). -/
def findByContest (contestId : Id) : M (List ProblemRow) := await (.findByContest contestId)

/-- `create` (lines 29–37). -/
def create (createProblemDto : CreateProblemDto) : M ProblemRow :=
  await (.insertProblem
    { title := createProblemDto.title, description := createProblemDto.description,
      timeLimitMs := createProblemDto.timeLimitMs, contest := createProblemDto.contestId })

/-- `addTestCase` (lines 42–51). -/
def addTestCase (problemId : Id) (createTestCaseDto : CreateTestCaseDto) : M TestCase :=
  await (.insertTestCase
    { problemId := problemId, input := createTestCaseDto.input, expectedOutput := createTestCaseDto.expectedOutput,
      isHidden := createTestCaseDto.isHidden, orderIndex := createTestCaseDto.orderIndex })

/-- `getTestCases` (lines 56–61). -/
def getTestCases (problemId : Id) : M (List TestCase) := await (.findTestCases problemId)

/-- `getVisibleTestCases` (lines 66–71). -/
def getVisibleTestCases (problemId : Id) : M (List TestCase) := await (.findVisibleTestCases problemId)

/-- `deleteTestCase` (lines 76–78). -/
def deleteTestCase (testCaseId : Id) : M Unit := await (.deleteTestCase testCaseId)

/-! ## Guards and pipe -/

/-- The guards in their order. `AuthGuard('jwt')` sets `req.user`, which is `user` here. -/
def activate (roles : Option (List Role)) (bearer : Option JwtPayload) : List Guard → Option JwtUser → M Unit
  | [], _ => pure ()
  | .jwt :: guards, _ => do
    match ← await (.verify bearer) with
    | none => throw (.unauthorized "Unauthorized")
    | some payload => activate roles bearer guards (some (validate payload))
  | .roles :: guards, user =>
    if canActivate roles user then activate roles bearer guards user
    else throw (.forbidden "Forbidden resource")

/-- `@IsNotEmpty()` of a text. -/
def notEmptyErrors (field text : String) : List String :=
  if text = "" then [field ++ " should not be empty"] else []

/-- `@IsInt()` and `@Min(100)` of the time limit. -/
def timeLimitErrors (timeLimitMs : ℚ) : List String :=
  (if timeLimitMs < 100 then ["Time limit must be at least 100ms"] else []) ++
    if timeLimitMs.den ≠ 1 then ["timeLimitMs must be an integer number"] else []

def UpdateProblemDto.errors (dto : UpdateProblemDto) : List String :=
  notEmptyErrors "title" dto.title ++ notEmptyErrors "description" dto.description ++ timeLimitErrors dto.timeLimitMs

/-- `isUUID` is that of the validation library. -/
def CreateProblemDto.errors (isUUID : String → Bool) (dto : CreateProblemDto) : List String :=
  notEmptyErrors "title" dto.title ++ notEmptyErrors "description" dto.description ++
    timeLimitErrors dto.timeLimitMs ++ notEmptyErrors "contestId" dto.contestId ++
      if isUUID dto.contestId then [] else ["contestId must be a UUID"]

/-- An optional field that is left out or `null` is not checked. -/
def CreateTestCaseDto.errors (dto : CreateTestCaseDto) : List String :=
  notEmptyErrors "input" dto.input ++ notEmptyErrors "expectedOutput" dto.expectedOutput ++
    dto.orderIndex.join.elim [] fun orderIndex =>
      if orderIndex < 0 then ["orderIndex must not be less than 0"] else []

/-- The pipe rejects a body with errors. -/
def check (errors : List String) : M Unit :=
  if errors = [] then pure () else throw (.badRequest errors)

/-! ## Requests -/

/-- A request with its parameters and its body. -/
inductive Request where
  | create (createProblemDto : CreateProblemDto)
  | findAll
  | findOne (id : Id)
  | findByContest (contestId : Id)
  | update (id : Id) (updateProblemDto : UpdateProblemDto)
  | remove (id : Id)
  | restore (id : Id)
  | addTestCase (problemId : Id) (createTestCaseDto : CreateTestCaseDto)
  | getTestCases (problemId : Id)
  | getVisibleTestCases (problemId : Id)
  | deleteTestCase (problemId testCaseId : Id)

/-- What a request returns. -/
inductive Outcome where
  | problem (row : ProblemRow)
  | problems (rows : List ProblemRow)
  | affected (rows : ℕ)
  | testCase (row : TestCase)
  | testCases (rows : List TestCase)
  | done
  deriving DecidableEq

/-- A handler without decorators. -/
def openRoute : Route := { useGuards := [], roles := none }

/-- `@UseGuards(AuthGuard('jwt'), RolesGuard)` and `@Roles(Role.ADMIN, Role.EDITOR)`. -/
def editorRoute : Route := { useGuards := [.jwt, .roles], roles := some [.admin, .editor] }

/-- The decorators of its handler. -/
def routeOf : Request → Route
  | .create _ => editorRoute
  | .findAll => openRoute
  | .findOne _ => openRoute
  | .findByContest _ => openRoute
  | .update .. => editorRoute
  | .remove _ => editorRoute
  | .restore _ => editorRoute
  | .addTestCase .. => editorRoute
  | .getTestCases _ => editorRoute
  | .getVisibleTestCases _ => openRoute
  | .deleteTestCase .. => editorRoute

/-- What the pipe finds in its body. -/
def Request.errors (isUUID : String → Bool) : Request → List String
  | .create dto => dto.errors isUUID
  | .update _ dto => dto.errors
  | .addTestCase _ dto => dto.errors
  | _ => []

/-- Its handler. `deleteTestCase` does not look at the problem. -/
def handler : Request → M Outcome
  | .create dto => do return .problem (← create dto)
  | .findAll => do return .problems (← findAll)
  | .findOne id => do return .problem (← findOne id)
  | .findByContest contestId => do return .problems (← findByContest contestId)
  | .update id dto => do return .problem (← update id dto)
  | .remove id => do
    remove id
    return .done
  | .restore id => do return .affected (← restore id)
  | .addTestCase problemId dto => do return .testCase (← addTestCase problemId dto)
  | .getTestCases problemId => do return .testCases (← getTestCases problemId)
  | .getVisibleTestCases problemId => do return .testCases (← getVisibleTestCases problemId)
  | .deleteTestCase _ testCaseId => do
    deleteTestCase testCaseId
    return .done

/-- A request as it arrives, with the token of its caller. -/
structure Call where
  request : Request
  bearer : Option JwtPayload

/-- The guards, the pipe and the handler. -/
def program (isUUID : String → Bool) (x : Call) : M Outcome := do
  activate (routeOf x.request).roles x.bearer (routeOf x.request).useGuards none
  check (x.request.errors isUUID)
  handler x.request

end CodeWeaknesses.Problems
