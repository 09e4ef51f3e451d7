import CodeWeaknesses.Common.Basic
import CodeWeaknesses.Lib.Prog
import CodeWeaknesses.Lib.Table

/-!
# `AuthController` and `UserController`

Model of `auth/auth.controller.ts`, `auth/auth.service.ts`, `auth/guards/roles.guard.ts`,
`auth/jwt.strategy.ts`, `user/user.controller.ts`, `user/user.service.ts` and of the parts
of `commun/generic-crud.service.ts` that they use.

* A request passes the guards of its route, then the `ValidationPipe`, then its handler.
* A token is its payload. It verifies if it was issued and has not expired.
* `bcrypt` is a parameter. The salt of a request is drawn before it.
* A repository call may throw at any time (`Choice.fails`); then it has no effect.
* In a body, a field that is left out is `none` and a `null` is `some none`.
-/

namespace CodeWeaknesses.Auth

open Lib

/-! ## Data -/

/-- The exceptions of the controllers. A `badRequest` carries the messages of the pipe, an
    `error` is answered with status 500. -/
inductive HttpError where
  | badRequest (messages : List String)
  | unauthorized (message : String)
  | forbidden (message : String)
  | notFound (message : String)
  | error (message : String)
  deriving DecidableEq, Repr

/-- A row of the users, with the column of `TimestampEntity` that the queries filter on. -/
structure UserRow extends User where
  deletedAt : Option Date
  deriving DecidableEq, Repr

def UserRow.key (row : UserRow) : Id := row.id

/-- What `login` signs. -/
structure JwtPayload where
  name : String
  sub : Id
  role : Role
  deriving DecidableEq, Repr

/-- `LoginDto`, which `RegisterDto` extends. -/
structure LoginDto where
  name : String
  password : String

/-- `CreateUserDto`. -/
structure CreateUserDto where
  name : String
  password : String
  role : Option (Option Role)

/-- `UpdateUserDto`. -/
structure UpdateUserDto where
  name : Option (Option String)
  password : Option (Option String)
  role : Option (Option Role)

/-- The plain object that `create` saves. -/
structure NewUser where
  name : String
  passwordHash : String
  role : Option (Option Role)

/-- The columns that `UserController.update` passes on. -/
structure UserChanges where
  name : Option (Option String)
  passwordHash : Option String
  role : Option (Option Role)

/-- A user with changes merged into it; a column may have become `null`. -/
structure MergedUser where
  id : Id
  name : Option String
  passwordHash : String
  role : Option Role
  deletedAt : Option Date

/-! ## The environment -/

/-- The table of users and the tokens issued so far. -/
structure World where
  users : Table UserRow Id UserRow.key
  issued : List JwtPayload

/-- The calls of the controllers, services and guards. -/
inductive Op where
  | findAdmin
  | findByName (name : String)
  | findOne (id : Id)
  | insert (user : NewUser)
  | save (user : MergedUser)
  | softDelete (id : Id)
  | sign (payload : JwtPayload)
  | verify (bearer : Option JwtPayload)

/-- What a call returns. -/
@[reducible] def Res : Op → Type
  | .findAdmin => Option UserRow
  | .findByName _ => Option UserRow
  | .findOne _ => Option UserRow
  | .insert _ => UserRow
  | .save _ => Unit
  | .softDelete _ => Unit
  | .sign _ => JwtPayload
  | .verify _ => Option JwtPayload

/-- Whether the call goes to the database. -/
def Op.mayThrow : Op → Bool
  | .sign _ => false
  | .verify _ => false
  | _ => true

/-- What the model leaves open about a call: whether it throws, the uuid of a new row, the
    time, and whether the token has expired. -/
structure Choice where
  fails : Option String
  uuid : Id
  now : Date
  expired : Bool

/-- The row that a merged user is saved as, if no column is `null`. -/
def MergedUser.row? (user : MergedUser) : Option UserRow :=
  user.name.bind fun name => user.role.map fun role =>
    { id := user.id, name := name, passwordHash := user.passwordHash, role := role, deletedAt := user.deletedAt }

/-- The unique constraint on the names. -/
def World.nameFree (w : World) (name : String) (id : Id) : Prop :=
  ∀ row ∈ w.users.rows, row.id ≠ id → row.name ≠ name

instance (w : World) (name : String) (id : Id) : Decidable (w.nameFree name id) :=
  inferInstanceAs (Decidable (∀ row ∈ w.users.rows, row.id ≠ id → row.name ≠ name))

/-- `INSERT`; a role that is left out has its default. -/
def World.insert (w : World) (user : NewUser) (uuid : Id) : Except HttpError UserRow × World :=
  if user.role = some none then
    (.error (.error "null value in column violates not-null constraint"), w)
  else if w.nameFree user.name uuid ∧ w.users.find? uuid = none then
    let row : UserRow :=
      { id := uuid, name := user.name, passwordHash := user.passwordHash, role := user.role.join.getD .user,
        deletedAt := none }
    (.ok row, { w with users := w.users.upsert row })
  else (.error (.error "duplicate key value violates unique constraint"), w)

/-- `UPDATE` of a stored user. -/
def World.save (w : World) (user : MergedUser) : Except HttpError Unit × World :=
  match user.row? with
  | none => (.error (.error "null value in column violates not-null constraint"), w)
  | some row =>
    if w.nameFree row.name row.id then (.ok (), { w with users := w.users.upsert row })
    else (.error (.error "duplicate key value violates unique constraint"), w)

/-- `softDelete`. -/
def World.softDelete (w : World) (id : Id) (now : Date) : World :=
  (w.users.find? id).elim w fun row => { w with users := w.users.upsert { row with deletedAt := some now } }

/-- `findOne({ where: { id } })`. -/
def World.user? (w : World) (id : Id) : Option UserRow := (w.users.find? id).filter fun row => row.deletedAt = none

/-- A call that does not throw. -/
def answerOk (c : Choice) (w : World) : (o : Op) → Except HttpError (Res o) × World
  | .findAdmin => (.ok (w.users.rows.find? fun row => row.deletedAt = none ∧ row.role = .admin), w)
  | .findByName name => (.ok (w.users.rows.find? fun row => row.deletedAt = none ∧ row.name = name), w)
  | .findOne id => (.ok (w.user? id), w)
  | .insert user => w.insert user c.uuid
  | .save user => w.save user
  | .softDelete id => (.ok (), w.softDelete id c.now)
  | .sign payload => (.ok payload, { w with issued := w.issued ++ [payload] })
  | .verify bearer => (.ok (bearer.filter fun payload => payload ∈ w.issued ∧ c.expired = false), w)

/-- The answer to a call. -/
def answer : Backend Op Res HttpError Choice World := fun o c w =>
  match c.fails with
  | some message => if o.mayThrow then (.error (.error message), w) else answerOk c w o
  | none => answerOk c w o

/-- The calls of the controllers. -/
abbrev M := Prog Op Res HttpError

/-- `await` of one call. -/
abbrev await (o : Op) : M (Res o) := Prog.await o

/-- The functions of `bcrypt`: `hash(password, salt)` and `compare(password, hash)`. -/
structure Bcrypt where
  hash : String → String → String
  compare : String → String → Bool

/-! ## `UserService` -/

/-- `BaseService.findOne` (lines 22–32). -/
def findOne (id : Id) : M UserRow := do
  match ← await (.findOne id) with
  | none => throw (.notFound "Not Found")
  | some entity => pure entity

/-- `repository.merge`. -/
def merge (user : UserRow) (changes : UserChanges) : MergedUser where
  id := user.id
  name := changes.name.getD (some user.name)
  passwordHash := changes.passwordHash.getD user.passwordHash
  role := changes.role.getD (some user.role)
  deletedAt := user.deletedAt

/-- `BaseService.update` (lines 34–38). -/
def update (id : Id) (changes : UserChanges) : M MergedUser := do
  let existingEntity ← findOne id
  let mergedEntity := merge existingEntity changes
  await (.save mergedEntity)
  pure mergedEntity

/-- `BaseService.remove` (lines 40–43). -/
def remove (id : Id) : M Unit := do
  let _ ← findOne id
  await (.softDelete id)

/-- `onApplicationBootstrap` (lines 18–33). -/
def onApplicationBootstrap (bcrypt : Bcrypt) (salt : String) : M Unit := do
  match ← await .findAdmin with
  | some _ => pure ()
  | none =>
    let _ ← await (.insert
      { name := "superadmin", passwordHash := bcrypt.hash "admin123" salt, role := some (some .admin) })
    pure ()

/-! ## Guards -/

/-- The string of a role. -/
def roleText : Role → String
  | .admin => "admin"
  | .editor => "editor"
  | .user => "user"

/-- `user?.role?.includes(role)`. -/
def includes (user : Option JwtUser) (role : Role) : Bool :=
  user.any fun u => decide ((roleText role).toList <:+: (roleText u.role).toList)

/-- `RolesGuard.canActivate`. -/
def canActivate (requiredRoles : Option (List Role)) (user : Option JwtUser) : Bool :=
  match requiredRoles with
  | none => true
  | some roles => roles.any (includes user)

/-- What `@UseGuards` names. -/
inductive Guard where
  | jwt
  | roles

/-- The decorators of a handler: `@UseGuards` and `@Roles`. The classes have neither. -/
structure Route where
  useGuards : List Guard
  roles : Option (List Role)

/-- `JwtStrategy.validate`. -/
def validate (payload : JwtPayload) : JwtUser :=
  { userId := payload.sub, name := payload.name, role := payload.role }

/-- The guards in their order. `AuthGuard('jwt')` sets `req.user`, which is `user` here. -/
def activate (roles : Option (List Role)) (bearer : Option JwtPayload) : List Guard → Option JwtUser → M Unit
  | [], _ => pure ()
  | .jwt :: guards, _ => do
    match ← await (.verify bearer) with
    | none => throw (.unauthorized "Unauthorized")
    | some payload => activate roles bearer guards (some (validate payload))
  | .roles :: guards, user =>
    if canActivate roles user then activate roles bearer guards user
    else throw (.forbidden "Forbidden resource")

/-! ## The `ValidationPipe` -/

/-- `@IsNotEmpty()` of a name. -/
def nameErrors (name : String) : List String :=
  if name = "" then ["name should not be empty"] else []

/-- `@MinLength(6)` and `@IsNotEmpty()` of a password. -/
def passwordErrors (password : String) : List String :=
  (if password.length < 6 then ["Password must be at least 6 characters long"] else []) ++
    if password = "" then ["password should not be empty"] else []

def LoginDto.errors (dto : LoginDto) : List String := nameErrors dto.name ++ passwordErrors dto.password

def CreateUserDto.errors (dto : CreateUserDto) : List String := nameErrors dto.name ++ passwordErrors dto.password

/-- Every field is optional: nothing is checked of one that is left out or `null`. -/
def UpdateUserDto.errors (dto : UpdateUserDto) : List String :=
  dto.name.join.elim [] nameErrors ++ dto.password.join.elim [] passwordErrors

/-- The pipe rejects a body with errors. -/
def check (errors : List String) : M Unit :=
  if errors = [] then pure () else throw (.badRequest errors)

/-! ## The controllers -/

/-- What a request returns. -/
inductive Outcome where
  | accessToken (payload : JwtPayload)
  | created (user : UserRow)
  | updated (user : MergedUser)
  | removed

/-- `AuthService.login`. -/
def signIn (user : UserRow) : M Outcome := do
  let token ← await (.sign { name := user.name, sub := user.id, role := user.role })
  pure (.accessToken token)

/-- `AuthController.register` (lines 17–29). -/
def register (bcrypt : Bcrypt) (salt : String) (registerDto : LoginDto) : M Outcome := do
  let hashedPassword := bcrypt.hash registerDto.password salt
  let user ← await (.insert { name := registerDto.name, passwordHash := hashedPassword, role := some (some .user) })
  signIn user

/-- `AuthService.validateUser`. -/
def validateUser (bcrypt : Bcrypt) (name password : String) : M (Option UserRow) := do
  let user ← await (.findByName name)
  pure (user.filter fun u => bcrypt.compare password u.passwordHash)

/-- `AuthController.login` (lines 31–43). -/
def login (bcrypt : Bcrypt) (loginDto : LoginDto) : M Outcome := do
  match ← validateUser bcrypt loginDto.name loginDto.password with
  | none => throw (.unauthorized "Invalid credentials")
  | some user => signIn user

/-- `UserController.createPrivilegedUser` (lines 24–35). -/
def createPrivilegedUser (bcrypt : Bcrypt) (salt : String) (createUserDto : CreateUserDto) : M Outcome := do
  let hashedPassword := bcrypt.hash createUserDto.password salt
  let user ← await (.insert
    { name := createUserDto.name, passwordHash := hashedPassword, role := createUserDto.role })
  pure (.created user)

/-- What `UserController.update` makes of its body; an empty password counts as left out. -/
def updateData (bcrypt : Bcrypt) (salt : String) (updateUserDto : UpdateUserDto) : UserChanges where
  name := updateUserDto.name
  passwordHash := (updateUserDto.password.join.filter fun password => password ≠ "").map fun password =>
    bcrypt.hash password salt
  role := updateUserDto.role

/-- `UserController.update` (lines 47–56). -/
def updateUser (bcrypt : Bcrypt) (salt : String) (id : Id) (updateUserDto : UpdateUserDto) : M Outcome := do
  let user ← update id (updateData bcrypt salt updateUserDto)
  pure (.updated user)

/-- `UserController.remove` (lines 58–62). -/
def removeUser (id : Id) : M Outcome := do
  remove id
  pure .removed

/-! ## Requests -/

/-- A request with its body. -/
inductive Request where
  | register (registerDto : LoginDto)
  | login (loginDto : LoginDto)
  | createUser (createUserDto : CreateUserDto)
  | updateUser (id : Id) (updateUserDto : UpdateUserDto)
  | removeUser (id : Id)

/-- The decorators of its handler. -/
def routeOf : Request → Route
  | .register _ => { useGuards := [], roles := none }
  | .login _ => { useGuards := [], roles := none }
  | .createUser _ => { useGuards := [.jwt, .roles], roles := some [.admin] }
  | .updateUser .. => { useGuards := [], roles := none }
  | .removeUser _ => { useGuards := [], roles := some [.admin] }

/-- What the pipe finds in its body. -/
def Request.errors : Request → List String
  | .register registerDto => registerDto.errors
  | .login loginDto => loginDto.errors
  | .createUser createUserDto => createUserDto.errors
  | .updateUser _ updateUserDto => updateUserDto.errors
  | .removeUser _ => []

/-- Its handler. -/
def handler (bcrypt : Bcrypt) (salt : String) : Request → M Outcome
  | .register registerDto => register bcrypt salt registerDto
  | .login loginDto => login bcrypt loginDto
  | .createUser createUserDto => createPrivilegedUser bcrypt salt createUserDto
  | .updateUser id updateUserDto => updateUser bcrypt salt id updateUserDto
  | .removeUser id => removeUser id

/-- A request as it arrives: with the token of its caller, the salt drawn for it, and what
    its calls leave open. -/
structure Call where
  request : Request
  bearer : Option JwtPayload
  salt : String
  choices : ℕ → Choice

/-- The guards, the pipe and the handler. -/
def program (bcrypt : Bcrypt) (x : Call) : M Outcome := do
  activate (routeOf x.request).roles x.bearer (routeOf x.request).useGuards none
  check x.request.errors
  handler bcrypt x.salt x.request

/-- The state after a request. -/
def serve (bcrypt : Bcrypt) (w : World) (x : Call) : World := (Prog.eval answer (program bcrypt x) w x.choices).2

/-- The state after a sequence of requests. -/
def serveAll (bcrypt : Bcrypt) (w : World) (calls : List Call) : World := calls.foldl (serve bcrypt) w

/-- The state after the start of the application. -/
def boot (bcrypt : Bcrypt) (salt : String) (choices : ℕ → Choice) (w : World) : World :=
  (Prog.eval answer (onApplicationBootstrap bcrypt salt) w choices).2

/-! ### Roles -/

/-- No role is a part of another one. -/
theorem includes_some_iff (user : JwtUser) (role : Role) : includes (some user) role = true ↔ user.role = role := by
  obtain ⟨userId, name, role'⟩ := user
  cases role <;> cases role' <;> simp [includes] <;> decide

end CodeWeaknesses.Auth
