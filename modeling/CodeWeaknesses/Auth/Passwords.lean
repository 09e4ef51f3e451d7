import CodeWeaknesses.Auth.Privileges

/-!
# Who can log in

What clients know of the accounts, the names, passwords and roles, follows from the requests and
their responses. The table holds hashes, and rows that are deleted but keep their names.

Results:
* `eval_register`, `eval_createUser`, `eval_updateUser`, `eval_removeUser`: a request that fails
  writes nothing, and one that succeeds writes the row that its response promises.
* `Agrees.serve`, `Agrees.boot`: requests and restarts keep the table in step with the accounts.
* `login_iff`: **after any requests and restarts, a login is answered with a token iff the password
  is the one last given for the account of that name, if that account has not been removed; the
  token carries its id and role.**
-/

namespace CodeWeaknesses.Auth

open Lib

/-! ## Accounts -/

/-- An account, as its user knows it. -/
structure Account where
  name : String
  password : String
  role : Role
  removed : Bool

/-- The accounts by id. -/
abbrev Book := Id → Option Account

/-- The body of a `PATCH` applied to an account. -/
def Account.patch (acc : Account) (updateUserDto : UpdateUserDto) : Account :=
  { acc with
    name := updateUserDto.name.join.getD acc.name
    password := updateUserDto.password.join.getD acc.password
    role := updateUserDto.role.join.getD acc.role }

/-- What a request and its response say about the accounts. -/
def Book.record (book : Book) : Request → Except HttpError Outcome → Book
  | .register dto, .ok (.accessToken payload) =>
    Function.update book payload.sub
      (some { name := dto.name, password := dto.password, role := .user, removed := false })
  | .createUser dto, .ok (.created user) =>
    Function.update book user.id
      (some { name := dto.name, password := dto.password, role := dto.role.join.getD .user, removed := false })
  | .updateUser id dto, .ok _ => Function.update book id ((book id).map fun acc => acc.patch dto)
  | .removeUser id, .ok _ => Function.update book id ((book id).map fun acc => { acc with removed := true })
  | _, _ => book

/-- The account of the bootstrap. -/
def superadminAccount : Account :=
  { name := "superadmin", password := "admin123", role := .admin, removed := false }

/-- The bootstrap is needed and can be done: no admin is left, and neither the name nor the id is
    taken. -/
structure Book.NeedsAdmin (book : Book) (uuid : Id) : Prop where
  noAdmin : ∀ id acc, book id = some acc → acc.removed = false → acc.role ≠ .admin
  nameFree : ∀ id acc, book id = some acc → acc.name ≠ "superadmin"
  idFree : book uuid = none

open Classical in
/-- The accounts after a restart; the bootstrap makes two calls. -/
noncomputable def Book.restart (book : Book) (choices : ℕ → Choice) : Book :=
  if (choices 0).fails = none ∧ (choices 1).fails = none ∧ book.NeedsAdmin (choices 1).uuid then
    Function.update book (choices 1).uuid (some superadminAccount)
  else book

/-! ## Runs -/

/-- What happens to the application: a request, or a restart. -/
inductive Event where
  | request (x : Call)
  | restart (salt : String) (choices : ℕ → Choice)

/-- The response to a request. -/
def respond (bcrypt : Bcrypt) (w : World) (x : Call) : Except HttpError Outcome :=
  (Prog.eval answer (program bcrypt x) w x.choices).1

def Event.apply (bcrypt : Bcrypt) (w : World) : Event → World
  | .request x => serve bcrypt w x
  | .restart salt choices => boot bcrypt salt choices w

/-- The accounts after an event. -/
noncomputable def Book.after (bcrypt : Bcrypt) (w : World) (book : Book) : Event → Book
  | .request x => book.record x.request (respond bcrypt w x)
  | .restart _ choices => book.restart choices

/-- The store and the accounts, from an empty store on. -/
noncomputable def history (bcrypt : Bcrypt) (events : List Event) : World × Book :=
  events.foldl (fun s event => (event.apply bcrypt s.1, s.2.after bcrypt s.1 event))
    ({ users := .empty, issued := [] }, fun _ => none)

/-! ## The table and the accounts -/

/-- The row of an account. -/
structure Keeps (bcrypt : Bcrypt) (row : UserRow) (acc : Account) : Prop where
  name : row.name = acc.name
  password : ∃ salt, row.passwordHash = bcrypt.hash acc.password salt
  role : row.role = acc.role
  removed : row.deletedAt.isSome = acc.removed

/-- The table holds the accounts, under different names. -/
structure Agrees (bcrypt : Bcrypt) (w : World) (book : Book) : Prop where
  refines : w.users.Refines (Keeps bcrypt) book
  names : ∀ row ∈ w.users.rows, ∀ row' ∈ w.users.rows, row.name = row'.name → row = row'

section Agrees

variable {bcrypt : Bcrypt} {w w' : World} {book : Book} {row : UserRow} {acc : Account}

theorem Agrees.of_users (h : Agrees bcrypt w book) (husers : w'.users = w.users) : Agrees bcrypt w' book where
  refines := husers ▸ h.refines
  names := husers ▸ h.names

/-- A row is written under a name that is free. -/
theorem Agrees.upsert (h : Agrees bcrypt w book) (hw : w'.users = w.users.upsert row)
    (hfree : w.nameFree row.name row.id) (hkeeps : Keeps bcrypt row acc) :
    Agrees bcrypt w' (Function.update book row.id (some acc)) where
  refines := by
    rw [hw]
    exact h.refines.upsert hkeeps
  names := by
    intro a ha b hb hname
    rcases (mem_written hw).mp ha with rfl | ⟨ha, hane⟩ <;> rcases (mem_written hw).mp hb with rfl | ⟨hb, hbne⟩
    · rfl
    · exact absurd hname.symm (hfree b hb hbne)
    · exact absurd hname (hfree a ha hane)
    · exact h.names a ha b hb hname

theorem agrees_empty : Agrees bcrypt { users := .empty, issued := [] } fun _ => none where
  refines := Table.refines_empty
  names := by rintro row ⟨⟩

end Agrees

/-! ## Calls -/

section Calls

variable {w : World} {c : Choice}

/-- The row of an insert. -/
def NewUser.row (user : NewUser) (uuid : Id) : UserRow :=
  { id := uuid, name := user.name, passwordHash := user.passwordHash, role := user.role.join.getD .user,
    deletedAt := none }

/-- An insert throws, or writes its row under a name and an id that are free. -/
theorem answer_insert_row (user : NewUser) :
    (∃ e, answer (.insert user) c w = (.error e, w)) ∨
      answer (.insert user) c w = (.ok (user.row c.uuid), { w with users := w.users.upsert (user.row c.uuid) }) ∧
        w.nameFree user.name c.uuid ∧ w.users.find? c.uuid = none := by
  cases hc : c.fails with
  | some message => exact .inl ⟨_, answer_of_throws hc rfl⟩
  | none =>
    rw [answer_of_fails_none hc]
    show (∃ e, w.insert user c.uuid = (.error e, w)) ∨ w.insert user c.uuid = _ ∧ _
    unfold World.insert
    split_ifs with hnull hfree
    · exact .inl ⟨_, rfl⟩
    · exact .inr ⟨rfl, hfree⟩
    · exact .inl ⟨_, rfl⟩

/-- A save throws, or writes the row under a name that is free. -/
theorem answer_save (user : MergedUser) :
    (∃ e, answer (.save user) c w = (.error e, w)) ∨
      ∃ row, user.row? = some row ∧ w.nameFree row.name row.id ∧
        answer (.save user) c w = (.ok (), { w with users := w.users.upsert row }) := by
  cases hc : c.fails with
  | some message => exact .inl ⟨_, answer_of_throws hc rfl⟩
  | none =>
    rw [answer_of_fails_none hc]
    show (∃ e, w.save user = (.error e, w)) ∨ ∃ row, user.row? = some row ∧ _ ∧ w.save user = _
    unfold World.save
    cases hrow : user.row? with
    | none => exact .inl ⟨_, rfl⟩
    | some row =>
      simp only
      split_ifs with hfree
      · exact .inr ⟨row, rfl, hfree, rfl⟩
      · exact .inl ⟨_, rfl⟩

theorem eval_signIn (user : UserRow) (cs : ℕ → Choice) :
    Prog.eval answer (signIn user) w cs =
      (.ok (.accessToken { name := user.name, sub := user.id, role := user.role }),
        { w with issued := w.issued ++ [{ name := user.name, sub := user.id, role := user.role }] }) := by
  have hsign : answer (.sign { name := user.name, sub := user.id, role := user.role }) (cs 0) w =
      (.ok { name := user.name, sub := user.id, role := user.role },
        { w with issued := w.issued ++ [{ name := user.name, sub := user.id, role := user.role }] }) := by
    unfold answer
    cases (cs 0).fails <;> rfl
  exact Prog.eval_await_bind_ok hsign

end Calls

/-! ## Handlers -/

section Handlers

variable {bcrypt : Bcrypt} {w : World} {cs : ℕ → Choice} {salt : String}

/-- How a handler ends that writes `row` and returns `outcome`. -/
structure Wrote (r : Except HttpError Outcome × World) (w : World) (row : UserRow) (outcome : Outcome) : Prop where
  outcome : r.1 = .ok outcome
  users : r.2.users = w.users.upsert row
  nameFree : w.nameFree row.name row.id

/-- A handler that failed. -/
def Failed (r : Except HttpError Outcome × World) (w : World) : Prop := ∃ e, r = (.error e, w)

theorem eval_register (dto : LoginDto) :
    Failed (Prog.eval answer (register bcrypt salt dto) w cs) w ∨
      ∃ row, row.name = dto.name ∧ row.passwordHash = bcrypt.hash dto.password salt ∧ row.role = .user ∧
        row.deletedAt = none ∧ Wrote (Prog.eval answer (register bcrypt salt dto) w cs) w row
          (.accessToken { name := row.name, sub := row.id, role := row.role }) := by
  unfold register
  rcases answer_insert_row (w := w) (c := cs 0)
    { name := dto.name, passwordHash := bcrypt.hash dto.password salt, role := some (some .user) } with
    ⟨e, hinsert⟩ | ⟨hinsert, hfree, _⟩
  · rw [Prog.eval_await_bind_error hinsert]
    exact .inl ⟨e, rfl⟩
  · rw [Prog.eval_await_bind_ok hinsert, eval_signIn]
    exact .inr ⟨_, rfl, rfl, rfl, rfl, rfl, rfl, hfree⟩

theorem eval_createUser (dto : CreateUserDto) :
    Failed (Prog.eval answer (createPrivilegedUser bcrypt salt dto) w cs) w ∨
      ∃ row, row.name = dto.name ∧ row.passwordHash = bcrypt.hash dto.password salt ∧
        row.role = dto.role.join.getD .user ∧ row.deletedAt = none ∧
          Wrote (Prog.eval answer (createPrivilegedUser bcrypt salt dto) w cs) w row (.created row) := by
  unfold createPrivilegedUser
  rcases answer_insert_row (w := w) (c := cs 0)
    { name := dto.name, passwordHash := bcrypt.hash dto.password salt, role := dto.role } with
    ⟨e, hinsert⟩ | ⟨hinsert, hfree, _⟩
  · rw [Prog.eval_await_bind_error hinsert]
    exact .inl ⟨e, rfl⟩
  · rw [Prog.eval_await_bind_ok hinsert]
    exact .inr ⟨_, rfl, rfl, rfl, rfl, rfl, rfl, hfree⟩

/-- The lookup of a `PATCH` or a `DELETE`: the account is there and not removed. -/
theorem eval_findOne_bind {α : Type} {P : Except HttpError α × World → Prop} (id : Id) (f : UserRow → M α)
    (hfail : ∀ e, P (.error e, w))
    (hfound : ∀ row, w.user? id = some row → P (Prog.eval answer (f row) w (Prog.skip 1 cs))) :
    P (Prog.eval answer (findOne id >>= f) w cs) := by
  unfold findOne
  rw [Prog.bind_bind]
  cases hc : (cs 0).fails with
  | some message =>
    rw [Prog.eval_await_bind_error (answer_of_throws hc rfl)]
    exact hfail _
  | none =>
    have hfind : answer (.findOne id) (cs 0) w = (.ok (w.user? id), w) := answer_of_fails_none hc
    rw [Prog.eval_await_bind_ok hfind]
    cases hrow : w.user? id with
    | none => exact hfail _
    | some row => exact hfound row hrow

theorem eval_updateUser (id : Id) (dto : UpdateUserDto) :
    Failed (Prog.eval answer (updateUser bcrypt salt id dto) w cs) w ∨
      ∃ row row', w.user? id = some row ∧ (merge row (updateData bcrypt salt dto)).row? = some row' ∧
        Wrote (Prog.eval answer (updateUser bcrypt salt id dto) w cs) w row'
          (.updated (merge row (updateData bcrypt salt dto))) := by
  unfold updateUser update
  rw [Prog.bind_bind]
  refine eval_findOne_bind (P := fun r => Failed r w ∨ ∃ row row', w.user? id = some row ∧
    (merge row (updateData bcrypt salt dto)).row? = some row' ∧
      Wrote r w row' (.updated (merge row (updateData bcrypt salt dto)))) id _ (fun e => .inl ⟨e, rfl⟩) ?_
  intro row hrow
  simp only [Prog.bind_bind]
  rcases answer_save (w := w) (c := Prog.skip 1 cs 0) (merge row (updateData bcrypt salt dto)) with
    ⟨e, hsave⟩ | ⟨row', hrow', hfree, hsave⟩
  · rw [Prog.eval_await_bind_error hsave]
    exact .inl ⟨e, rfl⟩
  · rw [Prog.eval_await_bind_ok hsave]
    exact .inr ⟨row, row', hrow, hrow', rfl, rfl, hfree⟩

theorem eval_removeUser (id : Id) :
    Failed (Prog.eval answer (removeUser id) w cs) w ∨
      ∃ row now, w.user? id = some row ∧
        Prog.eval answer (removeUser id) w cs = (.ok .removed, w.softDelete id now) := by
  unfold removeUser remove
  rw [Prog.bind_bind]
  refine eval_findOne_bind (P := fun r => Failed r w ∨ ∃ row now, w.user? id = some row ∧
    r = (.ok .removed, w.softDelete id now)) id _ (fun e => .inl ⟨e, rfl⟩) ?_
  intro row hrow
  cases hc : (Prog.skip 1 cs 0).fails with
  | some message =>
    rw [Prog.eval_await_bind_error (answer_of_throws hc rfl)]
    exact .inl ⟨_, rfl⟩
  | none =>
    have hremove : answer (.softDelete id) (Prog.skip 1 cs 0) w = (.ok (), w.softDelete id (Prog.skip 1 cs 0).now) :=
      answer_of_fails_none hc
    rw [Prog.eval_await_bind_ok hremove]
    exact .inr ⟨row, _, hrow, rfl⟩

/-- The row that a login finds. -/
def World.named? (w : World) (name : String) : Option UserRow :=
  w.users.rows.find? fun row => row.deletedAt = none ∧ row.name = name

/-- How a login ends that found `found` with the right password. -/
def signedIn (w : World) (found : Option UserRow) : Except HttpError Outcome × World :=
  found.elim (.error (.unauthorized "Invalid credentials"), w) fun user =>
    (.ok (.accessToken { name := user.name, sub := user.id, role := user.role }),
      { w with issued := w.issued ++ [{ name := user.name, sub := user.id, role := user.role }] })

theorem eval_signInOrThrow (found : Option UserRow) :
    Prog.eval answer ((pure found : M (Option UserRow)) >>= fun user =>
      match user with
      | none => throw (.unauthorized "Invalid credentials")
      | some user => signIn user) w cs = signedIn w found := by
  cases found with
  | none => rfl
  | some user => exact eval_signIn user cs

theorem eval_login (dto : LoginDto) :
    Prog.eval answer (login bcrypt dto) w cs =
      match (cs 0).fails with
      | some message => (.error (.error message), w)
      | none => signedIn w ((w.named? dto.name).filter fun u => bcrypt.compare dto.password u.passwordHash) := by
  unfold login validateUser
  rw [Prog.bind_bind]
  cases hc : (cs 0).fails with
  | some message => exact Prog.eval_await_bind_error (answer_of_throws hc rfl)
  | none =>
    have hfind : answer (.findByName dto.name) (cs 0) w = (.ok (w.named? dto.name), w) := answer_of_fails_none hc
    rw [Prog.eval_await_bind_ok hfind]
    exact eval_signInOrThrow _

theorem users_login (dto : LoginDto) : (Prog.eval answer (login bcrypt dto) w cs).2.users = w.users := by
  rw [eval_login]
  cases (cs 0).fails with
  | some message => rfl
  | none =>
    simp only
    cases (w.named? dto.name).filter fun u => bcrypt.compare dto.password u.passwordHash <;> rfl

/-- A login is answered with a token iff its account is found and the hash matches. -/
theorem login_ok_iff (dto : LoginDto) (outcome : Outcome) :
    (Prog.eval answer (login bcrypt dto) w cs).1 = .ok outcome ↔
      (cs 0).fails = none ∧ ∃ row, w.named? dto.name = some row ∧
        bcrypt.compare dto.password row.passwordHash = true ∧
          outcome = .accessToken { name := row.name, sub := row.id, role := row.role } := by
  rw [eval_login]
  cases hc : (cs 0).fails with
  | some message => exact ⟨by rintro ⟨⟩, by rintro ⟨⟨⟩, _⟩⟩
  | none =>
    have hvalid : ∀ row, (w.named? dto.name).filter (fun u => bcrypt.compare dto.password u.passwordHash) = some row ↔
        w.named? dto.name = some row ∧ bcrypt.compare dto.password row.passwordHash = true := fun row =>
      Option.filter_eq_some_iff
    simp only [true_and]
    cases hrow : (w.named? dto.name).filter fun u => bcrypt.compare dto.password u.passwordHash with
    | none =>
      refine ⟨by rintro ⟨⟩, ?_⟩
      rintro ⟨row, hnamed, hpass, _⟩
      cases hrow.symm.trans ((hvalid row).mpr ⟨hnamed, hpass⟩)
    | some row =>
      obtain ⟨hnamed, hpass⟩ := (hvalid row).mp hrow
      constructor
      · rintro ⟨⟩
        exact ⟨row, hnamed, hpass, rfl⟩
      · rintro ⟨row', hnamed', _, rfl⟩
        cases hnamed.symm.trans hnamed'
        rfl

end Handlers

/-! ## Requests -/

section Requests

variable {bcrypt : Bcrypt} {w : World} {book : Book}

/-- The guards throw, or let the request through. -/
theorem eval_activate_bind {α : Type} (roles : Option (List Role)) (bearer : Option JwtPayload) (f : Unit → M α) :
    ∀ (guards : List Guard) (user : Option JwtUser) (cs : ℕ → Choice),
      (∃ e, Prog.eval answer (activate roles bearer guards user >>= f) w cs = (.error e, w)) ∨
        ∃ n, Prog.eval answer (activate roles bearer guards user >>= f) w cs =
          Prog.eval answer (f ()) w (Prog.skip n cs)
  | [], _, _ => .inr ⟨0, rfl⟩
  | .jwt :: guards, user, cs => by
    unfold activate
    rw [Prog.bind_bind, Prog.eval_await_bind_ok (answer_verify bearer)]
    cases bearer.filter fun payload => payload ∈ w.issued ∧ (cs 0).expired = false with
    | none => exact .inl ⟨_, rfl⟩
    | some payload =>
      rcases eval_activate_bind roles bearer f guards (some (validate payload)) (Prog.skip 1 cs) with hfail | ⟨n, h⟩
      · exact .inl hfail
      · exact .inr ⟨1 + n, h.trans (by rw [Prog.skip_skip])⟩
  | .roles :: guards, user, cs => by
    unfold activate
    split_ifs
    · exact eval_activate_bind roles bearer f guards user cs
    · exact .inl ⟨_, rfl⟩

/-- A request is refused, or its handler runs on a valid body. -/
theorem eval_program (bcrypt : Bcrypt) (w : World) (x : Call) :
    (∃ e, Prog.eval answer (program bcrypt x) w x.choices = (.error e, w)) ∨
      x.request.errors = [] ∧ ∃ n, Prog.eval answer (program bcrypt x) w x.choices =
        Prog.eval answer (handler bcrypt x.salt x.request) w (Prog.skip n x.choices) := by
  unfold program
  rcases eval_activate_bind (w := w) (routeOf x.request).roles x.bearer
    (fun _ => check x.request.errors >>= fun _ => handler bcrypt x.salt x.request)
    (routeOf x.request).useGuards none x.choices with hfail | ⟨n, h⟩
  · exact .inl hfail
  · by_cases hvalid : x.request.errors = []
    · refine .inr ⟨hvalid, n, h.trans ?_⟩
      rw [check, if_pos hvalid]
      rfl
    · refine .inl ⟨.badRequest x.request.errors, h.trans ?_⟩
      rw [check, if_neg hvalid]
      rfl

theorem record_error (request : Request) (e : HttpError) : book.record request (.error e) = book := by
  cases request <;> rfl

theorem record_login (dto : LoginDto) (r : Except HttpError Outcome) : book.record (.login dto) r = book := by
  cases r <;> rfl

/-- An account that is found has its row, and is not removed. -/
theorem Agrees.of_user? (h : Agrees bcrypt w book) {id : Id} {row : UserRow} (hrow : w.user? id = some row) :
    w.users.find? id = some row ∧ row.deletedAt = none ∧ ∃ acc, book id = some acc ∧ Keeps bcrypt row acc := by
  obtain ⟨hfind, hlive⟩ := Option.filter_eq_some_iff.mp hrow
  exact ⟨hfind, of_decide_eq_true hlive, h.refines.of_find? hfind⟩

/-- The columns of a merged row. -/
theorem columns_of_row? {user : MergedUser} {row : UserRow} (h : user.row? = some row) :
    user.name = some row.name ∧ row.passwordHash = user.passwordHash ∧ user.role = some row.role := by
  unfold MergedUser.row? at h
  obtain ⟨name, hname, h⟩ := Option.bind_eq_some_iff.mp h
  obtain ⟨role, hrole, rfl⟩ := Option.map_eq_some_iff.mp h
  exact ⟨hname, rfl, hrole⟩

/-- A valid body has no empty password, so that an update sets every password that it is given. -/
theorem passwordHash_updateData {salt : String} {dto : UpdateUserDto} (hvalid : dto.errors = []) :
    (updateData bcrypt salt dto).passwordHash = dto.password.join.map fun password => bcrypt.hash password salt := by
  unfold updateData
  cases hpass : dto.password.join with
  | none => rfl
  | some password =>
    have herrors : passwordErrors password = [] := by
      have hall := (List.append_eq_nil_iff.mp hvalid).2
      rwa [hpass] at hall
    have hne : password ≠ "" := by
      rintro rfl
      cases herrors
    simp [Option.filter, hne]

/-- A column that is not `null` after a merge is the given one, or the old one. -/
theorem eq_of_getD_some {α : Type} {o : Option (Option α)} {a b : α} (h : o.getD (some a) = some b) :
    b = o.join.getD a := by
  rcases o with _ | _ | a' <;> cases h <;> rfl

/-- The merged row keeps the patched account. -/
theorem Keeps.patch {row row' : UserRow} {acc : Account} (h : Keeps bcrypt row acc) {salt : String}
    {dto : UpdateUserDto} (hvalid : dto.errors = [])
    (hrow' : (merge row (updateData bcrypt salt dto)).row? = some row') : Keeps bcrypt row' (acc.patch dto) := by
  obtain ⟨hname, hpass, hrole⟩ := columns_of_row? hrow'
  have hhash : row'.passwordHash =
      (dto.password.join.map fun password => bcrypt.hash password salt).getD row.passwordHash := by
    rw [hpass, ← passwordHash_updateData hvalid]
    rfl
  refine ⟨?_, ?_, ?_, ?_⟩
  · rw [Account.patch, ← h.name]
    exact eq_of_getD_some hname
  · rw [Account.patch, hhash]
    cases dto.password.join with
    | none => exact h.password
    | some password => exact ⟨salt, rfl⟩
  · rw [Account.patch, ← h.role]
    exact eq_of_getD_some hrole
  · rw [(key_of_row? hrow').2]
    exact h.removed

/-- A request that failed. -/
theorem Agrees.failed (h : Agrees bcrypt w book) {request : Request} {r : Except HttpError Outcome × World}
    (hfail : Failed r w) : Agrees bcrypt r.2 (book.record request r.1) := by
  obtain ⟨e, rfl⟩ := hfail
  rwa [record_error]

theorem Agrees.serve (h : Agrees bcrypt w book) (x : Call) :
    Agrees bcrypt (serve bcrypt w x) (book.record x.request (respond bcrypt w x)) := by
  unfold Auth.serve respond
  rcases eval_program bcrypt w x with ⟨e, heval⟩ | ⟨hvalid, n, heval⟩
  · rw [heval, record_error]
    exact h
  rw [heval]
  generalize Prog.skip n x.choices = cs
  cases hreq : x.request with
  | register dto =>
    rcases eval_register dto with hfail | ⟨row, hname, hhash, hrole, hlive, hwrote⟩
    · exact h.failed hfail
    · rw [handler, hwrote.outcome]
      exact h.upsert hwrote.users hwrote.nameFree ⟨hname, ⟨_, hhash⟩, hrole, by rw [hlive]; rfl⟩
  | login dto =>
    rw [record_login]
    exact h.of_users (users_login dto)
  | createUser dto =>
    rcases eval_createUser dto with hfail | ⟨row, hname, hhash, hrole, hlive, hwrote⟩
    · exact h.failed hfail
    · rw [handler, hwrote.outcome]
      exact h.upsert hwrote.users hwrote.nameFree ⟨hname, ⟨_, hhash⟩, hrole, by rw [hlive]; rfl⟩
  | updateUser id dto =>
    rw [hreq] at hvalid
    rcases eval_updateUser id dto with hfail | ⟨row, row', hrow, hrow', hwrote⟩
    · exact h.failed hfail
    · obtain ⟨hfind, _, acc, hacc, hkeeps⟩ := h.of_user? hrow
      have hid : row'.id = id := (key_of_row? hrow').1.trans (mem_users hfind).2
      rw [handler, hwrote.outcome]
      show Agrees bcrypt _ (Function.update book id ((book id).map fun acc => acc.patch dto))
      have hnext := h.upsert hwrote.users hwrote.nameFree (hkeeps.patch hvalid hrow')
      rw [hid] at hnext
      rw [hacc]
      exact hnext
  | removeUser id =>
    rcases eval_removeUser id with hfail | ⟨row, now, hrow, heval⟩
    · exact h.failed hfail
    · obtain ⟨hfind, _, acc, hacc, hkeeps⟩ := h.of_user? hrow
      obtain ⟨hmem, hid⟩ := mem_users hfind
      have hfree : w.nameFree row.name row.id := fun row' hrow' hne hname =>
        hne (congrArg (fun r : UserRow => r.id) (h.names row' hrow' row hmem hname))
      rw [handler, heval]
      show Agrees bcrypt (w.softDelete id now)
        (Function.update book id ((book id).map fun acc => { acc with removed := true }))
      have hkeeps' : Keeps bcrypt { row with deletedAt := some now } { acc with removed := true } :=
        ⟨hkeeps.name, hkeeps.password, hkeeps.role, rfl⟩
      have hw : (w.softDelete id now).users = w.users.upsert { row with deletedAt := some now } := by
        rw [World.softDelete, hfind]
        rfl
      have hnext := h.upsert hw hfree hkeeps'
      have hnext : Agrees bcrypt (w.softDelete id now)
        (Function.update book row.id (some { acc with removed := true })) := hnext
      rw [hid] at hnext
      rw [hacc]
      exact hnext

end Requests

/-! ## Restarts -/

section Restarts

variable {bcrypt : Bcrypt} {w : World} {book : Book}

/-- A live admin, as `findAdmin` looks for one. -/
def World.admin? (w : World) : Option UserRow :=
  w.users.rows.find? fun row => row.deletedAt = none ∧ row.role = .admin

/-- The user of the bootstrap. -/
def superadminUser (bcrypt : Bcrypt) (salt : String) : NewUser :=
  { name := "superadmin", passwordHash := bcrypt.hash "admin123" salt, role := some (some .admin) }

theorem Agrees.mem_of_row (h : Agrees bcrypt w book) {row : UserRow} (hrow : row ∈ w.users.rows) :
    ∃ acc, book row.id = some acc ∧ Keeps bcrypt row acc :=
  h.refines.of_find? (Table.find?_key hrow)

theorem Agrees.row_of_mem (h : Agrees bcrypt w book) {id : Id} {acc : Account} (hacc : book id = some acc) :
    ∃ row ∈ w.users.rows, row.id = id ∧ Keeps bcrypt row acc := by
  obtain ⟨row, hfind, hkeeps⟩ := h.refines.of_some hacc
  obtain ⟨hmem, hid⟩ := mem_users hfind
  exact ⟨row, hmem, hid, hkeeps⟩

/-- The two queries of the bootstrap find out whether it is needed and can be done. -/
theorem Agrees.needsAdmin_iff (h : Agrees bcrypt w book) (uuid : Id) :
    book.NeedsAdmin uuid ↔
      w.admin? = none ∧ w.nameFree "superadmin" uuid ∧ w.users.find? uuid = none := by
  constructor
  · intro hneeds
    refine ⟨List.find?_eq_none.mpr ?_, ?_, h.refines.eq_none_iff.mpr hneeds.idFree⟩
    · intro row hrow hadmin
      obtain ⟨hlive, hrole⟩ := of_decide_eq_true hadmin
      obtain ⟨acc, hacc, hkeeps⟩ := h.mem_of_row hrow
      have hremoved : acc.removed = false := by rw [← hkeeps.removed, hlive]; rfl
      exact hneeds.noAdmin row.id acc hacc hremoved (hkeeps.role.symm.trans hrole)
    · intro row hrow _ hname
      obtain ⟨acc, hacc, hkeeps⟩ := h.mem_of_row hrow
      exact hneeds.nameFree row.id acc hacc (hkeeps.name.symm.trans hname)
  · rintro ⟨hadmin, hfree, hnone⟩
    refine ⟨?_, ?_, h.refines.eq_none_iff.mp hnone⟩
    · intro id acc hacc hremoved hrole
      obtain ⟨row, hrow, _, hkeeps⟩ := h.row_of_mem hacc
      have hlive : row.deletedAt = none :=
        Option.not_isSome_iff_eq_none.mp (by rw [hkeeps.removed, hremoved]; exact Bool.false_ne_true)
      exact List.find?_eq_none.mp hadmin row hrow (decide_eq_true ⟨hlive, hkeeps.role.trans hrole⟩)
    · intro id acc hacc hname
      obtain ⟨row, hrow, hid, hkeeps⟩ := h.row_of_mem hacc
      refine hfree row hrow ?_ (hkeeps.name.trans hname)
      rintro rfl
      exact Table.find?_eq_none_iff.mp hnone row hrow rfl

/-- What a start does to the store. -/
theorem boot_eq (salt : String) (choices : ℕ → Choice) :
    boot bcrypt salt choices w =
      if (choices 0).fails = none ∧ w.admin? = none then
        (answer (.insert (superadminUser bcrypt salt)) (choices 1) w).2 else w := by
  unfold boot onApplicationBootstrap
  cases hc : (choices 0).fails with
  | some message =>
    rw [Prog.eval_await_bind_error (answer_of_throws hc rfl), if_neg (by rintro ⟨⟨⟩, _⟩)]
  | none =>
    have hfind : answer .findAdmin (choices 0) w = (.ok w.admin?, w) := answer_of_fails_none hc
    rw [Prog.eval_await_bind_ok hfind]
    cases w.admin? with
    | some row => rfl
    | none =>
      rw [if_pos ⟨rfl, rfl⟩]
      show (Prog.eval answer (await (.insert (superadminUser bcrypt salt)) >>= fun _ => pure ()) w
        (Prog.skip 1 choices)).2 = _
      rcases hr : answer (.insert (superadminUser bcrypt salt)) (choices 1) w with ⟨e | row, w'⟩
      · exact congrArg Prod.snd (Prog.eval_await_bind_error hr)
      · exact congrArg Prod.snd (Prog.eval_await_bind_ok hr)

/-- The insert of a bootstrap that is needed. -/
theorem Agrees.insertAdmin (h : Agrees bcrypt w book) (salt : String) (c : Choice) :
    Agrees bcrypt (answer (.insert (superadminUser bcrypt salt)) c w).2
      (if c.fails = none ∧ w.nameFree "superadmin" c.uuid ∧ w.users.find? c.uuid = none then
        Function.update book c.uuid (some superadminAccount) else book) := by
  cases hc : c.fails with
  | some message =>
    rw [answer_of_throws hc rfl, if_neg (by rintro ⟨⟨⟩, _⟩)]
    exact h
  | none =>
    rw [answer_of_fails_none hc]
    show Agrees bcrypt (w.insert (superadminUser bcrypt salt) c.uuid).2 _
    have hname : (superadminUser bcrypt salt).name = "superadmin" := rfl
    unfold World.insert
    rw [if_neg (by rintro ⟨⟩), hname]
    by_cases hfree : w.nameFree "superadmin" c.uuid ∧ w.users.find? c.uuid = none
    · rw [if_pos hfree, if_pos ⟨rfl, hfree⟩]
      have hkeeps : Keeps bcrypt ((superadminUser bcrypt salt).row c.uuid) superadminAccount :=
        ⟨rfl, ⟨salt, rfl⟩, rfl, rfl⟩
      exact h.upsert rfl hfree.1 hkeeps
    · rw [if_neg hfree, if_neg fun hall => hfree hall.2]
      exact h

theorem Agrees.boot (h : Agrees bcrypt w book) (salt : String) (choices : ℕ → Choice) :
    Agrees bcrypt (boot bcrypt salt choices w) (book.restart choices) := by
  rw [boot_eq]
  unfold Book.restart
  rw [h.needsAdmin_iff]
  by_cases hneeded : (choices 0).fails = none ∧ w.admin? = none
  · rw [if_pos hneeded]
    have hinsert := h.insertAdmin salt (choices 1)
    have hcond : ((choices 0).fails = none ∧ (choices 1).fails = none ∧ w.admin? = none ∧
        w.nameFree "superadmin" (choices 1).uuid ∧ w.users.find? (choices 1).uuid = none) ↔
          (choices 1).fails = none ∧ w.nameFree "superadmin" (choices 1).uuid ∧
            w.users.find? (choices 1).uuid = none := by
      rw [hneeded.1, hneeded.2]
      simp
    by_cases hall : (choices 1).fails = none ∧ w.nameFree "superadmin" (choices 1).uuid ∧
        w.users.find? (choices 1).uuid = none
    · rw [if_pos hall] at hinsert
      rwa [if_pos (hcond.mpr hall)]
    · rw [if_neg hall] at hinsert
      rwa [if_neg fun h' => hall (hcond.mp h')]
  · rw [if_neg hneeded, if_neg fun hall => hneeded ⟨hall.1, hall.2.2.1⟩]
    exact h

end Restarts

/-! ## Logins -/

section Logins

variable {bcrypt : Bcrypt} {w : World} {book : Book}

theorem history_append (events : List Event) (event : Event) :
    history bcrypt (events ++ [event]) =
      (event.apply bcrypt (history bcrypt events).1,
        (history bcrypt events).2.after bcrypt (history bcrypt events).1 event) := by
  rw [history, List.foldl_append]
  rfl

/-- Every event keeps the table in step with the accounts. -/
theorem agrees_history (events : List Event) : Agrees bcrypt (history bcrypt events).1 (history bcrypt events).2 := by
  induction events using List.reverseRecOn with
  | nil => exact agrees_empty
  | append_singleton events event ih =>
    rw [history_append]
    cases event with
    | request x => exact ih.serve x
    | restart salt choices => exact ih.boot salt choices

theorem live_of_named? {name : String} {row : UserRow} (h : w.named? name = some row) :
    row ∈ w.users.rows ∧ row.deletedAt = none ∧ row.name = name := by
  unfold World.named? at h
  have hlive := List.find?_some h
  exact ⟨List.mem_of_find?_eq_some h, of_decide_eq_true hlive⟩

theorem Agrees.named?_eq_some_iff (h : Agrees bcrypt w book) {name : String} {row : UserRow} :
    w.named? name = some row ↔ row ∈ w.users.rows ∧ row.deletedAt = none ∧ row.name = name := by
  refine ⟨live_of_named?, ?_⟩
  rintro ⟨hmem, hlive⟩
  cases hfound : w.named? name with
  | none => exact absurd (decide_eq_true hlive) (List.find?_eq_none.mp hfound row hmem)
  | some row' =>
    obtain ⟨hmem', _, hname'⟩ := live_of_named? hfound
    rw [h.names row' hmem' row hmem (hname'.trans hlive.2.symm)]

/-- A request without guards is answered by its handler, if its body is valid. -/
theorem respond_of_useGuards_nil {x : Call} (hroute : (routeOf x.request).useGuards = []) :
    respond bcrypt w x = if x.request.errors = [] then
      (Prog.eval answer (handler bcrypt x.salt x.request) w x.choices).1
    else .error (.badRequest x.request.errors) := by
  unfold respond program
  rw [hroute]
  show (Prog.eval answer (check x.request.errors >>= fun _ => handler bcrypt x.salt x.request) w x.choices).1 = _
  unfold check
  split_ifs <;> rfl

/-- **Main**: after any requests and restarts, a login is answered with a token iff its body is
    valid, its query does not throw and its password is that of the account of its name, which has
    not been removed. The token is for the id and the role of that account. -/
theorem login_iff {same : String → String → Prop}
    (hsame : ∀ password password' salt, bcrypt.compare password (bcrypt.hash password' salt) = true ↔
      same password password')
    (events : List Event) {x : Call} {dto : LoginDto} (hx : x.request = .login dto) (payload : JwtPayload) :
    respond bcrypt (history bcrypt events).1 x = .ok (.accessToken payload) ↔
      dto.errors = [] ∧ (x.choices 0).fails = none ∧
        ∃ acc, (history bcrypt events).2 payload.sub = some acc ∧ acc.removed = false ∧ acc.name = dto.name ∧
          same dto.password acc.password ∧ payload.name = acc.name ∧ payload.role = acc.role := by
  have hagrees : Agrees bcrypt (history bcrypt events).1 (history bcrypt events).2 := agrees_history events
  generalize history bcrypt events = s at hagrees ⊢
  obtain ⟨w, book⟩ := s
  rw [respond_of_useGuards_nil (by rw [hx]; rfl), hx]
  by_cases hvalid : dto.errors = []
  · rw [if_pos (show (Request.login dto).errors = [] from hvalid)]
    refine (login_ok_iff dto _).trans ?_
    simp only [hvalid, true_and, hagrees.named?_eq_some_iff]
    refine and_congr_right fun _ => ?_
    constructor
    · rintro ⟨row, ⟨hmem, hlive, hname⟩, hpass, hpayload⟩
      cases hpayload
      obtain ⟨acc, hacc, hkeeps⟩ := hagrees.mem_of_row hmem
      obtain ⟨salt, hhash⟩ := hkeeps.password
      rw [hhash, hsame] at hpass
      exact ⟨acc, hacc, by rw [← hkeeps.removed, hlive]; rfl, hkeeps.name.symm.trans hname, hpass, hkeeps.name,
        hkeeps.role⟩
    · rintro ⟨acc, hacc, hremoved, hname, hpass, hpayload⟩
      obtain ⟨row, hmem, hid, hkeeps⟩ := hagrees.row_of_mem hacc
      obtain ⟨salt, hhash⟩ := hkeeps.password
      have hlive : row.deletedAt = none :=
        Option.not_isSome_iff_eq_none.mp (by rw [hkeeps.removed, hremoved]; exact Bool.false_ne_true)
      refine ⟨row, ⟨hmem, hlive, hkeeps.name.trans hname⟩, by rw [hhash]; exact (hsame ..).mpr hpass, ?_⟩
      obtain ⟨name, sub, role⟩ := payload
      obtain ⟨rfl, rfl⟩ : name = acc.name ∧ role = acc.role := hpayload
      rw [hkeeps.name, hkeeps.role, hid]
  · rw [if_neg (show ¬ (Request.login dto).errors = [] from hvalid)]
    exact ⟨by rintro ⟨⟩, fun h => absurd h.1 hvalid⟩

end Logins

/-! ## A changed password -/

/-- A hash that can be read. -/
def readableBcrypt : Bcrypt where
  hash password _ := "$" ++ password
  compare password hash := hash = "$" ++ password

theorem readableBcrypt_compare (password password' salt : String) :
    readableBcrypt.compare password (readableBcrypt.hash password' salt) = true ↔ password' = password := by
  show decide ("$" ++ password' = "$" ++ password) = true ↔ _
  rw [decide_eq_true_iff]
  exact String.append_right_inj _

/-- `PATCH /user/u1` with a new password. -/
def newPassword : Call where
  request := .updateUser "u1" { name := none, password := some (some "secret2"), role := none }
  bearer := none
  salt := "$2b$"
  choices := newId ""

def loginOf (name password : String) : Call where
  request := .login { name := name, password := password }
  bearer := none
  salt := ""
  choices := newId ""

/-- After a registration and a change of the password, the new one is that of the account. -/
theorem login_iff_changed :
    respond readableBcrypt (history readableBcrypt [.request registration, .request newPassword]).1
        (loginOf "mallory" "secret2") =
      .ok (.accessToken { name := "mallory", sub := "u1", role := .user }) := by
  refine (login_iff readableBcrypt_compare [.request registration, .request newPassword] rfl _).mpr ?_
  exact ⟨rfl, rfl, { name := "mallory", password := "secret2", role := .user, removed := false }, rfl, rfl, rfl, rfl,
    rfl, rfl⟩

end CodeWeaknesses.Auth
