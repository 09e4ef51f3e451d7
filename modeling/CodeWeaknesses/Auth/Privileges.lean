import CodeWeaknesses.Auth.Users

/-!
# Who gives privileges

Which requests create an admin or an editor, change the role of an account, or delete an
account. `POST /user` checks the role of its caller. `PATCH /user/:id` has no guard, and
`DELETE /user/:id` names a role for a guard that it does not use.

Results:
* `privileged_upsert_iff`, `privileged_insert_iff`: what a written row does.
* `state_updateUser`, `state_removeUser`: what the two requests write.
* `byAdmin_of_privileged`: who can make a request that gives or takes privileges.
* `roles_serveAll`: while no admin makes a request, the admins and editors stay the same.
* `privileges_from_admins_iff`: **in a sequence of requests every step that gives or takes
  privileges is made by an admin, iff every `PATCH` that changes a role and every `DELETE`
  of an account is.**
* `anonymous_takeover`: a registered user makes itself an admin and deletes the superadmin.
-/

namespace CodeWeaknesses.Auth

open Lib

/-! ## Privileges -/

/-- An admin or editor account is new. -/
def Creates (w w' : World) : Prop :=
  ∃ row ∈ w'.users.rows, w.users.find? row.id = none ∧ row.role ≠ .user

/-- The role of a stored account is another one. -/
def ChangesRole (w w' : World) : Prop :=
  ∃ row ∈ w.users.rows, ∃ row' ∈ w'.users.rows, row'.id = row.id ∧ row'.role ≠ row.role

/-- A stored account has been deleted. -/
def SoftDeletes (w w' : World) : Prop :=
  ∃ row ∈ w.users.rows, ∃ row' ∈ w'.users.rows, row'.id = row.id ∧ row.deletedAt = none ∧ row'.deletedAt ≠ none

/-- What only admins may do. -/
def Privileged (w w' : World) : Prop := Creates w w' ∨ ChangesRole w w' ∨ SoftDeletes w w'

/-- The caller holds a token with the role admin. -/
def ByAdmin (w : World) (x : Call) : Prop :=
  ∃ payload ∈ w.issued, x.bearer = some payload ∧ payload.role = .admin

/-- The row that `PATCH` writes: the account is there, the body passes the pipe, no column
    becomes `null` and the name is free. -/
structure Patches (bcrypt : Bcrypt) (w : World) (x : Call) (id : Id) (updateUserDto : UpdateUserDto)
    (row row' : UserRow) : Prop where
  request : x.request = .updateUser id updateUserDto
  valid : updateUserDto.errors = []
  stored : w.user? id = some row
  merged : (merge row (updateData bcrypt x.salt updateUserDto)).row? = some row'
  nameFree : w.nameFree row'.name row'.id

/-- None of the two repository calls of a `PATCH` or a `DELETE` throws. -/
def CallsSucceed (x : Call) : Prop := (x.choices 0).fails = none ∧ (x.choices 1).fails = none

/-- A `PATCH` with another role than the stored one, or a `DELETE` of a stored account. -/
def Unguarded (bcrypt : Bcrypt) (w : World) (x : Call) : Prop :=
  CallsSucceed x ∧
    ((∃ id dto row row', Patches bcrypt w x id dto row row' ∧ row'.role ≠ row.role) ∨
      ∃ id, x.request = .removeUser id ∧ (w.user? id).isSome)

/-! ## What a written row does -/

section Written

variable {w w' : World} {row row' : UserRow}

theorem mem_users {id : Id} (h : w.users.find? id = some row) : row ∈ w.users.rows ∧ row.id = id :=
  Table.find?_eq_some_iff.mp h

theorem eq_of_mem_users (h : w.users.find? row'.id = some row) {stored : UserRow} (hstored : stored ∈ w.users.rows)
    (hid : row'.id = stored.id) : stored = row := by
  have hfind : w.users.find? stored.id = some stored := Table.find?_key hstored
  rw [← hid] at hfind
  exact Option.some.inj (hfind.symm.trans h)

theorem not_privileged_of_same (h : w'.users = w.users) : ¬ Privileged w w' := by
  have hsame : ∀ {a b}, a ∈ w.users.rows → b ∈ w'.users.rows → b.id = a.id → b = a := by
    intro a b ha hb hid
    rw [h] at hb
    exact eq_of_mem_users (hid ▸ Table.find?_key ha) hb rfl
  rintro (⟨a, ha, hnew, _⟩ | ⟨a, ha, b, hb, hid, hrole⟩ | ⟨a, ha, b, hb, hid, hnone, hsome⟩)
  · rw [h] at ha
    exact Table.find?_eq_none_iff.mp hnew a ha rfl
  · exact hrole (by rw [hsame ha hb hid])
  · rw [hsame ha hb hid] at hsome
    exact hsome hnone

theorem mem_written (hw : w'.users = w.users.upsert row') {b : UserRow} :
    b ∈ w'.users.rows ↔ b = row' ∨ b ∈ w.users.rows ∧ b.id ≠ row'.id := by
  rw [hw]
  exact Table.mem_upsert

/-- A row that is stored after the write is the written row, or was stored before it. -/
theorem written_or_same (hw : w'.users = w.users.upsert row') {a b : UserRow} (ha : a ∈ w.users.rows)
    (hb : b ∈ w'.users.rows) (hab : b.id = a.id) : b = row' ∨ a = b := by
  rcases (mem_written hw).mp hb with rfl | ⟨hb, _⟩
  · exact .inl rfl
  · exact .inr (eq_of_mem_users (hab ▸ Table.find?_key ha) hb rfl).symm

/-- A row written over a stored one. -/
theorem privileged_upsert_iff (hfind : w.users.find? row'.id = some row) (hw : w'.users = w.users.upsert row') :
    Privileged w w' ↔ row'.role ≠ row.role ∨ row.deletedAt = none ∧ row'.deletedAt ≠ none := by
  obtain ⟨hrow, hid⟩ := mem_users hfind
  constructor
  · rintro (⟨a, ha, hnew, _⟩ | ⟨a, ha, b, hb, hab, hrole⟩ | ⟨a, ha, b, hb, hab, hnone, hsome⟩)
    · rcases (mem_written hw).mp ha with rfl | ⟨ha, _⟩
      · cases hnew.symm.trans hfind
      · exact absurd rfl (Table.find?_eq_none_iff.mp hnew a ha)
    · rcases written_or_same hw ha hb hab with rfl | rfl
      · rw [← eq_of_mem_users hfind ha hab]
        exact .inl hrole
      · exact absurd rfl hrole
    · rcases written_or_same hw ha hb hab with rfl | rfl
      · rw [← eq_of_mem_users hfind ha hab]
        exact .inr ⟨hnone, hsome⟩
      · exact absurd hnone hsome
  · rintro (hrole | ⟨hnone, hsome⟩)
    · exact .inr (.inl ⟨row, hrow, row', (mem_written hw).mpr (.inl rfl), hid.symm, hrole⟩)
    · exact .inr (.inr ⟨row, hrow, row', (mem_written hw).mpr (.inl rfl), hid.symm, hnone, hsome⟩)

/-- A row written under a new id. -/
theorem privileged_insert_iff (hfind : w.users.find? row'.id = none) (hw : w'.users = w.users.upsert row') :
    Privileged w w' ↔ row'.role ≠ .user := by
  have hsame : ∀ {a b}, a ∈ w.users.rows → b ∈ w'.users.rows → b.id = a.id → a = b := by
    intro a b ha hb hab
    rcases written_or_same hw ha hb hab with rfl | hsame
    · exact absurd hab.symm (Table.find?_eq_none_iff.mp hfind a ha)
    · exact hsame
  constructor
  · rintro (⟨a, ha, hnew, hrole⟩ | ⟨a, ha, b, hb, hab, hrole⟩ | ⟨a, ha, b, hb, hab, hnone, hsome⟩)
    · rcases (mem_written hw).mp ha with rfl | ⟨ha, _⟩
      · exact hrole
      · exact absurd rfl (Table.find?_eq_none_iff.mp hnew a ha)
    · exact absurd (by rw [hsame ha hb hab]) hrole
    · rw [← hsame ha hb hab] at hsome
      exact absurd hnone hsome
  · exact fun hrole => .inl ⟨row', (mem_written hw).mpr (.inl rfl), hfind, hrole⟩

end Written

/-! ## What the calls do -/

section Calls

variable {w : World} {c : Choice}

theorem answer_of_throws {o : Op} {message : String} (hc : c.fails = some message) (ho : o.mayThrow = true) :
    answer o c w = (.error (.error message), w) := by
  simp only [answer, hc, ho, if_true]

theorem answer_of_fails_none {o : Op} (hc : c.fails = none) : answer o c w = answerOk c w o := by
  simp only [answer, hc]

theorem answer_verify (bearer : Option JwtPayload) :
    answer (.verify bearer) c w = (.ok (bearer.filter fun payload => payload ∈ w.issued ∧ c.expired = false), w) := by
  unfold answer
  cases c.fails <;> rfl

/-- Whether the call writes the users. -/
def Op.writesUsers : Op → Bool
  | .insert _ => true
  | .save _ => true
  | .softDelete _ => true
  | _ => false

theorem users_answer {o : Op} (ho : o.writesUsers = false) : (answer o c w).2.users = w.users := by
  have hok : (answerOk c w o).2.users = w.users := by
    cases o with
    | insert user => cases ho
    | save user => cases ho
    | softDelete id => cases ho
    | _ => rfl
  unfold answer
  cases c.fails with
  | none => exact hok
  | some message =>
    simp only
    split_ifs
    · rfl
    · exact hok

/-- A program that makes no such call leaves the users as they are. -/
theorem users_eval {α : Type} {p : M α} (hp : Prog.OnlyCalls (fun o => o.writesUsers = false) p) (cs : ℕ → Choice) :
    (Prog.eval answer p w cs).2.users = w.users :=
  hp.eval_keeps (I := fun w' : World => w'.users = w.users) (fun _ _ _ ho hw => (users_answer ho).trans hw) cs rfl

theorem onlyCalls_signIn (user : UserRow) : Prog.OnlyCalls (fun o => o.writesUsers = false) (signIn user) :=
  .bind (Prog.onlyCalls_await rfl) fun _ => trivial

/-- An insert throws, or writes a row under a new id. -/
theorem answer_insert (user : NewUser) :
    (∃ e, answer (.insert user) c w = (.error e, w)) ∨
      ∃ row, answer (.insert user) c w = (.ok row, { w with users := w.users.upsert row }) ∧
        w.users.find? row.id = none ∧ row.role = user.role.join.getD .user := by
  cases hc : c.fails with
  | some message => exact .inl ⟨_, answer_of_throws hc rfl⟩
  | none =>
    rw [answer_of_fails_none hc]
    show (∃ e, w.insert user c.uuid = (.error e, w)) ∨ ∃ row, w.insert user c.uuid = _ ∧ _
    unfold World.insert
    split_ifs with hnull hfree
    · exact .inl ⟨_, rfl⟩
    · exact .inr ⟨_, rfl, hfree.2, rfl⟩
    · exact .inl ⟨_, rfl⟩

end Calls

/-! ## What the requests do -/

section Requests

variable {bcrypt : Bcrypt} {w : World} {x : Call}

/-- A route without guards: the pipe, then the handler. -/
theorem serve_of_useGuards_nil (h : (routeOf x.request).useGuards = []) :
    serve bcrypt w x = if x.request.errors = [] then
      (Prog.eval answer (handler bcrypt x.salt x.request) w x.choices).2 else w := by
  unfold serve program
  rw [h]
  show (Prog.eval answer (check x.request.errors >>= fun _ => handler bcrypt x.salt x.request) w x.choices).2 = _
  unfold check
  split_ifs <;> rfl

/-- A registration creates an account with the role user. -/
theorem not_privileged_register {registerDto : LoginDto} (h : x.request = .register registerDto) :
    ¬ Privileged w (serve bcrypt w x) := by
  rw [serve_of_useGuards_nil (by rw [h]; rfl), h]
  split_ifs
  · show ¬ Privileged w (Prog.eval answer (await (.insert _) >>= signIn) w x.choices).2
    rcases answer_insert (w := w) (c := x.choices 0) ⟨registerDto.name, bcrypt.hash registerDto.password x.salt,
      some (some .user)⟩ with ⟨e, hinsert⟩ | ⟨row, hinsert, hnew, hrole⟩
    · rw [Prog.eval_await_bind_error hinsert]
      exact not_privileged_of_same rfl
    · rw [Prog.eval_await_bind_ok hinsert, privileged_insert_iff hnew (users_eval (onlyCalls_signIn row) _)]
      exact not_not.mpr hrole
  · exact not_privileged_of_same rfl

/-- A login changes no account. -/
theorem not_privileged_login {loginDto : LoginDto} (h : x.request = .login loginDto) :
    ¬ Privileged w (serve bcrypt w x) := by
  have hcalls : Prog.OnlyCalls (fun o => o.writesUsers = false) (login bcrypt loginDto) := by
    refine .bind (.bind (Prog.onlyCalls_await rfl) fun _ => trivial) fun user => ?_
    cases user with
    | none => trivial
    | some user => exact onlyCalls_signIn user
  rw [serve_of_useGuards_nil (by rw [h]; rfl), h]
  split_ifs
  · exact not_privileged_of_same (users_eval hcalls _)
  · exact not_privileged_of_same rfl

/-- The guards of `POST /user` let only admins through. -/
theorem not_privileged_createUser {createUserDto : CreateUserDto} (h : x.request = .createUser createUserDto)
    (hnot : ¬ ByAdmin w x) : ¬ Privileged w (serve bcrypt w x) := by
  have hsame : serve bcrypt w x = w := by
    unfold serve program
    rw [h]
    show (Prog.eval answer (.call (.verify x.bearer) _) w x.choices).2 = w
    rw [Prog.eval, answer_verify]
    cases hbearer : x.bearer.filter fun payload => payload ∈ w.issued ∧ (x.choices 0).expired = false with
    | none => rfl
    | some payload =>
      obtain ⟨hpayload, hissued⟩ := Option.filter_eq_some_iff.mp hbearer
      have hadmin : canActivate (some [.admin]) (some (validate payload)) = false := by
        refine Bool.eq_false_iff.mpr fun hroles => hnot ⟨payload, (of_decide_eq_true hissued).1, hpayload, ?_⟩
        rw [canActivate, List.any_cons, List.any_nil, Bool.or_false] at hroles
        exact (includes_some_iff _ _).mp hroles
      show (Prog.eval answer ((if canActivate (some [.admin]) (some (validate payload)) = true then _ else _) >>= _)
        w _).2 = w
      rw [if_neg (by rw [hadmin]; exact Bool.false_ne_true)]
      rfl
  exact not_privileged_of_same (congrArg World.users hsame)

/-- The first call of a `PATCH` or a `DELETE`. -/
theorem state_findOne_bind {α : Type} (id : Id) (f : UserRow → M α) (cs : ℕ → Choice) :
    (Prog.eval answer (findOne id >>= f) w cs).2 =
      if (cs 0).fails = none then
        (w.user? id).elim w fun row => (Prog.eval answer (f row) w (Prog.skip 1 cs)).2
      else w := by
  unfold findOne
  rw [Prog.bind_bind]
  cases hc : (cs 0).fails with
  | some message =>
    rw [Prog.eval_await_bind_error (answer_of_throws hc rfl), if_neg nofun]
  | none =>
    have hfind : answer (.findOne id) (cs 0) w = (.ok (w.user? id), w) := answer_of_fails_none hc
    rw [Prog.eval_await_bind_ok hfind, if_pos rfl]
    cases w.user? id <;> rfl

/-- A last call whose answer is returned. -/
theorem state_await_pure {o : Op} {α : Type} (ho : o.mayThrow = true) (f : Res o → α) (cs : ℕ → Choice) :
    (Prog.eval answer (await o >>= fun a => pure (f a)) w cs).2 =
      if (cs 0).fails = none then (answerOk (cs 0) w o).2 else w := by
  cases hc : (cs 0).fails with
  | some message =>
    rw [Prog.eval_await_bind_error (answer_of_throws hc ho), if_neg nofun]
  | none =>
    rw [if_pos rfl]
    rcases hr : answer o (cs 0) w with ⟨_ | a, w'⟩
    · rw [Prog.eval_await_bind_error hr, ← answer_of_fails_none hc, hr]
    · rw [Prog.eval_await_bind_ok hr, ← answer_of_fails_none hc, hr]
      rfl

theorem state_updateUser (salt : String) (id : Id) (updateUserDto : UpdateUserDto) (cs : ℕ → Choice) :
    (Prog.eval answer (updateUser bcrypt salt id updateUserDto) w cs).2 =
      if (cs 0).fails = none then
        (w.user? id).elim w fun row =>
          if (cs 1).fails = none then (w.save (merge row (updateData bcrypt salt updateUserDto))).2 else w
      else w := by
  unfold updateUser update
  rw [Prog.bind_bind, state_findOne_bind]
  simp only [Prog.bind_bind]
  congr 1
  congr 1
  funext row
  exact state_await_pure rfl _ _

theorem state_removeUser (id : Id) (cs : ℕ → Choice) :
    (Prog.eval answer (removeUser id) w cs).2 =
      if (cs 0).fails = none then
        (w.user? id).elim w fun _ => if (cs 1).fails = none then w.softDelete id (cs 1).now else w
      else w := by
  unfold removeUser remove
  rw [Prog.bind_bind, state_findOne_bind]
  congr 1
  congr 1
  funext row
  exact state_await_pure (o := .softDelete id) rfl (fun _ => Outcome.removed) _

theorem key_of_row? {user : MergedUser} {row : UserRow} (h : user.row? = some row) :
    row.id = user.id ∧ row.deletedAt = user.deletedAt := by
  unfold MergedUser.row? at h
  obtain ⟨name, _, hrole⟩ := Option.bind_eq_some_iff.mp h
  obtain ⟨role, _, rfl⟩ := Option.map_eq_some_iff.mp hrole
  exact ⟨rfl, rfl⟩

/-- A `PATCH` gives or takes privileges iff it writes another role. -/
theorem privileged_updateUser_iff {id : Id} {updateUserDto : UpdateUserDto}
    (h : x.request = .updateUser id updateUserDto) :
    Privileged w (serve bcrypt w x) ↔
      CallsSucceed x ∧ ∃ row row', Patches bcrypt w x id updateUserDto row row' ∧ row'.role ≠ row.role := by
  -- where the request writes nothing, it meets no condition of `Patches`
  have hsame : (∀ row row', CallsSucceed x → ¬ Patches bcrypt w x id updateUserDto row row') →
      (Privileged w w ↔
        CallsSucceed x ∧ ∃ row row', Patches bcrypt w x id updateUserDto row row' ∧ row'.role ≠ row.role) := by
    intro hno
    refine iff_of_false (not_privileged_of_same rfl) ?_
    rintro ⟨hcalls, row, row', hp, _⟩
    exact hno row row' hcalls hp
  rw [serve_of_useGuards_nil (by rw [h]; rfl)]
  by_cases hvalid : x.request.errors = []
  case neg =>
    rw [if_neg hvalid]
    refine hsame fun row row' _ hp => hvalid ?_
    rw [h]
    exact hp.valid
  rw [if_pos hvalid, h]
  show Privileged w (Prog.eval answer (updateUser bcrypt x.salt id updateUserDto) w x.choices).2 ↔ _
  rw [state_updateUser]
  by_cases hfirst : (x.choices 0).fails = none
  case neg =>
    rw [if_neg hfirst]
    exact hsame fun _ _ hcalls => absurd hcalls.1 hfirst
  rw [if_pos hfirst]
  cases hfind : w.user? id with
  | none =>
    refine hsame fun row row' _ hp => ?_
    cases hfind.symm.trans hp.stored
  | some row =>
    rw [Option.elim_some]
    by_cases hsecond : (x.choices 1).fails = none
    case neg =>
      rw [if_neg hsecond]
      exact hsame fun _ _ hcalls => absurd hcalls.2 hsecond
    rw [if_pos hsecond]
    unfold World.save
    cases hrow : (merge row (updateData bcrypt x.salt updateUserDto)).row? with
    | none =>
      refine hsame fun row₁ row' _ hp => ?_
      cases hfind.symm.trans hp.stored
      cases hrow.symm.trans hp.merged
    | some row' =>
      simp only
      split_ifs with hfree
      · obtain ⟨hstored, hlive⟩ := Option.filter_eq_some_iff.mp hfind
        obtain ⟨hid, hdeleted⟩ := key_of_row? hrow
        have hkey : w.users.find? row'.id = some row := by
          rw [hid]
          show w.users.find? row.id = some row
          rwa [(mem_users hstored).2]
        have hnone : row'.deletedAt = none := hdeleted.trans (of_decide_eq_true hlive)
        rw [privileged_upsert_iff hkey rfl]
        constructor
        · rintro (hrole | ⟨_, hsome⟩)
          · rw [h] at hvalid
            exact ⟨⟨hfirst, hsecond⟩, row, row', ⟨h, hvalid, hfind, hrow, hfree⟩, hrole⟩
          · exact absurd hnone hsome
        · rintro ⟨_, row₁, row₁', hp, hrole⟩
          cases hfind.symm.trans hp.stored
          cases hrow.symm.trans hp.merged
          exact .inl hrole
      · refine hsame fun row₁ row₁' _ hp => ?_
        cases hfind.symm.trans hp.stored
        cases hrow.symm.trans hp.merged
        exact hfree hp.nameFree

/-- A `DELETE` takes privileges iff it finds its account. -/
theorem privileged_removeUser_iff {id : Id} (h : x.request = .removeUser id) :
    Privileged w (serve bcrypt w x) ↔ CallsSucceed x ∧ (w.user? id).isSome := by
  rw [serve_of_useGuards_nil (by rw [h]; rfl), if_pos (by rw [h]; rfl), h]
  show Privileged w (Prog.eval answer (removeUser id) w x.choices).2 ↔ _
  rw [state_removeUser]
  by_cases hfirst : (x.choices 0).fails = none
  case neg =>
    rw [if_neg hfirst]
    exact iff_of_false (not_privileged_of_same rfl) fun hcalls => hfirst hcalls.1.1
  rw [if_pos hfirst]
  cases hfind : w.user? id with
  | none => exact iff_of_false (not_privileged_of_same rfl) fun hcalls => Bool.false_ne_true hcalls.2
  | some row =>
    rw [Option.elim_some]
    by_cases hsecond : (x.choices 1).fails = none
    case neg =>
      rw [if_neg hsecond]
      exact iff_of_false (not_privileged_of_same rfl) fun hcalls => hsecond hcalls.1.2
    rw [if_pos hsecond]
    obtain ⟨hstored, hlive⟩ := Option.filter_eq_some_iff.mp hfind
    have hkey : w.users.find? row.id = some row := by rwa [(mem_users hstored).2]
    refine iff_of_true ?_ ⟨⟨hfirst, hsecond⟩, rfl⟩
    unfold World.softDelete
    rw [hstored, Option.elim_some]
    refine (@privileged_upsert_iff w _ row { row with deletedAt := some (x.choices 1).now } hkey rfl).mpr ?_
    exact .inr ⟨of_decide_eq_true hlive, nofun⟩

/-- A request that gives or takes privileges comes from an admin, or is a `PATCH` or a
    `DELETE` that needs no token. -/
theorem byAdmin_of_privileged (h : Privileged w (serve bcrypt w x)) : ByAdmin w x ∨ Unguarded bcrypt w x := by
  cases hreq : x.request with
  | register registerDto => exact absurd h (not_privileged_register hreq)
  | login loginDto => exact absurd h (not_privileged_login hreq)
  | createUser createUserDto =>
    by_contra hnot
    exact not_privileged_createUser hreq (fun hadmin => hnot (.inl hadmin)) h
  | updateUser id updateUserDto =>
    obtain ⟨hcalls, row, row', hp⟩ := (privileged_updateUser_iff hreq).mp h
    exact .inr ⟨hcalls, .inl ⟨id, updateUserDto, row, row', hp⟩⟩
  | removeUser id =>
    obtain ⟨hcalls, hfound⟩ := (privileged_removeUser_iff hreq).mp h
    exact .inr ⟨hcalls, .inr ⟨id, hreq, hfound⟩⟩

theorem privileged_of_unguarded (h : Unguarded bcrypt w x) : Privileged w (serve bcrypt w x) := by
  obtain ⟨hcalls, ⟨id, dto, row, row', hp, hrole⟩ | ⟨id, hreq, hfound⟩⟩ := h
  · exact (privileged_updateUser_iff hp.request).mpr ⟨hcalls, row, row', hp, hrole⟩
  · exact (privileged_removeUser_iff hreq).mpr ⟨hcalls, hfound⟩

end Requests

/-! ## Sequences of requests -/

theorem serveAll_append (bcrypt : Bcrypt) (w : World) (pre : List Call) (x : Call) :
    serveAll bcrypt w (pre ++ [x]) = serve bcrypt (serveAll bcrypt w pre) x := by
  rw [serveAll, List.foldl_append]
  rfl

/-- As long as no request comes from an admin or is unguarded, the admins and editors are
    those of the start. -/
theorem roles_serveAll {bcrypt : Bcrypt} {w : World} {calls : List Call}
    (h : ∀ pre x, pre ++ [x] <+: calls →
      ¬ ByAdmin (serveAll bcrypt w pre) x ∧ ¬ Unguarded bcrypt (serveAll bcrypt w pre) x) :
    ∀ row ∈ (serveAll bcrypt w calls).users.rows, row.role ≠ .user →
      ∃ row₀ ∈ w.users.rows, row₀.id = row.id ∧ row₀.role = row.role := by
  induction calls using List.reverseRecOn with
  | nil => exact fun row hrow _ => ⟨row, hrow, rfl, rfl⟩
  | append_singleton calls x ih =>
    intro row hrow hrole
    obtain ⟨hadmin, hunguarded⟩ := h calls x List.prefix_rfl
    have hnot : ¬ Privileged (serveAll bcrypt w calls) (serve bcrypt (serveAll bcrypt w calls) x) :=
      fun hp => (byAdmin_of_privileged hp).elim hadmin hunguarded
    rw [serveAll_append] at hrow
    cases hfind : (serveAll bcrypt w calls).users.find? row.id with
    | none => exact absurd (.inl ⟨row, hrow, hfind, hrole⟩) hnot
    | some row₁ =>
      obtain ⟨hrow₁, hid⟩ := mem_users hfind
      have hsame : row.role = row₁.role := by
        by_contra hne
        exact hnot (.inr (.inl ⟨row₁, hrow₁, row, hrow, hid.symm, hne⟩))
      obtain ⟨row₀, hrow₀, hid₀, hrole₀⟩ :=
        ih (fun pre y hpre => h pre y (hpre.trans (List.prefix_append _ _))) row₁ hrow₁ (hsame ▸ hrole)
      exact ⟨row₀, hrow₀, hid₀.trans hid, hrole₀.trans hsame.symm⟩

/-- **Main**: from the start of the application, every step of a sequence of requests that
    gives or takes privileges is made by an admin, iff every `PATCH` that changes a role and
    every `DELETE` of an account is. -/
theorem privileges_from_admins_iff (bcrypt : Bcrypt) (salt : String) (choices : ℕ → Choice) (w : World)
    (calls : List Call) :
    (∀ pre x, pre ++ [x] <+: calls →
      Privileged (serveAll bcrypt (boot bcrypt salt choices w) pre)
        (serveAll bcrypt (boot bcrypt salt choices w) (pre ++ [x])) →
      ByAdmin (serveAll bcrypt (boot bcrypt salt choices w) pre) x) ↔
    ∀ pre x, pre ++ [x] <+: calls →
      Unguarded bcrypt (serveAll bcrypt (boot bcrypt salt choices w) pre) x →
      ByAdmin (serveAll bcrypt (boot bcrypt salt choices w) pre) x := by
  constructor
  · intro h pre x hpre hunguarded
    refine h pre x hpre ?_
    rw [serveAll_append]
    exact privileged_of_unguarded hunguarded
  · intro h pre x hpre hprivileged
    rw [serveAll_append] at hprivileged
    exact (byAdmin_of_privileged hprivileged).elim id (h pre x hpre)

/-! ## A takeover -/

/-- A hash that keeps the password readable. -/
def plainBcrypt : Bcrypt where
  hash password salt := salt ++ password
  compare password hash := hash.endsWith password

/-- No call throws, and a new row gets the given id. -/
def newId (uuid : Id) : ℕ → Choice := fun _ => { fails := none, uuid := uuid, now := 0, expired := false }

/-- A new store with the superadmin. -/
def seeded : World := boot plainBcrypt "$2b$" (newId "u0") { users := .empty, issued := [] }

def registration : Call where
  request := .register { name := "mallory", password := "secret1" }
  bearer := none
  salt := "$2b$"
  choices := newId "u1"

/-- `PATCH /user/u1` with the role admin, and no token. -/
def promotion : Call where
  request := .updateUser "u1" { name := none, password := none, role := some (some .admin) }
  bearer := none
  salt := "$2b$"
  choices := newId ""

/-- `DELETE /user/u0` with no token. -/
def deletion : Call where
  request := .removeUser "u0"
  bearer := none
  salt := "$2b$"
  choices := newId ""

def superadmin : UserRow :=
  { id := "u0", name := "superadmin", passwordHash := "$2b$admin123", role := .admin, deletedAt := none }

def mallory : UserRow :=
  { id := "u1", name := "mallory", passwordHash := "$2b$secret1", role := .user, deletedAt := none }

/-- A registered user becomes an admin, and the superadmin is deleted, by requests without a
    token. -/
theorem anonymous_takeover :
    let registered := serveAll plainBcrypt seeded [registration]
    let promoted := serveAll plainBcrypt seeded [registration, promotion]
    let deleted := serveAll plainBcrypt seeded [registration, promotion, deletion]
    (ChangesRole registered promoted ∧ ¬ ByAdmin registered promotion) ∧
      SoftDeletes promoted deleted ∧ ¬ ByAdmin promoted deletion := by
  have hregistered : (serveAll plainBcrypt seeded [registration]).users.rows = [superadmin, mallory] := rfl
  have hpromoted : (serveAll plainBcrypt seeded [registration, promotion]).users.rows =
      [superadmin, { mallory with role := .admin }] := rfl
  have hdeleted : (serveAll plainBcrypt seeded [registration, promotion, deletion]).users.rows =
      [{ superadmin with deletedAt := some 0 }, { mallory with role := .admin }] := rfl
  refine ⟨⟨⟨mallory, ?_, { mallory with role := .admin }, ?_, rfl, nofun⟩, ?_⟩,
    ⟨superadmin, ?_, { superadmin with deletedAt := some 0 }, ?_, rfl, rfl, nofun⟩, ?_⟩
  · simp [hregistered]
  · simp [hpromoted]
  · exact fun ⟨_, _, hbearer, _⟩ => by cases hbearer
  · simp [hpromoted]
  · simp [hdeleted]
  · exact fun ⟨_, _, hbearer, _⟩ => by cases hbearer

end CodeWeaknesses.Auth
