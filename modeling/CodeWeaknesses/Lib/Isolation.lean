import CodeWeaknesses.Lib.Pool
import CodeWeaknesses.Lib.Prog

/-!
# Programs side by side

Programs that run over one state, each making the calls of one owner. What a call does can be
hidden from the other owners: then no program can tell an interleaved run from one in which it was
alone.

`Separates B owns A sim` says so of single calls. `sim k s s'` relates the state `s` of the
interleaved run to the state `s'` that the program of `k` would have reached alone.

Results:
* `Confined.bind`, `confined_await_bind`, `Confined.tryCatch`: the calls that a program makes,
  whatever state answers them.
* `Separates.run_alone`: **each program of an interleaved run makes the calls, and comes to the
  point, that it would alone.**
* `Separates.guarded_alone`: what is assumed of the choices of the run holds of those of each program.
* `Separates.run_hidden`: an owner without a program sees nothing of the run.
* `Separates.run_eq`: two schedules that give a program the same answers.
* `Separates.run_purged`: **the programs of one owner run as if there were no others.**
-/

namespace Lib

namespace Prog

variable {Op : Type} {Res : Op → Type} {ε α β C S : Type}

/-! ## The calls of a program -/

/-- The calls that the program makes, answered by `B` in any state, satisfy `ok`, and what it
    ends with satisfies `Q`. -/
def Confined (B : Backend Op Res ε C S) (ok : Op → Prop) (Q : Except ε α → Prop) : Prog Op Res ε α → Prop
  | ret a => Q (.ok a)
  | raise e => Q (.error e)
  | call o k => ok o ∧ ∀ c s, Confined B ok Q (k (B o c s).1)

section Rules

variable {B : Backend Op Res ε C S} {ok : Op → Prop}

theorem Confined.mono {ok' : Op → Prop} {Q Q' : Except ε α → Prop} {p : Prog Op Res ε α}
    (hok : ∀ o, ok o → ok' o) (hQ : ∀ r, Q r → Q' r) (h : Confined B ok Q p) : Confined B ok' Q' p := by
  induction p with
  | ret a => exact hQ _ h
  | raise e => exact hQ _ h
  | call o k ih => exact ⟨hok o h.1, fun c s => ih _ (h.2 c s)⟩

theorem Confined.bind {R : Except ε α → Prop} {Q : Except ε β → Prop} {p : Prog Op Res ε α}
    {f : α → Prog Op Res ε β} (hp : Confined B ok R p) (hok : ∀ a, R (.ok a) → Confined B ok Q (f a))
    (herr : ∀ e, R (.error e) → Q (.error e)) : Confined B ok Q (p >>= f) := by
  induction p with
  | ret a => exact hok a hp
  | raise e => exact herr e hp
  | call o k ih => exact ⟨hp.1, fun c s => ih _ (hp.2 c s)⟩

theorem Confined.tryCatch {R Q : Except ε α → Prop} {p : Prog Op Res ε α} {h : ε → Prog Op Res ε α}
    (hp : Confined B ok R p) (hok : ∀ a, R (.ok a) → Q (.ok a))
    (herr : ∀ e, R (.error e) → Confined B ok Q (h e)) : Confined B ok Q (Prog.tryCatch p h) := by
  induction p with
  | ret a => exact hok a hp
  | raise e => exact herr e hp
  | call o k ih => exact ⟨hp.1, fun c s => ih _ (hp.2 c s)⟩

/-- The rule for `let a ← await o; f a`. -/
theorem confined_await_bind {Q : Except ε β → Prop} {o : Op} {f : Res o → Prog Op Res ε β} (ho : ok o)
    (hok : ∀ c s s' a, B o c s = (.ok a, s') → Confined B ok Q (f a)) (herr : ∀ e, Q (.error e)) :
    Confined B ok Q (await o >>= f) := by
  rw [await_bind]
  refine ⟨ho, ?_⟩
  intro c s
  rcases hr : B o c s with ⟨r, s'⟩
  cases r with
  | ok a => exact hok c s s' a hr
  | error e => exact herr e

/-- A program of which nothing is asked. -/
theorem confined_of_forall {Q : Except ε α → Prop} (hok : ∀ o, ok o) (hQ : ∀ r, Q r) (p : Prog Op Res ε α) :
    Confined B ok Q p := by
  induction p with
  | ret a => exact hQ _
  | raise e => exact hQ _
  | call o k ih => exact ⟨hok o, fun c s => ih _⟩

theorem OnlyCalls.confined {p : Prog Op Res ε α} (h : OnlyCalls ok p) : Confined B ok (fun _ => True) p := by
  induction p with
  | ret a => trivial
  | raise e => trivial
  | call o k ih => exact ⟨h.1, fun c s => ih _ (h.2 _)⟩

theorem Confined.step {Q : Except ε α → Prop} {p : Prog Op Res ε α} (h : Confined B ok Q p) (c : C) (s : S) :
    Confined B ok Q (step B c (p, s)).1 := by
  cases p with
  | ret a => exact h
  | raise e => exact h
  | call o k => exact h.2 c s

end Rules

/-- The call that the program waits for. -/
def next? : Prog Op Res ε α → Option Op
  | call o _ => some o
  | _ => none

/-- The calls that are answered along the run. -/
def made (B : Backend Op Res ε C S) : List C → Prog Op Res ε α × S → List Op
  | [], _ => []
  | c :: cs, w => w.1.next?.toList ++ made B cs (step B c w)

end Prog

/-! ## Pools of programs -/

namespace Pool

open Prog

variable {Op : Type} {Res : Op → Type} {ε C S ι κ : Type} {α : ι → Type}

/-- Calls have owners. A call that is `k`'s is answered, and changes what `k` sees, as if there
    were no others; it changes nothing that another owner sees. -/
structure Separates (B : Backend Op Res ε C S) (owns : κ → Op → Prop) (A : Op → C → S → Prop)
    (sim : κ → S → S → Prop) : Prop where
  answers : ∀ {k o c s s'}, owns k o → A o c s → sim k s s' →
    (B o c s').1 = (B o c s).1 ∧ sim k (B o c s).2 (B o c s').2
  hides : ∀ {k k' o c s s'}, k' ≠ k → owns k' o → A o c s → sim k s s' → sim k (B o c s).2 s'

section Steps

variable {B : Backend Op Res ε C S} {owns : κ → Op → Prop} {A : Op → C → S → Prop} {sim : κ → S → S → Prop}
  {β : Type} {Q : Except ε β → Prop}

/-- One step of a program of `k`. -/
theorem Separates.step_self (hsep : Separates B owns A sim) {k : κ} {c : C} {s s' : S} {p : Prog Op Res ε β}
    (hp : Confined B (owns k) Q p) (hA : Prog.Admits A c (p, s)) (hsim : sim k s s') :
    (Prog.step B c (p, s')).1 = (Prog.step B c (p, s)).1 ∧
      sim k (Prog.step B c (p, s)).2 (Prog.step B c (p, s')).2 := by
  cases p with
  | ret a => exact ⟨rfl, hsim⟩
  | raise e => exact ⟨rfl, hsim⟩
  | call o k =>
    obtain ⟨hanswer, hnext⟩ := hsep.answers hp.1 hA hsim
    exact ⟨congrArg k hanswer, hnext⟩

/-- One step of a program of another owner. -/
theorem Separates.step_other (hsep : Separates B owns A sim) {k k' : κ} (hne : k' ≠ k) {c : C} {s s' : S}
    {p : Prog Op Res ε β} (hp : Confined B (owns k') Q p) (hA : Prog.Admits A c (p, s)) (hsim : sim k s s') :
    sim k (Prog.step B c (p, s)).2 s' := by
  cases p with
  | ret a => exact hsim
  | raise e => exact hsim
  | call o k => exact hsep.hides hne hp.1 hA hsim

end Steps

variable [DecidableEq ι]

/-- Tasks that are programs; a step answers one call. -/
def programs (B : Backend Op Res ε C S) : Stepper ι (fun i => Prog Op Res ε (α i)) S C :=
  fun _ c w => Prog.step B c w

/-- `A` admits the choice for the call that is answered. -/
def Admitted (A : Op → C → S → Prop) (x : ι × C) (w : Pool ι (fun i => Prog Op Res ε (α i)) S) : Prop :=
  Prog.Admits A x.2 (w.tasks x.1, w.state)

instance (A : Op → C → S → Prop) [∀ o c s, Decidable (A o c s)] (x : ι × C)
    (w : Pool ι (fun i => Prog Op Res ε (α i)) S) : Decidable (Admitted A x w) :=
  inferInstanceAs (Decidable (Prog.Admits A x.2 (w.tasks x.1, w.state)))

/-- The choices of the steps that task `i` takes. -/
def own (i : ι) (sched : List (ι × C)) : List C := (sched.filter fun x => x.1 = i).map Prod.snd

/-- The calls of task `i` that are answered along the schedule. -/
def madeBy (B : Backend Op Res ε C S) (i : ι) : List (ι × C) → Pool ι (fun i => Prog Op Res ε (α i)) S → List Op
  | [], _ => []
  | x :: sched, w =>
    (if x.1 = i then (w.tasks i).next?.toList else []) ++ madeBy B i sched (step (programs B) x w)

theorem own_cons_self (i : ι) (c : C) (sched : List (ι × C)) : own i ((i, c) :: sched) = c :: own i sched := by
  simp [own]

theorem own_cons_of_ne {i : ι} {x : ι × C} (h : x.1 ≠ i) (sched : List (ι × C)) :
    own i (x :: sched) = own i sched := by
  simp [own, h]

section Alone

variable {B : Backend Op Res ε C S} {owns : κ → Op → Prop} {A : Op → C → S → Prop} {sim : κ → S → S → Prop}
  {Q : (i : ι) → Except ε (α i) → Prop} {key : ι → κ}

/-- Every program keeps to the calls of its owner. -/
theorem confined_step {w : Pool ι (fun i => Prog Op Res ε (α i)) S}
    (h : ∀ i, Confined B (owns (key i)) (Q i) (w.tasks i)) (x : ι × C) (i : ι) :
    Confined B (owns (key i)) (Q i) ((step (programs B) x w).tasks i) := by
  by_cases hi : i = x.1
  · subst hi
    rw [step_tasks_self]
    exact (h x.1).step x.2 w.state
  · rw [step_tasks_of_ne hi]
    exact h i

theorem confined_run (sched : List (ι × C)) : ∀ {w : Pool ι (fun i => Prog Op Res ε (α i)) S},
    (∀ i, Confined B (owns (key i)) (Q i) (w.tasks i)) →
      ∀ i, Confined B (owns (key i)) (Q i) ((run (programs B) sched w).tasks i) := by
  induction sched with
  | nil => exact fun h => h
  | cons x sched ih => exact fun h => ih (confined_step h x)

/-- An owner whom no program belongs to sees nothing of the run. -/
theorem Separates.run_hidden (hsep : Separates B owns A sim) {k : κ} (hk : ∀ i, key i ≠ k)
    (sched : List (ι × C)) : ∀ {w : Pool ι (fun i => Prog Op Res ε (α i)) S} {s' : S},
      (∀ j, Confined B (owns (key j)) (Q j) (w.tasks j)) → Guarded (programs B) (Admitted A) sched w →
        sim k w.state s' → sim k (run (programs B) sched w).state s' := by
  induction sched with
  | nil => exact fun _ _ hsim => hsim
  | cons x sched ih =>
    intro w s' hconf hguard hsim
    exact ih (confined_step hconf x) hguard.2 (hsep.step_other (hk x.1) (hconf x.1) hguard.1 hsim)

/-- A step of a program in the pool is the one that it takes alone. -/
theorem Separates.step_own (hsep : Separates B owns A sim) {j : ι} {c : C}
    {w : Pool ι (fun i => Prog Op Res ε (α i)) S} {s' : S} (hconf : Confined B (owns (key j)) (Q j) (w.tasks j))
    (hA : Admitted A (j, c) w) (hsim : sim (key j) w.state s') :
    Prog.step B c (w.tasks j, s') =
        ((step (programs B) (j, c) w).tasks j, (Prog.step B c (w.tasks j, s')).2) ∧
      sim (key j) (step (programs B) (j, c) w).state (Prog.step B c (w.tasks j, s')).2 := by
  obtain ⟨htask, hsim'⟩ := hsep.step_self hconf hA hsim
  refine ⟨?_, hsim'⟩
  rw [step_tasks_self (j, c)]
  exact Prod.ext htask rfl

/-- Each program of an interleaved run makes the calls, and comes to the point, that it would have
    alone; what it sees of the state is the same. -/
theorem Separates.run_alone (hsep : Separates B owns A sim) (hkey : Function.Injective key) (i : ι)
    (sched : List (ι × C)) : ∀ {w : Pool ι (fun i => Prog Op Res ε (α i)) S} {s' : S},
      (∀ j, Confined B (owns (key j)) (Q j) (w.tasks j)) → Guarded (programs B) (Admitted A) sched w →
        sim (key i) w.state s' →
          (Prog.run B (own i sched) (w.tasks i, s')).1 = (run (programs B) sched w).tasks i ∧
            sim (key i) (run (programs B) sched w).state (Prog.run B (own i sched) (w.tasks i, s')).2 ∧
              made B (own i sched) (w.tasks i, s') = madeBy B i sched w := by
  induction sched with
  | nil => exact fun _ _ hsim => ⟨rfl, hsim, rfl⟩
  | cons x sched ih =>
    intro w s' hconf hguard hsim
    obtain ⟨hA, hrest⟩ := hguard
    obtain ⟨j, c⟩ := x
    have hconf' := confined_step hconf (j, c)
    by_cases hji : j = i
    · subst hji
      obtain ⟨hpoint, hsim'⟩ := hsep.step_own (hconf j) hA hsim
      obtain ⟨hend, hsim'', hmade⟩ := ih hconf' hrest hsim'
      rw [← hpoint] at hend hsim'' hmade
      rw [own_cons_self]
      refine ⟨hend, hsim'', ?_⟩
      rw [made, hmade, madeBy, if_pos rfl]
    · have hhidden := hsep.step_other (fun h => hji (hkey h)) (hconf j) hA hsim
      obtain ⟨hend, hsim', hmade⟩ := ih hconf' hrest hhidden
      rw [step_tasks_of_ne (Ne.symm hji)] at hend hsim' hmade
      rw [own_cons_of_ne hji]
      refine ⟨hend, hsim', ?_⟩
      rw [hmade, madeBy, if_neg hji, List.nil_append]

/-- What the owner of a call can say of its choice holds along the run that a program makes alone. -/
theorem Separates.guarded_alone (hsep : Separates B owns A sim) (hkey : Function.Injective key)
    {A' : Op → C → S → Prop}
    (hsee : ∀ k o c s s', owns k o → sim k s s' → A' o c s → A' o c s') (i : ι)
    (sched : List (ι × C)) : ∀ {w : Pool ι (fun i => Prog Op Res ε (α i)) S} {s' : S},
      (∀ j, Confined B (owns (key j)) (Q j) (w.tasks j)) → Guarded (programs B) (Admitted A) sched w →
        Guarded (programs B) (Admitted A') sched w → sim (key i) w.state s' →
          Prog.Guarded B A' (own i sched) (w.tasks i, s') := by
  induction sched with
  | nil => exact fun _ _ _ _ => trivial
  | cons x sched ih =>
    intro w s' hconf hguard hguard' hsim
    obtain ⟨hA, hrest⟩ := hguard
    obtain ⟨hA', hrest'⟩ := hguard'
    obtain ⟨j, c⟩ := x
    have hconf' := confined_step hconf (j, c)
    by_cases hji : j = i
    · subst hji
      obtain ⟨hpoint, hsim'⟩ := hsep.step_own (hconf j) hA hsim
      have hnext := ih hconf' hrest hrest' hsim'
      rw [← hpoint] at hnext
      rw [own_cons_self]
      refine ⟨?_, hnext⟩
      -- the choice answers a call of the owner of `i`
      have hcall := hconf j
      replace hA' : Prog.Admits A' c (w.tasks j, w.state) := hA'
      cases hp : w.tasks j with
      | ret a => trivial
      | raise e => trivial
      | call o k =>
        rw [hp] at hA' hcall
        exact hsee _ _ _ _ _ hcall.1 hsim hA'
    · have hhidden := hsep.step_other (fun h => hji (hkey h)) (hconf j) hA hsim
      have hnext := ih hconf' hrest hrest' hhidden
      rw [step_tasks_of_ne (Ne.symm hji)] at hnext
      rw [own_cons_of_ne hji]
      exact hnext

/-- Two schedules that give program `i` the same answers bring it to the same point, and to states
    that it cannot tell from one and the same. -/
theorem Separates.run_eq (hsep : Separates B owns A sim) (hkey : Function.Injective key)
    {w : Pool ι (fun i => Prog Op Res ε (α i)) S} {i : ι}
    (hconf : ∀ j, Confined B (owns (key j)) (Q j) (w.tasks j)) (hsim : sim (key i) w.state w.state)
    {sched sched' : List (ι × C)} (hguard : Guarded (programs B) (Admitted A) sched w)
    (hguard' : Guarded (programs B) (Admitted A) sched' w) (hown : own i sched = own i sched') :
    (run (programs B) sched w).tasks i = (run (programs B) sched' w).tasks i ∧
      ∃ s', sim (key i) (run (programs B) sched w).state s' ∧
        sim (key i) (run (programs B) sched' w).state s' := by
  obtain ⟨hend, hstate, _⟩ := hsep.run_alone hkey i sched hconf hguard hsim
  obtain ⟨hend', hstate', _⟩ := hsep.run_alone hkey i sched' hconf hguard' hsim
  rw [hown] at hend hstate
  exact ⟨hend.symm.trans hend', _, hstate, hstate'⟩

/-- The programs of the owner `k`, which may share what they see, run as if the steps of all other
    programs were not taken, from states and beside programs that they cannot tell apart. -/
theorem Separates.run_purged [DecidableEq κ] (hsep : Separates B owns A sim) {k : κ} (sched : List (ι × C)) :
    ∀ {w w' : Pool ι (fun i => Prog Op Res ε (α i)) S},
      (∀ j, Confined B (owns (key j)) (Q j) (w.tasks j)) → Guarded (programs B) (Admitted A) sched w →
        sim k w.state w'.state → (∀ i, key i = k → w'.tasks i = w.tasks i) →
          sim k (run (programs B) sched w).state
              (run (programs B) (sched.filter fun x => key x.1 = k) w').state ∧
            ∀ i, key i = k → (run (programs B) (sched.filter fun x => key x.1 = k) w').tasks i =
              (run (programs B) sched w).tasks i := by
  induction sched with
  | nil => exact fun _ _ hsim htasks => ⟨hsim, htasks⟩
  | cons x sched ih =>
    intro w w' hconf hguard hsim htasks
    obtain ⟨hA, hrest⟩ := hguard
    have hconf' := confined_step hconf x
    by_cases hx : key x.1 = k
    · rw [List.filter_cons_of_pos (by simpa using hx)]
      obtain ⟨htask, hsim'⟩ := hsep.step_self (hconf x.1) hA (hx.symm ▸ hsim)
      have hnext := fun hsim hown => @ih (step (programs B) x w) (step (programs B) x w') hconf' hrest hsim hown
      refine hnext ?_ ?_
      · show sim k (Prog.step B x.2 (w.tasks x.1, w.state)).2 (Prog.step B x.2 (w'.tasks x.1, w'.state)).2
        rw [htasks x.1 hx, ← hx]
        exact hsim'
      · intro i hi
        by_cases hix : i = x.1
        · subst hix
          rw [step_tasks_self, step_tasks_self]
          show (Prog.step B x.2 (w'.tasks x.1, w'.state)).1 = (Prog.step B x.2 (w.tasks x.1, w.state)).1
          rw [htasks x.1 hi]
          exact htask
        · rw [step_tasks_of_ne hix, step_tasks_of_ne hix, htasks i hi]
    · rw [List.filter_cons_of_neg (by simpa using hx)]
      refine ih hconf' hrest (hsep.step_other hx (hconf x.1) hA hsim) ?_
      intro i hi
      have hix : i ≠ x.1 := by
        rintro rfl
        exact hx hi
      rw [step_tasks_of_ne hix, htasks i hi]

end Alone

end Pool

end Lib
