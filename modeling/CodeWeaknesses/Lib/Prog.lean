import Mathlib.Data.Nat.Notation
import Mathlib.Logic.Relation

/-!
# Sequential programs over an environment

A `Prog` is a program that talks to its environment by calls: it returns, raises
an error, or makes a call and goes on with the answer, which may itself be an
error. A `Backend` answers one call; what it cannot know (whether the call
fails, the time, a fresh id, what else happens meanwhile) is a choice of type
`C`, one for every call. Two executions are given: `run` consumes a list of
choices and stops when the list does, so its prefixes are the states between two
calls; `eval` consumes a stream of choices and always ends.

`Ensures B A G Q p s` is the program logic. From state `s`, along every choice
that `A` admits, each call of `p` changes the state only as `G` allows, and the
outcome satisfies `Q`.

Results:
* `Ensures.bind`, `Ensures.tryCatch`, `Ensures.mono`, `ensures_await_bind`: the
  rules for composing programs; `ensures_await_bind_flawless` when no call fails.
* `OnlyCalls.ensures`: a program that makes only calls that keep `I` keeps `I`.
* `Returns.ensures`: what every return value of a program satisfies.
* `spends_await_bind`, `Spends.step`: programs that raise a cost by a bounded amount,
  whatever runs beside them.
* `Ensures.run`, `Ensures.reachable`: soundness for every prefix of a run.
* `Ensures.eval`: soundness for whole executions.
* `Executes.of_bind`, `Executes.of_await_bind`, `Executes.of_tryCatch`: an execution of a
  composed program in parts.
-/

namespace Lib

/-- Programs with calls `o : Op` answered in `Res o` and errors in `ε`. -/
inductive Prog (Op : Type) (Res : Op → Type) (ε α : Type) where
  | ret (a : α)
  | raise (e : ε)
  | call (o : Op) (k : Except ε (Res o) → Prog Op Res ε α)

/-- The answer to a call and the state after it. -/
abbrev Backend (Op : Type) (Res : Op → Type) (ε C S : Type) :=
  (o : Op) → C → S → Except ε (Res o) × S

namespace Prog

variable {Op : Type} {Res : Op → Type} {ε α β C S : Type}

/-! ## Composition -/

protected def bind : Prog Op Res ε α → (α → Prog Op Res ε β) → Prog Op Res ε β
  | ret a, f => f a
  | raise e, _ => raise e
  | call o k, f => call o fun r => (k r).bind f

protected def tryCatch : Prog Op Res ε α → (ε → Prog Op Res ε α) → Prog Op Res ε α
  | ret a, _ => ret a
  | raise e, h => h e
  | call o k, h => call o fun r => (k r).tryCatch h

instance : Monad (Prog Op Res ε) where
  pure := ret
  bind := Prog.bind

instance : MonadExceptOf ε (Prog Op Res ε) where
  throw := raise
  tryCatch := Prog.tryCatch

/-- What the call answers to, an error being raised again. -/
def answered : Except ε α → Prog Op Res ε α
  | .ok a => ret a
  | .error e => raise e

/-- `await`: make the call and return what it answers. -/
def await (o : Op) : Prog Op Res ε (Res o) := call o answered

@[simp] theorem ret_bind (a : α) (f : α → Prog Op Res ε β) : (ret a >>= f) = f a := rfl

theorem bind_bind {γ : Type} (p : Prog Op Res ε α) (f : α → Prog Op Res ε β) (g : β → Prog Op Res ε γ) :
    (p >>= f >>= g) = p >>= fun a => f a >>= g := by
  induction p with
  | ret a => rfl
  | raise e => rfl
  | call o k ih => exact congrArg (call o) (funext ih)

theorem await_bind (o : Op) (f : Res o → Prog Op Res ε β) :
    (await o >>= f) = call o fun r => answered r >>= f := rfl

@[simp] theorem answered_ok (a : α) : (answered (.ok a) : Prog Op Res ε α) = ret a := rfl

/-! ## The program logic -/

/-- Along every choice that `A` admits, each call changes the state as `G` allows
    and the outcome satisfies `Q`. -/
def Ensures (B : Backend Op Res ε C S) (A : Op → C → S → Prop) (G : S → S → Prop)
    (Q : Except ε α → S → Prop) : Prog Op Res ε α → S → Prop
  | ret a, s => Q (.ok a) s
  | raise e, s => Q (.error e) s
  | call o k, s => ∀ c, A o c s → G s (B o c s).2 ∧ Ensures B A G Q (k (B o c s).1) (B o c s).2

section Rules

variable {B : Backend Op Res ε C S} {A : Op → C → S → Prop} {G : S → S → Prop}

theorem ensures_call {Q : Except ε α → S → Prop} {o : Op} {k : Except ε (Res o) → Prog Op Res ε α}
    {s : S} : Ensures B A G Q (call o k) s ↔
      ∀ c, A o c s → G s (B o c s).2 ∧ Ensures B A G Q (k (B o c s).1) (B o c s).2 := Iff.rfl

/-- Consequence: a weaker guarantee and a weaker postcondition. -/
theorem Ensures.mono {G' : S → S → Prop} {Q Q' : Except ε α → S → Prop} {p : Prog Op Res ε α}
    (hG : ∀ s s', G s s' → G' s s') (hQ : ∀ r s, Q r s → Q' r s) :
    ∀ {s : S}, Ensures B A G Q p s → Ensures B A G' Q' p s := by
  induction p with
  | ret a => exact fun h => hQ _ _ h
  | raise e => exact fun h => hQ _ _ h
  | call o k ih =>
    intro s h c hA
    obtain ⟨hstep, hk⟩ := h c hA
    exact ⟨hG _ _ hstep, ih _ hk⟩

theorem Ensures.bind {R : Except ε α → S → Prop} {Q : Except ε β → S → Prop}
    {p : Prog Op Res ε α} {f : α → Prog Op Res ε β}
    (hok : ∀ a s, R (.ok a) s → Ensures B A G Q (f a) s)
    (herr : ∀ e s, R (.error e) s → Q (.error e) s) :
    ∀ {s : S}, Ensures B A G R p s → Ensures B A G Q (p >>= f) s := by
  induction p with
  | ret a => exact fun h => hok _ _ h
  | raise e => exact fun h => herr _ _ h
  | call o k ih =>
    intro s h c hA
    obtain ⟨hstep, hk⟩ := h c hA
    exact ⟨hstep, ih _ hk⟩

theorem Ensures.tryCatch {R Q : Except ε α → S → Prop} {p : Prog Op Res ε α}
    {h : ε → Prog Op Res ε α} (hok : ∀ a s, R (.ok a) s → Q (.ok a) s)
    (herr : ∀ e s, R (.error e) s → Ensures B A G Q (h e) s) :
    ∀ {s : S}, Ensures B A G R p s → Ensures B A G Q (tryCatch p h) s := by
  induction p with
  | ret a => exact fun hp => hok _ _ hp
  | raise e => exact fun hp => herr _ _ hp
  | call o k ih =>
    intro s hp c hA
    obtain ⟨hstep, hk⟩ := hp c hA
    exact ⟨hstep, ih _ hk⟩

/-- The rule for `let a ← await o; f a`. -/
theorem ensures_await_bind {Q : Except ε β → S → Prop} {o : Op} {f : Res o → Prog Op Res ε β} {s : S}
    (hok : ∀ c a s', A o c s → B o c s = (.ok a, s') → G s s' ∧ Ensures B A G Q (f a) s')
    (herr : ∀ c e s', A o c s → B o c s = (.error e, s') → G s s' ∧ Q (.error e) s') :
    Ensures B A G Q (await o >>= f) s := by
  rw [await_bind, ensures_call]
  intro c hA
  rcases hr : B o c s with ⟨r, s'⟩
  cases r with
  | ok a => exact hok c a s' hA hr
  | error e => exact herr c e s' hA hr

/-- The call is answered with a value. -/
def Flawless (B : Backend Op Res ε C S) (o : Op) (c : C) (s : S) : Prop := ∃ a, (B o c s).1 = .ok a

instance (B : Backend Op Res ε C S) (o : Op) (c : C) (s : S) : Decidable (Flawless B o c s) :=
  match h : (B o c s).1 with
  | .ok a => .isTrue ⟨a, h⟩
  | .error _ => .isFalse fun ⟨_, ha⟩ => nomatch h.symm.trans ha

/-- The rule for `let a ← await o; f a` when no call fails. -/
theorem ensures_await_bind_flawless {Q : Except ε β → S → Prop} {o : Op} {f : Res o → Prog Op Res ε β}
    {s : S}
    (hok : ∀ c a s', B o c s = (.ok a, s') → G s s' ∧ Ensures B (Flawless B) G Q (f a) s') :
    Ensures B (Flawless B) G Q (await o >>= f) s := by
  refine ensures_await_bind (fun c a s' _ hr => hok c a s' hr) ?_
  intro c e s' hA hr
  obtain ⟨a, ha⟩ := hA
  simp [hr] at ha

end Rules

/-! ## Programs that make only some calls -/

/-- Every call that the program can make, whatever it is answered, satisfies `ok`. -/
def OnlyCalls (ok : Op → Prop) : Prog Op Res ε α → Prop
  | ret _ => True
  | raise _ => True
  | call o k => ok o ∧ ∀ r, OnlyCalls ok (k r)

section OnlyCalls

variable {ok : Op → Prop}

@[simp] theorem onlyCalls_ret {a : α} : OnlyCalls ok (ret a : Prog Op Res ε α) := trivial

@[simp] theorem onlyCalls_raise {e : ε} : OnlyCalls ok (raise e : Prog Op Res ε α) := trivial

theorem onlyCalls_await {o : Op} (ho : ok o) : OnlyCalls ok (await o : Prog Op Res ε (Res o)) := by
  refine ⟨ho, ?_⟩
  intro r
  cases r with
  | ok a => exact onlyCalls_ret
  | error e => exact onlyCalls_raise

theorem OnlyCalls.bind {p : Prog Op Res ε α} {f : α → Prog Op Res ε β} (hp : OnlyCalls ok p)
    (hf : ∀ a, OnlyCalls ok (f a)) : OnlyCalls ok (p >>= f) := by
  induction p with
  | ret a => exact hf a
  | raise e => trivial
  | call o k ih => exact ⟨hp.1, fun r => ih r (hp.2 r)⟩

theorem OnlyCalls.tryCatch {p : Prog Op Res ε α} {h : ε → Prog Op Res ε α} (hp : OnlyCalls ok p)
    (hh : ∀ e, OnlyCalls ok (h e)) : OnlyCalls ok (Prog.tryCatch p h) := by
  induction p with
  | ret a => trivial
  | raise e => exact hh e
  | call o k ih => exact ⟨hp.1, fun r => ih r (hp.2 r)⟩

theorem OnlyCalls.mono {ok' : Op → Prop} {p : Prog Op Res ε α} (h : ∀ o, ok o → ok' o)
    (hp : OnlyCalls ok p) : OnlyCalls ok' p := by
  induction p with
  | ret a => trivial
  | raise e => trivial
  | call o k ih => exact ⟨h o hp.1, fun r => ih r (hp.2 r)⟩

/-- A program whose calls all keep `I` keeps `I`. -/
theorem OnlyCalls.ensures {B : Backend Op Res ε C S} {A : Op → C → S → Prop} {G : S → S → Prop}
    {I : S → Prop}
    (hI : ∀ o c s, ok o → A o c s → I s → G s (B o c s).2 ∧ I (B o c s).2) :
    ∀ {p : Prog Op Res ε α} {s : S}, OnlyCalls ok p → I s → Ensures B A G (fun _ => I) p s := by
  intro p
  induction p with
  | ret a => exact fun _ hs => hs
  | raise e => exact fun _ hs => hs
  | call o k ih =>
    intro s hp hs c hA
    obtain ⟨hstep, hs'⟩ := hI o c s hp.1 hA hs
    exact ⟨hstep, ih _ (hp.2 _) hs'⟩

end OnlyCalls

/-! ## What a program returns -/

/-- Every value that the program can return, whatever its calls are answered, satisfies `P`. -/
def Returns (P : α → Prop) : Prog Op Res ε α → Prop
  | ret a => P a
  | raise _ => True
  | call _ k => ∀ r, Returns P (k r)

theorem Returns.bind {P : α → Prop} {R : β → Prop} {p : Prog Op Res ε α} {f : α → Prog Op Res ε β}
    (hp : Returns P p) (hf : ∀ a, P a → Returns R (f a)) : Returns R (p >>= f) := by
  induction p with
  | ret a => exact hf a hp
  | raise e => trivial
  | call o k ih => exact fun r => ih r (hp r)

theorem Returns.mono {P R : α → Prop} {p : Prog Op Res ε α} (h : ∀ a, P a → R a) (hp : Returns P p) :
    Returns R p := by
  induction p with
  | ret a => exact h a hp
  | raise e => trivial
  | call o k ih => exact fun r => ih r (hp r)

theorem returns_await_bind {R : β → Prop} {o : Op} {f : Res o → Prog Op Res ε β}
    (hf : ∀ a, Returns R (f a)) : Returns R (await o >>= f) := by
  intro r
  cases r with
  | ok a => exact hf a
  | error e => trivial

theorem Returns.ensures {B : Backend Op Res ε C S} {A : Op → C → S → Prop} {P : α → Prop}
    {p : Prog Op Res ε α} (hp : Returns P p) :
    ∀ s, Ensures B A (fun _ _ => True) (fun r _ => ∀ a, r = .ok a → P a) p s := by
  induction p with
  | ret a =>
    rintro s _ ⟨⟩
    exact hp
  | raise e => exact fun s a h => by cases h
  | call o k ih => exact fun s c _ => ⟨trivial, ih _ (hp _) _⟩

/-! ## Runs -/

/-- One call, answered with the choice `c`; a program that has ended stays as it is. -/
def step (B : Backend Op Res ε C S) (c : C) : Prog Op Res ε α × S → Prog Op Res ε α × S
  | (call o k, s) => (k (B o c s).1, (B o c s).2)
  | w => w

/-- The program has returned or raised an error. -/
def ended : Prog Op Res ε α → Bool
  | call _ _ => false
  | _ => true

/-- The state after the calls that the list of choices answers. -/
def run (B : Backend Op Res ε C S) : List C → Prog Op Res ε α × S → Prog Op Res ε α × S
  | [], w => w
  | c :: cs, w => run B cs (step B c w)

/-- Whether `A` admits the choice `c` for the next call. -/
def Admits (A : Op → C → S → Prop) (c : C) : Prog Op Res ε α × S → Prop
  | (call o _, s) => A o c s
  | _ => True

instance (A : Op → C → S → Prop) [∀ o c s, Decidable (A o c s)] (c : C) :
    ∀ w : Prog Op Res ε α × S, Decidable (Admits A c w)
  | (call o _, s) => inferInstanceAs (Decidable (A o c s))
  | (ret _, _) => .isTrue trivial
  | (raise _, _) => .isTrue trivial

/-- `A` admits every choice of the run. -/
def Guarded (B : Backend Op Res ε C S) (A : Op → C → S → Prop) :
    List C → Prog Op Res ε α × S → Prop
  | [], _ => True
  | c :: cs, w => Admits A c w ∧ Guarded B A cs (step B c w)

theorem run_append (B : Backend Op Res ε C S) (cs cs' : List C) (w : Prog Op Res ε α × S) :
    run B (cs ++ cs') w = run B cs' (run B cs w) := by
  induction cs generalizing w with
  | nil => rfl
  | cons c cs ih => exact ih _

theorem guarded_append (B : Backend Op Res ε C S) (A : Op → C → S → Prop) (cs cs' : List C)
    (w : Prog Op Res ε α × S) :
    Guarded B A (cs ++ cs') w ↔ Guarded B A cs w ∧ Guarded B A cs' (run B cs w) := by
  induction cs generalizing w with
  | nil => simp [Guarded, run]
  | cons c cs ih => simp [Guarded, run, ih, and_assoc]

section Soundness

variable {B : Backend Op Res ε C S} {A : Op → C → S → Prop} {G : S → S → Prop}
  {Q : Except ε α → S → Prop}

/-- One admitted step: it is a `G`-step, or the program has ended and nothing changes. -/
theorem Ensures.step {c : C} {w : Prog Op Res ε α × S} (h : Ensures B A G Q w.1 w.2)
    (hA : Admits A c w) :
    Relation.ReflGen G w.2 (step B c w).2 ∧ Ensures B A G Q (Prog.step B c w).1 (Prog.step B c w).2 := by
  obtain ⟨p, s⟩ := w
  cases p with
  | ret a => exact ⟨.refl, h⟩
  | raise e => exact ⟨.refl, h⟩
  | call o k =>
    obtain ⟨hstep, hk⟩ := h c hA
    exact ⟨.single hstep, hk⟩

/-- A guarded run stays within the specification. -/
theorem Ensures.run {cs : List C} : ∀ {w : Prog Op Res ε α × S}, Ensures B A G Q w.1 w.2 →
    Guarded B A cs w → Ensures B A G Q (run B cs w).1 (Prog.run B cs w).2 := by
  induction cs with
  | nil => exact fun h _ => h
  | cons c cs ih =>
    intro w h hA
    obtain ⟨_, hnext⟩ := h.step hA.1
    exact ih hnext hA.2

/-- The state after a guarded run is reached by `G`-steps. -/
theorem Ensures.reachable {cs : List C} : ∀ {w : Prog Op Res ε α × S}, Ensures B A G Q w.1 w.2 →
    Guarded B A cs w → Relation.ReflTransGen G w.2 (Prog.run B cs w).2 := by
  induction cs with
  | nil => exact fun _ _ => .refl
  | cons c cs ih =>
    intro w h hA
    obtain ⟨hstep, hnext⟩ := h.step hA.1
    exact hstep.to_reflTransGen.trans (ih hnext hA.2)

end Soundness

/-! ## Budgets -/

/-- Whatever happens between the calls, as long as it keeps `I`: the calls of the program
    keep `I`, and together they raise `cost` by at most `n`. -/
def Spends (B : Backend Op Res ε C S) (I : S → Prop) (cost : S → ℕ) : ℕ → Prog Op Res ε α → Prop
  | _, ret _ => True
  | _, raise _ => True
  | n, call o k => ∀ c s, I s → I (B o c s).2 ∧
      ∃ m, cost (B o c s).2 + m ≤ cost s + n ∧ Spends B I cost m (k (B o c s).1)

section Budgets

variable {B : Backend Op Res ε C S} {I : S → Prop} {cost : S → ℕ}

/-- The rule for `let a ← await o; f a`. -/
theorem spends_await_bind {n : ℕ} {o : Op} {f : Res o → Prog Op Res ε β}
    (hI : ∀ c s, I s → I (B o c s).2)
    (hok : ∀ c a s s', I s → B o c s = (.ok a, s') →
      ∃ m, cost s' + m ≤ cost s + n ∧ Spends B I cost m (f a))
    (herr : ∀ c e s s', I s → B o c s = (.error e, s') → cost s' ≤ cost s + n) :
    Spends B I cost n (await o >>= f) := by
  rw [await_bind]
  intro c s hs
  refine ⟨hI c s hs, ?_⟩
  rcases hr : B o c s with ⟨r, s'⟩
  cases r with
  | ok a => exact hok c a s s' hs hr
  | error e => exact ⟨0, herr c e s s' hs hr, trivial⟩

/-- A larger budget. -/
theorem Spends.mono {n n' : ℕ} {p : Prog Op Res ε α} (h : Spends B I cost n p) (hn : n ≤ n') :
    Spends B I cost n' p := by
  cases p with
  | ret a => trivial
  | raise e => trivial
  | call o k =>
    intro c s hs
    obtain ⟨hI, m, hm, hk⟩ := h c s hs
    exact ⟨hI, m, by omega, hk⟩

/-- A step comes out of the budget. -/
theorem Spends.step {n : ℕ} {p : Prog Op Res ε α} {c : C} {s : S} (h : Spends B I cost n p) (hs : I s) :
    I (Prog.step B c (p, s)).2 ∧
      ∃ m, cost (Prog.step B c (p, s)).2 + m ≤ cost s + n ∧ Spends B I cost m (Prog.step B c (p, s)).1 := by
  cases p with
  | ret a => exact ⟨hs, n, Nat.le_refl _, trivial⟩
  | raise e => exact ⟨hs, n, Nat.le_refl _, trivial⟩
  | call o k => exact h c s hs

end Budgets

/-! ## Whole executions -/

/-- Runs the program to its end; the `n`-th call is answered with the choice `cs n`. -/
def eval (B : Backend Op Res ε C S) : Prog Op Res ε α → S → (ℕ → C) → Except ε α × S
  | ret a, s, _ => (.ok a, s)
  | raise e, s, _ => (.error e, s)
  | call o k, s, cs => eval B (k (B o (cs 0) s).1) (B o (cs 0) s).2 fun n => cs (n + 1)

/-- `A` admits every choice of the execution. -/
def EvalGuarded (B : Backend Op Res ε C S) (A : Op → C → S → Prop) :
    Prog Op Res ε α → S → (ℕ → C) → Prop
  | ret _, _, _ => True
  | raise _, _, _ => True
  | call o k, s, cs =>
    A o (cs 0) s ∧ EvalGuarded B A (k (B o (cs 0) s).1) (B o (cs 0) s).2 fun n => cs (n + 1)

theorem evalGuarded_true {B : Backend Op Res ε C S} (p : Prog Op Res ε α) :
    ∀ (s : S) (cs : ℕ → C), EvalGuarded B (fun _ _ _ => True) p s cs := by
  induction p with
  | ret a => exact fun _ _ => trivial
  | raise e => exact fun _ _ => trivial
  | call o k ih => exact fun _ _ => ⟨trivial, ih _ _ _⟩

/-- The outcome of a guarded execution satisfies the postcondition. -/
theorem Ensures.eval {B : Backend Op Res ε C S} {A : Op → C → S → Prop} {G : S → S → Prop}
    {Q : Except ε α → S → Prop} : ∀ {p : Prog Op Res ε α} {s : S} {cs : ℕ → C},
    Ensures B A G Q p s → EvalGuarded B A p s cs → Q (eval B p s cs).1 (Prog.eval B p s cs).2 := by
  intro p
  induction p with
  | ret a => exact fun h _ => h
  | raise e => exact fun h _ => h
  | call o k ih =>
    intro s cs h hA
    obtain ⟨_, hk⟩ := h _ hA.1
    exact ih _ hk hA.2

/-! ## Executions in parts -/

/-- The choices after the first `n`. -/
def skip (n : ℕ) (cs : ℕ → C) : ℕ → C := fun m => cs (m + n)

theorem skip_skip (m n : ℕ) (cs : ℕ → C) : skip n (skip m cs) = skip (m + n) cs := by
  funext k
  show cs (k + n + m) = cs (k + (m + n))
  rw [Nat.add_assoc, Nat.add_comm n m]

/-- The calls that the execution makes. -/
def calls (B : Backend Op Res ε C S) : Prog Op Res ε α → S → (ℕ → C) → List Op
  | ret _, _, _ => []
  | raise _, _, _ => []
  | call o k, s, cs => o :: calls B (k (B o (cs 0) s).1) (B o (cs 0) s).2 fun n => cs (n + 1)

/-- The execution ends with `r` in the state `s'` after the calls `os`. -/
structure Executes (B : Backend Op Res ε C S) (p : Prog Op Res ε α) (s : S) (cs : ℕ → C)
    (r : Except ε α) (s' : S) (os : List Op) : Prop where
  eval_eq : eval B p s cs = (r, s')
  calls_eq : calls B p s cs = os

section Parts

variable {B : Backend Op Res ε C S} {s s' : S} {cs : ℕ → C} {os : List Op}

theorem executes_eval (B : Backend Op Res ε C S) (p : Prog Op Res ε α) (s : S) (cs : ℕ → C) :
    Executes B p s cs (eval B p s cs).1 (eval B p s cs).2 (calls B p s cs) := ⟨rfl, rfl⟩

theorem Executes.of_ret {a : α} {r : Except ε α} (h : Executes B (ret a) s cs r s' os) :
    r = .ok a ∧ s' = s ∧ os = [] := by
  obtain ⟨heval, rfl⟩ := h
  cases heval
  exact ⟨rfl, rfl, rfl⟩

theorem Executes.of_raise {e : ε} {r : Except ε α} (h : Executes B (raise e) s cs r s' os) :
    r = .error e ∧ s' = s ∧ os = [] := by
  obtain ⟨heval, rfl⟩ := h
  cases heval
  exact ⟨rfl, rfl, rfl⟩

/-- The first call of a program, and the rest of the execution. -/
theorem Executes.of_call {o : Op} {k : Except ε (Res o) → Prog Op Res ε α} {r : Except ε α}
    (h : Executes B (call o k) s cs r s' os) :
    ∃ os', os = o :: os' ∧
      Executes B (k (B o (cs 0) s).1) (B o (cs 0) s).2 (skip 1 cs) r s' os' := by
  obtain ⟨heval, rfl⟩ := h
  exact ⟨_, rfl, heval, rfl⟩

theorem executes_call {o : Op} {k : Except ε (Res o) → Prog Op Res ε α} {r : Except ε α}
    (h : Executes B (k (B o (cs 0) s).1) (B o (cs 0) s).2 (skip 1 cs) r s' os) :
    Executes B (call o k) s cs r s' (o :: os) :=
  ⟨h.eval_eq, congrArg (o :: ·) h.calls_eq⟩

/-- A completed `p >>= f` is a completed `p` and a completed `f a` after it. -/
theorem Executes.of_bind {p : Prog Op Res ε α} {f : α → Prog Op Res ε β} {b : β} :
    ∀ {s : S} {cs : ℕ → C} {os : List Op}, Executes B (p >>= f) s cs (.ok b) s' os →
      ∃ a s₁ os₁ os₂, Executes B p s cs (.ok a) s₁ os₁ ∧
        Executes B (f a) s₁ (skip os₁.length cs) (.ok b) s' os₂ ∧ os = os₁ ++ os₂ := by
  induction p with
  | ret a => exact fun {s} {cs} {os} h => ⟨a, s, [], os, ⟨rfl, rfl⟩, h, rfl⟩
  | raise e =>
    intro s cs os h
    cases h.eval_eq
  | call o k ih =>
    intro s cs os h
    obtain ⟨os', rfl, hrest⟩ := h.of_call
    obtain ⟨a, s₁, os₁, os₂, hp, hf, rfl⟩ := ih _ hrest
    refine ⟨a, s₁, o :: os₁, os₂, executes_call hp, ?_, rfl⟩
    rw [skip_skip, Nat.add_comm] at hf
    exact hf

/-- A completed `let a ← await o; f a`. -/
theorem Executes.of_await_bind {o : Op} {f : Res o → Prog Op Res ε β} {b : β}
    (h : Executes B (await o >>= f) s cs (.ok b) s' os) :
    ∃ a s₁ os', B o (cs 0) s = (.ok a, s₁) ∧ Executes B (f a) s₁ (skip 1 cs) (.ok b) s' os' ∧
      os = o :: os' := by
  rw [await_bind] at h
  obtain ⟨os', rfl, hrest⟩ := h.of_call
  rcases hr : B o (cs 0) s with ⟨r, s₁⟩
  rw [hr] at hrest
  cases r with
  | ok a => exact ⟨a, s₁, os', rfl, hrest, rfl⟩
  | error e => cases hrest.eval_eq

/-- `let a ← await o; f a` when the call returns. -/
theorem eval_await_bind_ok {o : Op} {f : Res o → Prog Op Res ε β} {a : Res o}
    (h : B o (cs 0) s = (.ok a, s')) : eval B (await o >>= f) s cs = eval B (f a) s' (skip 1 cs) := by
  rw [await_bind, eval, h]
  rfl

/-- `let a ← await o; f a` when the call raises an error. -/
theorem eval_await_bind_error {o : Op} {f : Res o → Prog Op Res ε β} {e : ε}
    (h : B o (cs 0) s = (.error e, s')) : eval B (await o >>= f) s cs = (.error e, s') := by
  rw [await_bind, eval, h]
  rfl

/-- An execution of `tryCatch p h` is one of `p` that returned, or one of `p` that
    raised an error and one of the handler after it. -/
theorem Executes.of_tryCatch {p : Prog Op Res ε α} {h : ε → Prog Op Res ε α} {r : Except ε α} :
    ∀ {s : S} {cs : ℕ → C} {os : List Op}, Executes B (Prog.tryCatch p h) s cs r s' os →
      (∃ a, r = .ok a ∧ Executes B p s cs (.ok a) s' os) ∨
        ∃ e s₁ os₁ os₂, Executes B p s cs (.error e) s₁ os₁ ∧
          Executes B (h e) s₁ (skip os₁.length cs) r s' os₂ ∧ os = os₁ ++ os₂ := by
  induction p with
  | ret a =>
    intro s cs os hp
    obtain ⟨rfl, rfl, rfl⟩ := hp.of_ret
    exact .inl ⟨a, rfl, hp⟩
  | raise e => exact fun {s} {cs} {os} hp => .inr ⟨e, s, [], os, ⟨rfl, rfl⟩, hp, rfl⟩
  | call o k ih =>
    intro s cs os hp
    obtain ⟨os', rfl, hrest⟩ := hp.of_call
    rcases ih _ hrest with ⟨a, hr, hk⟩ | ⟨e, s₁, os₁, os₂, hk, hh, rfl⟩
    · exact .inl ⟨a, hr, executes_call hk⟩
    · refine .inr ⟨e, s₁, o :: os₁, os₂, executes_call hk, ?_, rfl⟩
      rw [skip_skip, Nat.add_comm] at hh
      exact hh

/-- What a completed execution returned. -/
theorem Returns.executes {P : α → Prop} {p : Prog Op Res ε α} {a : α} (hp : Returns P p)
    (h : Executes B p s cs (.ok a) s' os) : P a := by
  have hend := (hp.ensures (B := B) (A := fun _ _ _ => True) s).eval (evalGuarded_true p s cs)
  rw [h.eval_eq] at hend
  exact hend a rfl

/-- A property that every call keeps holds after the execution. -/
theorem eval_keeps {I : S → Prop} (hI : ∀ o c s, I s → I (B o c s).2) {p : Prog Op Res ε α} :
    ∀ {s : S} (cs : ℕ → C), I s → I (eval B p s cs).2 := by
  induction p with
  | ret a => exact fun _ hs => hs
  | raise e => exact fun _ hs => hs
  | call o k ih => exact fun cs hs => ih _ _ (hI o (cs 0) _ hs)

/-- So does a property that the calls which the program makes keep. -/
theorem OnlyCalls.eval_keeps {ok : Op → Prop} {I : S → Prop} (hI : ∀ o c s, ok o → I s → I (B o c s).2)
    {p : Prog Op Res ε α} : ∀ {s : S} (cs : ℕ → C), OnlyCalls ok p → I s → I (eval B p s cs).2 := by
  induction p with
  | ret a => exact fun _ _ hs => hs
  | raise e => exact fun _ _ hs => hs
  | call o k ih => exact fun cs hp hs => ih _ _ (hp.2 _) (hI o (cs 0) _ hp.1 hs)

/-- An execution whose calls are all admitted anyway. -/
theorem OnlyCalls.evalGuarded {A : Op → C → S → Prop} {ok : Op → Prop}
    (hA : ∀ o c s, ok o → A o c s) {p : Prog Op Res ε α} :
    ∀ {s : S} {cs : ℕ → C}, OnlyCalls ok p → EvalGuarded B A p s cs := by
  induction p with
  | ret a => exact fun _ => trivial
  | raise e => exact fun _ => trivial
  | call o k ih => exact fun {s} {cs} hp => ⟨hA o (cs 0) s hp.1, ih _ (hp.2 _)⟩

/-- A guarded `tryCatch p h`: a guarded `p` and, if it raises, a guarded handler. -/
theorem evalGuarded_tryCatch {A : Op → C → S → Prop} {p : Prog Op Res ε α} {h : ε → Prog Op Res ε α} :
    ∀ {s : S} {cs : ℕ → C}, EvalGuarded B A (Prog.tryCatch p h) s cs ↔
      EvalGuarded B A p s cs ∧ ∀ e s₁ os₁, Executes B p s cs (.error e) s₁ os₁ →
        EvalGuarded B A (h e) s₁ (skip os₁.length cs) := by
  induction p with
  | ret a =>
    intro s cs
    refine ⟨fun _ => ⟨trivial, ?_⟩, fun _ => trivial⟩
    intro e s₁ os₁ hp
    cases hp.of_ret.1
  | raise e =>
    intro s cs
    constructor
    · intro hh
      refine ⟨trivial, ?_⟩
      intro e' s₁ os₁ hp
      obtain ⟨he, rfl, rfl⟩ := hp.of_raise
      cases he
      exact hh
    · exact fun hh => hh.2 e s [] ⟨rfl, rfl⟩
  | call o k ih =>
    intro s cs
    constructor
    · rintro ⟨hA, hrest⟩
      obtain ⟨hk, hhandler⟩ := (ih _).mp hrest
      refine ⟨⟨hA, hk⟩, ?_⟩
      intro e s₁ os₁ hp
      obtain ⟨os', rfl, hp'⟩ := hp.of_call
      have hh := hhandler e s₁ os' hp'
      rw [List.length_cons, Nat.add_comm, ← skip_skip]
      exact hh
    · rintro ⟨⟨hA, hk⟩, hhandler⟩
      refine ⟨hA, (ih _).mpr ⟨hk, ?_⟩⟩
      intro e s₁ os' hp
      have hh := hhandler e s₁ (o :: os') (executes_call hp)
      rw [List.length_cons, Nat.add_comm, ← skip_skip] at hh
      exact hh

end Parts

end Prog

end Lib
