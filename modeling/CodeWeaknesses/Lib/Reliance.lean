import CodeWeaknesses.Lib.Isolation

/-!
# What a program relies on

A program whose calls are answered in states that satisfy `I`. As long as all programs that run
keep `I`, each of them may rely on it.

`Within B I ok Q p` says that, relied on `I`, the calls of `p` satisfy `ok` and what it ends with
satisfies `Q`.

Results:
* `Within.bind`, `within_await`, `within_await_bind`: the rules for composing programs.
* `Within.mono`: a stronger `I` may be relied on.
* `within_inl`: a program in an environment with more calls.
* `run_within`: **programs that rely on what their calls keep.**
* `run_within_eq`: two runs that the programs cannot tell apart.
-/

namespace Lib

namespace Prog

variable {Op Op' : Type} {Res : Op → Type} {Res' : Op' → Type} {ε α β C S : Type}

/-- If its calls are answered in states that satisfy `I`, the calls of the program satisfy `ok`,
    and what it ends with satisfies `Q`. -/
def Within (B : Backend Op Res ε C S) (I : S → Prop) (ok : Op → Prop) (Q : Except ε α → Prop) :
    Prog Op Res ε α → Prop
  | ret a => Q (.ok a)
  | raise e => Q (.error e)
  | call o k => ok o ∧ ∀ c s, I s → Within B I ok Q (k (B o c s).1)

section Rules

variable {B : Backend Op Res ε C S} {I : S → Prop} {ok : Op → Prop}

theorem Within.mono {I' : S → Prop} {Q Q' : Except ε α → Prop} {p : Prog Op Res ε α}
    (hI : ∀ s, I' s → I s) (hQ : ∀ r, Q r → Q' r) (h : Within B I ok Q p) : Within B I' ok Q' p := by
  induction p with
  | ret a => exact hQ _ h
  | raise e => exact hQ _ h
  | call o k ih => exact ⟨h.1, fun c s hs => ih _ (h.2 c s (hI s hs))⟩

theorem Within.bind {R : Except ε α → Prop} {Q : Except ε β → Prop} {p : Prog Op Res ε α}
    {f : α → Prog Op Res ε β} (hp : Within B I ok R p) (hok : ∀ a, R (.ok a) → Within B I ok Q (f a))
    (herr : ∀ e, R (.error e) → Q (.error e)) : Within B I ok Q (p >>= f) := by
  induction p with
  | ret a => exact hok a hp
  | raise e => exact herr e hp
  | call o k ih => exact ⟨hp.1, fun c s hs => ih _ (hp.2 c s hs)⟩

/-- The rule for `await o`. -/
theorem within_await {o : Op} {Q : Except ε (Res o) → Prop} (ho : ok o)
    (hok : ∀ c s s' a, I s → B o c s = (.ok a, s') → Q (.ok a)) (herr : ∀ e, Q (.error e)) :
    Within B I ok Q (await o) := by
  refine ⟨ho, ?_⟩
  intro c s hs
  rcases hr : B o c s with ⟨r, s'⟩
  cases r with
  | ok a => exact hok c s s' a hs hr
  | error e => exact herr e

/-- The rule for `let a ← await o; f a`. -/
theorem within_await_bind {Q : Except ε β → Prop} {o : Op} {f : Res o → Prog Op Res ε β} (ho : ok o)
    (hok : ∀ c s s' a, I s → B o c s = (.ok a, s') → Within B I ok Q (f a)) (herr : ∀ e, Q (.error e)) :
    Within B I ok Q (await o >>= f) := by
  rw [await_bind]
  refine ⟨ho, ?_⟩
  intro c s hs
  rcases hr : B o c s with ⟨r, s'⟩
  cases r with
  | ok a => exact hok c s s' a hs hr
  | error e => exact herr e

theorem Within.step {Q : Except ε α → Prop} {p : Prog Op Res ε α} (h : Within B I ok Q p) (c : C) {s : S}
    (hs : I s) : Within B I ok Q (step B c (p, s)).1 := by
  cases p with
  | ret a => exact h
  | raise e => exact h
  | call o k => exact h.2 c s hs

/-- The call that is answered. -/
theorem Within.keeps {Q : Except ε α → Prop} {p : Prog Op Res ε α} (h : Within B I ok Q p)
    (hkeep : ∀ o c s, ok o → I s → I (B o c s).2) (c : C) {s : S} (hs : I s) : I (Prog.step B c (p, s)).2 := by
  cases p with
  | ret a => exact hs
  | raise e => exact hs
  | call o k => exact hkeep o c s h.1 hs

theorem Confined.within {Q : Except ε α → Prop} {p : Prog Op Res ε α} (h : Confined B ok Q p) :
    Within B I ok Q p := by
  induction p with
  | ret a => exact h
  | raise e => exact h
  | call o k ih => exact ⟨h.1, fun c s _ => ih _ (h.2 c s)⟩

end Rules

/-! ## More calls -/

/-- The program, in an environment that answers more calls. -/
def inl : Prog Op Res ε α → Prog (Op ⊕ Op') (Sum.elim Res Res') ε α
  | ret a => ret a
  | raise e => raise e
  | call o k => call (.inl o) fun r => inl (k r)

theorem inl_bind (p : Prog Op Res ε α) (f : α → Prog Op Res ε β) :
    (inl (p >>= f) : Prog (Op ⊕ Op') (Sum.elim Res Res') ε β) = inl p >>= fun a => inl (f a) := by
  induction p with
  | ret a => rfl
  | raise e => rfl
  | call o k ih => exact congrArg (call (Sum.inl o)) (funext ih)

/-- Two environments with one state. -/
def either (B : Backend Op Res ε C S) (B' : Backend Op' Res' ε C S) :
    Backend (Op ⊕ Op') (Sum.elim Res Res') ε C S
  | .inl o => B o
  | .inr o => B' o

theorem within_inl {B : Backend Op Res ε C S} {B' : Backend Op' Res' ε C S} {I : S → Prop}
    {ok : Op ⊕ Op' → Prop} {Q : Except ε α → Prop} {p : Prog Op Res ε α}
    (h : Within B I (fun o => ok (.inl o)) Q p) :
    Within (either B B') I ok Q (inl p : Prog (Op ⊕ Op') (Sum.elim Res Res') ε α) := by
  induction p with
  | ret a => exact h
  | raise e => exact h
  | call o k ih => exact ⟨h.1, fun c s hs => ih _ (h.2 c s hs)⟩

end Prog

/-! ## Pools of programs -/

namespace Pool

open Prog

variable {Op : Type} {Res : Op → Type} {ε C S ι : Type} {α : ι → Type} [DecidableEq ι]
  {B : Backend Op Res ε C S} {I : S → Prop} {ok : Op → Prop} {Q : (i : ι) → Except ε (α i) → Prop}

/-- A program that relies on nothing, whatever is beside it. -/
theorem run_within_alone {i : ι} {Q : Except ε (α i) → Prop} (sched : List (ι × C)) :
    ∀ {w : Pool ι (fun i => Prog Op Res ε (α i)) S}, Within B (fun _ => True) ok Q (w.tasks i) →
      Within B (fun _ => True) ok Q ((run (programs B) sched w).tasks i) := by
  induction sched with
  | nil => exact fun h => h
  | cons x sched ih =>
    intro w h
    refine ih ?_
    by_cases hi : i = x.1
    · subst hi
      rw [step_tasks_self]
      exact h.step x.2 trivial
    · rwa [step_tasks_of_ne hi]

/-- Programs that rely on `I` and whose calls keep it. Nothing is asked of a program that takes no
    step. -/
theorem run_within (hkeep : ∀ o c s, ok o → I s → I (B o c s).2) (sched : List (ι × C)) :
    ∀ {w : Pool ι (fun i => Prog Op Res ε (α i)) S}, I w.state →
      (∀ x ∈ sched, Within B I ok (Q x.1) (w.tasks x.1)) →
        I (run (programs B) sched w).state ∧
          ∀ i, Within B I ok (Q i) (w.tasks i) → Within B I ok (Q i) ((run (programs B) sched w).tasks i) := by
  induction sched with
  | nil => exact fun hw _ => ⟨hw, fun _ h => h⟩
  | cons x sched ih =>
    intro w hw hwithin
    have hx := hwithin x List.mem_cons_self
    have htask : ∀ i, Within B I ok (Q i) (w.tasks i) → Within B I ok (Q i) ((step (programs B) x w).tasks i) := by
      intro i hi
      by_cases hix : i = x.1
      · subst hix
        rw [step_tasks_self]
        exact hi.step x.2 hw
      · rwa [step_tasks_of_ne hix]
    obtain ⟨hstate, htasks⟩ := ih (hx.keeps hkeep x.2 hw) fun y hy =>
      htask y.1 (hwithin y (List.mem_cons_of_mem _ hy))
    exact ⟨hstate, fun i hi => htasks i (htask i hi)⟩

/-- Programs that rely on `I`, run from two states that their calls cannot tell apart. -/
theorem run_within_eq {sim : S → S → Prop} (hI : ∀ s s', sim s s' → I s)
    (hanswers : ∀ o c s s', ok o → sim s s' → (B o c s').1 = (B o c s).1 ∧ sim (B o c s).2 (B o c s').2)
    (sched : List (ι × C)) : ∀ {w w' : Pool ι (fun i => Prog Op Res ε (α i)) S},
      sim w.state w'.state → (∀ i, w'.tasks i = w.tasks i) →
        (∀ x ∈ sched, Within B I ok (Q x.1) (w.tasks x.1)) →
          sim (run (programs B) sched w).state (run (programs B) sched w').state ∧
            ∀ i, (run (programs B) sched w').tasks i = (run (programs B) sched w).tasks i := by
  induction sched with
  | nil => exact fun hsim htasks _ => ⟨hsim, htasks⟩
  | cons x sched ih =>
    intro w w' hsim htasks hwithin
    have hx := hwithin x List.mem_cons_self
    have hstep : (Prog.step B x.2 (w.tasks x.1, w'.state)).1 = (Prog.step B x.2 (w.tasks x.1, w.state)).1 ∧
        sim (Prog.step B x.2 (w.tasks x.1, w.state)).2 (Prog.step B x.2 (w.tasks x.1, w'.state)).2 := by
      cases hp : w.tasks x.1 with
      | ret a => exact ⟨rfl, hsim⟩
      | raise e => exact ⟨rfl, hsim⟩
      | call o k =>
        rw [hp] at hx
        obtain ⟨hanswer, hnext⟩ := hanswers o x.2 _ _ hx.1 hsim
        exact ⟨congrArg k hanswer, hnext⟩
    refine ih ?_ ?_ fun y hy => ?_
    · show sim (Prog.step B x.2 (w.tasks x.1, w.state)).2 (Prog.step B x.2 (w'.tasks x.1, w'.state)).2
      rw [htasks x.1]
      exact hstep.2
    · intro i
      by_cases hi : i = x.1
      · subst hi
        rw [step_tasks_self, step_tasks_self]
        show (Prog.step B x.2 (w'.tasks x.1, w'.state)).1 = (Prog.step B x.2 (w.tasks x.1, w.state)).1
        rw [htasks x.1]
        exact hstep.1
      · rw [step_tasks_of_ne hi, step_tasks_of_ne hi, htasks i]
    · by_cases hi : y.1 = x.1
      · have hstepped : Within B I ok (Q x.1) ((step (programs B) x w).tasks x.1) := by
          rw [step_tasks_self]
          exact hx.step x.2 (hI _ _ hsim)
        rw [hi]
        exact hstepped
      · rw [step_tasks_of_ne hi]
        exact hwithin y (List.mem_cons_of_mem _ hy)

end Pool

end Lib
