import CodeWeaknesses.Lib.Isolation

/-!
# The calls of a program

What a program tells its environment: the calls that it makes, in their order, and what it ends
with. `Emits B P p` says that they satisfy `P` whatever states answer the calls, so whatever else
runs beside the program.

Results:
* `Emits.bind`, `emits_await_bind`, `Emits.tryCatch`: the rules for composing programs.
* `emits_madeBy`: the calls that a program of a pool has made so far, and those that it can still
  make.
* `Emits.exists_of`: a program can always come to an end.
-/

namespace Lib

namespace Prog

variable {Op : Type} {Res : Op → Type} {ε α β C S : Type}

/-- The calls of the program, answered by `B` in any states, and what it ends with satisfy `P`. -/
def Emits (B : Backend Op Res ε C S) : (List Op → Except ε α → Prop) → Prog Op Res ε α → Prop
  | P, ret a => P [] (.ok a)
  | P, raise e => P [] (.error e)
  | P, call o k => ∀ c s, Emits B (fun os r => P (o :: os) r) (k (B o c s).1)

section Rules

variable {B : Backend Op Res ε C S}

theorem Emits.mono {p : Prog Op Res ε α} : ∀ {P P' : List Op → Except ε α → Prop},
    (∀ os r, P os r → P' os r) → Emits B P p → Emits B P' p := by
  induction p with
  | ret a => exact fun hP h => hP _ _ h
  | raise e => exact fun hP h => hP _ _ h
  | call o k ih => exact fun hP h c s => ih _ (fun os r => hP (o :: os) r) (h c s)

theorem Emits.bind {p : Prog Op Res ε α} {f : α → Prog Op Res ε β} :
    ∀ {R : List Op → Except ε α → Prop} {P : List Op → Except ε β → Prop}, Emits B R p →
      (∀ os a, R os (.ok a) → Emits B (fun os' r => P (os ++ os') r) (f a)) →
        (∀ os e, R os (.error e) → P os (.error e)) → Emits B P (p >>= f) := by
  induction p with
  | ret a => exact fun hp hok _ => hok [] a hp
  | raise e => exact fun hp _ herr => herr [] e hp
  | call o k ih =>
    intro R P hp hok herr c s
    exact ih _ (hp c s) (fun os a => hok (o :: os) a) fun os e => herr (o :: os) e

theorem Emits.tryCatch {p : Prog Op Res ε α} {h : ε → Prog Op Res ε α} :
    ∀ {R P : List Op → Except ε α → Prop}, Emits B R p → (∀ os a, R os (.ok a) → P os (.ok a)) →
      (∀ os e, R os (.error e) → Emits B (fun os' r => P (os ++ os') r) (h e)) →
        Emits B P (Prog.tryCatch p h) := by
  induction p with
  | ret a => exact fun hp hok _ => hok [] a hp
  | raise e => exact fun hp _ herr => herr [] e hp
  | call o k ih =>
    intro R P hp hok herr c s
    exact ih _ (hp c s) (fun os a => hok (o :: os) a) fun os e => herr (o :: os) e

/-- The rule for `let a ← await o; f a`. -/
theorem emits_await_bind {P : List Op → Except ε β → Prop} {o : Op} {f : Res o → Prog Op Res ε β}
    (hok : ∀ c s s' a, B o c s = (.ok a, s') → Emits B (fun os r => P (o :: os) r) (f a))
    (herr : ∀ c s s' e, B o c s = (.error e, s') → P [o] (.error e)) : Emits B P (await o >>= f) := by
  rw [await_bind]
  intro c s
  rcases hr : B o c s with ⟨r, s'⟩
  cases r with
  | ok a => exact hok c s s' a hr
  | error e => exact herr c s s' e hr

/-- The program can come to an end. -/
theorem Emits.exists_of {p : Prog Op Res ε α} (c : C) (s : S) : ∀ {P : List Op → Except ε α → Prop},
    Emits B P p → ∃ os r, P os r := by
  induction p with
  | ret a => exact fun h => ⟨_, _, h⟩
  | raise e => exact fun h => ⟨_, _, h⟩
  | call o k ih =>
    intro P h
    obtain ⟨os, r, hP⟩ := ih _ (h c s)
    exact ⟨o :: os, r, hP⟩

theorem Emits.step {P : List Op → Except ε α → Prop} {p : Prog Op Res ε α} (h : Emits B P p) (c : C) (s : S) :
    Emits B (fun os r => P (p.next?.toList ++ os) r) (Prog.step B c (p, s)).1 := by
  cases p with
  | ret a => exact h
  | raise e => exact h
  | call o k => exact h c s

/-- What the program has ended with. -/
def outcome? : Prog Op Res ε α → Option (Except ε α)
  | ret a => some (.ok a)
  | raise e => some (.error e)
  | call _ _ => none

theorem Emits.of_outcome? {P : List Op → Except ε α → Prop} {p : Prog Op Res ε α} (h : Emits B P p)
    {r : Except ε α} (hr : p.outcome? = some r) : P [] r := by
  cases p with
  | ret a =>
    cases hr
    exact h
  | raise e =>
    cases hr
    exact h
  | call o k => cases hr

end Rules

end Prog

namespace Pool

open Prog

variable {Op : Type} {Res : Op → Type} {ε C S ι : Type} {α : ι → Type} [DecidableEq ι]
  {B : Backend Op Res ε C S} {i : ι}

/-- The calls of program `i` along a schedule, and those that it can still make. -/
theorem emits_madeBy (sched : List (ι × C)) : ∀ {w : Pool ι (fun i => Prog Op Res ε (α i)) S}
    {P : List Op → Except ε (α i) → Prop}, Emits B P (w.tasks i) →
      Emits B (fun os r => P (madeBy B i sched w ++ os) r) ((run (programs B) sched w).tasks i) := by
  induction sched with
  | nil => exact fun h => h
  | cons x sched ih =>
    intro w P h
    by_cases hi : x.1 = i
    · subst hi
      have hstep : Emits B (fun os r => P ((w.tasks x.1).next?.toList ++ os) r)
          ((step (programs B) x w).tasks x.1) := by
        rw [step_tasks_self]
        exact h.step x.2 w.state
      refine (ih hstep).mono fun os r hP => ?_
      rwa [madeBy, if_pos rfl, List.append_assoc]
    · have hstep : Emits B P ((step (programs B) x w).tasks i) := by
        rw [step_tasks_of_ne (Ne.symm hi)]
        exact h
      refine (ih hstep).mono fun os r hP => ?_
      rwa [madeBy, if_neg hi, List.nil_append]

end Pool

end Lib
