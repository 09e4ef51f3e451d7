import Mathlib

/-!
# Programs whose state survives errors

`EStateM ε σ` are the programs that may raise an error and then keep the state they had reached.
`Std.Do` has their triples; what is added here is how a triple speaks about a run, and the rule for
`try … finally …`.

Results:
* `triple_iff`: a triple is a statement about every run.
* `tryFinally_spec`: the last block runs after a result and after an error.
-/

namespace Lib.Unwind

open Std.Do

variable {ε σ α : Type}

/-- The weakest precondition is read off the run. -/
theorem wp_eq (x : EStateM ε σ α) (s : σ) (Q : PostCond α (.except ε (.arg σ .pure))) :
    wp⟦x⟧ Q s = match x.run s with
      | .ok a s' => Q.1 a s'
      | .error e s' => Q.2.1 e s' := by
  show (match x.run s with
      | .ok a s' => Q.1 a s'
      | .error e s' => Q.2.1 e s') = _
  cases x.run s <;> rfl

theorem triple_iff {x : EStateM ε σ α} {P : σ → Prop} {Q : α → σ → Prop} {E : ε → σ → Prop} :
    ⦃fun s => ⌜P s⌝⦄ x ⦃post⟨fun a s => ⌜Q a s⌝, fun e s => ⌜E e s⌝⟩⦄ ↔
      ∀ s, P s → match x.run s with
        | .ok a s' => Q a s'
        | .error e s' => E e s' := by
  rw [Triple.iff]
  refine forall_congr' fun s => ?_
  show (P s → (wp⟦x⟧ _ s).down) ↔ _
  rw [wp_eq]
  cases x.run s <;> rfl

theorem run_tryFinally (x : EStateM ε σ α) (h : EStateM ε σ Unit) (s : σ) :
    (tryFinally x h).run s = match x.run s with
      | .ok a s₁ => match h.run s₁ with
        | .ok _ s₂ => .ok a s₂
        | .error e s₂ => .error e s₂
      | .error e s₁ => match h.run s₁ with
        | .ok _ s₂ => .error e s₂
        | .error e' s₂ => .error e' s₂ := by
  simp only [tryFinally, tryFinally', Functor.map, EStateM.map, EStateM.run]
  cases x s with
  | ok a s₁ =>
    simp only
    cases h s₁ <;> rfl
  | error e s₁ =>
    simp only
    cases h s₁ <;> rfl

/-- The rule for `try x finally h`. -/
@[spec] theorem tryFinally_spec (x : EStateM ε σ α) (h : EStateM ε σ Unit)
    (Q : PostCond α (.except ε (.arg σ .pure))) :
    ⦃wp⟦x⟧ (fun a => wp⟦h⟧ (fun _ => Q.1 a, Q.2), fun e => wp⟦h⟧ (fun _ => Q.2.1 e, Q.2), Q.2.2)⦄
    tryFinally x h ⦃Q⦄ := by
  apply Triple.of_entails_wp
  intro s hs
  rw [wp_eq] at hs ⊢
  rw [run_tryFinally]
  cases hx : x.run s with
  | ok a s₁ =>
    rw [hx] at hs
    simp only [wp_eq] at hs
    cases hh : h.run s₁ with
    | ok u s₂ => simpa [hh] using hs
    | error e s₂ => simpa [hh] using hs
  | error e s₁ =>
    rw [hx] at hs
    simp only [wp_eq] at hs
    cases hh : h.run s₁ with
    | ok u s₂ => simpa [hh] using hs
    | error e s₂ => simpa [hh] using hs

end Lib.Unwind
