import Mathlib

/-!
# ICPC scoring of one problem

A contestant's attempts on one problem, in the order they were made, over an
arbitrary type of attempts. An attempt may be accepted, penalised or neither
(not judged yet).

Results:
* `firstAccepted_dropIdle`, `attemptsBefore_dropIdle`: attempts that are neither
  accepted nor penalised, and attempts after the first accepted one, can be
  deleted without changing the score.
* `noWorse_append`, `noWorse_accept`: more attempts, and an attempt that is accepted,
  do not worsen the score.
-/

namespace Lib.Icpc

variable {σ : Type} (accepted penalised : σ → Bool)

/-- The first accepted attempt. -/
def firstAccepted (l : List σ) : Option σ := l.find? accepted

/-- The number of penalised attempts before the first accepted one, or of all
    penalised attempts when none was accepted. -/
def attemptsBefore (l : List σ) : ℕ := (l.takeWhile fun s => !accepted s).countP penalised

/-- The penalty of a solved problem: the time of the first accepted attempt and
    20 for each penalised attempt before it. An unsolved problem costs nothing. -/
def penalty (time : σ → ℤ) (l : List σ) : ℤ :=
  match firstAccepted accepted l with
  | some s => time s + 20 * attemptsBefore accepted penalised l
  | none => 0

/-- 1 for a solved problem, 0 for an unsolved one. -/
def solvedCount (l : List σ) : ℕ := if (firstAccepted accepted l).isSome then 1 else 0

theorem firstAccepted_cons (s : σ) (l : List σ) :
    firstAccepted accepted (s :: l) = if accepted s then some s else firstAccepted accepted l := by
  cases h : accepted s <;> simp [firstAccepted, h]

theorem attemptsBefore_cons (s : σ) (l : List σ) :
    attemptsBefore accepted penalised (s :: l) =
      if accepted s then 0
      else (if penalised s then 1 else 0) + attemptsBefore accepted penalised l := by
  cases h : accepted s
  · simp [attemptsBefore, h, List.countP_cons, Nat.add_comm]
  · simp [attemptsBefore, h]

theorem firstAccepted_isSome_iff {l : List σ} :
    (firstAccepted accepted l).isSome = true ↔ ∃ s ∈ l, accepted s = true := by
  simp [firstAccepted, List.find?_isSome]

/-- Attempts seen through `f`. -/
theorem firstAccepted_map {τ : Type} (f : τ → σ) (l : List τ) :
    firstAccepted accepted (l.map f) = (firstAccepted (accepted ∘ f) l).map f := List.find?_map ..

theorem attemptsBefore_map {τ : Type} (f : τ → σ) (l : List τ) :
    attemptsBefore accepted penalised (l.map f) = attemptsBefore (accepted ∘ f) (penalised ∘ f) l := by
  unfold attemptsBefore
  rw [List.takeWhile_map, List.countP_map]
  rfl

/-! ## Attempts that do not count -/

/-- Delete the attempts that are neither accepted nor penalised and those after
    the first accepted one; `seen` tells whether an accepted one came before. -/
def dropIdle : Bool → List σ → List σ
  | _, [] => []
  | seen, s :: l =>
    if seen || !(accepted s || penalised s) then dropIdle (seen || accepted s) l
    else s :: dropIdle (seen || accepted s) l

theorem firstAccepted_dropIdle (l : List σ) :
    firstAccepted accepted (dropIdle accepted penalised false l) = firstAccepted accepted l := by
  induction l with
  | nil => rfl
  | cons s l ih =>
    cases ha : accepted s
    · cases hp : penalised s
      · simp [dropIdle, ha, hp, firstAccepted_cons, ih]
      · simp [dropIdle, ha, hp, firstAccepted_cons, ih]
    · simp [dropIdle, ha, firstAccepted_cons]

theorem attemptsBefore_dropIdle (l : List σ) :
    attemptsBefore accepted penalised (dropIdle accepted penalised false l) =
      attemptsBefore accepted penalised l := by
  induction l with
  | nil => rfl
  | cons s l ih =>
    cases ha : accepted s
    · cases hp : penalised s
      · simp [dropIdle, ha, hp, attemptsBefore_cons, ih]
      · simp [dropIdle, ha, hp, attemptsBefore_cons, ih]
    · simp [dropIdle, ha, attemptsBefore_cons]

theorem penalty_dropIdle (time : σ → ℤ) (l : List σ) :
    penalty accepted penalised time (dropIdle accepted penalised false l) =
      penalty accepted penalised time l := by
  simp only [penalty, firstAccepted_dropIdle, attemptsBefore_dropIdle]

theorem solvedCount_dropIdle (l : List σ) :
    solvedCount accepted (dropIdle accepted penalised false l) = solvedCount accepted l := by
  simp only [solvedCount, firstAccepted_dropIdle]

/-! ## More attempts, and better ones -/

/-- Solved problems and penalty of one problem. -/
def score (time : σ → ℤ) (l : List σ) : ℕ × ℤ :=
  (solvedCount accepted l, penalty accepted penalised time l)

/-- More solved, or as many and no more penalty. -/
def NoWorse (a b : ℕ × ℤ) : Prop := b.1 < a.1 ∨ a.1 = b.1 ∧ a.2 ≤ b.2

/-- One problem that is scored no worse leaves the sums no worse. -/
theorem NoWorse.sums {a b x y : ℕ × ℤ} (h : NoWorse a b) (hfst : x.1 + b.1 = y.1 + a.1)
    (hsnd : x.2 + b.2 = y.2 + a.2) : NoWorse x y := by
  unfold NoWorse at *
  omega

theorem firstAccepted_append (l l' : List σ) :
    firstAccepted accepted (l ++ l') = (firstAccepted accepted l).or (firstAccepted accepted l') :=
  List.find?_append

/-- Attempts after the first accepted one are not counted. -/
theorem attemptsBefore_append_of_accepted {l : List σ} (h : (firstAccepted accepted l).isSome = true)
    (l' : List σ) : attemptsBefore accepted penalised (l ++ l') = attemptsBefore accepted penalised l := by
  induction l with
  | nil => cases h
  | cons s l ih =>
    rw [List.cons_append, attemptsBefore_cons, attemptsBefore_cons]
    rw [firstAccepted_cons] at h
    by_cases hs : accepted s = true
    · rw [if_pos hs, if_pos hs]
    · rw [if_neg hs] at h
      rw [if_neg hs, if_neg hs, ih h]

theorem attemptsBefore_append_of_none {l : List σ} (h : firstAccepted accepted l = none) (l' : List σ) :
    attemptsBefore accepted penalised (l ++ l') =
      attemptsBefore accepted penalised l + attemptsBefore accepted penalised l' := by
  induction l with
  | nil => simp [attemptsBefore]
  | cons s l ih =>
    rw [firstAccepted_cons] at h
    split_ifs at h with hs
    rw [List.cons_append, attemptsBefore_cons, attemptsBefore_cons, if_neg hs, if_neg hs, ih h, Nat.add_assoc]

/-- A solved problem is scored. -/
theorem score_append_of_accepted {l : List σ} (h : (firstAccepted accepted l).isSome = true) (time : σ → ℤ)
    (l' : List σ) : score accepted penalised time (l ++ l') = score accepted penalised time l := by
  have hfirst : firstAccepted accepted (l ++ l') = firstAccepted accepted l := by
    obtain ⟨s, hs⟩ := Option.isSome_iff_exists.mp h
    rw [firstAccepted_append, hs]
    rfl
  unfold score solvedCount penalty
  rw [hfirst, attemptsBefore_append_of_accepted accepted penalised h]

/-- An unsolved problem is worth nothing. -/
theorem score_of_none {l : List σ} (h : firstAccepted accepted l = none) (time : σ → ℤ) :
    score accepted penalised time l = (0, 0) := by
  unfold score solvedCount penalty
  rw [h]
  rfl

theorem score_of_some {l : List σ} {s : σ} (h : firstAccepted accepted l = some s) (time : σ → ℤ) :
    score accepted penalised time l = (1, time s + 20 * attemptsBefore accepted penalised l) := by
  unfold score solvedCount penalty
  rw [h]
  rfl

/-- More attempts are scored no worse. -/
theorem noWorse_append (time : σ → ℤ) (l l' : List σ) :
    NoWorse (score accepted penalised time (l ++ l')) (score accepted penalised time l) := by
  cases h : firstAccepted accepted l with
  | some s =>
    rw [score_append_of_accepted accepted penalised (by rw [h]; rfl)]
    exact .inr ⟨rfl, le_rfl⟩
  | none =>
    rw [score_of_none accepted penalised h]
    cases h' : firstAccepted accepted (l ++ l') with
    | some s =>
      rw [score_of_some accepted penalised h']
      exact .inl Nat.zero_lt_one
    | none =>
      rw [score_of_none accepted penalised h']
      exact .inr ⟨rfl, le_rfl⟩

/-- An attempt that did not count is accepted: no worse, if the later accepted ones are not
    earlier than it. -/
theorem noWorse_accept (time : σ → ℤ) {before after : List σ} {s s' : σ} (hs : accepted s = false)
    (hs' : accepted s' = true) (htime : ∀ t ∈ after, accepted t = true → time s' ≤ time t) :
    NoWorse (score accepted penalised time (before ++ s' :: after))
      (score accepted penalised time (before ++ s :: after)) := by
  cases hbefore : firstAccepted accepted before with
  | some t =>
    have hsome : (firstAccepted accepted before).isSome = true := by rw [hbefore]; rfl
    rw [score_append_of_accepted accepted penalised hsome, score_append_of_accepted accepted penalised hsome]
    exact .inr ⟨rfl, le_rfl⟩
  | none =>
    have hfirst' : firstAccepted accepted (before ++ s' :: after) = some s' := by
      rw [firstAccepted_append, hbefore, firstAccepted_cons, if_pos hs']
      rfl
    have hfirst : firstAccepted accepted (before ++ s :: after) = firstAccepted accepted after := by
      rw [firstAccepted_append, hbefore, firstAccepted_cons, if_neg (by rw [hs]; decide)]
      rfl
    rw [score_of_some accepted penalised hfirst']
    cases hafter : firstAccepted accepted after with
    | none =>
      rw [score_of_none accepted penalised (hfirst.trans hafter)]
      exact .inl Nat.zero_lt_one
    | some t =>
      -- both are solved: `s'` is not later, and no more attempts come before it
      rw [score_of_some accepted penalised (hfirst.trans hafter)]
      have hle := htime t (List.mem_of_find?_eq_some hafter) (List.find?_some hafter)
      rw [attemptsBefore_append_of_none accepted penalised hbefore,
        attemptsBefore_append_of_none accepted penalised hbefore, attemptsBefore_cons, if_pos hs']
      exact .inr ⟨rfl, by push_cast; omega⟩

end Lib.Icpc
