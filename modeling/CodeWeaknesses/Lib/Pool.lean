import Mathlib.Algebra.BigOperators.Group.Finset.Piecewise
import Mathlib.Algebra.Order.Ring.Nat

/-!
# Pools of tasks

Tasks that share a state and take their steps in any order. A schedule is a list of the
tasks that take the next step, each with a choice for what the step leaves open. The
step function `st i c` takes task `i` and the state to the task and the state after.

Results:
* `run_append`, `guarded_append`, `not_guarded`: schedules in parts;
  `run_tasks_of_not_mem`: tasks that are not in the schedule.
* `invariant`: what every guarded step keeps, a guarded run keeps; `run_keeps` for all steps.
* `run_cost`: tasks that each have a budget exceed the sum of their budgets in no order.
* `run_balance`: what the tasks of a run have spent is what they owe less at its end.
* `cost_le`: a run costs no more than what its steps are paid out of.
* `run_map`, `guarded_map`, `cost_map`: tasks given by program points run as the points do.
-/

open scoped BigOperators

namespace Lib

/-- Tasks named by `ι`, task `i` of type `P i`, and the state they share. -/
@[ext] structure Pool (ι : Type) (P : ι → Type) (S : Type) where
  tasks : (i : ι) → P i
  state : S

namespace Pool

/-- How a task and the state change in one step. -/
abbrev Stepper (ι : Type) (P : ι → Type) (S C : Type) := (i : ι) → C → P i × S → P i × S

variable {ι S C : Type} {P P' : ι → Type} [DecidableEq ι]

/-- Task `x.1` takes a step with the choice `x.2`. -/
def step (st : Stepper ι P S C) (x : ι × C) (w : Pool ι P S) : Pool ι P S where
  tasks := Function.update w.tasks x.1 (st x.1 x.2 (w.tasks x.1, w.state)).1
  state := (st x.1 x.2 (w.tasks x.1, w.state)).2

/-- The pool after a schedule. -/
def run (st : Stepper ι P S C) : List (ι × C) → Pool ι P S → Pool ι P S
  | [], w => w
  | x :: sched, w => run st sched (step st x w)

/-- Every step of the schedule is admitted in the pool before it. -/
def Guarded (st : Stepper ι P S C) (A : ι × C → Pool ι P S → Prop) :
    List (ι × C) → Pool ι P S → Prop
  | [], _ => True
  | x :: sched, w => A x w ∧ Guarded st A sched (step st x w)

variable {st : Stepper ι P S C} {A : ι × C → Pool ι P S → Prop}

instance decidableGuarded [∀ x w, Decidable (A x w)] :
    ∀ (sched : List (ι × C)) (w : Pool ι P S), Decidable (Guarded st A sched w)
  | [], _ => .isTrue trivial
  | x :: sched, w =>
    have := decidableGuarded sched (step st x w)
    inferInstanceAs (Decidable (A x w ∧ Guarded st A sched (step st x w)))

@[simp] theorem step_tasks_self (x : ι × C) (w : Pool ι P S) :
    (step st x w).tasks x.1 = (st x.1 x.2 (w.tasks x.1, w.state)).1 := Function.update_self ..

theorem step_tasks_of_ne {x : ι × C} {i : ι} (h : i ≠ x.1) (w : Pool ι P S) :
    (step st x w).tasks i = w.tasks i := Function.update_of_ne h ..

@[simp] theorem step_state (x : ι × C) (w : Pool ι P S) :
    (step st x w).state = (st x.1 x.2 (w.tasks x.1, w.state)).2 := rfl

/-- A task that takes no step stays as it is. -/
theorem run_tasks_of_not_mem {i : ι} {sched : List (ι × C)} (h : ∀ x ∈ sched, x.1 ≠ i) (w : Pool ι P S) :
    (run st sched w).tasks i = w.tasks i := by
  induction sched generalizing w with
  | nil => rfl
  | cons x sched ih =>
    have hx : i ≠ x.1 := (h x List.mem_cons_self).symm
    rw [run, ih (fun y hy => h y (List.mem_cons_of_mem _ hy)), step_tasks_of_ne hx]

theorem run_append (sched sched' : List (ι × C)) (w : Pool ι P S) :
    run st (sched ++ sched') w = run st sched' (run st sched w) := by
  induction sched generalizing w with
  | nil => rfl
  | cons x sched ih => exact ih _

theorem guarded_append (sched sched' : List (ι × C)) (w : Pool ι P S) :
    Guarded st A (sched ++ sched') w ↔ Guarded st A sched w ∧ Guarded st A sched' (run st sched w) := by
  induction sched generalizing w with
  | nil => simp [Guarded, run]
  | cons x sched ih => simp [Guarded, run, ih, and_assoc]

/-- A run that is not guarded has a first step that is not admitted. -/
theorem not_guarded {sched : List (ι × C)} : ∀ {w : Pool ι P S}, ¬ Guarded st A sched w →
    ∃ pre x post, sched = pre ++ x :: post ∧ Guarded st A pre w ∧ ¬ A x (run st pre w) := by
  induction sched with
  | nil => exact fun h => absurd trivial h
  | cons x sched ih =>
    intro w h
    by_cases hx : A x w
    · have hrest : ¬ Guarded st A sched (step st x w) := fun hg => h ⟨hx, hg⟩
      obtain ⟨pre, y, post, rfl, hpre, hy⟩ := ih hrest
      exact ⟨x :: pre, y, post, rfl, ⟨hx, hpre⟩, hy⟩
    · exact ⟨[], x, sched, rfl, trivial, hx⟩

/-- What every guarded step keeps, a guarded run keeps. -/
theorem invariant {I : Pool ι P S → Prop} (hstep : ∀ x w, A x w → I w → I (step st x w)) :
    ∀ {sched : List (ι × C)} {w : Pool ι P S}, Guarded st A sched w → I w → I (run st sched w) := by
  intro sched
  induction sched with
  | nil => exact fun _ hw => hw
  | cons x sched ih => exact fun hg hw => ih hg.2 (hstep x _ hg.1 hw)

/-- What every step keeps, a run keeps. -/
theorem run_keeps {I : Pool ι P S → Prop} (hstep : ∀ x w, I w → I (step st x w)) (sched : List (ι × C))
    {w : Pool ι P S} (hw : I w) : I (run st sched w) := by
  induction sched generalizing w with
  | nil => exact hw
  | cons x sched ih => exact ih (hstep x w hw)

/-! ## Budgets -/

section Budgets

variable [Fintype ι] (I : S → Prop) (cost : S → ℕ) (spends : (i : ι) → ℕ → P i → Prop)

/-- If a step that costs comes out of the budget `n` of its task, no order of the steps
    costs more than the budgets together. -/
theorem run_cost
    (hstep : ∀ i c p s n, spends i n p → I s → I (st i c (p, s)).2 ∧
      ∃ m, cost (st i c (p, s)).2 + m ≤ cost s + n ∧ spends i m (st i c (p, s)).1)
    (sched : List (ι × C)) : ∀ {w : Pool ι P S} {budget : ι → ℕ},
      (∀ i, spends i (budget i) (w.tasks i)) → I w.state →
        cost (run st sched w).state ≤ cost w.state + ∑ i, budget i := by
  induction sched with
  | nil => exact fun _ _ => Nat.le_add_right ..
  | cons x sched ih =>
    intro w budget hbudget hw
    obtain ⟨hw', m, hm, hspends⟩ := hstep x.1 x.2 _ _ _ (hbudget x.1) hw
    have hafter : ∀ i, spends i (Function.update budget x.1 m i) ((step st x w).tasks i) := by
      intro i
      by_cases hi : i = x.1
      · subst hi
        rwa [Function.update_self, step_tasks_self]
      · rw [Function.update_of_ne hi, step_tasks_of_ne hi]
        exact hbudget i
    have hrest := ih hafter hw'
    have hsum : ∑ i, Function.update budget x.1 m i = m + ∑ i ∈ Finset.univ \ {x.1}, budget i :=
      Finset.sum_update_of_mem (Finset.mem_univ x.1) budget m
    have hsum' : ∑ i, budget i = budget x.1 + ∑ i ∈ Finset.univ \ {x.1}, budget i := by
      rw [← Finset.sum_update_of_mem (Finset.mem_univ x.1) budget, Function.update_eq_self]
    rw [run]
    rw [step_state] at hrest
    omega

end Budgets

/-! ## Balances -/

section Balances

variable (I : Pool ι P S → Prop) (cost : S → ℕ) (owed : (i : ι) → P i → ℕ) (parties : Finset ι)

/-- If every step costs what its task owes less afterwards, the cost of a run is what the tasks of
    `parties` owe less at its end. The tasks of no party owe nothing. -/
theorem run_balance
    (hstep : ∀ x w, A x w → I w → I (step st x w) ∧
      cost (step st x w).state + owed x.1 ((step st x w).tasks x.1) = cost w.state + owed x.1 (w.tasks x.1))
    (sched : List (ι × C)) : ∀ {w : Pool ι P S}, Guarded st A sched w → I w →
      (∀ x ∈ sched, x.1 ∈ parties ∨ ∀ p, owed x.1 p = 0) →
        cost (run st sched w).state + ∑ i ∈ parties, owed i ((run st sched w).tasks i) =
          cost w.state + ∑ i ∈ parties, owed i (w.tasks i) := by
  induction sched with
  | nil => exact fun _ _ _ => rfl
  | cons x sched ih =>
    intro w hg hw hin
    obtain ⟨hw', hbalance⟩ := hstep x w hg.1 hw
    have hrest := ih hg.2 hw' fun y hy => hin y (List.mem_cons_of_mem _ hy)
    have hother : ∀ i, i ≠ x.1 → owed i ((step st x w).tasks i) = owed i (w.tasks i) :=
      fun i hi => congrArg (owed i) (step_tasks_of_ne hi w)
    have hsum : cost (step st x w).state + ∑ i ∈ parties, owed i ((step st x w).tasks i) =
        cost w.state + ∑ i ∈ parties, owed i (w.tasks i) := by
      by_cases hx : x.1 ∈ parties
      · have hsame : ∑ i ∈ parties.erase x.1, owed i ((step st x w).tasks i) =
            ∑ i ∈ parties.erase x.1, owed i (w.tasks i) :=
          Finset.sum_congr rfl fun i hi => hother i (Finset.ne_of_mem_erase hi)
        rw [← Finset.add_sum_erase parties _ hx, ← Finset.add_sum_erase parties _ hx, hsame]
        omega
      · have hnone := (hin x List.mem_cons_self).resolve_left hx
        have hsame : ∑ i ∈ parties, owed i ((step st x w).tasks i) = ∑ i ∈ parties, owed i (w.tasks i) :=
          Finset.sum_congr rfl fun i hi => hother i (by rintro rfl; exact hx hi)
        rw [hnone, hnone] at hbalance
        omega
    rw [run, hrest, hsum]

end Balances

/-! ## Prices -/

/-- What the steps of a schedule cost, each at its price in the pool before it. -/
def cost (st : Stepper ι P S C) (price : ι × C → Pool ι P S → ℕ) : List (ι × C) → Pool ι P S → ℕ
  | [], _ => 0
  | x :: sched, w => price x w + cost st price sched (step st x w)

/-- If every step is paid for out of what is left, a run costs no more than what there was. -/
theorem cost_le {price : ι × C → Pool ι P S → ℕ} {I : Pool ι P S → ℕ → Prop}
    (hstep : ∀ x w n, A x w → I w n → ∃ m, price x w + m ≤ n ∧ I (step st x w) m) (sched : List (ι × C)) :
    ∀ {w : Pool ι P S} {n : ℕ}, Guarded st A sched w → I w n → cost st price sched w ≤ n := by
  induction sched with
  | nil => exact fun _ _ => Nat.zero_le _
  | cons x sched ih =>
    intro w n hg hw
    obtain ⟨m, hm, hw'⟩ := hstep x w n hg.1 hw
    have hrest := ih hg.2 hw'
    rw [cost]
    omega

/-! ## Program points -/

/-- The tasks seen through `f`. -/
def map (f : (i : ι) → P' i → P i) (w : Pool ι P' S) : Pool ι P S := ⟨fun i => f i (w.tasks i), w.state⟩

/-- The tasks at the points that `f` interprets take the steps of the points. -/
def Simulates (st : Stepper ι P S C) (st' : Stepper ι P' S C) (f : (i : ι) → P' i → P i) : Prop :=
  ∀ i c p s, st i c (f i p, s) = (f i (st' i c (p, s)).1, (st' i c (p, s)).2)

section Simulation

variable {st' : Stepper ι P' S C} {f : (i : ι) → P' i → P i}

theorem step_map (h : Simulates st st' f) (x : ι × C) (w : Pool ι P' S) :
    step st x (map f w) = map f (step st' x w) := by
  apply Pool.ext
  · funext i
    by_cases hi : i = x.1
    · subst hi
      rw [step_tasks_self]
      simp only [map, h _ _ _ _, step_tasks_self]
    · rw [step_tasks_of_ne hi]
      simp only [map, step_tasks_of_ne hi]
  · simp only [map, step_state, h _ _ _ _]

/-- A pool of programs that are given by program points runs as the points do. -/
theorem run_map (h : Simulates st st' f) (sched : List (ι × C)) (w : Pool ι P' S) :
    run st sched (map f w) = map f (run st' sched w) := by
  induction sched generalizing w with
  | nil => rfl
  | cons x sched ih => rw [run, run, step_map h, ih]

theorem guarded_map (h : Simulates st st' f) (sched : List (ι × C)) (w : Pool ι P' S) :
    Guarded st A sched (map f w) ↔ Guarded st' (fun x w => A x (map f w)) sched w := by
  induction sched generalizing w with
  | nil => exact Iff.rfl
  | cons x sched ih => rw [Guarded, Guarded, step_map h, ih]

theorem cost_map (h : Simulates st st' f) (price : ι × C → Pool ι P S → ℕ) (sched : List (ι × C))
    (w : Pool ι P' S) : cost st price sched (map f w) = cost st' (fun x w => price x (map f w)) sched w := by
  induction sched generalizing w with
  | nil => rfl
  | cons x sched ih => rw [cost, cost, step_map h, ih]

end Simulation

end Pool

end Lib
