import Mathlib

/-!
# Sorting by a comparator and competition ranks

`Array.prototype.sort` with a comparator, and the one-pass ranking loop that
gives equal keys the same rank.

Results:
* `sortBy_perm`: sorting permutes the array.
* `sortBy_pairwise_key`: if the comparator refines the order of a key, the
  sorted array is ascending in that key, whatever the comparator does among
  elements with equal keys.
* `TotalPreorder.sortBy_pairwise`: a consistent comparator sorts into its order.
* `countP_lt_inj`: two keys have as many smaller ones iff they are equal.
* `competitionRanks_eq`: on ascending keys the loop gives each element one plus
  the number of strictly smaller keys.
* `rankAmong_improved`, `rankAmong_other`: the ranks when one key gets smaller.
-/

namespace Lib

variable {α κ : Type}

/-! ## Sorting -/

/-- `l.sort(cmp)`: stable, ascending for `cmp a b ≤ 0`. -/
def sortBy (cmp : α → α → ℤ) (l : List α) : List α := l.insertionSort fun a b => cmp a b ≤ 0

theorem sortBy_perm (cmp : α → α → ℤ) (l : List α) : (sortBy cmp l).Perm l :=
  List.perm_insertionSort _ l

theorem mem_sortBy {cmp : α → α → ℤ} {l : List α} {a : α} : a ∈ sortBy cmp l ↔ a ∈ l :=
  List.mem_insertionSort _

/-- A consistent comparator: any two elements compare, both ways alike, and transitively. -/
structure TotalPreorder (cmp : α → α → ℤ) : Prop where
  swap : ∀ a b, cmp a b ≤ 0 ↔ 0 ≤ cmp b a
  trans : ∀ a b c, cmp a b ≤ 0 → cmp b c ≤ 0 → cmp a c ≤ 0

/-- What a consistent comparator sorts is in its order. -/
theorem TotalPreorder.sortBy_pairwise {cmp : α → α → ℤ} (h : TotalPreorder cmp) (l : List α) :
    (sortBy cmp l).Pairwise fun a b => cmp a b ≤ 0 := by
  have : Std.Total fun a b => cmp a b ≤ 0 := by
    refine ⟨fun a b => ?_⟩
    rcases le_total (cmp a b) 0 with hab | hab
    · exact .inl hab
    · exact .inr ((h.swap b a).mpr hab)
  have : IsTrans α fun a b => cmp a b ≤ 0 := ⟨h.trans⟩
  exact List.pairwise_insertionSort _ l

/-- What a consistent comparator takes for smaller is a strict weak order. -/
theorem TotalPreorder.isStrictWeakOrder {cmp : α → α → ℤ} (h : TotalPreorder cmp) :
    IsStrictWeakOrder α fun a b => cmp a b < 0 where
  irrefl a := by
    have hself := h.swap a a
    omega
  trans a b c hab hbc := by
    by_contra hac
    have hca := (h.swap c a).mpr (not_lt.mp hac)
    have hba := (h.swap b a).mp (h.trans b c a hbc.le hca)
    omega
  incomp_trans a b c hab hbc := by
    have hac := h.trans a b c ((h.swap a b).mpr (not_lt.mp hab.2)) ((h.swap b c).mpr (not_lt.mp hbc.2))
    have hca := h.trans c b a ((h.swap c b).mpr (not_lt.mp hbc.1)) ((h.swap b a).mpr (not_lt.mp hab.1))
    rw [h.swap] at hac hca
    exact ⟨not_lt.mpr hca, not_lt.mpr hac⟩

/-- `cmp` decides strictly between elements whose keys differ. -/
structure RefinesKey [LinearOrder κ] (cmp : α → α → ℤ) (key : α → κ) : Prop where
  lt_zero : ∀ a b, key a < key b → cmp a b < 0
  zero_lt : ∀ a b, key b < key a → 0 < cmp a b

variable [LinearOrder κ]

theorem RefinesKey.key_le {cmp : α → α → ℤ} {key : α → κ} (h : RefinesKey cmp key) {a b : α}
    (hab : cmp a b ≤ 0) : key a ≤ key b := by
  by_contra hlt
  have := h.zero_lt a b (not_le.mp hlt)
  omega

theorem RefinesKey.key_ge {cmp : α → α → ℤ} {key : α → κ} (h : RefinesKey cmp key) {a b : α}
    (hab : ¬ cmp a b ≤ 0) : key b ≤ key a := by
  by_contra hlt
  have := h.lt_zero a b (not_le.mp hlt)
  omega

theorem orderedInsert_pairwise_key {cmp : α → α → ℤ} {key : α → κ} (h : RefinesKey cmp key) (a : α)
    {l : List α} (hl : l.Pairwise fun x y => key x ≤ key y) :
    (l.orderedInsert (fun x y => cmp x y ≤ 0) a).Pairwise fun x y => key x ≤ key y := by
  induction l with
  | nil => simp
  | cons b l ih =>
    rw [List.pairwise_cons] at hl
    rw [List.orderedInsert_cons]
    split_ifs with hab
    · have hle := h.key_le hab
      rw [List.pairwise_cons]
      refine ⟨?_, List.pairwise_cons.mpr hl⟩
      intro x hx
      rcases List.mem_cons.mp hx with rfl | hx
      · exact hle
      · exact hle.trans (hl.1 x hx)
    · rw [List.pairwise_cons]
      refine ⟨?_, ih hl.2⟩
      intro x hx
      rcases List.mem_cons.mp (List.perm_orderedInsert _ a l |>.mem_iff.mp hx) with rfl | hx
      · exact h.key_ge hab
      · exact hl.1 x hx

theorem sortBy_pairwise_key {cmp : α → α → ℤ} {key : α → κ} (h : RefinesKey cmp key) (l : List α) :
    (sortBy cmp l).Pairwise fun x y => key x ≤ key y := by
  unfold sortBy
  induction l with
  | nil => simp
  | cons a l ih =>
    rw [List.insertionSort_cons]
    exact orderedInsert_pairwise_key h a ih

/-! ## Competition ranks -/

/-- A larger key has more smaller ones. -/
theorem countP_lt_of_lt {l : List κ} {k k' : κ} (hk : k ∈ l) (hlt : k < k') :
    l.countP (· < k) < l.countP (· < k') := by
  obtain ⟨pre, post, rfl⟩ := List.append_of_mem hk
  have hmono : ∀ l : List κ, l.countP (· < k) ≤ l.countP (· < k') := fun l =>
    List.countP_mono_left fun x _ hx => decide_eq_true ((of_decide_eq_true hx).trans hlt)
  have hpre := hmono pre
  have hpost := hmono post
  have hself : (k :: post).countP (· < k) = post.countP (· < k) := List.countP_cons_of_neg (by simp)
  have hself' : (k :: post).countP (· < k') = post.countP (· < k') + 1 :=
    List.countP_cons_of_pos (decide_eq_true hlt)
  rw [List.countP_append, List.countP_append, hself, hself']
  omega

/-- Two keys have as many smaller ones iff they are equal. -/
theorem countP_lt_inj {l : List κ} {k k' : κ} (hk : k ∈ l) (hk' : k' ∈ l) :
    l.countP (· < k) = l.countP (· < k') ↔ k = k' := by
  constructor
  · intro heq
    rcases lt_trichotomy k k' with hlt | heq' | hlt
    · exact absurd heq (countP_lt_of_lt hk hlt).ne
    · exact heq'
    · exact absurd heq (countP_lt_of_lt hk' hlt).ne'
  · rintro rfl
    rfl

/-- The loop from index `i` on: `prev` is the key at `i - 1` and `cur` its rank. -/
def ranksFrom : ℕ → ℕ → κ → List κ → List ℕ
  | _, _, _, [] => []
  | i, cur, prev, k :: ks =>
    let cur := if k = prev then cur else i + 1
    cur :: ranksFrom (i + 1) cur k ks

/-- Ranks of a list of keys: the first is 1, and a key that differs from its
    predecessor takes its own position. -/
def competitionRanks : List κ → List ℕ
  | [] => []
  | k :: ks => 1 :: ranksFrom 1 1 k ks

/-- No key of an ascending list lies below the head. -/
theorem countP_lt_head {k : κ} {ks : List κ} (hks : ∀ k' ∈ ks, k ≤ k') : (k :: ks).countP (· < k) = 0 := by
  rw [List.countP_eq_zero]
  intro k' hk'
  rcases List.mem_cons.mp hk' with rfl | hk'
  · simp
  · simpa using hks k' hk'

/-- The ranking loop, carried by: `cur` is the rank of the last key of the
    processed prefix. -/
theorem ranksFrom_eq (l : List κ) : ∀ (pre : List κ) (prev : κ) (cur : ℕ),
    (pre ++ l).Pairwise (· ≤ ·) → (∀ k ∈ pre, k ≤ prev) → (∀ k ∈ l, prev ≤ k) →
    cur = 1 + pre.countP (· < prev) →
    ranksFrom pre.length cur prev l = l.map fun k => 1 + (pre ++ l).countP (· < k) := by
  induction l with
  | nil => intros; rfl
  | cons k ks ih =>
    intro pre prev cur hsorted hpre hl hcur
    have hks : ∀ k' ∈ ks, k ≤ k' := by
      have := (List.pairwise_append.mp hsorted).2.1
      exact (List.pairwise_cons.mp this).1
    have hnone := countP_lt_head hks
    have hcur' : (if k = prev then cur else pre.length + 1) =
        1 + (pre ++ k :: ks).countP (· < k) := by
      rw [List.countP_append, hnone]
      split_ifs with hk
      · rw [hcur, hk, add_zero]
      · have hlt : prev < k := lt_of_le_of_ne (hl k List.mem_cons_self) (Ne.symm hk)
        have hall : pre.countP (· < k) = pre.length := by
          rw [List.countP_eq_length]
          intro k' hk'
          simpa using lt_of_le_of_lt (hpre k' hk') hlt
        rw [hall]; omega
    rw [ranksFrom, List.map_cons, hcur']
    congr 1
    have hstep := ih (pre ++ [k]) k (1 + (pre ++ k :: ks).countP (· < k)) (by simpa using hsorted)
      (by
        intro k' hk'
        rcases List.mem_append.mp hk' with hk' | hk'
        · exact (hpre k' hk').trans (hl k List.mem_cons_self)
        · rw [List.mem_singleton] at hk'; exact hk'.le)
      hks
      (by
        have hone : ([k] : List κ).countP (· < k) = 0 := by simp
        rw [List.countP_append, List.countP_append, hnone, hone])
    simpa using hstep

/-- On ascending keys, a rank is one plus the number of strictly smaller keys. -/
theorem competitionRanks_eq {l : List κ} (hl : l.Pairwise (· ≤ ·)) :
    competitionRanks l = l.map fun k => 1 + l.countP (· < k) := by
  cases l with
  | nil => rfl
  | cons k ks =>
    have hks := (List.pairwise_cons.mp hl).1
    have hnone := countP_lt_head hks
    rw [competitionRanks, List.map_cons, hnone]
    congr 1
    exact ranksFrom_eq ks [k] k 1 hl (by simp) hks (by simp)

/-! ## One contestant improves -/

section Contest
variable {α κ : Type} [DecidableEq α] [LinearOrder κ]

/-- One plus the number of contestants with a smaller key. -/
def rankAmong (users : Finset α) (key : α → κ) (u : α) : ℕ :=
  1 + (users.filter fun v => key v < key u).card

variable {users : Finset α} {key key' : α → κ} {u : α}

/-- A contestant whose key does not grow does not fall behind. -/
theorem rankAmong_improved (hkey : ∀ v, v ≠ u → key' v = key v) (hu : u ∈ users) (hle : key' u ≤ key u) :
    rankAmong (insert u users) key' u ≤ rankAmong users key u := by
  have hsub : (insert u users).filter (fun v => key' v < key' u) ⊆ users.filter fun v => key v < key u := by
    intro v hv
    obtain ⟨hmem, hlt⟩ := Finset.mem_filter.mp hv
    have hne : v ≠ u := by
      rintro rfl
      exact lt_irrefl _ hlt
    rw [hkey v hne] at hlt
    exact Finset.mem_filter.mpr ⟨(Finset.mem_insert.mp hmem).resolve_left hne, hlt.trans_le hle⟩
  exact Nat.add_le_add_left (Finset.card_le_card hsub) 1

/-- The others fall behind by one place at most, also when the contestant is new. -/
theorem rankAmong_other (hkey : ∀ v, v ≠ u → key' v = key v) (hle : u ∈ users → key' u ≤ key u) {v : α}
    (hv : v ≠ u) : rankAmong users key v ≤ rankAmong (insert u users) key' v ∧
      rankAmong (insert u users) key' v ≤ rankAmong users key v + 1 := by
  unfold rankAmong
  rw [hkey v hv]
  have hsub : users.filter (fun w => key w < key v) ⊆ (insert u users).filter fun w => key' w < key v := by
    intro w hw
    obtain ⟨hmem, hlt⟩ := Finset.mem_filter.mp hw
    refine Finset.mem_filter.mpr ⟨Finset.mem_insert_of_mem hmem, ?_⟩
    by_cases hne : w = u
    · subst hne
      exact (hle hmem).trans_lt hlt
    · rwa [hkey w hne]
  have hsup : (insert u users).filter (fun w => key' w < key v) ⊆ insert u (users.filter fun w => key w < key v) := by
    intro w hw
    obtain ⟨hmem, hlt⟩ := Finset.mem_filter.mp hw
    by_cases hne : w = u
    · exact hne ▸ Finset.mem_insert_self ..
    · rw [hkey w hne] at hlt
      exact Finset.mem_insert_of_mem (Finset.mem_filter.mpr ⟨(Finset.mem_insert.mp hmem).resolve_left hne, hlt⟩)
  have hlower := Finset.card_le_card hsub
  have hupper := (Finset.card_le_card hsup).trans (Finset.card_insert_le _ _)
  omega
end Contest

end Lib
