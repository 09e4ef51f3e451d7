import Mathlib

/-!
# Insertion-ordered maps

Finite maps that keep their keys in the order of first insertion, as the
ECMAScript `Map` does. Overwriting a key leaves it where it is, which is why
Mathlib's `AList` (whose `insert` moves the key to the front) is not used.

Results:
* `get?_set`, `get?_erase`: the map as a partial function.
* `mem_entries_iff`: the entries are the graph of that function.
* `get?_upsertAll`, `mem_keys_upsertAll`: a loop that rewrites the entry of
  each element's key computes, at every key, the fold over the elements with
  that key.
* `ext_get?`: the order of the keys and the values determine the map.
* `get?_groupBy`: grouping a list by a key.
* `entries_foldl_set`: copying a map entry by entry.
-/

namespace Lib

/-- A finite map with distinct keys in insertion order. -/
structure OrdMap (κ ν : Type) where
  entries : List (κ × ν)
  nodup : (entries.map Prod.fst).Nodup

namespace OrdMap

variable {κ ν α : Type} [DecidableEq κ]

/-- The map without entries. -/
def empty : OrdMap κ ν := ⟨[], List.nodup_nil⟩

/-- The keys, in insertion order. -/
def keys (m : OrdMap κ ν) : List κ := m.entries.map Prod.fst

/-- The values, in insertion order of their keys. -/
def values (m : OrdMap κ ν) : List ν := m.entries.map Prod.snd

/-- The value at `k`, if there is one. -/
def get? (m : OrdMap κ ν) (k : κ) : Option ν := (m.entries.find? fun e => e.1 = k).map Prod.snd

/-- `k` is a key. -/
def has (m : OrdMap κ ν) (k : κ) : Bool := decide (k ∈ m.keys)

/-- Overwrite the entry of `k` in place, or append a new one. -/
def setEntries (l : List (κ × ν)) (k : κ) (v : ν) : List (κ × ν) :=
  if k ∈ l.map Prod.fst then l.map fun e => if e.1 = k then (k, v) else e else l ++ [(k, v)]

theorem map_fst_setEntries (l : List (κ × ν)) (k : κ) (v : ν) :
    (setEntries l k v).map Prod.fst =
      if k ∈ l.map Prod.fst then l.map Prod.fst else l.map Prod.fst ++ [k] := by
  unfold setEntries
  split_ifs with h
  · rw [List.map_map]
    apply List.map_congr_left
    intro e _
    by_cases he : e.1 = k <;> simp [he]
  · simp

theorem nodup_setEntries {l : List (κ × ν)} (hl : (l.map Prod.fst).Nodup) (k : κ) (v : ν) :
    ((setEntries l k v).map Prod.fst).Nodup := by
  rw [map_fst_setEntries]
  split_ifs with h
  · exact hl
  · rw [List.nodup_append]
    refine ⟨hl, List.nodup_singleton k, ?_⟩
    intro a ha b hb hab
    rw [List.mem_singleton] at hb
    exact h (hb ▸ hab ▸ ha)

/-- Set the value at `k`. -/
def set (m : OrdMap κ ν) (k : κ) (v : ν) : OrdMap κ ν :=
  ⟨setEntries m.entries k v, nodup_setEntries m.nodup k v⟩

/-- Remove the entry of `k`. -/
def erase (m : OrdMap κ ν) (k : κ) : OrdMap κ ν :=
  ⟨m.entries.filter fun e => e.1 ≠ k, m.nodup.sublist (List.filter_sublist.map _)⟩

/-! ## The map as a partial function -/

@[simp] theorem get?_empty (k : κ) : (empty : OrdMap κ ν).get? k = none := rfl

omit [DecidableEq κ] in
@[simp] theorem keys_empty : (empty : OrdMap κ ν).keys = [] := rfl

/-- Looking up in a list of entries with distinct keys finds exactly its members. -/
theorem find?_key_iff {l : List (κ × ν)} (hl : (l.map Prod.fst).Nodup) (k : κ) (v : ν) :
    (l.find? fun e => e.1 = k).map Prod.snd = some v ↔ (k, v) ∈ l := by
  induction l with
  | nil => simp
  | cons e l ih =>
    obtain ⟨a, b⟩ := e
    rw [List.map_cons, List.nodup_cons] at hl
    by_cases h : a = k
    · subst h
      have hnot : (a, v) ∉ l := fun hv => hl.1 (List.mem_map.mpr ⟨_, hv, rfl⟩)
      simp [hnot, eq_comm]
    · have hne : ((k, v) : κ × ν) ≠ (a, b) := fun he => h (congrArg Prod.fst he).symm
      simp only [List.find?_cons, decide_eq_false h, List.mem_cons, hne, false_or]
      exact ih hl.2

theorem mem_entries_iff (m : OrdMap κ ν) {k : κ} {v : ν} :
    (k, v) ∈ m.entries ↔ m.get? k = some v :=
  (find?_key_iff m.nodup k v).symm

theorem mem_keys_iff (m : OrdMap κ ν) {k : κ} : k ∈ m.keys ↔ ∃ v, m.get? k = some v := by
  simp only [keys, List.mem_map, ← mem_entries_iff]
  constructor
  · rintro ⟨⟨a, b⟩, hm, rfl⟩; exact ⟨b, hm⟩
  · rintro ⟨v, hv⟩; exact ⟨(k, v), hv, rfl⟩

@[simp] theorem has_iff (m : OrdMap κ ν) {k : κ} : m.has k = true ↔ k ∈ m.keys := by
  simp [has]

theorem has_eq_isSome (m : OrdMap κ ν) (k : κ) : m.has k = (m.get? k).isSome := by
  rw [Bool.eq_iff_iff, has_iff, mem_keys_iff, Option.isSome_iff_exists]

theorem keys_set (m : OrdMap κ ν) (k : κ) (v : ν) :
    (m.set k v).keys = if k ∈ m.keys then m.keys else m.keys ++ [k] :=
  map_fst_setEntries m.entries k v

theorem mem_keys_set (m : OrdMap κ ν) {k k' : κ} {v : ν} :
    k' ∈ (m.set k v).keys ↔ k' = k ∨ k' ∈ m.keys := by
  rw [keys_set]
  split_ifs with h
  · exact ⟨Or.inr, fun hk => hk.elim (fun he => he ▸ h) id⟩
  · simp [or_comm]

theorem mem_entries_set (m : OrdMap κ ν) {k k' : κ} {v v' : ν} :
    (k', v') ∈ (m.set k v).entries ↔ if k' = k then v' = v else (k', v') ∈ m.entries := by
  simp only [set, setEntries]
  split_ifs with hk hkk hkk
  · subst hkk
    simp only [List.mem_map, Prod.exists]
    constructor
    · rintro ⟨a, b, hm, he⟩
      by_cases ha : a = k'
      · rw [if_pos ha] at he; exact (congrArg Prod.snd he).symm
      · rw [if_neg ha] at he; exact absurd (congrArg Prod.fst he) ha
    · rintro rfl
      obtain ⟨⟨a, b⟩, hm, rfl⟩ := List.mem_map.mp hk
      exact ⟨a, b, hm, by simp⟩
  · simp only [List.mem_map, Prod.exists]
    constructor
    · rintro ⟨a, b, hm, he⟩
      by_cases ha : a = k
      · rw [if_pos ha] at he; exact absurd (congrArg Prod.fst he).symm hkk
      · rw [if_neg ha] at he; exact he ▸ hm
    · intro hm
      exact ⟨k', v', hm, if_neg hkk⟩
  · subst hkk
    have hnot : (k', v') ∉ m.entries := fun hv => hk (List.mem_map.mpr ⟨_, hv, rfl⟩)
    simp [hnot]
  · simp [hkk]

theorem get?_set (m : OrdMap κ ν) (k k' : κ) (v : ν) :
    (m.set k v).get? k' = if k' = k then some v else m.get? k' := by
  apply Option.ext
  intro w
  rw [← mem_entries_iff, mem_entries_set]
  split_ifs with h
  · simp [eq_comm]
  · exact mem_entries_iff m

@[simp] theorem get?_set_self (m : OrdMap κ ν) (k : κ) (v : ν) : (m.set k v).get? k = some v := by
  rw [get?_set, if_pos rfl]

theorem get?_erase (m : OrdMap κ ν) (k k' : κ) :
    (m.erase k).get? k' = if k' = k then none else m.get? k' := by
  apply Option.ext
  intro w
  rw [← mem_entries_iff]
  simp only [erase, List.mem_filter, mem_entries_iff, decide_eq_true_eq, ne_eq]
  split_ifs with h <;> simp [h]

/-- Setting the same key twice keeps the second value. -/
theorem set_set (m : OrdMap κ ν) (k : κ) (v w : ν) : (m.set k v).set k w = m.set k w := by
  have hk : k ∈ (setEntries m.entries k v).map Prod.fst := by
    rw [map_fst_setEntries]; split_ifs with h
    · exact h
    · simp
  simp only [set, OrdMap.mk.injEq]
  rw [setEntries, if_pos hk]
  simp only [setEntries]
  split_ifs with h
  · rw [List.map_map]
    apply List.map_congr_left
    intro e _
    by_cases he : e.1 = k <;> simp [he]
  · rw [List.map_append]
    congr 1
    · conv_rhs => rw [← List.map_id m.entries]
      apply List.map_congr_left
      intro e he
      have hne : e.1 ≠ k := fun hek => h (hek ▸ List.mem_map_of_mem he)
      simp [hne]
    · simp

theorem entries_eq (m : OrdMap κ ν) : m.entries = m.keys.filterMap fun k => (m.get? k).map fun v => (k, v) := by
  have hget : ∀ e ∈ m.entries, m.get? e.1 = some e.2 := fun e he => (mem_entries_iff m).mp he
  rw [keys, List.filterMap_map]
  symm
  calc m.entries.filterMap ((fun k => (m.get? k).map fun v => (k, v)) ∘ Prod.fst)
    _ = m.entries.filterMap some := List.filterMap_congr fun e he => by simp [hget e he]
    _ = m.entries := List.filterMap_some

/-- A map is determined by the order of its keys and by its values. -/
theorem ext_get? {m m' : OrdMap κ ν} (hkeys : m.keys = m'.keys) (hget : ∀ k, m.get? k = m'.get? k) : m = m' := by
  have hentries : m.entries = m'.entries := by
    rw [entries_eq m, entries_eq m', hkeys]
    simp only [hget]
  cases m
  cases m'
  cases hentries
  rfl

/-! ## Keyed loops -/

/-- The loop `for x of l: m.set(key x, upd(m.get(key x), x))`. -/
def upsertAll (key : α → κ) (upd : Option ν → α → ν) (m : OrdMap κ ν) (l : List α) : OrdMap κ ν :=
  l.foldl (fun m x => m.set (key x) (upd (m.get? (key x)) x)) m

/-- At key `k` the loop folds over the elements with key `k` only. -/
theorem get?_upsertAll (key : α → κ) (upd : Option ν → α → ν) (m : OrdMap κ ν) (l : List α) (k : κ) :
    (upsertAll key upd m l).get? k =
      (l.filter fun x => key x = k).foldl (fun o x => some (upd o x)) (m.get? k) := by
  induction l generalizing m with
  | nil => rfl
  | cons x l ih =>
    rw [upsertAll, List.foldl_cons, ← upsertAll, ih, get?_set, List.filter_cons]
    by_cases h : key x = k
    · simp [h]
    · simp [h, Ne.symm h]

theorem mem_keys_upsertAll (key : α → κ) (upd : Option ν → α → ν) (m : OrdMap κ ν) (l : List α)
    {k : κ} : k ∈ (upsertAll key upd m l).keys ↔ k ∈ m.keys ∨ ∃ x ∈ l, key x = k := by
  induction l generalizing m with
  | nil => simp [upsertAll]
  | cons x l ih =>
    rw [upsertAll, List.foldl_cons, ← upsertAll, ih, mem_keys_set]
    simp only [List.exists_mem_cons_iff]
    constructor
    · rintro ((rfl | h) | h)
      · exact Or.inr (Or.inl rfl)
      · exact Or.inl h
      · exact Or.inr (Or.inr h)
    · rintro (h | rfl | h)
      · exact Or.inl (Or.inr h)
      · exact Or.inl (Or.inl rfl)
      · exact Or.inr h

theorem foldl_some (upd : Option ν → α → ν) (l : List α) (b : ν) :
    l.foldl (fun o x => some (upd o x)) (some b) = some (l.foldl (fun b x => upd (some b) x) b) := by
  induction l generalizing b with
  | nil => rfl
  | cons x l ih => exact ih (upd (some b) x)

/-- The loop from the empty map, when a missing entry is treated like the
    default `d`: a key has an entry iff it occurs, the fold from `d`. -/
theorem get?_upsertAll_empty (key : α → κ) (upd : Option ν → α → ν) (d : ν)
    (hd : ∀ x, upd none x = upd (some d) x) (l : List α) (k : κ) :
    (upsertAll key upd empty l).get? k =
      if (l.filter fun x => key x = k) = [] then none
      else some ((l.filter fun x => key x = k).foldl (fun b x => upd (some b) x) d) := by
  rw [get?_upsertAll, get?_empty]
  cases l.filter fun x => key x = k with
  | nil => rfl
  | cons x l' => rw [List.foldl_cons, hd, foldl_some, List.foldl_cons, if_neg (by simp)]

/-- Group a list by a key, each group in list order. -/
def groupBy (key : α → κ) (l : List α) : OrdMap κ (List α) :=
  upsertAll key (fun o x => o.getD [] ++ [x]) empty l

/-- The group of `k` is the sublist of elements with key `k`; only keys that
    occur have a group. -/
theorem get?_groupBy (key : α → κ) (l : List α) (k : κ) :
    (groupBy key l).get? k =
      if (l.filter fun x => key x = k) = [] then none else some (l.filter fun x => key x = k) := by
  rw [groupBy, get?_upsertAll_empty key _ [] (fun _ => rfl)]
  have happend : ∀ (l g : List α), l.foldl (fun b x => (some b).getD [] ++ [x]) g = g ++ l := by
    intro l
    induction l with
    | nil => simp
    | cons x l ih => intro g; rw [List.foldl_cons, ih]; simp
  rw [happend, List.nil_append]

theorem mem_keys_groupBy (key : α → κ) (l : List α) {k : κ} :
    k ∈ (groupBy key l).keys ↔ ∃ x ∈ l, key x = k := by
  simp [groupBy, mem_keys_upsertAll]

/-- One more element of a key that occurs leaves the keys as they are. -/
theorem keys_groupBy_snoc (key : α → κ) {l : List α} {x : α} (h : ∃ y ∈ l, key y = key x) :
    (groupBy key (l ++ [x])).keys = (groupBy key l).keys := by
  have hmem : key x ∈ (groupBy key l).keys := (mem_keys_groupBy key l).mpr h
  unfold groupBy upsertAll at hmem ⊢
  rw [List.foldl_append, List.foldl_cons, List.foldl_nil, keys_set, if_pos hmem]

theorem toFinset_keys_groupBy (key : α → κ) (l : List α) :
    (groupBy key l).keys.toFinset = (l.map key).toFinset := by
  ext k
  simp [mem_keys_groupBy]

/-- A sum over the groups is a sum over the distinct keys. -/
theorem sum_groupBy {M : Type} [AddCommMonoid M] (key : α → κ) (l : List α) (f : List α → M) :
    ((groupBy key l).entries.map fun e => f e.2).sum =
      ∑ k ∈ (l.map key).toFinset, f (l.filter fun x => key x = k) := by
  have hentries : (groupBy key l).entries.map (fun e => f e.2) =
      (groupBy key l).keys.map fun k => f (l.filter fun x => key x = k) := by
    rw [keys, List.map_map]
    apply List.map_congr_left
    rintro ⟨k, g⟩ hg
    rw [mem_entries_iff, get?_groupBy] at hg
    split_ifs at hg
    exact congrArg f (Option.some.inj hg).symm
  rw [hentries, ← toFinset_keys_groupBy]
  exact (List.sum_toFinset _ (groupBy key l).nodup).symm

/-! ## Rebuilding a map -/

theorem entries_set_of_not_mem (m : OrdMap κ ν) {k : κ} (h : k ∉ m.keys) (v : ν) :
    (m.set k v).entries = m.entries ++ [(k, v)] :=
  if_neg h

/-- Setting the values `f k v` for the entries of another map, in its order,
    copies that map. -/
theorem entries_foldl_set {μ : Type} (f : κ → ν → μ) (l : List (κ × ν)) :
    ∀ acc : OrdMap κ μ, (acc.keys ++ l.map Prod.fst).Nodup →
      (l.foldl (fun acc e => acc.set e.1 (f e.1 e.2)) acc).entries =
        acc.entries ++ l.map fun e => (e.1, f e.1 e.2) := by
  induction l with
  | nil => intro acc _; simp
  | cons e l ih =>
    intro acc hnd
    have hnot : e.1 ∉ acc.keys := by
      intro he
      rw [List.nodup_append] at hnd
      exact hnd.2.2 _ he _ (by simp) rfl
    rw [List.foldl_cons, ih, entries_set_of_not_mem acc hnot]
    · simp
    · rw [keys_set, if_neg hnot]
      simpa using hnd

/-- A map whose entries are those of `m` with the values `f k v` looks up as
    `m` does, through `f`. -/
theorem get?_of_entries_map {μ : Type} (f : κ → ν → μ) {m : OrdMap κ ν} {m' : OrdMap κ μ}
    (h : m'.entries = m.entries.map fun e => (e.1, f e.1 e.2)) (k : κ) :
    m'.get? k = (m.get? k).map (f k) := by
  apply Option.ext
  intro w
  rw [← mem_entries_iff, h]
  simp only [List.mem_map, Prod.exists, Prod.mk.injEq, Option.map_eq_some_iff]
  constructor
  · rintro ⟨a, b, hab, rfl, rfl⟩; exact ⟨b, (mem_entries_iff m).mp hab, rfl⟩
  · rintro ⟨b, hb, rfl⟩; exact ⟨k, b, (mem_entries_iff m).mpr hb, rfl, rfl⟩

end OrdMap

end Lib
