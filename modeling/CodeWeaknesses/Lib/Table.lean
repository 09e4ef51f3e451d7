import Mathlib

/-!
# Tables

A `Table` is a list of rows with pairwise different keys. `upsert` writes a row:
in place when its key is stored, at the end otherwise.

Results:
* `map_eq_map_iff_of_keys`: two keyed lists compared through a view.
* `find?_eq_some_iff`: `find?` returns the row with the key.
* `find?_upsert`, `mem_upsert`: a write changes the row with its key and no other.
* `rows_upsert_of_find?_eq_none`: a write under a new key goes to the end.
* `Refines.upsert`: a write to a table that stands for a partial function updates the function.
-/

namespace Lib

/-- Two lists with the same, pairwise different, keys show the same view iff every two
    elements with the same key do. -/
theorem map_eq_map_iff_of_keys {α κ β : Type} {key : α → κ} (view : α → β) : ∀ {l l' : List α},
    l.map key = l'.map key → (l'.map key).Nodup →
      (l.map view = l'.map view ↔ ∀ a ∈ l, ∀ a' ∈ l', key a = key a' → view a = view a') := by
  intro l
  induction l with
  | nil =>
    intro l' hkeys _
    cases List.map_eq_nil_iff.mp hkeys.symm
    simp
  | cons a l ih =>
    intro l' hkeys hnodup
    cases l' with
    | nil => cases hkeys
    | cons a' l' =>
      obtain ⟨hkey, hkeys⟩ := List.cons.inj hkeys
      obtain ⟨hnot, hnodup⟩ := List.nodup_cons.mp hnodup
      have hsep : ∀ b' ∈ l', key a ≠ key b' := by
        intro b' hb' h
        exact hnot (List.mem_map.mpr ⟨b', hb', by rw [← h, hkey]⟩)
      have hsep' : ∀ b ∈ l, key b ≠ key a' := by
        intro b hb h
        exact hnot (by rw [← hkeys, ← h]; exact List.mem_map_of_mem hb)
      rw [List.map_cons, List.map_cons, List.cons.injEq, ih hkeys hnodup]
      constructor
      · rintro ⟨hview, hrest⟩ b hb b' hb' h
        rcases List.mem_cons.mp hb with rfl | hb <;> rcases List.mem_cons.mp hb' with rfl | hb'
        · exact hview
        · exact absurd h (hsep b' hb')
        · exact absurd h (hsep' b hb)
        · exact hrest b hb b' hb' h
      · intro h
        refine ⟨h a List.mem_cons_self a' List.mem_cons_self hkey, ?_⟩
        intro b hb b' hb'
        exact h b (List.mem_cons_of_mem _ hb) b' (List.mem_cons_of_mem _ hb')

/-- Rows with pairwise different keys. -/
structure Table (ρ κ : Type) (key : ρ → κ) where
  rows : List ρ
  nodup : (rows.map key).Nodup

namespace Table

variable {ρ κ σ : Type} {key : ρ → κ} [DecidableEq κ]

def empty : Table ρ κ key := ⟨[], List.nodup_nil⟩

/-- The row with the key. -/
def find? (t : Table ρ κ key) (k : κ) : Option ρ := t.rows.find? fun r => key r = k

theorem find?_eq_none_iff {t : Table ρ κ key} {k : κ} : t.find? k = none ↔ ∀ r ∈ t.rows, key r ≠ k := by
  simp [find?]

theorem find?_eq_some_iff {t : Table ρ κ key} {k : κ} {r : ρ} :
    t.find? k = some r ↔ r ∈ t.rows ∧ key r = k := by
  cases hf : t.find? k with
  | none =>
    have hne := find?_eq_none_iff.mp hf
    simpa using hne r
  | some stored =>
    have hstored : key stored = k := by simpa using List.find?_some hf
    have hmem : stored ∈ t.rows := List.mem_of_find?_eq_some hf
    rw [Option.some_inj]
    constructor
    · rintro rfl
      exact ⟨hmem, hstored⟩
    · rintro ⟨hr, hk⟩
      exact List.inj_on_of_nodup_map t.nodup hmem hr (hstored.trans hk.symm)

theorem find?_key {t : Table ρ κ key} {r : ρ} (hr : r ∈ t.rows) : t.find? (key r) = some r :=
  find?_eq_some_iff.mpr ⟨hr, rfl⟩

theorem find?_isSome_iff {t : Table ρ κ key} {k : κ} : (t.find? k).isSome ↔ k ∈ t.rows.map key := by
  rw [Option.isSome_iff_exists, List.mem_map]
  exact exists_congr fun r => find?_eq_some_iff

/-- Tables with the same keys in the same order, and the same rows. -/
theorem eq_of_find? {t t' : Table ρ κ key} (hkeys : t.rows.map key = t'.rows.map key)
    (hfind : ∀ k, t.find? k = t'.find? k) : t = t' := by
  have hrows : t.rows.map id = t'.rows.map id := by
    refine (map_eq_map_iff_of_keys id hkeys t'.nodup).mpr ?_
    intro r hr r' hr' hkey
    have hsame := hfind (key r)
    rw [find?_key hr, hkey, find?_key hr'] at hsame
    exact Option.some.inj hsame
  obtain ⟨rows, nodup⟩ := t
  obtain ⟨rows', nodup'⟩ := t'
  obtain rfl : rows = rows' := by simpa using hrows
  rfl

/-- The rows after writing `r`. -/
def upsertRows (rows : List ρ) (key : ρ → κ) (r : ρ) : List ρ :=
  if key r ∈ rows.map key then rows.map fun r' => if key r' = key r then r else r' else rows ++ [r]

theorem map_key_replace (rows : List ρ) (key : ρ → κ) (r : ρ) :
    (rows.map fun r' => if key r' = key r then r else r').map key = rows.map key := by
  rw [List.map_map]
  apply List.map_congr_left
  intro r' _
  by_cases h : key r' = key r <;> simp [h]

theorem map_key_upsertRows (rows : List ρ) (key : ρ → κ) (r : ρ) :
    (upsertRows rows key r).map key =
      if key r ∈ rows.map key then rows.map key else rows.map key ++ [key r] := by
  unfold upsertRows
  split_ifs
  · exact map_key_replace rows key r
  · simp

/-- `save`: writes the row `r`. -/
def upsert (t : Table ρ κ key) (r : ρ) : Table ρ κ key where
  rows := upsertRows t.rows key r
  nodup := by
    rw [map_key_upsertRows]
    split_ifs with h
    · exact t.nodup
    · exact List.nodup_append.mpr ⟨t.nodup, by simp, by simpa using h⟩

theorem mem_upsert {t : Table ρ κ key} {r r' : ρ} :
    r' ∈ (t.upsert r).rows ↔ r' = r ∨ r' ∈ t.rows ∧ key r' ≠ key r := by
  simp only [upsert, upsertRows]
  split_ifs with h
  · obtain ⟨r₀, hr₀, hkey⟩ := List.mem_map.mp h
    rw [List.mem_map]
    constructor
    · rintro ⟨a, ha, rfl⟩
      by_cases hak : key a = key r
      · simp [hak]
      · rw [if_neg hak]
        exact .inr ⟨ha, hak⟩
    · rintro (rfl | ⟨hr', hne⟩)
      · exact ⟨r₀, hr₀, by simp [hkey]⟩
      · exact ⟨r', hr', by simp [hne]⟩
  · have hall : ∀ a ∈ t.rows, key a ≠ key r := fun a ha hk => h (List.mem_map.mpr ⟨a, ha, hk⟩)
    rw [List.mem_append, List.mem_singleton]
    constructor
    · rintro (hr' | rfl)
      · exact .inr ⟨hr', hall _ hr'⟩
      · exact .inl rfl
    · rintro (rfl | ⟨hr', _⟩)
      · exact .inr rfl
      · exact .inl hr'

theorem find?_upsert (t : Table ρ κ key) (r : ρ) (k : κ) :
    (t.upsert r).find? k = if k = key r then some r else t.find? k := by
  split_ifs with hk
  · rw [find?_eq_some_iff, mem_upsert]
    exact ⟨.inl rfl, hk.symm⟩
  · ext r'
    rw [find?_eq_some_iff, find?_eq_some_iff, mem_upsert]
    constructor
    · rintro ⟨rfl | ⟨hr', _⟩, hkey⟩
      · exact absurd hkey.symm hk
      · exact ⟨hr', hkey⟩
    · rintro ⟨hr', rfl⟩
      exact ⟨.inr ⟨hr', hk⟩, rfl⟩

@[simp] theorem find?_upsert_self (t : Table ρ κ key) (r : ρ) : (t.upsert r).find? (key r) = some r := by
  simp [find?_upsert]

/-- A write under a fresh key leaves every stored row. -/
theorem find?_upsert_of_fresh {t : Table ρ κ key} {r r' : ρ} {k : κ} (hr : t.find? k = some r)
    (hfresh : t.find? (key r') = none) : (t.upsert r').find? k = some r := by
  have hne : k ≠ key r' := by
    rintro rfl
    cases hfresh.symm.trans hr
  rw [find?_upsert, if_neg hne, hr]

/-- A write leaves the rows that `p` selects as they are if it selects neither the new row nor
    the one before it. -/
theorem filter_rows_upsert {t : Table ρ κ key} {r : ρ} {p : ρ → Bool} (hr : p r = false)
    (hold : ∀ r' ∈ t.rows, key r' = key r → p r' = false) : (t.upsert r).rows.filter p = t.rows.filter p := by
  simp only [upsert, upsertRows]
  split_ifs with h
  · rw [List.filter_map]
    have hsame : ∀ r' ∈ t.rows, (p ∘ fun r' => if key r' = key r then r else r') r' = p r' := by
      intro r' hr'
      by_cases hk : key r' = key r
      · simp only [Function.comp_apply, if_pos hk, hr, hold r' hr' hk]
      · simp only [Function.comp_apply, if_neg hk]
    rw [List.filter_congr hsame]
    refine (List.map_congr_left fun r' hr' => ?_).trans (List.map_id _)
    obtain ⟨hmem, hp⟩ := List.mem_filter.mp hr'
    by_cases hk : key r' = key r
    · rw [hold r' hmem hk] at hp
      cases hp
    · rw [if_neg hk, id]
  · rw [List.filter_append, List.filter_singleton, hr]
    simp

/-- A write under a fresh key appends the row. -/
theorem rows_upsert_of_find?_eq_none {t : Table ρ κ key} {r : ρ} (h : t.find? (key r) = none) :
    (t.upsert r).rows = t.rows ++ [r] := by
  have hnot : key r ∉ t.rows.map key := by
    rintro hmem
    obtain ⟨a, ha, hk⟩ := List.mem_map.mp hmem
    exact find?_eq_none_iff.mp h a ha hk
  simp only [upsert, upsertRows, if_neg hnot]

/-- `delete`: drops the row with the key. -/
def delete (t : Table ρ κ key) (k : κ) : Table ρ κ key where
  rows := t.rows.filter fun r => key r ≠ k
  nodup := t.nodup.sublist (List.filter_sublist.map key)

/-! ## What a table stands for -/

section Refines

variable {β : Type} {rel : ρ → β → Prop} {t : Table ρ κ key} {f : κ → Option β} {k : κ} {r : ρ} {b : β}

/-- The table is `f`, with `rel` between rows and values. -/
def Refines (rel : ρ → β → Prop) (t : Table ρ κ key) (f : κ → Option β) : Prop :=
  ∀ k, Option.Rel rel (t.find? k) (f k)

theorem refines_empty : Refines rel (empty : Table ρ κ key) fun _ => none := fun _ => .none

theorem Refines.upsert (h : Refines rel t f) (hrel : rel r b) :
    Refines rel (t.upsert r) (Function.update f (key r) (some b)) := by
  intro k
  rw [find?_upsert]
  split_ifs with hk
  · rw [hk, Function.update_self]
    exact .some hrel
  · rw [Function.update_of_ne hk]
    exact h k

theorem Refines.of_find? (h : Refines rel t f) (hr : t.find? k = some r) : ∃ b, f k = some b ∧ rel r b := by
  have hk := h k
  rw [hr] at hk
  cases hf : f k with
  | none =>
    rw [hf] at hk
    cases hk
  | some b =>
    rw [hf] at hk
    cases hk with
    | some hrel => exact ⟨b, rfl, hrel⟩

theorem Refines.of_some (h : Refines rel t f) (hb : f k = some b) : ∃ r, t.find? k = some r ∧ rel r b := by
  have hk := h k
  rw [hb] at hk
  cases hr : t.find? k with
  | none =>
    rw [hr] at hk
    cases hk
  | some r =>
    rw [hr] at hk
    cases hk with
    | some hrel => exact ⟨r, rfl, hrel⟩

theorem Refines.eq_none_iff (h : Refines rel t f) : t.find? k = none ↔ f k = none := by
  constructor
  · intro hr
    cases hb : f k with
    | none => rfl
    | some b =>
      obtain ⟨r, hr', _⟩ := h.of_some hb
      cases hr.symm.trans hr'
  · intro hb
    cases hr : t.find? k with
    | none => rfl
    | some r =>
      obtain ⟨b, hb', _⟩ := h.of_find? hr
      cases hb.symm.trans hb'

end Refines

end Table

end Lib
