import CodeWeaknesses.Common.JsonRoundTrip

/-!
# Canonical texts

A text is canonical when `JSON.stringify` writes it.

Results:
* `wellFormed_of_parse`: `JSON.parse` returns values that the engine can hold.
* `length_of_parse`: a text of a string is longer than the string.
* `stringify_parse_iff`: parsing and writing again gives the same text iff it is canonical.
-/

namespace CodeWeaknesses.Json

open Lib

theorem eq_of_keyword {N S : Type} {word cs rest : List Char} {v u : Json N S}
    (h : keyword word u cs = some (v, rest)) : v = u := by
  unfold keyword at h
  split_ifs at h
  cases h
  rfl

/-! ## Objects keep their properties -/

/-- The comparison of `ownProperties`. -/
theorem totalPreorder_index {N S : Type} [StringFormat S] : TotalPreorder fun a b : S × Json N S =>
    ((arrayIndex? a.1).getD 0 : ℤ) - (arrayIndex? b.1).getD 0 where
  swap a b := by omega
  trans a b c := by omega

section Objects

variable {N S : Type} [DecidableEq S]

theorem map_fst_setProperty (fields : List (S × Json N S)) (field : S × Json N S) :
    (setProperty fields field).map Prod.fst =
      if field.1 ∈ fields.map Prod.fst then fields.map Prod.fst else fields.map Prod.fst ++ [field.1] := by
  unfold setProperty
  by_cases hold : ∃ f ∈ fields, f.1 = field.1
  · rw [if_pos hold, if_pos (List.mem_map.mpr hold), List.map_map]
    refine List.map_congr_left fun f _ => ?_
    show (if f.1 = field.1 then field else f).1 = f.1
    split_ifs with heq
    · exact heq.symm
    · rfl
  · rw [if_neg hold, if_neg fun h => hold (List.mem_map.mp h), List.map_append]
    rfl

theorem nodup_foldl_setProperty (fields : List (S × Json N S)) :
    ∀ {before : List (S × Json N S)}, (before.map Prod.fst).Nodup →
      ((fields.foldl setProperty before).map Prod.fst).Nodup := by
  induction fields with
  | nil => exact fun h => h
  | cons f fields ih =>
    intro before hbefore
    refine ih ?_
    rw [map_fst_setProperty]
    split_ifs with hold
    · exact hbefore
    · rw [← List.concat_eq_append]
      exact hbefore.concat hold

theorem mem_of_mem_setProperty {fields : List (S × Json N S)} {f g : S × Json N S} (h : g ∈ setProperty fields f) :
    g ∈ fields ∨ g = f := by
  unfold setProperty at h
  split_ifs at h with hold
  · obtain ⟨f', hf', rfl⟩ := List.mem_map.mp h
    split_ifs with heq
    · exact .inr rfl
    · exact .inl hf'
  · simpa using h

theorem mem_of_mem_foldl_setProperty {fields : List (S × Json N S)} {g : S × Json N S} :
    ∀ {before : List (S × Json N S)}, g ∈ fields.foldl setProperty before → g ∈ before ∨ g ∈ fields := by
  induction fields with
  | nil => exact fun h => .inl h
  | cons f fields ih =>
    intro before h
    rcases ih h with hset | hlater
    · rcases mem_of_mem_setProperty hset with hold | rfl
      · exact .inl hold
      · exact .inr List.mem_cons_self
    · exact .inr (List.mem_cons_of_mem f hlater)

variable [StringFormat S]

theorem mem_of_mem_ownProperties {fields : List (S × Json N S)} {f : S × Json N S} (h : f ∈ ownProperties fields) :
    f ∈ fields := by
  have hfold : f ∈ fields.foldl setProperty [] := by
    rcases List.mem_append.mp h with hindex | hname
    · exact List.mem_of_mem_filter (mem_sortBy.mp hindex)
    · exact List.mem_of_mem_filter hname
  rcases mem_of_mem_foldl_setProperty hfold with hnil | hf
  · cases hnil
  · exact hf

/-- Properties that are in order stay in order. -/
theorem ownProperties_ownProperties (fields : List (S × Json N S)) :
    ownProperties (ownProperties fields) = ownProperties fields := by
  have hperm : (ownProperties fields).Perm (fields.foldl setProperty []) := by
    refine ((sortBy_perm _ _).append_right _).trans ?_
    have hsome : (fun f : S × Json N S => (arrayIndex? f.1).isNone) = fun f => !(arrayIndex? f.1).isSome := by
      funext f
      cases arrayIndex? f.1 <;> rfl
    rw [hsome]
    exact List.filter_append_perm _ _
  have hnodup : ((ownProperties fields).map Prod.fst).Nodup :=
    (hperm.map Prod.fst).nodup_iff.mpr (nodup_foldl_setProperty fields List.nodup_nil)
  refine ownProperties_append hnodup (fun f hf => ?_) (fun f hf => ?_) (totalPreorder_index.sortBy_pairwise _)
  · exact (List.mem_filter.mp (mem_sortBy.mp hf)).2
  · exact Option.isNone_iff_eq_none.mp (List.mem_filter.mp hf).2

theorem fieldsWellFormed_iff {fields : List (S × Json N S)} :
    FieldsWellFormed fields ↔ ∀ f ∈ fields, WellFormed f.2 := by
  induction fields with
  | nil => exact ⟨fun _ => nofun, fun _ => trivial⟩
  | cons f fields ih => rw [FieldsWellFormed, ih, List.forall_mem_cons]

/-- The object that gets the fields one after another is an object that the engine can hold. -/
theorem wellFormed_ownProperties {fields : List (S × Json N S)} (h : FieldsWellFormed fields) :
    WellFormed (.obj (ownProperties fields)) := by
  refine ⟨ownProperties_ownProperties fields, fieldsWellFormed_iff.mpr fun f hf => ?_⟩
  exact fieldsWellFormed_iff.mp h f (mem_of_mem_ownProperties hf)

end Objects

/-! ## Values that are read -/

section Reading

variable {N S : Type} [NumberFormat N] [StringFormat S] [DecidableEq S]

/-- What a value was read from, by what it is. -/
inductive Read (fuel : ℕ) (cs : List Char) : Json N S → List Char → Prop where
  | str {c : Char} {cs' rest : List Char} {s : S} (hcs : skipWhitespace cs = c :: cs')
      (hread : string cs' = some (s, rest)) : Read fuel cs (.str s) rest
  | noItems {rest : List Char} : Read fuel cs (.arr []) rest
  | arr {cs' rest : List Char} {items : List (Json N S)} (hread : readItems fuel cs' = some (items, rest)) :
      Read fuel cs (.arr items) rest
  | noFields {rest : List Char} : Read fuel cs (.obj []) rest
  | obj {cs' rest : List Char} {fields : List (S × Json N S)} (hread : readFields fuel cs' = some (fields, rest)) :
      Read fuel cs (.obj (ownProperties fields)) rest
  | null {rest : List Char} : Read fuel cs .null rest
  | bool {b : Bool} {rest : List Char} : Read fuel cs (.bool b) rest
  | num {n : N} {rest : List Char} : Read fuel cs (.num n) rest

/-- The first character tells what is read. -/
theorem read_of_readValue {fuel : ℕ} {cs rest : List Char} {v : Json N S}
    (h : readValue (fuel + 1) cs = some (v, rest)) : Read fuel cs v rest := by
  rw [readValue] at h
  cases hskip : skipWhitespace cs with
  | nil =>
    rw [hskip] at h
    cases h
  | cons c cs' =>
    rw [hskip] at h
    dsimp only at h
    split_ifs at h with hstring harray hobject hnull htrue hfalse
    · obtain ⟨r, hr, heq⟩ := Option.map_eq_some_iff.mp h
      cases heq
      exact .str hskip hr
    · cases hclose : punctuator ']' cs' with
      | some cs₁ =>
        rw [hclose] at h
        cases h
        exact .noItems
      | none =>
        rw [hclose] at h
        obtain ⟨r, hr, heq⟩ := Option.map_eq_some_iff.mp h
        cases heq
        exact .arr hr
    · cases hclose : punctuator '\x7d' cs' with
      | some cs₁ =>
        rw [hclose] at h
        cases h
        exact .noFields
      | none =>
        rw [hclose] at h
        obtain ⟨r, hr, heq⟩ := Option.map_eq_some_iff.mp h
        cases heq
        exact .obj hr
    · rw [eq_of_keyword h]
      exact .null
    · rw [eq_of_keyword h]
      exact .bool
    · rw [eq_of_keyword h]
      exact .bool
    · obtain ⟨r, _, heq⟩ := Option.map_eq_some_iff.mp h
      cases heq
      exact .num

/-- With this bound, values that are read can be held. -/
def HoldsValues (N S : Type) [NumberFormat N] [StringFormat S] [DecidableEq S] (fuel : ℕ) : Prop :=
  ∀ cs (v : Json N S) rest, readValue fuel cs = some (v, rest) → WellFormed v

def HoldsItems (N S : Type) [NumberFormat N] [StringFormat S] [DecidableEq S] (fuel : ℕ) : Prop :=
  ∀ cs (vs : List (Json N S)) rest, readItems fuel cs = some (vs, rest) → ItemsWellFormed vs

def HoldsFields (N S : Type) [NumberFormat N] [StringFormat S] [DecidableEq S] (fuel : ℕ) : Prop :=
  ∀ cs (fs : List (S × Json N S)) rest, readFields fuel cs = some (fs, rest) → FieldsWellFormed fs

theorem HoldsValues.succ {fuel : ℕ} (hitems : HoldsItems N S fuel) (hfields : HoldsFields N S fuel) :
    HoldsValues N S (fuel + 1) := by
  intro cs v rest h
  cases read_of_readValue h with
  | str => trivial
  | noItems => trivial
  | arr hread => exact hitems _ _ _ hread
  | noFields => exact ⟨rfl, trivial⟩
  | obj hread => exact wellFormed_ownProperties (hfields _ _ _ hread)
  | null => trivial
  | bool => trivial
  | num => trivial

theorem HoldsItems.succ {fuel : ℕ} (hvalues : HoldsValues N S fuel) (hitems : HoldsItems N S fuel) :
    HoldsItems N S (fuel + 1) := by
  intro cs vs rest h
  rw [readItems] at h
  obtain ⟨⟨v, cs'⟩, hv, h⟩ := Option.bind_eq_some_iff.mp h
  have hvalue := hvalues cs v cs' hv
  dsimp only at h
  cases hcomma : punctuator ',' cs' with
  | some cs'' =>
    rw [hcomma] at h
    obtain ⟨r, hr, heq⟩ := Option.map_eq_some_iff.mp h
    cases heq
    exact ⟨hvalue, hitems cs'' r.1 r.2 hr⟩
  | none =>
    rw [hcomma] at h
    obtain ⟨cs'', _, heq⟩ := Option.map_eq_some_iff.mp h
    cases heq
    exact ⟨hvalue, trivial⟩

theorem HoldsFields.succ {fuel : ℕ} (hvalues : HoldsValues N S fuel) (hfields : HoldsFields N S fuel) :
    HoldsFields N S (fuel + 1) := by
  intro cs fs rest h
  rw [readFields] at h
  obtain ⟨cs₁, _, h⟩ := Option.bind_eq_some_iff.mp h
  obtain ⟨⟨key, cs₂⟩, _, h⟩ := Option.bind_eq_some_iff.mp h
  obtain ⟨cs₃, _, h⟩ := Option.bind_eq_some_iff.mp h
  obtain ⟨⟨v, cs₄⟩, hv, h⟩ := Option.bind_eq_some_iff.mp h
  have hvalue := hvalues cs₃ v cs₄ hv
  dsimp only at h
  cases hcomma : punctuator ',' cs₄ with
  | some cs₅ =>
    rw [hcomma] at h
    obtain ⟨r, hr, heq⟩ := Option.map_eq_some_iff.mp h
    cases heq
    exact ⟨hvalue, hfields cs₅ r.1 r.2 hr⟩
  | none =>
    rw [hcomma] at h
    obtain ⟨cs₅, _, heq⟩ := Option.map_eq_some_iff.mp h
    cases heq
    exact ⟨hvalue, trivial⟩

/-- By induction on the bound, all three together. -/
theorem holds (fuel : ℕ) : HoldsValues N S fuel ∧ HoldsItems N S fuel ∧ HoldsFields N S fuel := by
  induction fuel with
  | zero =>
    refine ⟨fun cs v rest h => ?_, fun cs vs rest h => ?_, fun cs fs rest h => ?_⟩
    · cases h
    · cases h
    · cases h
  | succ fuel ih =>
    obtain ⟨hvalues, hitems, hfields⟩ := ih
    exact ⟨.succ hitems hfields, .succ hvalues hitems, .succ hvalues hfields⟩

theorem readValue_of_parse {text : String} {v : Json N S} (h : parseAs N S text = .ok v) :
    ∃ rest, readValue (text.toList.length + 1) text.toList = some (v, rest) := by
  unfold parseAs at h
  split at h
  case h_1 value rest hread =>
    split_ifs at h
    cases h
    exact ⟨rest, hread⟩
  case h_2 => cases h

/-- `JSON.parse` returns values that the engine can hold. -/
theorem wellFormed_of_parse {text : String} {v : Json N S} (h : parseAs N S text = .ok v) : WellFormed v := by
  obtain ⟨rest, hread⟩ := readValue_of_parse h
  exact (holds _).1 _ v rest hread

theorem length_skipWhitespace (cs : List Char) : (skipWhitespace cs).length ≤ cs.length :=
  (List.dropWhile_suffix isWhitespace).sublist.length_le

variable [LawfulStringFormat S]

/-- A text of a string is longer than the string. -/
theorem length_of_parse {text : String} {s : S} (h : parseAs N S text = .ok (.str s)) :
    (StringFormat.text s).toList.length < text.toList.length := by
  obtain ⟨rest, hread⟩ := readValue_of_parse h
  have hskipped := length_skipWhitespace text.toList
  cases read_of_readValue hread with
  | str hcs hstring =>
    rw [hcs, List.length_cons] at hskipped
    have hlength := length_string hstring
    omega

/-! ## Canonical texts -/

/-- `JSON.stringify` writes the text for a value that is not a string. -/
def Canonical (N S : Type) [NumberFormat N] [StringFormat S] [DecidableEq S] (text : String) : Prop :=
  ∃ v : Json N S, WellFormed v ∧ (∀ s, v ≠ .str s) ∧ stringify v = text

/-- **Main**: a text is canonical iff it is parsed to a value that is not a string and has this text. -/
theorem stringify_parse_iff [LawfulNumberFormat N] {text : String} :
    (∃ v : Json N S, parseAs N S text = .ok v ∧ (∀ s, v ≠ .str s) ∧ stringify v = text) ↔ Canonical N S text := by
  constructor
  · rintro ⟨v, hparse, hv, htext⟩
    exact ⟨v, wellFormed_of_parse hparse, hv, htext⟩
  · rintro ⟨v, hwell, hv, rfl⟩
    exact ⟨reread v, parseAs_stringify hwell, reread_ne_str hv, stringify_reread v⟩

end Reading

end CodeWeaknesses.Json
