import CodeWeaknesses.Common.JsonNumbers
import CodeWeaknesses.Common.JsonStrings

/-!
# `JSON.parse` reads what `JSON.stringify` writes

Results:
* `reads`: values are read back, whatever follows them, by induction on the bound of the
  recursion.
* `parseAs_stringify`, `stringify_reread`: **a text that `JSON.stringify` wrote is parsed to a
  value with the same text.**
* `parse_stringify`: with integers the value is the same.
-/

namespace CodeWeaknesses.Json

open Lib

section Objects

variable {N S : Type} [DecidableEq S]

/-! ## Values that the engine can hold -/

theorem foldl_setProperty {fields : List (S × Json N S)} :
    ∀ {before : List (S × Json N S)}, ((before ++ fields).map Prod.fst).Nodup →
      fields.foldl setProperty before = before ++ fields := by
  induction fields with
  | nil => exact fun _ => (List.append_nil _).symm
  | cons f fields ih =>
    intro before hnames
    have hnew : ¬ ∃ g ∈ before, g.1 = f.1 := by
      rintro ⟨g, hg, heq⟩
      rw [List.map_append, List.map_cons, List.nodup_append'] at hnames
      exact hnames.2.2 (List.mem_map_of_mem hg) (by rw [heq]; exact List.mem_cons_self)
    have hnames' : ((before ++ [f] ++ fields).map Prod.fst).Nodup := by rwa [List.append_assoc]
    rw [List.foldl_cons, setProperty, if_neg hnew, ih hnames', List.append_assoc]
    rfl

variable [StringFormat S]

mutual

/-- Every object has its properties in the order in which the engine keeps them. -/
def WellFormed : Json N S → Prop
  | .arr items => ItemsWellFormed items
  | .obj fields => ownProperties fields = fields ∧ FieldsWellFormed fields
  | _ => True

def ItemsWellFormed : List (Json N S) → Prop
  | [] => True
  | v :: vs => WellFormed v ∧ ItemsWellFormed vs

def FieldsWellFormed : List (S × Json N S) → Prop
  | [] => True
  | (_, v) :: fs => WellFormed v ∧ FieldsWellFormed fs

end

/-- Properties with different names keep their order when the array indices come first, in order. -/
theorem ownProperties_append {indices names : List (S × Json N S)}
    (hdistinct : ((indices ++ names).map Prod.fst).Nodup)
    (hindices : ∀ f ∈ indices, (arrayIndex? f.1).isSome = true) (hnames : ∀ f ∈ names, arrayIndex? f.1 = none)
    (hsorted : indices.Pairwise fun a b => ((arrayIndex? a.1).getD 0 : ℤ) - (arrayIndex? b.1).getD 0 ≤ 0) :
    ownProperties (indices ++ names) = indices ++ names := by
  have hfold : (indices ++ names).foldl setProperty [] = indices ++ names := foldl_setProperty (by exact hdistinct)
  have hsome : (indices ++ names).filter (fun f => (arrayIndex? f.1).isSome) = indices := by
    rw [List.filter_append, List.filter_eq_self.mpr hindices, List.filter_eq_nil_iff.mpr, List.append_nil]
    intro f hf
    rw [hnames f hf]
    exact nofun
  have hnone : (indices ++ names).filter (fun f => (arrayIndex? f.1).isNone) = names := by
    rw [List.filter_append, List.filter_eq_nil_iff.mpr, List.filter_eq_self.mpr, List.nil_append]
    · intro f hf
      rw [hnames f hf]
      rfl
    · intro f hf
      rw [Option.isNone_iff_eq_none, ← Option.not_isSome_iff_eq_none]
      exact not_not_intro (hindices f hf)
  unfold ownProperties
  dsimp only
  rw [hfold, hsome, hnone, sortBy, hsorted.insertionSort_eq]

/-- Properties with different names that are no array indices keep their order. -/
theorem ownProperties_eq_self {fields : List (S × Json N S)} (hnames : (fields.map Prod.fst).Nodup)
    (hindex : ∀ name ∈ fields.map Prod.fst, arrayIndex? name = none) : ownProperties fields = fields :=
  ownProperties_append hnames (fun _ h => absurd h List.not_mem_nil)
    (fun f hf => hindex f.1 (List.mem_map_of_mem hf)) List.Pairwise.nil

/-- Values are read in the places of the properties. -/
theorem ownProperties_map (g : Json N S → Json N S) (fields : List (S × Json N S)) :
    ownProperties (fields.map fun f => (f.1, g f.2)) = (ownProperties fields).map fun f => (f.1, g f.2) := by
  have hset : ∀ (fs : List (S × Json N S)) (f : S × Json N S),
      setProperty (fs.map fun f => (f.1, g f.2)) (f.1, g f.2) = (setProperty fs f).map fun f => (f.1, g f.2) := by
    intro fs f
    by_cases hold : ∃ f' ∈ fs, f'.1 = f.1
    · have hold' : ∃ f' ∈ fs.map fun f => (f.1, g f.2), f'.1 = f.1 := by
        obtain ⟨f', hf', heq⟩ := hold
        exact ⟨_, List.mem_map_of_mem hf', heq⟩
      rw [setProperty, setProperty, if_pos hold, if_pos hold', List.map_map, List.map_map]
      refine List.map_congr_left fun f' _ => ?_
      show (if f'.1 = f.1 then _ else _) = _
      split_ifs with heq
      · simp [heq]
      · simp [heq]
    · have hold' : ¬ ∃ f' ∈ fs.map fun f => (f.1, g f.2), f'.1 = f.1 := by
        rintro ⟨f', hf', heq⟩
        obtain ⟨f₀, hf₀, rfl⟩ := List.mem_map.mp hf'
        exact hold ⟨f₀, hf₀, heq⟩
      rw [setProperty, setProperty, if_neg hold, if_neg hold', List.map_append]
      rfl
  have hfold : ∀ before : List (S × Json N S),
      (fields.map fun f => (f.1, g f.2)).foldl setProperty (before.map fun f => (f.1, g f.2)) =
        (fields.foldl setProperty before).map fun f => (f.1, g f.2) := by
    induction fields with
    | nil => exact fun _ => rfl
    | cons f fs ih =>
      intro before
      rw [List.map_cons, List.foldl_cons, List.foldl_cons, hset, ih]
  have hfields := hfold []
  rw [List.map_nil] at hfields
  unfold ownProperties sortBy
  dsimp only
  rw [hfields, List.filter_map, List.filter_map, List.map_append]
  congr 1
  exact (List.map_insertionSort _ _ (fun f : S × Json N S => (f.1, g f.2)) _ fun a _ b _ => Iff.rfl).symm

end Objects

/-! ## Texts -/

/-- The first character of a text is no whitespace and closes nothing. -/
def Opens (cs : List Char) : Prop :=
  ∃ c rest, cs = c :: rest ∧ isWhitespace c = false ∧ c ≠ ']' ∧ c ≠ '\x7d'

theorem Opens.append {cs : List Char} (h : Opens cs) (cs' : List Char) : Opens (cs ++ cs') := by
  obtain ⟨c, rest, rfl, hc⟩ := h
  exact ⟨c, rest ++ cs', rfl, hc⟩

/-- What a literal begins with is no other character of the grammar. -/
theorem ne_of_begins {c c' : Char} (hc : c = '-' ∨ c.isDigit = true) (hdash : c' ≠ '-')
    (hdigit : c'.isDigit = false) : c ≠ c' := by
  rintro rfl
  rcases hc with hc | hc
  · exact hdash hc
  · rw [hdigit] at hc
    cases hc

theorem not_whitespace_of_begins {c : Char} (hc : c = '-' ∨ c.isDigit = true) : isWhitespace c = false := by
  have hspace : c ≠ ' ' := ne_of_begins hc (by decide) (by decide)
  have htab : c ≠ '\t' := ne_of_begins hc (by decide) (by decide)
  have hfeed : c ≠ '\n' := ne_of_begins hc (by decide) (by decide)
  have hreturn : c ≠ '\r' := ne_of_begins hc (by decide) (by decide)
  simp [isWhitespace, hspace, htab, hfeed, hreturn]

theorem skipWhitespace_cons {c : Char} (hc : isWhitespace c = false) (cs : List Char) :
    skipWhitespace (c :: cs) = c :: cs := List.dropWhile_cons_of_neg (by simp [hc])

theorem punctuator_cons {c : Char} (hc : isWhitespace c = false) (cs : List Char) :
    punctuator c (c :: cs) = some cs := by
  rw [punctuator, skipWhitespace_cons hc]
  exact if_pos rfl

theorem punctuator_ne {c c' : Char} (hc : isWhitespace c' = false) (hne : c' ≠ c) (cs : List Char) :
    punctuator c (c' :: cs) = none := by
  rw [punctuator, skipWhitespace_cons hc]
  exact if_neg hne

theorem toList_bracket (text : String) (cs : List Char) :
    ("[" ++ text ++ "]").toList ++ cs = '[' :: (text.toList ++ ']' :: cs) := by
  simp only [String.toList_append, List.append_assoc]
  rfl

theorem toList_brace (text : String) (cs : List Char) :
    ("\x7b" ++ text ++ "\x7d").toList ++ cs = '\x7b' :: (text.toList ++ '\x7d' :: cs) := by
  simp only [String.toList_append, List.append_assoc]
  rfl

section Texts

variable {N S : Type}

mutual

/-- The depth of the recursion of `readValue`. -/
def depth : Json N S → ℕ
  | .arr items => itemsDepth items + 1
  | .obj fields => fieldsDepth fields + 1
  | _ => 1

def itemsDepth : List (Json N S) → ℕ
  | [] => 0
  | v :: vs => max (depth v) (itemsDepth vs) + 1

def fieldsDepth : List (S × Json N S) → ℕ
  | [] => 0
  | (_, v) :: fs => max (depth v) (fieldsDepth fs) + 1

end

theorem depth_pos (v : Json N S) : 0 < depth v := by cases v <;> simp [depth]

theorem keyword_append (word : List Char) (value : Json N S) (cs : List Char) :
    keyword word value (word ++ cs) = some (value, cs) := by
  rw [keyword, if_pos (List.prefix_append _ _), List.drop_left]

variable [NumberFormat N]

mutual

/-- What `JSON.parse` makes of the text of a value: each number is read from its own text. -/
def reread : Json N S → Json N S
  | .null => .null
  | .bool b => .bool b
  | .num n => if NumberFormat.toText n = "null" then .null
              else ((NumberFormat.ofLiteral (NumberFormat.toText n).toList).map Json.num).getD .null
  | .str s => .str s
  | .arr items => .arr (rereadItems items)
  | .obj fields => .obj (rereadFields fields)

def rereadItems : List (Json N S) → List (Json N S)
  | [] => []
  | v :: vs => reread v :: rereadItems vs

def rereadFields : List (S × Json N S) → List (S × Json N S)
  | [] => []
  | (k, v) :: fs => (k, reread v) :: rereadFields fs

end

theorem reread_ne_str {v : Json N S} (h : ∀ s, v ≠ .str s) : ∀ s, reread v ≠ .str s := by
  intro s
  cases v with
  | str s' => exact absurd rfl (h s')
  | num n =>
    rw [reread]
    split_ifs
    · exact nofun
    · cases NumberFormat.ofLiteral (N := N) (NumberFormat.toText n).toList <;> exact nofun
  | _ => exact nofun

theorem rereadFields_eq_map (fields : List (S × Json N S)) :
    rereadFields fields = fields.map fun f => (f.1, reread f.2) := by
  induction fields with
  | nil => rfl
  | cons f fs ih => rw [rereadFields, ih, List.map_cons]

variable [StringFormat S]

theorem itemsText_cons (v w : Json N S) (vs : List (Json N S)) :
    (",".intercalate (stringifyItems (v :: w :: vs))).toList =
      (stringify v).toList ++ ',' :: (",".intercalate (stringifyItems (w :: vs))).toList := by
  rw [stringifyItems, stringifyItems, String.intercalate_cons_cons, ← stringifyItems, String.toList_append,
    String.toList_append, List.append_assoc]
  rfl

theorem fieldsText_cons (f g : S × Json N S) (fs : List (S × Json N S)) :
    (",".intercalate (stringifyFields (f :: g :: fs))).toList =
      (quote f.1).toList ++ ':' :: ((stringify f.2).toList ++
        ',' :: (",".intercalate (stringifyFields (g :: fs))).toList) := by
  rw [stringifyFields, stringifyFields, String.intercalate_cons_cons, ← stringifyFields]
  simp only [String.toList_append, List.append_assoc]
  rfl

theorem fieldsText_one (f : S × Json N S) :
    (",".intercalate (stringifyFields [f])).toList = (quote f.1).toList ++ ':' :: (stringify f.2).toList := by
  rw [stringifyFields, stringifyFields, String.intercalate_singleton]
  simp only [String.toList_append, List.append_assoc]
  rfl

mutual

/-- Reread, the value has the text that it had. -/
theorem stringify_reread [LawfulNumberFormat N] : ∀ v : Json N S, stringify (reread v) = stringify v
  | .null => rfl
  | .bool _ => rfl
  | .num n => by
    rw [reread]
    rcases LawfulNumberFormat.read_toText n with hnull | ⟨_, n', hread, htext⟩
    · rw [if_pos hnull, stringify, stringify, hnull]
    · split_ifs with hnull
      · rw [stringify, stringify, hnull]
      · rw [hread]
        exact htext
  | .str _ => rfl
  | .arr items => by rw [reread, stringify, stringify, stringifyItems_reread items]
  | .obj fields => by rw [reread, stringify, stringify, stringifyFields_reread fields]

theorem stringifyItems_reread [LawfulNumberFormat N] : ∀ items : List (Json N S),
    stringifyItems (rereadItems items) = stringifyItems items
  | [] => rfl
  | v :: vs => by rw [rereadItems, stringifyItems, stringifyItems, stringify_reread v, stringifyItems_reread vs]

theorem stringifyFields_reread [LawfulNumberFormat N] : ∀ fields : List (S × Json N S),
    stringifyFields (rereadFields fields) = stringifyFields fields
  | [] => rfl
  | (k, v) :: fs => by
    rw [rereadFields, stringifyFields, stringifyFields, stringify_reread v, stringifyFields_reread fs]

end

theorem opens_stringify [LawfulNumberFormat N] [LawfulStringFormat S] (v : Json N S) :
    Opens (stringify v).toList := by
  cases v with
  | null =>
    rw [stringify]
    exact ⟨'n', _, rfl, by decide⟩
  | bool b =>
    rw [stringify]
    cases b <;> exact ⟨_, _, rfl, by decide⟩
  | num n =>
    rw [stringify]
    rcases LawfulNumberFormat.read_toText n with hnull | ⟨hliteral, _⟩
    · rw [hnull]
      exact ⟨'n', _, rfl, by decide⟩
    · obtain ⟨c, rest, hc, hbegins⟩ := literal_head hliteral
      exact ⟨c, rest, hc, not_whitespace_of_begins hbegins, ne_of_begins hbegins (by decide) (by decide),
        ne_of_begins hbegins (by decide) (by decide)⟩
  | str s =>
    obtain ⟨body, hbody, _⟩ := string_quote s []
    exact ⟨'"', body, by rw [← hbody, List.append_nil]; rfl, by decide⟩
  | arr items =>
    refine ⟨'[', (",".intercalate (stringifyItems items) ++ "]").toList, ?_, by decide⟩
    rw [stringify, String.append_assoc, String.toList_append]
    rfl
  | obj fields =>
    refine ⟨'\x7b', (",".intercalate (stringifyFields fields) ++ "\x7d").toList, ?_, by decide⟩
    rw [stringify, String.append_assoc, String.toList_append]
    rfl

theorem opens_items [LawfulNumberFormat N] [LawfulStringFormat S] (v : Json N S) (vs : List (Json N S)) :
    Opens (",".intercalate (stringifyItems (v :: vs))).toList := by
  cases vs with
  | nil =>
    rw [stringifyItems, stringifyItems, String.intercalate_singleton]
    exact opens_stringify v
  | cons w vs =>
    rw [itemsText_cons]
    exact (opens_stringify v).append _

theorem opens_quote [LawfulStringFormat S] (s : S) (cs : List Char) : Opens ((quote s).toList ++ cs) := by
  obtain ⟨body, hbody, _⟩ := string_quote s cs
  exact ⟨'"', body, hbody, by decide⟩

theorem opens_fields [LawfulStringFormat S] (f : S × Json N S) (fs : List (S × Json N S)) :
    Opens (",".intercalate (stringifyFields (f :: fs))).toList := by
  cases fs with
  | nil =>
    rw [fieldsText_one]
    exact opens_quote f.1 _
  | cons g fs =>
    rw [fieldsText_cons]
    exact opens_quote f.1 _

/-! ## The bound suffices -/

mutual

theorem depth_le_length [LawfulNumberFormat N] [LawfulStringFormat S] : ∀ v : Json N S,
    depth v ≤ (stringify v).toList.length
  | .null => by
    rw [depth, stringify]
    · decide
    · exact nofun
    · exact nofun
  | .bool b => by
    rw [depth, stringify]
    · cases b <;> decide
    · exact nofun
    · exact nofun
  | .num n => by
    obtain ⟨c, rest, hc, _⟩ := opens_stringify (S := S) (.num n)
    rw [depth, hc, List.length_cons]
    · omega
    · exact nofun
    · exact nofun
  | .str s => by
    obtain ⟨body, hbody, _⟩ := string_quote s []
    have hlength := congrArg List.length hbody
    rw [List.append_nil, List.length_cons] at hlength
    show 1 ≤ (quote s).toList.length
    omega
  | .arr items => by
    have hitems := itemsDepth_le_length items
    have htext := congrArg List.length (toList_bracket (",".intercalate (stringifyItems items)) [])
    simp only [List.length_cons, List.length_append, List.length_nil] at htext
    rw [depth, stringify]
    omega
  | .obj fields => by
    have hfields := fieldsDepth_le_length fields
    have htext := congrArg List.length (toList_brace (",".intercalate (stringifyFields fields)) [])
    simp only [List.length_cons, List.length_append, List.length_nil] at htext
    rw [depth, stringify]
    omega

theorem itemsDepth_le_length [LawfulNumberFormat N] [LawfulStringFormat S] : ∀ items : List (Json N S),
    itemsDepth items ≤ (",".intercalate (stringifyItems items)).toList.length + 1
  | [] => by simp [itemsDepth]
  | [v] => by
    have hv := depth_le_length v
    rw [stringifyItems, stringifyItems, String.intercalate_singleton, itemsDepth, itemsDepth]
    omega
  | v :: w :: vs => by
    have hv := depth_le_length v
    have hvs := itemsDepth_le_length (w :: vs)
    rw [itemsText_cons, itemsDepth]
    simp only [List.length_append, List.length_cons]
    omega

theorem fieldsDepth_le_length [LawfulNumberFormat N] [LawfulStringFormat S] : ∀ fields : List (S × Json N S),
    fieldsDepth fields ≤ (",".intercalate (stringifyFields fields)).toList.length + 1
  | [] => by simp [fieldsDepth]
  | [(key, v)] => by
    have hv := depth_le_length v
    rw [fieldsText_one, fieldsDepth, fieldsDepth]
    simp only [List.length_append, List.length_cons]
    omega
  | (key, v) :: g :: fs => by
    have hv := depth_le_length v
    have hfs := fieldsDepth_le_length (g :: fs)
    rw [fieldsText_cons, fieldsDepth]
    simp only [List.length_append, List.length_cons]
    omega

end

end Texts

/-! ## Values are read back -/

section Reading

variable {N S : Type} [NumberFormat N] [StringFormat S] [DecidableEq S]

theorem readValue_quote (fuel : ℕ) (cs : List Char) :
    readValue (N := N) (S := S) (fuel + 1) ('"' :: cs) = (string cs).map fun r => (.str r.1, r.2) := by
  rw [readValue, skipWhitespace_cons (by decide)]
  exact if_pos rfl

theorem readValue_items (fuel : ℕ) {cs : List Char} (hcs : Opens cs) :
    readValue (N := N) (S := S) (fuel + 1) ('[' :: cs) = (readItems fuel cs).map fun r => (.arr r.1, r.2) := by
  obtain ⟨c, rest, rfl, hc, hclose, _⟩ := hcs
  rw [readValue, skipWhitespace_cons (by decide)]
  dsimp only
  rw [if_neg (by decide), if_pos rfl, punctuator_ne hc hclose]

theorem readValue_fields (fuel : ℕ) {cs : List Char} (hcs : Opens cs) :
    readValue (N := N) (S := S) (fuel + 1) ('\x7b' :: cs) =
      (readFields fuel cs).map fun r => (.obj (ownProperties r.1), r.2) := by
  obtain ⟨c, rest, rfl, hc, _, hclose⟩ := hcs
  rw [readValue, skipWhitespace_cons (by decide)]
  dsimp only
  rw [if_neg (by decide), if_neg (by decide), if_pos rfl, punctuator_ne hc hclose]

theorem readValue_noItems (fuel : ℕ) (cs : List Char) :
    readValue (N := N) (S := S) (fuel + 1) ('[' :: ']' :: cs) = some (.arr [], cs) := by
  rw [readValue, skipWhitespace_cons (by decide)]
  dsimp only
  rw [if_neg (by decide), if_pos rfl, punctuator_cons (by decide)]

theorem readValue_noFields (fuel : ℕ) (cs : List Char) :
    readValue (N := N) (S := S) (fuel + 1) ('\x7b' :: '\x7d' :: cs) = some (.obj [], cs) := by
  rw [readValue, skipWhitespace_cons (by decide)]
  dsimp only
  rw [if_neg (by decide), if_neg (by decide), if_pos rfl, punctuator_cons (by decide)]

theorem readValue_null (fuel : ℕ) (cs : List Char) :
    readValue (N := N) (S := S) (fuel + 1) ('n' :: (['u', 'l', 'l'] ++ cs)) = some (.null, cs) := by
  rw [readValue, skipWhitespace_cons (by decide)]
  dsimp only
  rw [if_neg (by decide), if_neg (by decide), if_neg (by decide), if_pos rfl, keyword_append]

theorem readValue_true (fuel : ℕ) (cs : List Char) :
    readValue (N := N) (S := S) (fuel + 1) ('t' :: (['r', 'u', 'e'] ++ cs)) = some (.bool true, cs) := by
  rw [readValue, skipWhitespace_cons (by decide)]
  dsimp only
  rw [if_neg (by decide), if_neg (by decide), if_neg (by decide), if_neg (by decide), if_pos rfl, keyword_append]

theorem readValue_false (fuel : ℕ) (cs : List Char) :
    readValue (N := N) (S := S) (fuel + 1) ('f' :: (['a', 'l', 's', 'e'] ++ cs)) = some (.bool false, cs) := by
  rw [readValue, skipWhitespace_cons (by decide)]
  dsimp only
  rw [if_neg (by decide), if_neg (by decide), if_neg (by decide), if_neg (by decide), if_neg (by decide),
    if_pos rfl, keyword_append]

/-- The text of a number is no keyword, or the number is not finite. -/
theorem readValue_number [LawfulNumberFormat N] (fuel : ℕ) (n : N) {cs : List Char} (hcs : Delimited cs) :
    readValue (N := N) (S := S) (fuel + 1) ((NumberFormat.toText n).toList ++ cs) = some (reread (.num n), cs) := by
  rcases LawfulNumberFormat.read_toText n with hnull | ⟨hliteral, n', hread, _⟩
  · rw [reread, if_pos hnull, hnull]
    exact readValue_null fuel cs
  · obtain ⟨c, rest, hc, hbegins⟩ := literal_head hliteral
    have hfinite : NumberFormat.toText n ≠ "null" := by
      intro hnull
      rw [hnull] at hc
      cases hc
      exact absurd hbegins (by decide)
    have hnumber : number ((NumberFormat.toText n).toList ++ cs) = some (n', cs) := by
      rw [number, literal_append hcs hliteral, Option.bind_some]
      dsimp only
      rw [hread, Option.map_some, List.nil_append]
    rw [reread, if_neg hfinite, hread]
    rw [hc, List.cons_append] at hnumber ⊢
    rw [readValue, skipWhitespace_cons (not_whitespace_of_begins hbegins)]
    dsimp only
    rw [if_neg (ne_of_begins hbegins (by decide) (by decide)), if_neg (ne_of_begins hbegins (by decide) (by decide)),
      if_neg (ne_of_begins hbegins (by decide) (by decide)), if_neg (ne_of_begins hbegins (by decide) (by decide)),
      if_neg (ne_of_begins hbegins (by decide) (by decide)), if_neg (ne_of_begins hbegins (by decide) (by decide)),
      hnumber]
    rfl

theorem readItems_last {fuel : ℕ} {cs cs' : List Char} {v : Json N S}
    (h : readValue fuel cs = some (v, ']' :: cs')) : readItems (fuel + 1) cs = some ([v], cs') := by
  have hcomma : punctuator ',' (']' :: cs') = none := punctuator_ne (by decide) (by decide) _
  have hclose : punctuator ']' (']' :: cs') = some cs' := punctuator_cons (by decide) _
  simp only [readItems, h, Option.bind_eq_bind, Option.bind_some, hcomma, hclose, Option.map_some]

theorem readItems_next {fuel : ℕ} {cs cs' : List Char} {v : Json N S}
    (h : readValue fuel cs = some (v, ',' :: cs')) :
    readItems (fuel + 1) cs = (readItems fuel cs').map fun r => (v :: r.1, r.2) := by
  have hcomma : punctuator ',' (',' :: cs') = some cs' := punctuator_cons (by decide) _
  simp only [readItems, h, Option.bind_eq_bind, Option.bind_some, hcomma]

/-- With this bound a value is read back, whatever follows its text. -/
def ReadsValues (N S : Type) [NumberFormat N] [StringFormat S] [DecidableEq S] (fuel : ℕ) : Prop :=
  ∀ (v : Json N S) cs, WellFormed v → depth v ≤ fuel → Delimited cs →
  readValue fuel ((stringify v).toList ++ cs) = some (reread v, cs)

def ReadsItems (N S : Type) [NumberFormat N] [StringFormat S] [DecidableEq S] (fuel : ℕ) : Prop :=
  ∀ (v : Json N S) vs cs, ItemsWellFormed (v :: vs) → itemsDepth (v :: vs) ≤ fuel →
  readItems fuel ((",".intercalate (stringifyItems (v :: vs))).toList ++ ']' :: cs) =
    some (rereadItems (v :: vs), cs)

def ReadsFields (N S : Type) [NumberFormat N] [StringFormat S] [DecidableEq S] (fuel : ℕ) : Prop :=
  ∀ (f : S × Json N S) fs cs, FieldsWellFormed (f :: fs) → fieldsDepth (f :: fs) ≤ fuel →
  readFields fuel ((",".intercalate (stringifyFields (f :: fs))).toList ++ '\x7d' :: cs) =
    some (rereadFields (f :: fs), cs)

theorem ReadsItems.succ {fuel : ℕ} (hvalues : ReadsValues N S fuel) (hitems : ReadsItems N S fuel) :
    ReadsItems N S (fuel + 1) := by
  intro v vs cs hwell hfuel
  rw [itemsDepth] at hfuel
  have hvalue : ∀ c rest, c.isDigit = false ∧ c ≠ '.' ∧ c ≠ 'e' ∧ c ≠ 'E' →
      readValue fuel ((stringify v).toList ++ c :: rest) = some (reread v, c :: rest) := fun c rest hc =>
    hvalues v (c :: rest) hwell.1 (by omega) (delimited_cons hc rest)
  cases vs with
  | nil =>
    rw [stringifyItems, stringifyItems, String.intercalate_singleton]
    exact readItems_last (hvalue ']' cs (by decide))
  | cons w vs =>
    rw [itemsText_cons, List.append_assoc, List.cons_append,
      readItems_next (hvalue ',' _ (by decide)), hitems w vs cs hwell.2 (by omega), Option.map_some]
    rfl

variable [LawfulStringFormat S]

theorem readFields_last {fuel : ℕ} {key : S} {cs cs' : List Char} {v : Json N S}
    (h : readValue fuel cs = some (v, '\x7d' :: cs')) :
    readFields (fuel + 1) ((quote key).toList ++ ':' :: cs) = some ([(key, v)], cs') := by
  obtain ⟨body, hbody, hkey⟩ := string_quote key (':' :: cs)
  have hquote : punctuator '"' ('"' :: body) = some body := punctuator_cons (by decide) _
  have hcolon : punctuator ':' (':' :: cs) = some cs := punctuator_cons (by decide) _
  have hcomma : punctuator ',' ('\x7d' :: cs') = none := punctuator_ne (by decide) (by decide) _
  have hclose : punctuator '\x7d' ('\x7d' :: cs') = some cs' := punctuator_cons (by decide) _
  simp only [readFields, hbody, hquote, hkey, hcolon, h, Option.bind_eq_bind, Option.bind_some, hcomma, hclose,
    Option.map_some]

theorem readFields_next {fuel : ℕ} {key : S} {cs cs' : List Char} {v : Json N S}
    (h : readValue fuel cs = some (v, ',' :: cs')) :
    readFields (fuel + 1) ((quote key).toList ++ ':' :: cs) =
      (readFields fuel cs').map fun r => ((key, v) :: r.1, r.2) := by
  obtain ⟨body, hbody, hkey⟩ := string_quote key (':' :: cs)
  have hquote : punctuator '"' ('"' :: body) = some body := punctuator_cons (by decide) _
  have hcolon : punctuator ':' (':' :: cs) = some cs := punctuator_cons (by decide) _
  have hcomma : punctuator ',' (',' :: cs') = some cs' := punctuator_cons (by decide) _
  simp only [readFields, hbody, hquote, hkey, hcolon, h, Option.bind_eq_bind, Option.bind_some, hcomma]

theorem ReadsFields.succ {fuel : ℕ} (hvalues : ReadsValues N S fuel) (hfields : ReadsFields N S fuel) :
    ReadsFields N S (fuel + 1) := by
  rintro ⟨key, v⟩ fs cs hwell hfuel
  rw [fieldsDepth] at hfuel
  have hvalue : ∀ c rest, c.isDigit = false ∧ c ≠ '.' ∧ c ≠ 'e' ∧ c ≠ 'E' →
      readValue fuel ((stringify v).toList ++ c :: rest) = some (reread v, c :: rest) := fun c rest hc =>
    hvalues v (c :: rest) hwell.1 (by omega) (delimited_cons hc rest)
  cases fs with
  | nil =>
    rw [fieldsText_one, List.append_assoc, List.cons_append]
    exact readFields_last (hvalue '\x7d' cs (by decide))
  | cons g fs =>
    rw [fieldsText_cons, List.append_assoc, List.cons_append, List.append_assoc, List.cons_append,
      readFields_next (hvalue ',' _ (by decide)), hfields g fs cs hwell.2 (by omega), Option.map_some]
    rfl

variable [LawfulNumberFormat N]

theorem ReadsValues.succ {fuel : ℕ} (hitems : ReadsItems N S fuel) (hfields : ReadsFields N S fuel) :
    ReadsValues N S (fuel + 1) := by
  intro v cs hwell hfuel hcs
  cases v with
  | null =>
    rw [stringify, reread]
    exact readValue_null fuel cs
  | bool b =>
    rw [stringify, reread]
    cases b with
    | true => exact readValue_true fuel cs
    | false => exact readValue_false fuel cs
  | num n => exact readValue_number fuel n hcs
  | str s =>
    obtain ⟨body, hbody, hstring⟩ := string_quote s cs
    rw [stringify, reread, hbody, readValue_quote, hstring, Option.map_some]
  | arr items =>
    rw [depth] at hfuel
    rw [stringify, toList_bracket]
    cases items with
    | nil =>
      rw [stringifyItems, String.intercalate_nil, String.toList_empty, List.nil_append]
      exact readValue_noItems fuel cs
    | cons v vs =>
      rw [readValue_items fuel ((opens_items v vs).append _), hitems v vs cs hwell (by omega), Option.map_some]
      rfl
  | obj fields =>
    rw [depth] at hfuel
    rw [stringify, toList_brace]
    cases fields with
    | nil =>
      rw [stringifyFields, String.intercalate_nil, String.toList_empty, List.nil_append]
      exact readValue_noFields fuel cs
    | cons f fs =>
      rw [readValue_fields fuel ((opens_fields f fs).append _), hfields f fs cs hwell.2 (by omega),
        Option.map_some, rereadFields_eq_map, ownProperties_map, hwell.1, ← rereadFields_eq_map]
      rfl

/-- By induction on the bound, all three together. -/
theorem reads (fuel : ℕ) : ReadsValues N S fuel ∧ ReadsItems N S fuel ∧ ReadsFields N S fuel := by
  induction fuel with
  | zero =>
    refine ⟨fun v _ _ hfuel => ?_, fun v vs _ _ hfuel => ?_, fun f fs _ _ hfuel => ?_⟩
    · have := depth_pos v
      omega
    · rw [itemsDepth] at hfuel
      omega
    · rw [fieldsDepth] at hfuel
      omega
  | succ fuel ih =>
    obtain ⟨hvalues, hitems, hfields⟩ := ih
    exact ⟨.succ hitems hfields, .succ hvalues hitems, .succ hvalues hfields⟩

/-- **Main**: the text of a value is parsed to the value with its numbers reread. -/
theorem parseAs_stringify {v : Json N S} (hv : WellFormed v) : parseAs N S (stringify v) = .ok (reread v) := by
  have hread := (reads ((stringify v).toList.length + 1)).1 v [] hv (Nat.le_succ_of_le (depth_le_length v))
    delimited_nil
  rw [List.append_nil] at hread
  simp only [parseAs, hread]
  rfl

end Reading

/-! ## Integers -/

mutual

theorem reread_integers : ∀ v : Json, reread v = v
  | .null => rfl
  | .bool _ => rfl
  | .num n => by
    have hread : NumberFormat.ofLiteral (NumberFormat.toText n).toList = some n := (literal_toString n).2
    have hfinite : NumberFormat.toText n ≠ "null" := by
      intro hnull
      rw [hnull] at hread
      cases hread
    rw [reread, if_neg hfinite, hread]
    rfl
  | .str _ => rfl
  | .arr items => by rw [reread, rereadItems_integers items]
  | .obj fields => by rw [reread, rereadFields_integers fields]

theorem rereadItems_integers : ∀ items : List Json, rereadItems items = items
  | [] => rfl
  | v :: vs => by rw [rereadItems, reread_integers v, rereadItems_integers vs]

theorem rereadFields_integers : ∀ fields : List (String × Json), rereadFields fields = fields
  | [] => rfl
  | (k, v) :: fs => by rw [rereadFields, reread_integers v, rereadFields_integers fs]

end

/-- With integers, the text of a value is parsed to the value. -/
theorem parse_stringify {v : Json} (hv : WellFormed v) : parse (stringify v) = .ok v := by
  rw [parse, parseAs_stringify hv, reread_integers]

end CodeWeaknesses.Json
