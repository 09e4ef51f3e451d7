import CodeWeaknesses.Common.JsonParse

/-!
# The strings of JSON

`JSON.stringify` writes a string by its code points, and `JSON.parse` reads it by its code units.

Results:
* `stringBody_escape`: a character that was escaped is read as its code units.
* `string_quote`: a string that was quoted is read back.
* `length_string`: a string is shorter than the text that it is read from.
-/

namespace CodeWeaknesses.Json

/-! ## Characters are read back -/

theorem hexValue_hexDigit : ∀ n < 16, hexValue (hexDigit n) = some n := by decide

theorem fromCodeUnits_codeUnits (c : Char) (us : List ℕ) :
    fromCodeUnits (codeUnits c ++ us) = (fromCodeUnits us).map (c :: ·) := by
  have hvalid : c.toNat < 0xD800 ∨ 0xDFFF < c.toNat ∧ c.toNat < 0x110000 := c.valid
  unfold codeUnits
  split_ifs with hbmp
  · rw [List.singleton_append, fromCodeUnits.eq_def]
    dsimp only
    rw [if_neg (by omega), if_neg (by omega), Char.ofNat_toNat]
  · have hunit : 0x10000 + ((0xD800 + (c.toNat - 0x10000) / 0x400) - 0xD800) * 0x400 +
        ((0xDC00 + (c.toNat - 0x10000) % 0x400) - 0xDC00) = c.toNat := by omega
    rw [List.cons_append, List.singleton_append, fromCodeUnits.eq_def]
    dsimp only
    rw [if_pos (by omega), if_pos (by omega), hunit, Char.ofNat_toNat]

theorem fromCodeUnits_flatMap (cs : List Char) : fromCodeUnits (cs.flatMap codeUnits) = some cs := by
  induction cs with
  | nil => rfl
  | cons c cs ih => rw [List.flatMap_cons, fromCodeUnits_codeUnits, ih, Option.map_some]

theorem stringBody_unit {e : Char} {u : ℕ} (hu : escapeUnit e = some u) (cs : List Char) :
    stringBody ('\\' :: e :: cs) = (stringBody cs).map fun r => (u :: r.1, r.2) := by
  have he : e ≠ 'u' := by
    rintro rfl
    cases hu
  rw [stringBody.eq_def]
  dsimp only
  rw [if_neg (by decide), if_pos rfl, if_neg he, hu, Option.bind_some]

theorem stringBody_hex {h₁ h₂ h₃ h₄ : Char} {u : ℕ} (hu : hexUnit h₁ h₂ h₃ h₄ = some u) (cs : List Char) :
    stringBody ('\\' :: 'u' :: h₁ :: h₂ :: h₃ :: h₄ :: cs) = (stringBody cs).map fun r => (u :: r.1, r.2) := by
  rw [stringBody.eq_def]
  dsimp only
  rw [if_neg (by decide), if_pos rfl, if_pos rfl, hu, Option.bind_some]

theorem stringBody_plain {c : Char} (hquote : c ≠ '"') (hslash : c ≠ '\\') (hc : ¬ c.toNat < 32) (cs : List Char) :
    stringBody (c :: cs) = (stringBody cs).map fun r => (codeUnits c ++ r.1, r.2) := by
  rw [stringBody.eq_def]
  dsimp only
  rw [if_neg hquote, if_neg hslash, if_neg hc]

/-- The character that `JSON.stringify` wrote is read. -/
theorem stringBody_escape (c : Char) (cs : List Char) :
    stringBody ((escapeChar c).toList ++ cs) = (stringBody cs).map fun r => (codeUnits c ++ r.1, r.2) := by
  have hchar : ∀ n : ℕ, c.toNat = n → c = Char.ofNat n := fun n h => by rw [← h, Char.ofNat_toNat]
  unfold escapeChar
  split
  case h_1 h => rw [hchar _ h]; exact stringBody_unit rfl cs
  case h_2 h => rw [hchar _ h]; exact stringBody_unit rfl cs
  case h_3 h => rw [hchar _ h]; exact stringBody_unit rfl cs
  case h_4 h => rw [hchar _ h]; exact stringBody_unit rfl cs
  case h_5 h => rw [hchar _ h]; exact stringBody_unit rfl cs
  case h_6 h => rw [hchar _ h]; exact stringBody_unit rfl cs
  case h_7 h => rw [hchar _ h]; exact stringBody_unit rfl cs
  case h_8 n hquote hslash _ _ _ _ _ =>
    split_ifs with hcontrol
    · have hunit : hexUnit '0' '0' (hexDigit (c.toNat / 16)) (hexDigit (c.toNat % 16)) = some c.toNat := by
        have hhigh := hexValue_hexDigit (c.toNat / 16) (by omega)
        have hlow := hexValue_hexDigit (c.toNat % 16) (by omega)
        have hzero : hexValue '0' = some 0 := rfl
        simp only [hexUnit, hzero, hhigh, hlow, Option.bind_eq_bind, Option.bind_some, Option.pure_def,
          Option.some.injEq]
        omega
      have hunits : codeUnits c = [c.toNat] := by rw [codeUnits, if_pos (by omega)]
      rw [String.toList_append, String.toList_ofList, String.toList_ofList, hunits]
      exact stringBody_hex hunit cs
    · rw [String.toList_singleton]
      refine stringBody_plain ?_ ?_ hcontrol cs
      · rintro rfl
        exact hquote rfl
      · rintro rfl
        exact hslash rfl

/-- Pieces that are read one by one are read one after another. -/
theorem stringBody_join {α : Type} {piece : α → String} {units : α → List ℕ} {l : List α}
    (hpiece : ∀ a ∈ l, ∀ cs, stringBody ((piece a).toList ++ cs) =
      (stringBody cs).map fun r => (units a ++ r.1, r.2)) (cs : List Char) :
    stringBody ((String.join (l.map piece)).toList ++ '"' :: cs) = some (l.flatMap units, cs) := by
  induction l with
  | nil =>
    rw [List.map_nil, String.join_nil, String.toList_empty, List.nil_append, stringBody.eq_def]
    rfl
  | cons a l ih =>
    rw [List.map_cons, String.join_cons, String.toList_append, List.append_assoc, hpiece a List.mem_cons_self,
      ih fun b hb => hpiece b (List.mem_cons_of_mem a hb)]
    rfl

/-! ## Code points -/

/-- `StringToCodePoints`: a surrogate that has no partner is a code point of its own. -/
def codePoints : List ℕ → List ℕ
  | [] => []
  | [u] => [u]
  | u :: v :: us =>
    if (0xD800 ≤ u ∧ u < 0xDC00) ∧ 0xDC00 ≤ v ∧ v < 0xE000 then
      (0x10000 + (u - 0xD800) * 0x400 + (v - 0xDC00)) :: codePoints us
    else u :: codePoints (v :: us)

/-- The strings of the format are read back, and have a character for each code point. -/
class LawfulStringFormat (S : Type) [StringFormat S] : Prop where
  read_escape : ∀ (s : S) (cs : List Char), ∃ units,
    stringBody ((StringFormat.escape s).toList ++ '"' :: cs) = some (units, cs) ∧
      StringFormat.ofUnits units = some s
  length_text : ∀ (units : List ℕ) (s : S), StringFormat.ofUnits units = some s →
    (StringFormat.text s).toList.length = (codePoints units).length

theorem codePoints_cons_of_not_high {u : ℕ} (hu : ¬ (0xD800 ≤ u ∧ u < 0xDC00)) (us : List ℕ) :
    codePoints (u :: us) = u :: codePoints us := by
  cases us with
  | nil => rfl
  | cons v us => rw [codePoints, if_neg fun h => hu h.1]

theorem length_fromCodeUnits (us : List ℕ) :
    ∀ {chars : List Char}, fromCodeUnits us = some chars → chars.length = (codePoints us).length := by
  induction us using codePoints.induct with
  | case1 =>
    intro chars h
    cases h
    rfl
  | case2 u =>
    intro chars h
    unfold fromCodeUnits at h
    split_ifs at h with hhigh hlow
    · obtain ⟨rest, hrest, rfl⟩ := Option.map_eq_some_iff.mp h
      cases hrest
      rfl
  | case3 u v us hpair ih =>
    intro chars h
    unfold fromCodeUnits at h
    rw [if_pos hpair.1] at h
    dsimp only at h
    rw [if_pos hpair.2] at h
    obtain ⟨rest, hrest, rfl⟩ := Option.map_eq_some_iff.mp h
    rw [codePoints, if_pos hpair, List.length_cons, List.length_cons, ih hrest]
  | case4 u v us hpair ih =>
    intro chars h
    unfold fromCodeUnits at h
    split_ifs at h with hhigh hlow
    · dsimp only at h
      rw [if_neg fun hlow => hpair ⟨hhigh, hlow⟩] at h
      cases h
    · obtain ⟨rest, hrest, rfl⟩ := Option.map_eq_some_iff.mp h
      rw [codePoints, if_neg hpair, List.length_cons, List.length_cons, ih hrest]

instance : LawfulStringFormat String where
  read_escape s cs := by
    refine ⟨s.toList.flatMap codeUnits, stringBody_join (fun c _ => stringBody_escape c) cs, ?_⟩
    show (fromCodeUnits _).map String.ofList = some s
    rw [fromCodeUnits_flatMap, Option.map_some, String.ofList_toList]
  length_text units s h := by
    obtain ⟨chars, hchars, rfl⟩ := Option.map_eq_some_iff.mp h
    show (String.ofList chars).toList.length = _
    rw [String.toList_ofList, length_fromCodeUnits units hchars]

/-! ## Strings are read back -/

section Quoted

variable {S : Type} [StringFormat S] [LawfulStringFormat S]

/-- A quoted string is read back. -/
theorem string_quote (s : S) (cs : List Char) :
    ∃ body, (quote s).toList ++ cs = '"' :: body ∧ string body = some (s, cs) := by
  obtain ⟨units, hbody, hunits⟩ := LawfulStringFormat.read_escape s cs
  refine ⟨(StringFormat.escape s).toList ++ '"' :: cs, ?_, ?_⟩
  · rw [quote, String.toList_append, String.toList_append, List.append_assoc, List.append_assoc]
    rfl
  · rw [string, hbody, Option.bind_some, hunits, Option.map_some]

/-- One more code unit makes at most one more code point. -/
theorem length_codePoints_cons (u : ℕ) (us : List ℕ) :
    (codePoints (u :: us)).length ≤ (codePoints us).length + 1 := by
  cases us with
  | nil => exact le_rfl
  | cons v us =>
    rw [codePoints]
    split_ifs with hpair
    · rw [codePoints_cons_of_not_high (by omega), List.length_cons, List.length_cons]
      omega
    · exact le_rfl

/-- So does one more character. -/
theorem length_codePoints_codeUnits (c : Char) (us : List ℕ) :
    (codePoints (codeUnits c ++ us)).length ≤ (codePoints us).length + 1 := by
  have hvalid : c.toNat < 0xD800 ∨ 0xDFFF < c.toNat ∧ c.toNat < 0x110000 := c.valid
  unfold codeUnits
  split_ifs with hbmp
  · exact length_codePoints_cons c.toNat us
  · rw [List.cons_append, List.singleton_append, codePoints, if_pos (by omega), List.length_cons]

/-- A code unit before the rest of a string takes one more character at most. -/
theorem length_unitBefore {cs : List Char} {u : ℕ} {read : List ℕ × List Char}
    (hrest : ∀ {units rest}, stringBody cs = some (units, rest) → (codePoints units).length + rest.length < cs.length)
    (hread : ((stringBody cs).map fun r => (u :: r.1, r.2)) = some read) :
    (codePoints read.1).length + read.2.length ≤ cs.length := by
  obtain ⟨r, hr, rfl⟩ := Option.map_eq_some_iff.mp hread
  have hlength := hrest hr
  have hcons := length_codePoints_cons u r.1
  show (codePoints (u :: r.1)).length + r.2.length ≤ cs.length
  omega

/-- What is read of a string has no more code points than characters were read. -/
theorem length_stringBody (cs : List Char) : ∀ {units : List ℕ} {rest : List Char},
    stringBody cs = some (units, rest) → (codePoints units).length + rest.length < cs.length := by
  induction cs using stringBody.induct with
  | case1 =>
    intro units rest h
    cases h
  | case2 cs =>
    intro units rest h
    rw [stringBody.eq_def] at h
    cases h
    show 0 + cs.length < cs.length + 1
    omega
  | case3 hquote =>
    intro units rest h
    rw [stringBody.eq_def] at h
    cases h
  | case4 h₁ h₂ h₃ h₄ cs hquote ih =>
    intro units rest h
    rw [stringBody.eq_def] at h
    dsimp only at h
    rw [if_neg (by decide), if_pos rfl, if_pos rfl] at h
    obtain ⟨u, _, hmap⟩ := Option.bind_eq_some_iff.mp h
    have hlength : (codePoints units).length + rest.length ≤ cs.length := length_unitBefore ih hmap
    simp only [List.length_cons]
    omega
  | case5 cs hshort hquote =>
    intro units rest h
    rw [stringBody.eq_def] at h
    dsimp only at h
    rw [if_neg (by decide), if_pos rfl, if_pos rfl] at h
    split at h
    · exact (hshort _ _ _ _ _ rfl).elim
    · cases h
  | case6 e cs hu hquote ih =>
    intro units rest h
    rw [stringBody.eq_def] at h
    dsimp only at h
    rw [if_neg (by decide), if_pos rfl, if_neg hu] at h
    obtain ⟨u, _, hmap⟩ := Option.bind_eq_some_iff.mp h
    have hlength : (codePoints units).length + rest.length ≤ cs.length := length_unitBefore ih hmap
    simp only [List.length_cons]
    omega
  | case7 c cs hquote hslash hcontrol =>
    intro units rest h
    rw [stringBody.eq_def] at h
    dsimp only at h
    rw [if_neg hquote, if_neg hslash, if_pos hcontrol] at h
    cases h
  | case8 c cs hquote hslash hcontrol ih =>
    intro units rest h
    rw [stringBody_plain hquote hslash hcontrol] at h
    obtain ⟨r, hr, heq⟩ := Option.map_eq_some_iff.mp h
    cases heq
    have hlength := ih hr
    have hunits := length_codePoints_codeUnits c r.1
    rw [List.length_cons]
    show (codePoints (codeUnits c ++ r.1)).length + r.2.length < cs.length + 1
    omega

/-- A string is shorter than the text that it is read from. -/
theorem length_string {cs rest : List Char} {s : S} (h : string cs = some (s, rest)) :
    (StringFormat.text s).toList.length + rest.length < cs.length := by
  obtain ⟨r, hr, hs⟩ := Option.bind_eq_some_iff.mp h
  obtain ⟨s', hunits, heq⟩ := Option.map_eq_some_iff.mp hs
  cases heq
  rw [LawfulStringFormat.length_text r.1 s hunits]
  exact length_stringBody cs hr

end Quoted

/-! ## The strings of the engine -/

/-- A string of the engine: a sequence of UTF-16 code units. -/
structure JsString where
  units : List UInt16
  deriving DecidableEq

/-- The code units of the text. -/
def JsString.ofText (text : String) : JsString := ⟨(text.toList.flatMap codeUnits).map UInt16.ofNat⟩

/-- Whether the code point is a surrogate that has no partner. -/
def isLone (p : ℕ) : Bool := 0xD800 ≤ p ∧ p < 0xE000

/-- `QuoteJSONString` on one code point. -/
def escapePoint (p : ℕ) : String :=
  if isLone p then
    "\\u" ++ String.ofList [hexDigit (p / 4096), hexDigit (p / 256 % 16), hexDigit (p / 16 % 16), hexDigit (p % 16)]
  else escapeChar (Char.ofNat p)

theorem isLone_iff {p : ℕ} : isLone p = true ↔ 0xD800 ≤ p ∧ p < 0xE000 := decide_eq_true_iff

/-- The code units of a code point. -/
def unitsOf (p : ℕ) : List ℕ := if isLone p then [p] else codeUnits (Char.ofNat p)

def JsString.codePoints (s : JsString) : List ℕ := Json.codePoints (s.units.map UInt16.toNat)

/-- Encoded in UTF-8, a surrogate that has no partner is the replacement character. -/
instance : StringFormat JsString where
  text s := String.ofList (s.codePoints.map fun p => if isLone p then '\uFFFD' else Char.ofNat p)
  escape s := String.join (s.codePoints.map escapePoint)
  ofUnits units := if ∀ u ∈ units, u < 0x10000 then some ⟨units.map UInt16.ofNat⟩ else none

theorem toList_hex (h₁ h₂ h₃ h₄ : Char) (cs : List Char) :
    ("\\u" ++ String.ofList [h₁, h₂, h₃, h₄]).toList ++ cs = '\\' :: 'u' :: h₁ :: h₂ :: h₃ :: h₄ :: cs := by
  rw [String.toList_append, String.toList_ofList (l := [h₁, h₂, h₃, h₄])]
  rfl

/-- A code point that was escaped is read as its code units. -/
theorem stringBody_escapePoint {p : ℕ} (hp : p < 0x110000) (cs : List Char) :
    stringBody ((escapePoint p).toList ++ cs) = (stringBody cs).map fun r => (unitsOf p ++ r.1, r.2) := by
  unfold escapePoint unitsOf
  split_ifs with hlone
  · have hbounds := isLone_iff.mp hlone
    have hunit : hexUnit (hexDigit (p / 4096)) (hexDigit (p / 256 % 16)) (hexDigit (p / 16 % 16))
        (hexDigit (p % 16)) = some p := by
      have h₁ := hexValue_hexDigit (p / 4096) (by omega)
      have h₂ := hexValue_hexDigit (p / 256 % 16) (by omega)
      have h₃ := hexValue_hexDigit (p / 16 % 16) (by omega)
      have h₄ := hexValue_hexDigit (p % 16) (by omega)
      simp only [hexUnit, h₁, h₂, h₃, h₄, Option.bind_eq_bind, Option.bind_some, Option.pure_def, Option.some.injEq]
      omega
    rw [toList_hex]
    exact stringBody_hex hunit cs
  · exact stringBody_escape (Char.ofNat p) cs

theorem codePoints_lt (us : List ℕ) (hus : ∀ u ∈ us, u < 0x10000) : ∀ p ∈ codePoints us, p < 0x110000 := by
  induction us using codePoints.induct with
  | case1 => exact nofun
  | case2 u =>
    intro p hp
    have hu := hus u List.mem_cons_self
    rw [codePoints, List.mem_singleton] at hp
    omega
  | case3 u v us hpair ih =>
    intro p hp
    rw [codePoints, if_pos hpair] at hp
    rcases List.mem_cons.mp hp with hp | hp
    · omega
    · exact ih (fun w hw => hus w (List.mem_cons_of_mem _ (List.mem_cons_of_mem _ hw))) p hp
  | case4 u v us hpair ih =>
    intro p hp
    rw [codePoints, if_neg hpair] at hp
    rcases List.mem_cons.mp hp with hp | hp
    · have hu := hus u List.mem_cons_self
      omega
    · exact ih (fun w hw => hus w (List.mem_cons_of_mem _ hw)) p hp

theorem unitsOf_unit {u : ℕ} (hu : u < 0x10000) : unitsOf u = [u] := by
  unfold unitsOf
  split_ifs with hlone
  · rfl
  · have hnot := mt isLone_iff.mpr hlone
    have hvalid : u.isValidChar := by
      unfold Nat.isValidChar
      omega
    rw [codeUnits, Char.toNat_ofNat, if_pos hvalid, if_pos hu]

/-- The code points of a string give back its code units. -/
theorem flatMap_unitsOf (us : List ℕ) (hus : ∀ u ∈ us, u < 0x10000) : (codePoints us).flatMap unitsOf = us := by
  induction us using codePoints.induct with
  | case1 => rfl
  | case2 u => rw [codePoints, List.flatMap_singleton, unitsOf_unit (hus u List.mem_cons_self)]
  | case3 u v us hpair ih =>
    rw [codePoints, if_pos hpair, List.flatMap_cons,
      ih fun w hw => hus w (List.mem_cons_of_mem _ (List.mem_cons_of_mem _ hw))]
    have hlone : ¬ isLone (0x10000 + (u - 0xD800) * 0x400 + (v - 0xDC00)) = true := by
      rw [isLone_iff]
      omega
    have hvalid : (0x10000 + (u - 0xD800) * 0x400 + (v - 0xDC00)).isValidChar := by
      unfold Nat.isValidChar
      omega
    rw [unitsOf, if_neg hlone, codeUnits, Char.toNat_ofNat, if_pos hvalid, if_neg (by omega)]
    simp only [List.cons_append, List.nil_append, List.cons.injEq, and_true]
    omega
  | case4 u v us hpair ih =>
    rw [codePoints, if_neg hpair, List.flatMap_cons, unitsOf_unit (hus u List.mem_cons_self),
      ih fun w hw => hus w (List.mem_cons_of_mem _ hw)]
    rfl

theorem toNat_lt_units (s : JsString) : ∀ u ∈ s.units.map UInt16.toNat, u < 0x10000 := by
  intro u hu
  obtain ⟨unit, _, rfl⟩ := List.mem_map.mp hu
  exact unit.toNat_lt

instance : LawfulStringFormat JsString where
  read_escape s cs := by
    refine ⟨s.units.map UInt16.toNat, ?_, ?_⟩
    · have hbody : stringBody ((String.join (s.codePoints.map escapePoint)).toList ++ '"' :: cs) =
          some (s.codePoints.flatMap unitsOf, cs) :=
        stringBody_join (fun p hp => stringBody_escapePoint (codePoints_lt _ (toNat_lt_units s) p hp)) cs
      rwa [JsString.codePoints, flatMap_unitsOf _ (toNat_lt_units s)] at hbody
    · show (if _ then _ else _) = _
      rw [if_pos (toNat_lt_units s), List.map_map]
      congr 2
      exact List.map_id'' (fun u => UInt16.ofNat_toNat) s.units
  length_text units s h := by
    change (if _ then _ else _) = _ at h
    split_ifs at h with hbound
    cases h
    show (String.ofList _).toList.length = _
    rw [String.toList_ofList, List.length_map, JsString.codePoints, List.map_map]
    have hround : units.map (UInt16.toNat ∘ UInt16.ofNat) = units := by
      refine (List.map_congr_left fun u hu => ?_).trans (List.map_id units)
      exact UInt16.toNat_ofNat_of_lt' (hbound u hu)
    rw [hround]

end CodeWeaknesses.Json
