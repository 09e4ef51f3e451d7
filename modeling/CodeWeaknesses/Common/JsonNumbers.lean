import CodeWeaknesses.Common.JsonParse

/-!
# The numbers of JSON

The literals of the grammar, and the formats whose numbers are written as literals and read back.

Results:
* `literal_append`: a literal is read up to the character that ends it.
* `LawfulNumberFormat`: what `JSON.stringify` and `JSON.parse` make of numbers.
-/

namespace CodeWeaknesses.Json

/-! ## Literals -/

/-- A number literal ends here. -/
def Delimited (cs : List Char) : Prop :=
  ∀ c rest, cs = c :: rest → c.isDigit = false ∧ c ≠ '.' ∧ c ≠ 'e' ∧ c ≠ 'E'

theorem delimited_nil : Delimited [] := nofun

theorem delimited_cons {c : Char} (hc : c.isDigit = false ∧ c ≠ '.' ∧ c ≠ 'e' ∧ c ≠ 'E') (cs : List Char) :
    Delimited (c :: cs) := by
  intro c' rest h
  cases h
  exact hc

section Append

variable {l cs ds rest : List Char}

theorem span_append (hcs : Delimited cs) (l : List Char) :
    (l ++ cs).takeWhile Char.isDigit = l.takeWhile Char.isDigit ∧
      (l ++ cs).dropWhile Char.isDigit = l.dropWhile Char.isDigit ++ cs := by
  induction l with
  | nil =>
    cases cs with
    | nil => exact ⟨rfl, rfl⟩
    | cons c cs =>
      have hc := (hcs c cs rfl).1
      exact ⟨List.takeWhile_cons_of_neg (by simp [hc]), List.dropWhile_cons_of_neg (by simp [hc])⟩
  | cons c l ih =>
    by_cases hc : c.isDigit = true
    · rw [List.cons_append, List.takeWhile_cons_of_pos hc, List.takeWhile_cons_of_pos hc,
        List.dropWhile_cons_of_pos hc, List.dropWhile_cons_of_pos hc, ih.1, ih.2]
      exact ⟨rfl, rfl⟩
    · rw [List.cons_append, List.takeWhile_cons_of_neg hc, List.takeWhile_cons_of_neg hc,
        List.dropWhile_cons_of_neg hc, List.dropWhile_cons_of_neg hc]
      exact ⟨rfl, rfl⟩

theorem digits_append (hcs : Delimited cs) (h : digits l = some (ds, rest)) :
    digits (l ++ cs) = some (ds, rest ++ cs) := by
  obtain ⟨htake, hdrop⟩ := span_append hcs l
  unfold digits at h ⊢
  dsimp only at h ⊢
  rw [htake, hdrop]
  split_ifs at h ⊢
  cases h
  rfl

theorem digitRun_append (hcs : Delimited cs) (h : digitRun l = some (ds, rest)) :
    digitRun (l ++ cs) = some (ds, rest ++ cs) := by
  obtain ⟨htake, hdrop⟩ := span_append hcs l
  unfold digitRun at h ⊢
  dsimp only at h ⊢
  rw [htake, hdrop]
  split_ifs at h ⊢
  cases h
  rfl

/-- A prefix character, and what is read after it. -/
theorem map_cons_append {f : List Char → Option (List Char × List Char)} {c : Char}
    (hf : ∀ {ds rest}, f l = some (ds, rest) → f (l ++ cs) = some (ds, rest ++ cs))
    (h : (f l).map (fun r => (c :: r.1, r.2)) = some (ds, rest)) :
    (f (l ++ cs)).map (fun r => (c :: r.1, r.2)) = some (ds, rest ++ cs) := by
  obtain ⟨r, hr, heq⟩ := Option.map_eq_some_iff.mp h
  cases heq
  rw [hf hr]
  rfl

theorem fraction_append (hcs : Delimited cs) (h : fraction l = some (ds, rest)) :
    fraction (l ++ cs) = some (ds, rest ++ cs) := by
  cases l with
  | nil =>
    cases h
    cases cs with
    | nil => rfl
    | cons c cs => exact if_neg (hcs c cs rfl).2.1
  | cons c l =>
    rw [List.cons_append]
    rw [fraction] at h ⊢
    split_ifs at h ⊢
    · exact map_cons_append (digitRun_append hcs) h
    · cases h
      rfl

theorem signedRun_append (hcs : Delimited cs) (h : signedRun l = some (ds, rest)) :
    signedRun (l ++ cs) = some (ds, rest ++ cs) := by
  cases l with
  | nil => cases h
  | cons c l =>
    rw [List.cons_append]
    rw [signedRun] at h ⊢
    split_ifs at h ⊢
    · exact map_cons_append (digitRun_append hcs) h
    · exact digitRun_append hcs h

theorem exponent_append (hcs : Delimited cs) (h : exponent l = some (ds, rest)) :
    exponent (l ++ cs) = some (ds, rest ++ cs) := by
  cases l with
  | nil =>
    cases h
    cases cs with
    | nil => rfl
    | cons c cs =>
      obtain ⟨_, _, he, hE⟩ := hcs c cs rfl
      exact if_neg (not_or.mpr ⟨he, hE⟩)
  | cons c l =>
    rw [List.cons_append]
    rw [exponent] at h ⊢
    split_ifs at h ⊢
    · exact map_cons_append (signedRun_append hcs) h
    · cases h
      rfl

theorem unsigned_append (hcs : Delimited cs) (h : unsigned l = some (ds, rest)) :
    unsigned (l ++ cs) = some (ds, rest ++ cs) := by
  obtain ⟨d, hd, h⟩ := Option.bind_eq_some_iff.mp h
  obtain ⟨f, hf, h⟩ := Option.bind_eq_some_iff.mp h
  obtain ⟨e, he, heq⟩ := Option.map_eq_some_iff.mp h
  cases heq
  rw [unsigned, digits_append hcs hd, Option.bind_some, fraction_append hcs hf, Option.bind_some,
    exponent_append hcs he]
  rfl

/-- A literal is read up to the character that ends it. -/
theorem literal_append (hcs : Delimited cs) (h : literal l = some (ds, rest)) :
    literal (l ++ cs) = some (ds, rest ++ cs) := by
  cases l with
  | nil => cases h
  | cons c l =>
    rw [List.cons_append]
    rw [literal] at h ⊢
    split_ifs at h ⊢
    · exact map_cons_append (unsigned_append hcs) h
    · exact unsigned_append hcs h

/-- A literal begins with its sign or with a digit. -/
theorem literal_head (h : literal l = some (ds, rest)) : ∃ c l', l = c :: l' ∧ (c = '-' ∨ c.isDigit = true) := by
  cases l with
  | nil => cases h
  | cons c l =>
    refine ⟨c, l, rfl, ?_⟩
    by_contra hc
    rw [not_or] at hc
    rw [literal, if_neg hc.1, unsigned, digits] at h
    rw [List.takeWhile_cons_of_neg hc.2, if_pos (.inl rfl)] at h
    cases h

end Append

/-! ## Formats -/

/-- A number is written as a literal that is read as a number with the same text, or it is not
    finite and written as `null`. -/
class LawfulNumberFormat (N : Type) [NumberFormat N] : Prop where
  read_toText : ∀ n : N, NumberFormat.toText n = "null" ∨
    literal (NumberFormat.toText n).toList = some ((NumberFormat.toText n).toList, []) ∧
      ∃ n' : N, NumberFormat.ofLiteral (NumberFormat.toText n).toList = some n' ∧
        NumberFormat.toText n' = NumberFormat.toText n

/-! ## Integers -/

/-- No zero leads the digits of a number other than 0. -/
theorem head?_toDigits (n : ℕ) : (Nat.toDigits 10 n).head? = some '0' → Nat.toDigits 10 n = ['0'] := by
  induction n using Nat.strong_induction_on with
  | _ n ih =>
    intro hhead
    by_cases hn : n < 10
    · rw [Nat.toDigits_of_lt_base hn] at hhead ⊢
      rw [Option.some.inj hhead]
    · have hlt : n / 10 < n := by omega
      have hsplit := Nat.toDigits_of_base_le (b := 10) (n := n) (by decide) (by omega)
      obtain ⟨d, ds, hd⟩ := List.exists_cons_of_ne_nil (Nat.toDigits_ne_nil (n := n / 10) (b := 10))
      rw [hsplit, hd, List.cons_append] at hhead
      have hsmall := ih (n / 10) hlt (by rw [hd]; exact hhead)
      -- the digits of n / 10 are those of a number that is not 0
      have hzero := Nat.ofDigitChars_ten_toDigits (n := n / 10)
      rw [hsmall] at hzero
      have : n / 10 = 0 := hzero.symm
      omega

theorem isDigit_of_mem_repr {n : ℕ} {c : Char} (hc : c ∈ n.repr.toList) : c.isDigit = true := by
  rw [Nat.toList_repr] at hc
  exact Nat.isDigit_of_mem_toDigits (by decide) (by decide) hc

theorem naturalOf_repr (n : ℕ) : naturalOf n.repr.toList = some n := by
  rw [naturalOf, if_pos (List.all_eq_true.mpr fun c hc => isDigit_of_mem_repr hc), Nat.toList_repr,
    Nat.ofDigitChars_ten_toDigits]

theorem unsigned_repr (n : ℕ) : unsigned n.repr.toList = some (n.repr.toList, []) := by
  have htake : n.repr.toList.takeWhile Char.isDigit = n.repr.toList :=
    List.takeWhile_eq_self_iff.mpr fun c hc => isDigit_of_mem_repr hc
  have hdrop : n.repr.toList.dropWhile Char.isDigit = [] :=
    List.dropWhile_eq_nil_iff.mpr fun c hc => isDigit_of_mem_repr hc
  have hdigits : digits n.repr.toList = some (n.repr.toList, []) := by
    unfold digits
    dsimp only
    rw [htake, hdrop, if_neg]
    rw [Nat.toList_repr]
    rintro (hnil | ⟨hhead, hne⟩)
    · exact Nat.toDigits_ne_nil hnil
    · exact hne (head?_toDigits n hhead)
  rw [unsigned, hdigits]
  show some (n.repr.toList ++ ([] ++ []), []) = _
  rw [List.append_nil, List.append_nil]

/-- An integer is written as a literal of its own. -/
theorem literal_toString (n : ℤ) : literal (toString n).toList = some ((toString n).toList, []) ∧
    integerOf (toString n).toList = some n := by
  cases n with
  | ofNat n =>
    show literal n.repr.toList = _ ∧ integerOf n.repr.toList = _
    have hne : n.repr.toList ≠ [] := by
      rw [Nat.toList_repr]
      exact Nat.toDigits_ne_nil
    obtain ⟨d, ds, hd⟩ := List.exists_cons_of_ne_nil hne
    have hdash : d ≠ '-' := by
      rintro rfl
      exact absurd (isDigit_of_mem_repr (n := n) (by rw [hd]; exact List.mem_cons_self)) (by decide)
    have hliteral := unsigned_repr n
    have hnatural := naturalOf_repr n
    show literal n.repr.toList = some (n.repr.toList, []) ∧ integerOf n.repr.toList = some (Int.ofNat n)
    rw [hd] at hliteral hnatural ⊢
    rw [literal, if_neg hdash, integerOf, if_neg hdash, hnatural]
    exact ⟨hliteral, rfl⟩
  | negSucc n =>
    have htext : (toString (Int.negSucc n)).toList = '-' :: (n + 1).repr.toList := by
      show ("-" ++ (n + 1).repr).toList = _
      rw [String.toList_append]
      rfl
    rw [htext, literal, if_pos rfl, unsigned_repr, integerOf, if_pos rfl, naturalOf_repr]
    exact ⟨rfl, rfl⟩

instance : LawfulNumberFormat ℤ where
  read_toText n := .inr ⟨(literal_toString n).1, n, (literal_toString n).2, rfl⟩

end CodeWeaknesses.Json
