import Mathlib.Data.List.DropRight
import Mathlib.Logic.Relation

/-!
# Lines of a text

Texts over an arbitrary alphabet, with a set of spaces and a newline that is one of them. The kept
lines of a text are its trimmed lines that are not empty.

Results:
* `keptLines_append_newline`, `keptLines_append_left`, `keptLines_append_right`: the kept lines of
  a text in parts, and the spaces that do not count.
* `keptLines_normalize`, `normalize_eq_iff`, `normalize_normalize`: joining the kept lines is a
  normal form.
* `eqvGen_respaced_iff`: **two texts have the same kept lines iff spaces at the ends of lines
  lead from one to the other.**
-/

namespace Lib.Lines

open Relation

variable {α : Type}

/-! ## Trimming -/

section Trim

variable (space : α → Bool)

/-- The text without the spaces around it. -/
def trim (s : List α) : List α := (s.dropWhile space).rdropWhile space

/-- Only spaces. -/
def Blank (s : List α) : Prop := ∀ c ∈ s, space c = true

variable {space}

@[simp] theorem blank_nil : Blank space [] := by simp [Blank]

theorem Blank.left {s t : List α} (h : Blank space (s ++ t)) : Blank space s :=
  fun c hc => h c (List.mem_append_left t hc)

theorem Blank.append {s t : List α} (hs : Blank space s) (ht : Blank space t) : Blank space (s ++ t) := by
  intro c hc
  exact (List.mem_append.mp hc).elim (hs c) (ht c)

theorem Blank.cons {s : List α} (hs : Blank space s) {c : α} (hc : space c = true) : Blank space (c :: s) := by
  intro d hd
  rcases List.mem_cons.mp hd with rfl | hd
  · exact hc
  · exact hs d hd

theorem Blank.tail {s t : List α} {c : α} (h : Blank space (s ++ c :: t)) : Blank space t :=
  fun d hd => h d (List.mem_append_right s (List.mem_cons_of_mem c hd))

@[simp] theorem trim_nil : trim space ([] : List α) = [] := rfl

theorem trim_append_left {w : List α} (hw : Blank space w) (s : List α) :
    trim space (w ++ s) = trim space s := by
  unfold trim
  rw [List.dropWhile_append_of_pos hw]

theorem rdropWhile_append {w : List α} (hw : Blank space w) (s : List α) :
    (s ++ w).rdropWhile space = s.rdropWhile space := by
  unfold List.rdropWhile
  rw [List.reverse_append, List.dropWhile_append_of_pos fun c hc => hw c (List.mem_reverse.mp hc)]

theorem trim_append_right {w : List α} (hw : Blank space w) (s : List α) :
    trim space (s ++ w) = trim space s := by
  unfold trim
  rw [List.dropWhile_append]
  split_ifs with h
  · -- nothing is left of `s`
    rw [List.isEmpty_iff.mp h, List.dropWhile_eq_nil_iff.mpr hw]
  · exact rdropWhile_append hw _

theorem trim_of_blank {w : List α} (hw : Blank space w) : trim space w = [] := by
  rw [← List.append_nil w, trim_append_left hw, trim_nil]

/-- A text is its trimmed text between spaces. -/
theorem exists_spaces (space : α → Bool) (s : List α) :
    ∃ w v, Blank space w ∧ Blank space v ∧ s = w ++ trim space s ++ v := by
  refine ⟨s.takeWhile space, (s.dropWhile space).rtakeWhile space, ?_, ?_, ?_⟩
  · intro c hc
    exact List.mem_takeWhile_imp hc
  · intro c hc
    exact List.mem_rtakeWhile_imp hc
  · unfold trim
    rw [List.append_assoc, List.rdropWhile_append_rtakeWhile, List.takeWhile_append_dropWhile]

theorem trim_trim (s : List α) : trim space (trim space s) = trim space s := by
  obtain ⟨w, v, hw, hv, hs⟩ := exists_spaces space s
  conv_rhs => rw [hs, trim_append_right hv, trim_append_left hw]

theorem mem_of_mem_trim {s : List α} {c : α} (h : c ∈ trim space s) : c ∈ s := by
  obtain ⟨w, v, _, _, hs⟩ := exists_spaces space s
  rw [hs]
  simp [h]

theorem trim_eq_nil_iff {s : List α} : trim space s = [] ↔ Blank space s := by
  refine ⟨?_, trim_of_blank⟩
  intro h
  obtain ⟨w, v, hw, hv, hs⟩ := exists_spaces space s
  rw [hs, h, List.append_nil]
  exact hw.append hv

end Trim

/-! ## Spaces at the ends of lines -/

section Respaced

variable (space : α → Bool) (newline : α)

/-- A line starts after this text. -/
def AtLineStart (before : List α) : Prop := before = [] ∨ ∃ p, before = p ++ [newline]

/-- A line ends before this text. -/
def AtLineEnd (after : List α) : Prop := after = [] ∨ ∃ q, after = newline :: q

/-- Spaces are added at the start or at the end of a line. They may be newlines too, so that
    blank lines come with them. -/
inductive Respaced : List α → List α → Prop
  | leading (before w line : List α) (hstart : AtLineStart newline before) (hw : Blank space w) :
      Respaced (before ++ line) (before ++ w ++ line)
  | trailing (line w after : List α) (hw : Blank space w) (hend : AtLineEnd newline after) :
      Respaced (line ++ after) (line ++ w ++ after)

variable {space newline}

/-- What leads from one text to another does so after a line too. -/
theorem Respaced.after_line {s t : List α} (l : List α) (h : Respaced space newline s t) :
    Respaced space newline (l ++ newline :: s) (l ++ newline :: t) := by
  cases h with
  | leading before w line hstart hw =>
    have hstart' : AtLineStart newline (l ++ newline :: before) := by
      rcases hstart with rfl | ⟨p, rfl⟩
      · exact .inr ⟨l, rfl⟩
      · exact .inr ⟨l ++ newline :: p, by simp⟩
    have h : Respaced space newline (l ++ newline :: before ++ line) (l ++ newline :: before ++ w ++ line) :=
      .leading _ w line hstart' hw
    simpa using h
  | trailing line w after hw hend =>
    have h : Respaced space newline (l ++ newline :: line ++ after) (l ++ newline :: line ++ w ++ after) :=
      .trailing _ w after hw hend
    simpa using h

theorem eqvGen_after_line {s t : List α} (l : List α) (h : EqvGen (Respaced space newline) s t) :
    EqvGen (Respaced space newline) (l ++ newline :: s) (l ++ newline :: t) := by
  induction h with
  | rel _ _ h => exact .rel _ _ (h.after_line l)
  | refl _ => exact .refl _
  | symm _ _ _ ih => exact .symm _ _ ih
  | trans _ _ _ _ _ ih₁ ih₂ => exact .trans _ _ _ ih₁ ih₂

/-- The spaces around a line, with the lines after it. -/
theorem eqvGen_trim (l : List α) {after : List α} (hend : AtLineEnd newline after) :
    EqvGen (Respaced space newline) (trim space l ++ after) (l ++ after) := by
  obtain ⟨w, v, hw, hv, hl⟩ := exists_spaces space l
  have hleft : Respaced space newline (trim space l ++ after) (w ++ (trim space l ++ after)) :=
    .leading [] w _ (.inl rfl) hw
  have hright : Respaced space newline (w ++ trim space l ++ after) (w ++ trim space l ++ v ++ after) :=
    .trailing _ v after hv hend
  rw [← hl] at hright
  rw [← List.append_assoc] at hleft
  exact .trans _ _ _ (.rel _ _ hleft) (.rel _ _ hright)

end Respaced

/-! ## Kept lines -/

section Kept

variable [DecidableEq α] (space : α → Bool) (newline : α)

/-- The trimmed lines that are not empty. -/
def keptLines (s : List α) : List (List α) :=
  ((s.splitOn newline).map (trim space)).filter fun line => line.length > 0

variable {space newline}

/-- A text is one line, or a line and a text after its newline. -/
theorem lines_induction {P : List α → Prop} (newline : α) (line : ∀ l, newline ∉ l → P l)
    (cons : ∀ l s, newline ∉ l → P s → P (l ++ newline :: s)) (s : List α) : P s := by
  induction h : s.length using Nat.strong_induction_on generalizing s with
  | h n ih =>
    by_cases hmem : newline ∈ s
    · obtain ⟨l, t, rfl, hl⟩ := List.eq_append_cons_of_mem hmem
      refine cons l t hl (ih t.length ?_ t rfl)
      simp only [List.length_append, List.length_cons] at h
      omega
    · exact line s hmem

theorem keptLines_append_newline (a b : List α) :
    keptLines space newline (a ++ newline :: b) = keptLines space newline a ++ keptLines space newline b := by
  unfold keptLines
  rw [List.splitOn_append_cons_self, List.map_append, List.filter_append]

theorem keptLines_line {l : List α} (hl : newline ∉ l) :
    keptLines space newline l = if trim space l = [] then [] else [trim space l] := by
  unfold keptLines
  rw [List.splitOn_eq_singleton hl]
  split_ifs with h
  · simp [h]
  · simp [List.length_pos_iff.mpr h]

@[simp] theorem keptLines_nil : keptLines space newline [] = [] := by
  rw [keptLines_line List.not_mem_nil, if_pos trim_nil]

/-- Spaces before a text. -/
theorem keptLines_append_left {w : List α} (hw : Blank space w) (s : List α) :
    keptLines space newline (w ++ s) = keptLines space newline s := by
  induction w using lines_induction newline generalizing s with
  | line l hl =>
    induction s using lines_induction newline with
    | line l' hl' =>
      rw [keptLines_line (by simp [hl, hl']), keptLines_line hl', trim_append_left hw]
    | cons l' s hl' _ =>
      rw [← List.append_assoc, keptLines_append_newline, keptLines_append_newline,
        keptLines_line (by simp [hl, hl']), keptLines_line hl', trim_append_left hw]
  | cons l w hl ih =>
    have htrim : trim space l = [] := trim_of_blank hw.left
    rw [List.append_assoc, List.cons_append, keptLines_append_newline, keptLines_line hl, if_pos htrim,
      List.nil_append, ih hw.tail]

theorem keptLines_of_blank {w : List α} (hw : Blank space w) : keptLines space newline w = [] := by
  rw [← List.append_nil w, keptLines_append_left hw, keptLines_nil]

/-- Spaces after a text. -/
theorem keptLines_append_right {w : List α} (hw : Blank space w) (s : List α) :
    keptLines space newline (s ++ w) = keptLines space newline s := by
  induction s using lines_induction newline with
  | line l hl =>
    induction w using lines_induction newline with
    | line v hv =>
      rw [keptLines_line (by simp [hl, hv]), keptLines_line hl, trim_append_right hw]
    | cons v w hv _ =>
      rw [← List.append_assoc, keptLines_append_newline, keptLines_of_blank hw.tail, List.append_nil,
        keptLines_line (by simp [hl, hv]), keptLines_line hl, trim_append_right hw.left]
  | cons l s _ ih =>
    rw [List.append_assoc, List.cons_append, keptLines_append_newline, keptLines_append_newline, ih]

theorem keptLines_trim (s : List α) : keptLines space newline (trim space s) = keptLines space newline s := by
  obtain ⟨w, v, hw, hv, hs⟩ := exists_spaces space s
  conv_rhs => rw [hs, keptLines_append_right hv, keptLines_append_left hw]

theorem keptLines_append_of_start {before : List α} (hstart : AtLineStart newline before) (s : List α) :
    keptLines space newline (before ++ s) = keptLines space newline before ++ keptLines space newline s := by
  rcases hstart with rfl | ⟨p, rfl⟩
  · rw [keptLines_nil]
    rfl
  · rw [List.append_assoc, keptLines_append_newline, keptLines_nil, List.append_nil]
    exact keptLines_append_newline p s

theorem keptLines_append_of_end {after : List α} (hend : AtLineEnd newline after) (s : List α) :
    keptLines space newline (s ++ after) = keptLines space newline s ++ keptLines space newline after := by
  rcases hend with rfl | ⟨q, rfl⟩
  · rw [keptLines_nil, List.append_nil, List.append_nil]
  · have hq : keptLines space newline (newline :: q) = keptLines space newline q := by
      show keptLines space newline ([] ++ newline :: q) = _
      rw [keptLines_append_newline, keptLines_nil, List.nil_append]
    rw [keptLines_append_newline, hq]

/-- A whole line of a text is kept or left out by itself. -/
theorem keptLines_between {before after : List α} (hstart : AtLineStart newline before)
    (hend : AtLineEnd newline after) (line : List α) : keptLines space newline (before ++ line ++ after) =
      keptLines space newline before ++ keptLines space newline line ++ keptLines space newline after := by
  rw [List.append_assoc, keptLines_append_of_start hstart, keptLines_append_of_end hend, List.append_assoc]

/-- A text without kept lines is blank. -/
theorem blank_of_keptLines (hnewline : space newline = true) {s : List α} (h : keptLines space newline s = []) :
    Blank space s := by
  induction s using lines_induction newline with
  | line l hl =>
    rw [keptLines_line hl] at h
    split_ifs at h with htrim
    exact trim_eq_nil_iff.mp htrim
  | cons l s hl ih =>
    rw [keptLines_append_newline, List.append_eq_nil_iff, keptLines_line hl] at h
    obtain ⟨hkept, hs⟩ := h
    split_ifs at hkept with htrim
    exact (trim_eq_nil_iff.mp htrim).append ((ih hs).cons hnewline)

/-- A text with one kept line is that line between spaces. -/
theorem trim_of_keptLines (hnewline : space newline = true) {s line : List α}
    (h : keptLines space newline s = [line]) : trim space s = line := by
  induction s using lines_induction newline with
  | line l hl =>
    rw [keptLines_line hl] at h
    split_ifs at h with htrim
    exact List.singleton_inj.mp h
  | cons l s hl ih =>
    rw [keptLines_append_newline, keptLines_line hl] at h
    split_ifs at h with htrim
    · have hspaces : Blank space (l ++ [newline]) :=
        (trim_eq_nil_iff.mp htrim).append (blank_nil.cons hnewline)
      rw [List.append_cons, trim_append_left hspaces]
      exact ih h
    · obtain ⟨hline, hrest⟩ := List.cons.inj h
      rw [trim_append_right ((blank_of_keptLines hnewline hrest).cons hnewline), hline]

/-- A text counts as one line exactly if it is that line between spaces. -/
theorem keptLines_eq_line_iff (hnewline : space newline = true) {s l : List α} (hl : newline ∉ l) :
    keptLines space newline s = keptLines space newline l ↔ trim space s = trim space l := by
  constructor
  · intro h
    rw [keptLines_line hl] at h
    split_ifs at h with htrim
    · rw [htrim]
      exact trim_of_blank (blank_of_keptLines hnewline h)
    · exact trim_of_keptLines hnewline h
  · intro h
    rw [← keptLines_trim s, h, keptLines_trim]

/-- Each kept line of a line, and so of a text, is its own kept line. -/
theorem mem_keptLines_line {l line : List α} (hl : newline ∉ l) (h : line ∈ keptLines space newline l) :
    keptLines space newline line = [line] := by
  rw [keptLines_line hl] at h
  split_ifs at h with htrim
  · cases h
  · obtain rfl := List.mem_singleton.mp h
    have hline : newline ∉ trim space l := fun hmem => hl (mem_of_mem_trim hmem)
    rw [keptLines_line hline, trim_trim, if_neg htrim]

theorem mem_keptLines {s line : List α} (h : line ∈ keptLines space newline s) :
    keptLines space newline line = [line] := by
  induction s using lines_induction newline with
  | line l hl => exact mem_keptLines_line hl h
  | cons l s hl ih =>
    rw [keptLines_append_newline, List.mem_append] at h
    exact h.elim (mem_keptLines_line hl) ih

/-- Joining lines and keeping them again. -/
theorem keptLines_join {ls : List (List α)} (h : ∀ line ∈ ls, keptLines space newline line = [line]) :
    keptLines space newline ([newline].intercalate ls) = ls := by
  induction ls with
  | nil => exact keptLines_nil
  | cons line rest ih =>
    have hline := h line List.mem_cons_self
    by_cases hrest : rest = []
    · rw [hrest, List.intercalate_singleton, hline]
    · rw [List.intercalate_cons_of_ne_nil hrest, List.append_assoc]
      show keptLines space newline (line ++ newline :: [newline].intercalate rest) = line :: rest
      rw [keptLines_append_newline, hline, ih fun l hl => h l (List.mem_cons_of_mem line hl)]
      rfl

end Kept

/-! ## The normal form -/

section Normal

variable [DecidableEq α] (space : α → Bool) (newline : α)

/-- The kept lines of the trimmed text, joined again. -/
def normalize (s : List α) : List α := [newline].intercalate (keptLines space newline (trim space s))

variable {space newline}

theorem normalize_eq (s : List α) :
    normalize space newline s = [newline].intercalate (keptLines space newline s) := by
  unfold normalize
  rw [keptLines_trim]

theorem keptLines_normalize (s : List α) :
    keptLines space newline (normalize space newline s) = keptLines space newline s := by
  rw [normalize_eq]
  exact keptLines_join fun line hline => mem_keptLines hline

theorem normalize_eq_iff {s t : List α} : normalize space newline s = normalize space newline t ↔
    keptLines space newline s = keptLines space newline t := by
  constructor
  · intro h
    rw [← keptLines_normalize s, h, keptLines_normalize]
  · intro h
    rw [normalize_eq, normalize_eq, h]

theorem normalize_normalize (s : List α) :
    normalize space newline (normalize space newline s) = normalize space newline s :=
  normalize_eq_iff.mpr (keptLines_normalize s)

end Normal

/-! ## Texts with the same kept lines -/

section Same

variable [DecidableEq α] {space : α → Bool} {newline : α}

theorem Respaced.keptLines_eq {s t : List α} (h : Respaced space newline s t) :
    keptLines space newline s = keptLines space newline t := by
  cases h with
  | leading before w line hstart hw =>
    rw [List.append_assoc, keptLines_append_of_start hstart, keptLines_append_of_start hstart,
      keptLines_append_left hw]
  | trailing line w after hw hend =>
    rw [keptLines_append_of_end hend, keptLines_append_of_end hend, keptLines_append_right hw]

/-- Every text comes from its kept lines. -/
theorem eqvGen_join (hnewline : space newline = true) (s : List α) :
    EqvGen (Respaced space newline) ([newline].intercalate (keptLines space newline s)) s := by
  have hblank : Blank space [newline] := blank_nil.cons hnewline
  induction s using lines_induction newline with
  | line l hl =>
    have htrim : EqvGen (Respaced space newline) (trim space l ++ []) (l ++ []) := eqvGen_trim l (.inl rfl)
    rw [List.append_nil, List.append_nil] at htrim
    rw [keptLines_line hl]
    split_ifs with h
    · rw [h] at htrim
      exact htrim
    · rw [List.intercalate_singleton]
      exact htrim
  | cons l s hl ih =>
    have hafter := eqvGen_after_line l ih
    refine .trans _ _ _ ?_ (.trans _ _ _ (eqvGen_trim l (.inr ⟨_, rfl⟩)) hafter)
    rw [keptLines_append_newline, keptLines_line hl]
    split_ifs with h
    · -- a blank line
      rw [h]
      exact .rel _ _ (.leading [] [newline] _ (.inl rfl) hblank)
    · by_cases hrest : keptLines space newline s = []
      · -- blank lines at the end
        rw [hrest, List.append_nil, List.intercalate_singleton]
        have hlast : Respaced space newline (trim space l ++ []) (trim space l ++ [newline] ++ []) :=
          .trailing _ _ _ hblank (.inl rfl)
        rw [List.append_nil, List.append_nil] at hlast
        exact .rel _ _ hlast
      · rw [List.singleton_append, List.intercalate_cons_of_ne_nil hrest, List.append_assoc]
        exact .refl _

/-- **Main**: exactly the texts with the same kept lines come from each other by spaces at the
    ends of lines. -/
theorem eqvGen_respaced_iff (hnewline : space newline = true) {s t : List α} :
    EqvGen (Respaced space newline) s t ↔ keptLines space newline s = keptLines space newline t := by
  constructor
  · intro h
    induction h with
    | rel _ _ h => exact h.keptLines_eq
    | refl _ => rfl
    | symm _ _ _ ih => exact ih.symm
    | trans _ _ _ _ _ ih₁ ih₂ => exact ih₁.trans ih₂
  · intro h
    have hs := eqvGen_join hnewline s
    rw [h] at hs
    exact .trans _ _ _ (.symm _ _ hs) (eqvGen_join hnewline t)

/-- Spaces at the ends of lines are all that they differ in. -/
theorem filter_eq_of_keptLines (hnewline : space newline = true) {s t : List α}
    (h : keptLines space newline s = keptLines space newline t) :
    s.filter (fun c => !space c) = t.filter fun c => !space c := by
  have hblank : ∀ {w : List α}, Blank space w → w.filter (fun c => !space c) = [] := fun hw =>
    List.filter_eq_nil_iff.mpr fun c hc => by simp [hw c hc]
  have hgen := (eqvGen_respaced_iff hnewline).mpr h
  clear h
  induction hgen with
  | rel _ _ hspaces =>
    cases hspaces with
    | leading before w line hstart hw =>
      rw [List.filter_append, List.filter_append, List.filter_append, hblank hw, List.append_nil]
    | trailing line w after hw hend =>
      rw [List.filter_append, List.filter_append, List.filter_append, hblank hw, List.append_nil]
  | refl _ => rfl
  | symm _ _ _ ih => exact ih.symm
  | trans _ _ _ _ _ ih₁ ih₂ => exact ih₁.trans ih₂

end Same

end Lib.Lines
