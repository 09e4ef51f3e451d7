import CodeWeaknesses.Lib.Lines
import CodeWeaknesses.Submissions.Engine

/-!
# What `compareOutput` tells apart

`compareOutput` compares joined lines after an outer `trim`. The lines themselves decide.

Results:
* `compareOutput_iff`: two texts compare equal iff their non-empty trimmed lines are the same.
* `compareOutput_iff_respaced`: iff one becomes the other by spaces at the ends of lines.
* `compareOutput_comparesLines`: **what a text can be changed in without changing a comparison, and
  what it cannot.**
-/

namespace CodeWeaknesses.Submissions

open Lib Relation

/-- The non-empty trimmed lines of a text, split at newlines. -/
def keptLines (text : String) : List (List Char) :=
  ((text.toList.splitOn '\n').map jsTrim).filter fun line => line.length > 0

/-- Only white space, newlines among it. -/
def Blank (text : String) : Prop := Lines.Blank isJsSpace text.toList

/-- A line starts after this text: it is empty or ends in a newline. -/
def AtLineStart (before : String) : Prop := Lines.AtLineStart '\n' before.toList

/-- A line ends before this text: it is empty or begins with a newline. -/
def AtLineEnd (after : String) : Prop := Lines.AtLineEnd '\n' after.toList

/-- A text without a newline. -/
def IsLine (text : String) : Prop := '\n' ∉ text.toList

/-- No comparison tells `a` from `b`, on either side. -/
def Interchangeable (compare : String → String → Bool) (a b : String) : Prop :=
  ∀ e, compare a e = compare b e ∧ compare e a = compare e b

/-- Nothing equals both `a` and `b`. -/
def ToldApart (compare : String → String → Bool) (a b : String) : Prop :=
  ∀ e, (compare a e = true → compare b e = false) ∧ (compare e a = true → compare e b = false)

/-- What it is to compare outputs line by line. -/
structure ComparesLines (normalize : List Char → List Char) (compare : String → String → Bool) : Prop where
  same : ∀ a e, compare a e = true ↔ keptLines a = keptLines e
  equivalence : Equivalence fun a e => compare a e = true
  idempotent : ∀ str, normalize (normalize str) = normalize str
  leading : ∀ before w line, AtLineStart before → Blank w →
    Interchangeable compare (before ++ w ++ line) (before ++ line)
  trailing : ∀ line w after, Blank w → AtLineEnd after →
    Interchangeable compare (line ++ w ++ after) (line ++ after)
  carriageReturn : ∀ before after,
    Interchangeable compare (before ++ "\r\n" ++ after) (before ++ "\n" ++ after)
  blankLine : ∀ before w after, AtLineStart before → Blank w →
    Interchangeable compare (before ++ w ++ "\n" ++ after) (before ++ after)
  blankLastLine : ∀ text w, Blank w → Interchangeable compare (text ++ "\n" ++ w) text
  trimmed : ∀ text, Interchangeable compare (trim text) text
  changed : ∀ before line text after, AtLineStart before → AtLineEnd after → IsLine line →
    trim text ≠ trim line → ToldApart compare (before ++ line ++ after) (before ++ text ++ after)

/-! ## The normal form -/

theorem normalizeOutput_eq (str : List Char) : normalizeOutput str = Lines.normalize isJsSpace '\n' str := rfl

theorem keptLines_eq (text : String) : keptLines text = Lines.keptLines isJsSpace '\n' text.toList := rfl

theorem toList_trim (text : String) : (trim text).toList = Lines.trim isJsSpace text.toList := by
  unfold trim
  rw [String.toList_ofList]
  rfl

/-- The kept lines decide. -/
theorem compareOutput_iff (a e : String) : compareOutput a e = true ↔ keptLines a = keptLines e := by
  unfold compareOutput
  rw [decide_eq_true_iff, normalizeOutput_eq, normalizeOutput_eq, Lines.normalize_eq_iff, keptLines_eq,
    keptLines_eq]

/-- So do the spaces at the ends of lines. -/
theorem compareOutput_iff_respaced (a e : String) : compareOutput a e = true ↔
    EqvGen (Lines.Respaced isJsSpace '\n') a.toList e.toList := by
  rw [compareOutput_iff, Lines.eqvGen_respaced_iff (by decide), keptLines_eq, keptLines_eq]

theorem interchangeable_of_keptLines {a b : String} (h : keptLines a = keptLines b) :
    Interchangeable compareOutput a b := by
  intro e
  constructor
  · rw [Bool.eq_iff_iff, compareOutput_iff, compareOutput_iff, h]
  · rw [Bool.eq_iff_iff, compareOutput_iff, compareOutput_iff, h]

theorem interchangeable_of_respaced {a b : String} (h : Lines.Respaced isJsSpace '\n' b.toList a.toList) :
    Interchangeable compareOutput a b :=
  interchangeable_of_keptLines h.keptLines_eq.symm

theorem toldApart_of_keptLines {a b : String} (h : keptLines a ≠ keptLines b) :
    ToldApart compareOutput a b := by
  intro e
  constructor
  · intro ha
    rw [compareOutput_iff] at ha
    rw [Bool.eq_false_iff, Ne, compareOutput_iff, ← ha]
    exact h.symm
  · intro ha
    rw [compareOutput_iff] at ha
    rw [Bool.eq_false_iff, Ne, compareOutput_iff, ha]
    exact h

/-! ## Changes of a text -/

/-- White space at the start of a line. -/
theorem interchangeable_leading {before w : String} (hstart : AtLineStart before) (hw : Blank w) (line : String) :
    Interchangeable compareOutput (before ++ w ++ line) (before ++ line) := by
  apply interchangeable_of_respaced
  rw [String.toList_append, String.toList_append, String.toList_append]
  exact .leading _ _ _ hstart hw

/-- White space at the end of a line. -/
theorem interchangeable_trailing {w after : String} (hw : Blank w) (hend : AtLineEnd after) (line : String) :
    Interchangeable compareOutput (line ++ w ++ after) (line ++ after) := by
  apply interchangeable_of_respaced
  rw [String.toList_append, String.toList_append, String.toList_append]
  exact .trailing _ _ _ hw hend

theorem Blank.append {v w : String} (hv : Blank v) (hw : Blank w) : Blank (v ++ w) := by
  unfold Blank
  rw [String.toList_append]
  exact Lines.Blank.append hv hw

theorem blank_newline : Blank "\n" := by simp [Blank, Lines.Blank, isJsSpace]

theorem blank_carriageReturn : Blank "\r" := by simp [Blank, Lines.Blank, isJsSpace]

theorem atLineEnd_empty : AtLineEnd "" := .inl rfl

theorem atLineEnd_newline (after : String) : AtLineEnd ("\n" ++ after) := by
  refine .inr ⟨after.toList, ?_⟩
  rw [String.toList_append]
  rfl

theorem keptLines_trim (text : String) : keptLines (trim text) = keptLines text := by
  rw [keptLines_eq, toList_trim, Lines.keptLines_trim, keptLines_eq]

/-- Another text in the place of a whole line. -/
theorem keptLines_replace_iff {before after line : String} (hstart : AtLineStart before)
    (hend : AtLineEnd after) (hline : IsLine line) (text : String) :
    keptLines (before ++ text ++ after) = keptLines (before ++ line ++ after) ↔ trim text = trim line := by
  have hlines : ∀ t, keptLines (before ++ t ++ after) = keptLines before ++ keptLines t ++ keptLines after := by
    intro t
    rw [keptLines_eq, String.toList_append, String.toList_append]
    exact Lines.keptLines_between hstart hend t.toList
  rw [hlines, hlines, List.append_cancel_right_eq, List.append_cancel_left_eq, keptLines_eq, keptLines_eq,
    Lines.keptLines_eq_line_iff (by decide) hline, ← toList_trim, ← toList_trim, String.toList_inj]

/-- **Main**: `compareOutput` compares line by line: it is an equivalence that white space at the
    ends of lines, carriage returns, blank lines and `trim` do not disturb, and that the text inside
    a line does. -/
theorem compareOutput_comparesLines : ComparesLines normalizeOutput compareOutput where
  same := compareOutput_iff
  equivalence := by
    simp only [compareOutput_iff]
    exact ⟨fun _ => rfl, Eq.symm, Eq.trans⟩
  idempotent := Lines.normalize_normalize
  leading := by
    intro before w line hstart hw
    exact interchangeable_leading hstart hw line
  trailing := by
    intro line w after hw hend
    exact interchangeable_trailing hw hend line
  carriageReturn := by
    intro before after
    have hcrlf : "\r\n" = "\r" ++ "\n" := by decide
    have h := interchangeable_trailing blank_carriageReturn (atLineEnd_newline after) before
    simpa only [hcrlf, String.append_assoc] using h
  blankLine := by
    intro before w after hstart hw
    have h := interchangeable_leading hstart (hw.append blank_newline) after
    simpa only [String.append_assoc] using h
  blankLastLine := by
    intro text w hw
    have h := interchangeable_trailing (blank_newline.append hw) atLineEnd_empty text
    simpa [String.append_assoc] using h
  trimmed := by
    intro text
    exact interchangeable_of_keptLines (keptLines_trim text)
  changed := by
    intro before line text after hstart hend hline hne
    apply toldApart_of_keptLines
    rw [Ne, eq_comm, keptLines_replace_iff hstart hend hline]
    exact hne

end CodeWeaknesses.Submissions
