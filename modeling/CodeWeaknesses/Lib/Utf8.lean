import Mathlib.Data.List.Count
import Mathlib.Data.List.Flatten
import Mathlib.Tactic.SplitIfs

/-!
# UTF-8 in chunks

A decoder of UTF-8 that puts U+FFFD in the place of bytes that are not UTF-8 (one for each maximal
part of a character), and what it makes of an encoded text that comes in chunks, each of them
decoded by itself.

Results:
* `decode_encode_append`: encoded characters are decoded, whatever comes after them.
* `decode_of_prefix`: a character that breaks off is one U+FFFD.
* `decodeChunks_mangled`: **the chunks of an encoded text give that text with each character that
  is split between chunks replaced by two or more U+FFFD.**
* `decodeChunks_eq_iff`: **they give the text itself iff no character is split.**
-/

namespace Lib.Utf8

/-! ## The decoder -/

/-- U+FFFD. -/
def replacement : Char := '\uFFFD'

/-- Between two bytes: at the start of a character, or inside one with code point `codePoint` so
    far, after which `more + 1` bytes are expected, the next one between `lower` and `upper`. -/
inductive State where
  | start
  | inside (codePoint more lower upper : ℕ)
  deriving DecidableEq, Repr

/-- The first byte of a character. -/
def first (byte : ℕ) : List Char × State :=
  if byte < 0x80 then ([Char.ofNat byte], .start)
  else if 0xC2 ≤ byte ∧ byte < 0xE0 then ([], .inside (byte - 0xC0) 0 0x80 0xBF)
  else if 0xE0 ≤ byte ∧ byte < 0xF0 then
    -- no overlong forms and no surrogates
    ([], .inside (byte - 0xE0) 1 (if byte = 0xE0 then 0xA0 else 0x80) (if byte = 0xED then 0x9F else 0xBF))
  else if 0xF0 ≤ byte ∧ byte < 0xF5 then
    -- no overlong forms and nothing above U+10FFFF
    ([], .inside (byte - 0xF0) 2 (if byte = 0xF0 then 0x90 else 0x80) (if byte = 0xF4 then 0x8F else 0xBF))
  else ([replacement], .start)

/-- A byte that goes on with the character, `codePoint` included. -/
def accept (codePoint : ℕ) : ℕ → List Char × State
  | 0 => ([Char.ofNat codePoint], .start)
  | more + 1 => ([], .inside codePoint more 0x80 0xBF)

/-- One byte; one that does not go on with the character is the first of the next one. -/
def step : State → ℕ → List Char × State
  | .start, byte => first byte
  | .inside codePoint more lower upper, byte =>
    if lower ≤ byte ∧ byte ≤ upper then accept (codePoint * 64 + (byte - 0x80)) more
    else (replacement :: (first byte).1, (first byte).2)

def decodeFrom : State → List UInt8 → List Char
  | .start, [] => []
  | .inside .., [] => [replacement]
  | state, byte :: bytes => (step state byte.toNat).1 ++ decodeFrom (step state byte.toNat).2 bytes

def decode (bytes : List UInt8) : List Char := decodeFrom .start bytes

def encode (text : List Char) : List UInt8 := text.flatMap String.utf8EncodeChar

/-- Each chunk is decoded by itself. -/
def decodeChunks (chunks : List (List UInt8)) : List Char := chunks.flatMap decode

/-- No character is split between chunks. -/
def Aligned (chunks : List (List UInt8)) : Prop := ∃ texts : List (List Char), chunks = texts.map encode

theorem decodeFrom_cons (state : State) (byte : UInt8) (bytes : List UInt8) :
    decodeFrom state (byte :: bytes) = (step state byte.toNat).1 ++ decodeFrom (step state byte.toNat).2 bytes := by
  cases state <;> rfl

@[simp] theorem encode_nil : encode [] = [] := rfl

@[simp] theorem encode_cons (c : Char) (text : List Char) :
    encode (c :: text) = String.utf8EncodeChar c ++ encode text := rfl

@[simp] theorem encode_append (text rest : List Char) : encode (text ++ rest) = encode text ++ encode rest :=
  List.flatMap_append ..

/-! ## Characters -/

/-- A byte that is not the first of a character. -/
def Continuation (byte : UInt8) : Prop := 0x80 ≤ byte.toNat ∧ byte.toNat < 0xC0

/-- From the state, the bytes are read as one character, which is found at the last one. -/
inductive Reads : State → List UInt8 → Char → Prop
  | last {state : State} {byte : UInt8} {c : Char} (h : step state byte.toNat = ([c], .start)) : Reads state [byte] c
  | more {state : State} {byte next : UInt8} {bytes : List UInt8} {c : Char} {codePoint more lower upper : ℕ}
      (h : step state byte.toNat = ([], .inside codePoint more lower upper)) (hnext : Continuation next)
      (hrest : Reads (.inside codePoint more lower upper) (next :: bytes) c) : Reads state (byte :: next :: bytes) c

theorem step_inside {codePoint more lower upper byte : ℕ} (hlower : lower ≤ byte) (hupper : byte ≤ upper) :
    step (.inside codePoint more lower upper) byte = accept (codePoint * 64 + (byte - 0x80)) more :=
  if_pos ⟨hlower, hupper⟩

theorem toNat_byte {n : ℕ} (h : n < 256) : (UInt8.ofNat n).toNat = n := UInt8.toNat_ofNat_of_lt' h

theorem continuation_ofNat (n : ℕ) : Continuation (UInt8.ofNat (n % 64 + 0x80)) := by
  unfold Continuation
  rw [toNat_byte (by omega)]
  omega

/-- A byte after the first one of a character. -/
theorem reads_tail {codePoint lower upper n : ℕ} (hlower : lower ≤ n % 64 + 0x80) (hupper : n % 64 + 0x80 ≤ upper)
    {c : Char} (hc : codePoint * 64 + n % 64 = c.toNat) :
    Reads (.inside codePoint 0 lower upper) [UInt8.ofNat (n % 64 + 0x80)] c := by
  refine .last ?_
  rw [toNat_byte (by omega), step_inside hlower hupper, Nat.add_sub_cancel, hc]
  show ([Char.ofNat c.toNat], State.start) = _
  rw [Char.ofNat_toNat]

theorem reads_more {codePoint more lower upper n : ℕ} (hlower : lower ≤ n % 64 + 0x80)
    (hupper : n % 64 + 0x80 ≤ upper) {next : UInt8} {bytes : List UInt8} {c : Char} (hnext : Continuation next)
    (hrest : Reads (.inside (codePoint * 64 + n % 64) more 0x80 0xBF) (next :: bytes) c) :
    Reads (.inside codePoint (more + 1) lower upper) (UInt8.ofNat (n % 64 + 0x80) :: next :: bytes) c := by
  refine .more ?_ hnext hrest
  rw [toNat_byte (by omega), step_inside hlower hupper, Nat.add_sub_cancel]
  rfl

theorem first_two {n : ℕ} (h2 : 2 ≤ n) (h32 : n < 32) : first (n + 0xC0) = ([], .inside n 0 0x80 0xBF) := by
  unfold first
  rw [if_neg (by omega), if_pos (by omega), Nat.add_sub_cancel]

theorem first_three {n : ℕ} (h : n < 16) : first (n + 0xE0) =
    ([], .inside n 1 (if n = 0 then 0xA0 else 0x80) (if n = 0xD then 0x9F else 0xBF)) := by
  unfold first
  rw [if_neg (by omega), if_neg (by omega), if_pos (by omega), Nat.add_sub_cancel]
  simp

theorem first_four {n : ℕ} (h : n < 5) : first (n + 0xF0) =
    ([], .inside n 2 (if n = 0 then 0x90 else 0x80) (if n = 4 then 0x8F else 0xBF)) := by
  unfold first
  rw [if_neg (by omega), if_neg (by omega), if_neg (by omega), if_pos (by omega), Nat.add_sub_cancel]
  simp

/-- The bytes of a character by its code point. -/
theorem encodeChar_eq (c : Char) : String.utf8EncodeChar c =
    if c.toNat ≤ 0x7F then [UInt8.ofNat c.toNat]
    else if c.toNat ≤ 0x7FF then [UInt8.ofNat (c.toNat / 64 % 32 + 0xC0), UInt8.ofNat (c.toNat % 64 + 0x80)]
    else if c.toNat ≤ 0xFFFF then
      [UInt8.ofNat (c.toNat / 4096 % 16 + 0xE0), UInt8.ofNat (c.toNat / 64 % 64 + 0x80),
        UInt8.ofNat (c.toNat % 64 + 0x80)]
    else
      [UInt8.ofNat (c.toNat / 262144 % 8 + 0xF0), UInt8.ofNat (c.toNat / 4096 % 64 + 0x80),
        UInt8.ofNat (c.toNat / 64 % 64 + 0x80), UInt8.ofNat (c.toNat % 64 + 0x80)] := rfl

/-- An encoded character is read as that character. -/
theorem reads_encodeChar (c : Char) : Reads .start (String.utf8EncodeChar c) c := by
  have hvalid : c.toNat < 0xD800 ∨ 0xDFFF < c.toNat ∧ c.toNat < 0x110000 := c.valid
  rw [encodeChar_eq]
  split_ifs with h1 h2 h3
  · -- one byte
    refine .last ?_
    rw [toNat_byte (by omega)]
    show first c.toNat = _
    unfold first
    rw [if_pos (by omega), Char.ofNat_toNat]
  · -- two bytes
    have hfirst := first_two (n := c.toNat / 64 % 32) (by omega) (by omega)
    rw [← toNat_byte (n := c.toNat / 64 % 32 + 0xC0) (by omega)] at hfirst
    exact .more hfirst (continuation_ofNat _) (reads_tail (by omega) (by omega) (by omega))
  · -- three bytes
    have hfirst := first_three (n := c.toNat / 4096 % 16) (by omega)
    rw [← toNat_byte (n := c.toNat / 4096 % 16 + 0xE0) (by omega)] at hfirst
    refine .more hfirst (continuation_ofNat _)
      (reads_more ?_ ?_ (continuation_ofNat _) (reads_tail (by omega) (by omega) (by omega)))
    · split_ifs <;> omega
    · split_ifs <;> omega
  · -- four bytes
    have hfirst := first_four (n := c.toNat / 262144 % 8) (by omega)
    rw [← toNat_byte (n := c.toNat / 262144 % 8 + 0xF0) (by omega)] at hfirst
    refine .more hfirst (continuation_ofNat _)
      (reads_more ?_ ?_ (continuation_ofNat _)
        (reads_more (by omega) (by omega) (continuation_ofNat _) (reads_tail (by omega) (by omega) (by omega))))
    · split_ifs <;> omega
    · split_ifs <;> omega

/-! ## Decoding what was encoded -/

theorem Reads.decodeFrom_append {state : State} {bytes : List UInt8} {c : Char} (h : Reads state bytes c)
    (rest : List UInt8) : decodeFrom state (bytes ++ rest) = c :: decode rest := by
  induction h with
  | last h =>
    rw [List.singleton_append, decodeFrom_cons, h]
    rfl
  | more h _ _ ih => rw [List.cons_append, decodeFrom_cons, h, List.nil_append, ih]

/-- A character that breaks off. -/
theorem Reads.decodeFrom_initial {state : State} {bytes : List UInt8} {c : Char} (h : Reads state bytes c) :
    ∀ {pre suf : List UInt8}, pre ++ suf = bytes → pre ≠ [] → suf ≠ [] → decodeFrom state pre = [replacement] := by
  induction h with
  | last h =>
    intro pre suf happend hpre hsuf
    obtain ⟨_, rfl⟩ | ⟨_, rfl⟩ := List.append_eq_singleton_iff.mp happend
    all_goals contradiction
  | more h _ _ ih =>
    intro pre suf happend hpre hsuf
    cases pre with
    | nil => exact absurd rfl hpre
    | cons b pre =>
      obtain ⟨rfl, htail⟩ := List.cons.inj happend
      rw [decodeFrom_cons, h, List.nil_append]
      by_cases hnil : pre = []
      · rw [hnil]
        rfl
      · exact ih htail hnil hsuf

theorem Reads.continuation {state : State} {bytes : List UInt8} {c : Char} (h : Reads state bytes c) :
    ∀ byte ∈ bytes.tail, Continuation byte := by
  induction h with
  | last _ => exact fun byte hbyte => absurd hbyte List.not_mem_nil
  | more _ hnext _ ih =>
    intro byte hbyte
    rcases List.mem_cons.mp hbyte with rfl | hbyte
    · exact hnext
    · exact ih byte hbyte

/-- Encoded characters are decoded, whatever comes after them. -/
theorem decode_encode_append (text : List Char) (rest : List UInt8) :
    decode (encode text ++ rest) = text ++ decode rest := by
  induction text with
  | nil => rfl
  | cons c text ih =>
    rw [encode_cons, List.append_assoc, List.cons_append, ← ih]
    exact (reads_encodeChar c).decodeFrom_append _

theorem decode_encode (text : List Char) : decode (encode text) = text := by
  have h := decode_encode_append text []
  rw [List.append_nil] at h
  exact h.trans (List.append_nil text)

/-- A character that breaks off is one U+FFFD. -/
theorem decode_of_prefix {c : Char} {pre suf : List UInt8} (h : pre ++ suf = String.utf8EncodeChar c)
    (hpre : pre ≠ []) (hsuf : suf ≠ []) : decode pre = [replacement] :=
  (reads_encodeChar c).decodeFrom_initial h hpre hsuf

/-- What is left of a character that has begun. -/
theorem continuation_of_suffix {c : Char} {pre suf : List UInt8} (h : pre ++ suf = String.utf8EncodeChar c)
    (hpre : pre ≠ []) : ∀ byte ∈ suf, Continuation byte := by
  intro byte hbyte
  refine (reads_encodeChar c).continuation byte ?_
  rw [← h, List.tail_append_of_ne_nil hpre]
  exact List.mem_append_right _ hbyte

/-- Each such byte is one U+FFFD. -/
theorem decode_continuation_append {bytes : List UInt8} (h : ∀ byte ∈ bytes, Continuation byte) (rest : List UInt8) :
    decode (bytes ++ rest) = List.replicate bytes.length replacement ++ decode rest := by
  induction bytes with
  | nil => rfl
  | cons byte bytes ih =>
    obtain ⟨hbyte, hbytes⟩ := List.forall_mem_cons.mp h
    have hfirst : first byte.toNat = ([replacement], .start) := by
      unfold first
      unfold Continuation at hbyte
      rw [if_neg (by omega), if_neg (by omega), if_neg (by omega), if_neg (by omega)]
    rw [List.length_cons, List.replicate_succ, List.cons_append, List.cons_append, ← ih hbytes]
    show decodeFrom .start (byte :: (bytes ++ rest)) = _
    rw [decodeFrom_cons]
    show (first byte.toNat).1 ++ decodeFrom (first byte.toNat).2 _ = _
    rw [hfirst]
    rfl

/-- Between characters, something has been found. -/
theorem step_ne_nil {state : State} {byte : ℕ} (h : (step state byte).2 = .start) : (step state byte).1 ≠ [] := by
  have hfirst : (first byte).2 = .start → (first byte).1 ≠ [] := by
    unfold first
    split_ifs
    all_goals simp
  cases state with
  | start => exact hfirst h
  | inside codePoint more lower upper =>
    revert h
    rw [step]
    split_ifs
    · cases more <;> simp [accept]
    · simp

theorem eq_nil_of_decodeFrom {bytes : List UInt8} : ∀ {state : State}, decodeFrom state bytes = [] →
    state = .start ∧ bytes = [] := by
  induction bytes with
  | nil =>
    intro state h
    cases state with
    | start => exact ⟨rfl, rfl⟩
    | inside => cases h
  | cons byte bytes ih =>
    intro state h
    rw [decodeFrom_cons, List.append_eq_nil_iff] at h
    exact absurd h.1 (step_ne_nil (ih h.2).1)

/-- No byte is lost without a trace. -/
theorem decode_eq_nil_iff {bytes : List UInt8} : decode bytes = [] ↔ bytes = [] := by
  refine ⟨fun h => (eq_nil_of_decodeFrom h).2, ?_⟩
  rintro rfl
  rfl

/-! ## Chunks -/

/-- The first text with each of some characters replaced by two or more U+FFFD. -/
inductive Mangled : List Char → List Char → Prop
  | nil : Mangled [] []
  | kept (c : Char) {text read : List Char} (h : Mangled text read) : Mangled (c :: text) (c :: read)
  | split (c : Char) (n : ℕ) {text read : List Char} (h : Mangled text read) :
      Mangled (c :: text) (List.replicate (n + 2) replacement ++ read)

theorem Mangled.length_le {text read : List Char} (h : Mangled text read) : text.length ≤ read.length := by
  induction h with
  | nil => exact Nat.le_refl 0
  | kept c _ ih => exact Nat.succ_le_succ ih
  | split c n _ ih =>
    rw [List.length_cons, List.length_append, List.length_replicate]
    omega

theorem Mangled.append_left (text : List Char) {rest read : List Char} (h : Mangled rest read) :
    Mangled (text ++ rest) (text ++ read) := by
  induction text with
  | nil => exact h
  | cons c text ih => exact .kept c ih

/-- A text that is mangled has more of the U+FFFD. -/
theorem Mangled.count_lt {text read : List Char} (h : Mangled text read) :
    text = read ∨ text.count replacement < read.count replacement := by
  induction h with
  | nil => exact .inl rfl
  | kept c _ ih =>
    rcases ih with rfl | hlt
    · exact .inl rfl
    · rw [List.count_cons, List.count_cons]
      exact .inr (Nat.add_lt_add_right hlt _)
  | @split c n text read _ ih =>
    have hle : text.count replacement ≤ read.count replacement := by
      rcases ih with rfl | hlt
      · exact Nat.le_refl _
      · exact Nat.le_of_lt hlt
    have hcons : (c :: text).count replacement ≤ text.count replacement + 1 := by
      rw [List.count_cons]
      split_ifs <;> omega
    rw [List.count_append, List.count_replicate_self]
    exact .inr (by omega)

/-- A part of an encoded text ends after a character, or in one. -/
theorem append_eq_encode {bytes rest : List UInt8} : ∀ {text : List Char}, bytes ++ rest = encode text →
    ∃ before after, text = before ++ after ∧
      (bytes = encode before ∧ rest = encode after ∨
        ∃ c text' pre suf, after = c :: text' ∧ pre ++ suf = String.utf8EncodeChar c ∧ pre ≠ [] ∧ suf ≠ [] ∧
          bytes = encode before ++ pre ∧ rest = suf ++ encode text') := by
  intro text
  induction text generalizing bytes with
  | nil =>
    intro h
    obtain ⟨rfl, rfl⟩ := List.append_eq_nil_iff.mp h
    exact ⟨[], [], rfl, .inl ⟨rfl, rfl⟩⟩
  | cons c text ih =>
    intro h
    rcases List.append_eq_append_iff.mp h with ⟨suf, hc, hrest⟩ | ⟨bytes', hbytes, htext⟩
    · by_cases hpre : bytes = []
      · subst hpre
        exact ⟨[], c :: text, rfl, .inl ⟨rfl, h⟩⟩
      · by_cases hsuf : suf = []
        · subst hsuf
          refine ⟨[c], text, rfl, .inl ⟨?_, hrest⟩⟩
          rw [encode_cons, encode_nil, hc, List.append_nil, List.append_nil]
        · exact ⟨[], c :: text, rfl, .inr ⟨c, text, bytes, suf, rfl, hc.symm, hpre, hsuf, rfl, hrest⟩⟩
    · obtain ⟨before, after, rfl, hsplit⟩ := ih htext.symm
      refine ⟨c :: before, after, rfl, ?_⟩
      rcases hsplit with ⟨rfl, hrest⟩ | ⟨c', text', pre, suf, hafter, hc', hpre, hsuf, rfl, hrest⟩
      · exact .inl ⟨hbytes, hrest⟩
      · refine .inr ⟨c', text', pre, suf, hafter, hc', hpre, hsuf, ?_, hrest⟩
        rw [hbytes, encode_cons, List.append_assoc]

theorem decodeChunks_cons (chunk : List UInt8) (chunks : List (List UInt8)) :
    decodeChunks (chunk :: chunks) = decode chunk ++ decodeChunks chunks := rfl

/-- What the chunks give when a character has begun before them, of which `begun` is left. -/
theorem decodeChunks_begun {chunks : List (List UInt8)} : ∀ {begun : List UInt8} {text : List Char},
    (∀ byte ∈ begun, Continuation byte) → chunks.flatten = begun ++ encode text →
      ∃ read, decodeChunks chunks = List.replicate begun.length replacement ++ read ∧ Mangled text read ∧
        (begun = [] → read = text → Aligned chunks) := by
  induction chunks with
  | nil =>
    intro begun text _ h
    obtain ⟨rfl, htext⟩ := List.append_eq_nil_iff.mp h.symm
    have hnil : text = [] := by
      rw [← decode_encode text, htext]
      rfl
    subst hnil
    exact ⟨[], rfl, .nil, fun _ _ => ⟨[], rfl⟩⟩
  | cons chunk chunks ih =>
    intro begun text hbegun h
    rw [List.flatten_cons] at h
    rcases List.append_eq_append_iff.mp h with ⟨begun', hsplit, hrest⟩ | ⟨bytes, rfl, hbytes⟩
    · -- the chunk ends before the character does
      obtain ⟨read, hread, hmangled, haligned⟩ := ih (fun byte hbyte => hbegun byte (by
        rw [hsplit]
        exact List.mem_append_right _ hbyte)) hrest
      have hchunk : decode chunk = List.replicate chunk.length replacement := by
        have h := decode_continuation_append (fun byte hbyte => hbegun byte (by
          rw [hsplit]
          exact List.mem_append_left _ hbyte)) []
        rw [List.append_nil] at h
        exact h.trans (List.append_nil _)
      refine ⟨read, ?_, hmangled, fun hnil hsame => ?_⟩
      · rw [decodeChunks_cons, hchunk, hread, hsplit, List.length_append, ← List.replicate_append_replicate, List.append_assoc]
      · obtain ⟨rfl, rfl⟩ := List.append_eq_nil_iff.mp (hsplit.symm.trans hnil)
        obtain ⟨texts, rfl⟩ := haligned rfl hsame
        exact ⟨[] :: texts, rfl⟩
    · obtain ⟨before, after, rfl, hsplit⟩ := append_eq_encode hbytes.symm
      rcases hsplit with ⟨rfl, hrest⟩ | ⟨c, text', pre, suf, rfl, hc, hpre, hsuf, rfl, hrest⟩
      · -- it ends after a character
        obtain ⟨read, hread, hmangled, haligned⟩ := @ih [] after (fun byte hbyte => absurd hbyte List.not_mem_nil) hrest
        refine ⟨before ++ read, ?_, hmangled.append_left before, ?_⟩
        · have hbefore := decode_encode before
          rw [decodeChunks_cons, decode_continuation_append hbegun, hbefore, hread, List.append_assoc]
          rfl
        · rintro rfl hsame
          obtain ⟨texts, rfl⟩ := haligned rfl (List.append_cancel_left hsame)
          exact ⟨before :: texts, rfl⟩
      · -- it ends in the character `c`
        obtain ⟨read, hread, hmangled, _⟩ := ih (continuation_of_suffix hc hpre) hrest
        obtain ⟨n, hn⟩ : ∃ n, suf.length = n + 1 := Nat.exists_eq_add_one.mpr (List.length_pos_iff.mpr hsuf)
        refine ⟨before ++ (List.replicate (n + 2) replacement ++ read), ?_, (hmangled.split c n).append_left before,
          fun _ hsame => ?_⟩
        · have hpieces : [replacement] ++ List.replicate (n + 1) replacement = List.replicate (n + 2) replacement := rfl
          rw [decodeChunks_cons, decode_continuation_append hbegun, decode_encode_append, decode_of_prefix hc hpre hsuf,
            hread, hn, ← hpieces]
          simp only [List.append_assoc]
        · -- it has become longer
          have hlength := congrArg List.length (List.append_cancel_left hsame)
          rw [List.length_append, List.length_replicate, List.length_cons] at hlength
          have hle := hmangled.length_le
          omega

/-- **Main**: the chunks of an encoded text give that text with each character that is split
    between chunks replaced by two or more U+FFFD. -/
theorem decodeChunks_mangled {chunks : List (List UInt8)} {text : List Char} (h : chunks.flatten = encode text) :
    Mangled text (decodeChunks chunks) := by
  obtain ⟨read, hread, hmangled, _⟩ := @decodeChunks_begun chunks [] text
    (fun byte hbyte => absurd hbyte List.not_mem_nil) h
  rw [hread]
  exact hmangled

theorem decodeChunks_aligned (texts : List (List Char)) : decodeChunks (texts.map encode) = texts.flatten := by
  induction texts with
  | nil => rfl
  | cons text texts ih =>
    rw [List.map_cons, decodeChunks_cons, decode_encode, ih]
    rfl

theorem encode_flatten (texts : List (List Char)) : (texts.map encode).flatten = encode texts.flatten := by
  induction texts with
  | nil => rfl
  | cons text texts ih => rw [List.map_cons, List.flatten_cons, ih, List.flatten_cons, encode_append]

theorem encode_injective {text text' : List Char} (h : encode text = encode text') : text = text' := by
  rw [← decode_encode text, h, decode_encode]

/-- **Main**: the chunks of an encoded text give the text itself iff no character is split. -/
theorem decodeChunks_eq_iff {chunks : List (List UInt8)} {text : List Char} (h : chunks.flatten = encode text) :
    decodeChunks chunks = text ↔ Aligned chunks := by
  constructor
  · intro hsame
    obtain ⟨read, hread, _, haligned⟩ := @decodeChunks_begun chunks [] text
      (fun byte hbyte => absurd hbyte List.not_mem_nil) h
    exact haligned rfl (hread.symm.trans hsame)
  · rintro ⟨texts, rfl⟩
    rw [decodeChunks_aligned]
    exact encode_injective ((encode_flatten texts).symm.trans h)

end Lib.Utf8
