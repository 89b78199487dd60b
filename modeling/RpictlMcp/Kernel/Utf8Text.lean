import RpictlMcp.Kernel.Utf8Lossy

/-!
# rpictl-mcp kernel: well-formed text and its parts

The encoding of a list of characters is well-formed, and a well-formed text in
front of another one changes nothing about the well-formedness of the other.  A
well-formed text may be cut wherever the next byte does not continue a
character: exactly there, both parts of it are well-formed.
-/

namespace RpictlMcp

section Utf8Text

/-- Whether each byte continues the open character or begins a new one. -/
def acceptsBytes : Option Partial → List UInt8 → Bool
  | _, [] => true
  | open?, x :: bytes =>
      acceptsByte open? x && acceptsBytes (decodeByte open? x).2 bytes

/-- The character that is open behind some bytes. -/
def openAfter (open? : Option Partial) (bytes : List UInt8) : Option Partial :=
  bytes.foldl (fun open? x => (decodeByte open? x).2) open?

/-- A byte that can only continue a character. -/
def isContinuation (x : UInt8) : Bool :=
  0x80 ≤ x && x ≤ 0xBF

/-- `str::is_char_boundary`: no byte that continues a character follows. -/
def AtBoundary (text : List UInt8) (n : Nat) : Prop :=
  ∀ x ∈ text[n]?, isContinuation x = false

variable {open? : Option Partial} {front back text bytes : List UInt8}
variable {x y z v : UInt8}

theorem isUtf8From_cons :
    isUtf8From open? (x :: bytes) =
      (acceptsByte open? x && isUtf8From (decodeByte open? x).2 bytes) := by
  cases open? <;> rfl

theorem isUtf8From_append :
    isUtf8From open? (front ++ back) =
      (acceptsBytes open? front &&
        isUtf8From (openAfter open? front) back) := by
  induction front generalizing open? with
  | nil =>
      rw [List.nil_append, acceptsBytes, Bool.true_and]
      rfl
  | cons x front ih =>
      rw [List.cons_append, isUtf8From_cons, ih, acceptsBytes, Bool.and_assoc]
      rfl

theorem isUtf8From_nil_iff : isUtf8From open? [] = true ↔ open? = none := by
  cases open? <;> simp [isUtf8From]

/-- A part is well-formed if all its bytes are accepted and none is missing. -/
theorem isUtf8_iff :
    isUtf8 bytes = true ↔
      acceptsBytes none bytes = true ∧ openAfter none bytes = none := by
  have happend := @isUtf8From_append none bytes []
  rw [List.append_nil] at happend
  rw [isUtf8, happend, Bool.and_eq_true, isUtf8From_nil_iff]

/-- Well-formed text in front does not matter. -/
theorem isUtf8_append (h : isUtf8 front = true) :
    isUtf8 (front ++ back) = isUtf8 back := by
  obtain ⟨haccepts, hopen⟩ := isUtf8_iff.mp h
  rw [isUtf8, isUtf8From_append, haccepts, hopen, Bool.true_and, isUtf8]

theorem isUtf8_flatMap {α : Type} {f : α → List UInt8} {items : List α}
    (h : ∀ a ∈ items, isUtf8 (f a) = true) :
    isUtf8 (items.flatMap f) = true := by
  induction items with
  | nil => rfl
  | cons a items ih =>
      rw [List.flatMap_cons, isUtf8_append (h a List.mem_cons_self)]
      exact ih fun b hb => h b (List.mem_cons_of_mem a hb)

/-! ## Encoded characters -/

theorem isUtf8_one (hx : x < 0x80) : isUtf8 [x] = true := by
  simp [isUtf8, isUtf8From, acceptsByte, leadByte_ascii hx, decodeByte,
    replacementCharacter]

theorem isUtf8_two (hx : 0xC2 ≤ x ∧ x ≤ 0xDF) (hy : 0x80 ≤ y ∧ y ≤ 0xBF) :
    isUtf8 [x, y] = true := by
  have hascii : ¬x < 0x80 := by
    rw [UInt8.not_lt]
    exact UInt8.le_trans (by decide) hx.1
  have hlead : leadByte x = ([], some ⟨[x], 1, 0x80, 0xBF, by decide⟩) := by
    rw [leadByte, if_neg hascii, if_pos hx]
  simp [isUtf8, isUtf8From, acceptsByte, decodeByte, hlead, hy,
    replacementCharacter]

/-- Three bytes that are neither overlong nor a surrogate. -/
theorem isUtf8_three (hx : 0xE0 ≤ x ∧ x ≤ 0xEF) (hy : 0x80 ≤ y ∧ y ≤ 0xBF)
    (hz : 0x80 ≤ z ∧ z ≤ 0xBF) (hleast : x = 0xE0 → 0xA0 ≤ y)
    (hgreatest : x = 0xED → y ≤ 0x9F) : isUtf8 [x, y, z] = true := by
  have hlead : ∃ least greatest hascii,
      leadByte x = ([], some ⟨[x], 2, least, greatest, hascii⟩) ∧
        least ≤ y ∧ y ≤ greatest := by
    by_cases hfirst : x = 0xE0
    · subst hfirst
      exact ⟨_, _, _, rfl, hleast rfl, hy.2⟩
    · by_cases hsurrogate : x = 0xED
      · subst hsurrogate
        exact ⟨_, _, _, rfl, hy.1, hgreatest rfl⟩
      · refine ⟨0x80, 0xBF, by decide, ?_, hy⟩
        simp only [UInt8.le_iff_toNat_le, ← UInt8.toNat_inj] at hx hfirst
        simp only [UInt8.reduceToNat] at hx hfirst
        unfold leadByte
        rw [if_neg, if_neg, if_neg, if_neg hsurrogate, if_pos]
        all_goals
          simp only [UInt8.le_iff_toNat_le, UInt8.lt_iff_toNat_lt,
            ← UInt8.toNat_inj, UInt8.reduceToNat]
          omega
  obtain ⟨least, greatest, hascii, hlead, hy⟩ := hlead
  simp [isUtf8, isUtf8From, acceptsByte, decodeByte, hlead, hy, hz,
    replacementCharacter]

/-- Four bytes that are neither overlong nor beyond the last code point. -/
theorem isUtf8_four (hx : 0xF0 ≤ x ∧ x ≤ 0xF4) (hy : 0x80 ≤ y ∧ y ≤ 0xBF)
    (hz : 0x80 ≤ z ∧ z ≤ 0xBF) (hv : 0x80 ≤ v ∧ v ≤ 0xBF)
    (hleast : x = 0xF0 → 0x90 ≤ y) (hgreatest : x = 0xF4 → y ≤ 0x8F) :
    isUtf8 [x, y, z, v] = true := by
  have hlead : ∃ least greatest hascii,
      leadByte x = ([], some ⟨[x], 3, least, greatest, hascii⟩) ∧
        least ≤ y ∧ y ≤ greatest := by
    by_cases hfirst : x = 0xF0
    · subst hfirst
      exact ⟨_, _, _, rfl, hleast rfl, hy.2⟩
    · by_cases hlast : x = 0xF4
      · subst hlast
        exact ⟨_, _, _, rfl, hy.1, hgreatest rfl⟩
      · refine ⟨0x80, 0xBF, by decide, ?_, hy⟩
        simp only [UInt8.le_iff_toNat_le, ← UInt8.toNat_inj] at hx hfirst hlast
        simp only [UInt8.reduceToNat] at hx hfirst hlast
        unfold leadByte
        rw [if_neg, if_neg, if_neg, if_neg, if_neg, if_neg, if_neg, if_pos]
        all_goals
          simp only [UInt8.le_iff_toNat_le, UInt8.lt_iff_toNat_lt,
            ← UInt8.toNat_inj, UInt8.reduceToNat]
          omega
  obtain ⟨least, greatest, hascii, hlead, hy⟩ := hlead
  simp [isUtf8, isUtf8From, acceptsByte, decodeByte, hlead, hy, hz, hv,
    replacementCharacter]

/-- The encoding of a character is well-formed. -/
theorem isUtf8_utf8EncodeChar (c : Char) :
    isUtf8 (String.utf8EncodeChar c) = true := by
  have hscalar : c.val.toNat < 0xD800 ∨
      0xDFFF < c.val.toNat ∧ c.val.toNat < 0x110000 := c.valid
  unfold String.utf8EncodeChar
  generalize c.val.toNat = n at hscalar
  dsimp only
  split_ifs
  · refine isUtf8_one ?_
    simp only [UInt8.lt_iff_toNat_lt, UInt8.reduceToNat, UInt8.toNat_ofNat']
    omega
  · apply isUtf8_two <;>
      simp only [UInt8.le_iff_toNat_le, UInt8.reduceToNat,
        UInt8.toNat_ofNat'] <;>
      omega
  · apply isUtf8_three <;>
      simp only [UInt8.le_iff_toNat_le, ← UInt8.toNat_inj, UInt8.reduceToNat,
        UInt8.toNat_ofNat'] <;>
      omega
  · apply isUtf8_four <;>
      simp only [UInt8.le_iff_toNat_le, ← UInt8.toNat_inj, UInt8.reduceToNat,
        UInt8.toNat_ofNat'] <;>
      omega

/-- An ASCII byte in the encoding of a character is that character. -/
theorem toNat_of_mem_utf8EncodeChar {c : Char}
    (hmem : x ∈ String.utf8EncodeChar c) (hascii : x < 0x80) :
    x.toNat = c.toNat := by
  have hscalar : c.val.toNat < 0xD800 ∨
      0xDFFF < c.val.toNat ∧ c.val.toNat < 0x110000 := c.valid
  have hcode : c.toNat = c.val.toNat := rfl
  rw [UInt8.lt_iff_toNat_lt] at hascii
  unfold String.utf8EncodeChar at hmem
  rw [hcode]
  generalize c.val.toNat = n at hscalar hmem
  dsimp only at hmem
  split_ifs at hmem <;>
    simp only [List.mem_cons, List.not_mem_nil, or_false,
      ← UInt8.toNat_inj, UInt8.toNat_ofNat', UInt8.reduceToNat]
      at hmem hascii <;>
    omega

/-- The encoding of a text is well-formed. -/
theorem isUtf8_encode (chars : List Char) :
    isUtf8 (chars.flatMap String.utf8EncodeChar) = true :=
  isUtf8_flatMap fun c _ => isUtf8_utf8EncodeChar c

/-! ## Cuts between characters -/

/-- The bytes that may come next can only continue the open character. -/
def Partial.Continues (char : Partial) : Prop :=
  char.greatest ≤ 0xBF

theorem leadByte_continues (x : UInt8) :
    ∀ char ∈ (leadByte x).2, char.Continues := by
  unfold leadByte
  split_ifs <;> simp [Partial.Continues]

theorem decodeByte_continues (hopen : ∀ char ∈ open?, char.Continues) :
    ∀ char ∈ (decodeByte open? x).2, char.Continues := by
  cases open? with
  | none => exact leadByte_continues x
  | some char =>
      unfold decodeByte
      dsimp only
      split_ifs
      · simp
      · simp [Partial.Continues]
      · exact leadByte_continues x

theorem openAfter_continues (hopen : ∀ char ∈ open?, char.Continues) :
    ∀ char ∈ openAfter open? bytes, char.Continues := by
  induction bytes generalizing open? with
  | nil => exact hopen
  | cons x bytes ih => exact ih (decodeByte_continues hopen)

theorem leadByte_of_continuation (h : isContinuation x = true) :
    (leadByte x).1 = replacementCharacter := by
  unfold leadByte
  simp only [isContinuation, Bool.and_eq_true, decide_eq_true_eq,
    UInt8.le_iff_toNat_le, UInt8.lt_iff_toNat_lt, ← UInt8.toNat_inj,
    UInt8.reduceToNat] at h ⊢
  split_ifs <;> first | rfl | omega

/-- A byte that is accepted continues a character exactly if one is open. -/
theorem isContinuation_of_accepts (hopen : ∀ char ∈ open?, char.Continues)
    (haccepts : acceptsByte open? x = true) :
    isContinuation x = open?.isSome := by
  cases open? with
  | none =>
      have hlead : (leadByte x).1 ≠ replacementCharacter :=
        of_decide_eq_true haccepts
      rw [Option.isSome_none, Bool.eq_false_iff]
      exact fun h => hlead (leadByte_of_continuation h)
  | some char =>
      have hleast := char.not_ascii
      have hgreatest := hopen char rfl
      simp only [acceptsByte, Bool.and_eq_true, decide_eq_true_eq] at haccepts
      simp only [isContinuation, Option.isSome_some, Bool.and_eq_true,
        decide_eq_true_eq]
      exact ⟨UInt8.le_trans hleast haccepts.1,
        UInt8.le_trans haccepts.2 hgreatest⟩

/-- What stands in front of a cut is well-formed exactly if the cut is made
between two characters. -/
theorem isUtf8_take_iff (h : isUtf8 text = true) (n : Nat) :
    isUtf8 (text.take n) = true ↔ AtBoundary text n := by
  have hsplit := @isUtf8From_append none (text.take n) (text.drop n)
  rw [List.take_append_drop, ← isUtf8, h, eq_comm, Bool.and_eq_true] at hsplit
  obtain ⟨haccepts, hrest⟩ := hsplit
  have hcontinues : ∀ char ∈ openAfter none (text.take n), char.Continues :=
    openAfter_continues nofun
  rw [isUtf8_iff, AtBoundary, ← List.head?_drop]
  cases hdrop : text.drop n with
  | nil =>
      rw [hdrop, isUtf8From_nil_iff] at hrest
      simp [haccepts, hrest]
  | cons x rest =>
      rw [hdrop, isUtf8From_cons, Bool.and_eq_true] at hrest
      have hx := isContinuation_of_accepts hcontinues hrest.1
      simp [haccepts, hx]

theorem atBoundary_zero (h : isUtf8 text = true) : AtBoundary text 0 :=
  (isUtf8_take_iff h 0).mp rfl

/-! ## Texts in parts -/

/-- The parts of a text between one cut and the next. -/
def slices (text : List UInt8) : Nat → List Nat → List (List UInt8)
  | _, [] => []
  | start, stop :: stops =>
      (text.take stop).drop start :: slices text stop stops

variable {start stop : Nat} {stops : List Nat}

theorem take_append_slice (h : start ≤ stop) :
    text.take start ++ (text.take stop).drop start = text.take stop := by
  have hfront : (text.take stop).take start = text.take start := by
    rw [List.take_take, Nat.min_eq_left h]
  rw [← hfront, List.take_append_drop]

/-- The parts make up the text up to the last cut. -/
theorem flatten_slices (h : (start :: stops).IsChain (· ≤ ·)) :
    text.take start ++ (slices text start stops).flatten =
      text.take (stops.getLastD start) := by
  induction stops generalizing start with
  | nil => simp [slices]
  | cons stop stops ih =>
      rw [List.isChain_cons_cons] at h
      rw [slices, List.flatten_cons, ← List.append_assoc,
        take_append_slice h.1, ih h.2, List.getLastD_cons]

/-- The parts of a well-formed text are well-formed exactly if it is cut between
characters. -/
theorem isUtf8_slices_iff (h : isUtf8 text = true)
    (hstart : AtBoundary text start)
    (hstops : (start :: stops).IsChain (· ≤ ·)) :
    (∀ part ∈ slices text start stops, isUtf8 part = true) ↔
      ∀ stop ∈ stops, AtBoundary text stop := by
  induction stops generalizing start with
  | nil => simp [slices]
  | cons stop stops ih =>
      rw [List.isChain_cons_cons] at hstops
      have hpart : isUtf8 ((text.take stop).drop start) = true ↔
          AtBoundary text stop := by
        rw [← isUtf8_append ((isUtf8_take_iff h start).mpr hstart),
          take_append_slice hstops.1, isUtf8_take_iff h]
      rw [slices, List.forall_mem_cons, List.forall_mem_cons, hpart]
      exact and_congr_right fun hstop => ih hstop hstops.2

end Utf8Text

end RpictlMcp
