import Mathlib.Data.List.Basic

/-!
# rpictl-mcp kernel: lossy decoding of UTF-8

`fromUtf8Lossy` is the standard library's `String::from_utf8_lossy`: it keeps the
well-formed characters of a byte string and puts one replacement character for
each maximal beginning of a character that is not continued as it must be, and
for each byte that cannot begin one.  Both its argument and its result are
bytes, the result being the UTF-8 encoding of the decoded text.

The decoder reads byte by byte.  `Partial` is a character of which some bytes
are still missing; the byte ranges are those of well-formed UTF-8, so overlong
forms, surrogates and values beyond the last code point never begin.
-/

namespace RpictlMcp

section Utf8Lossy

/-- A character with bytes missing: the next one must lie in a range. -/
structure Partial where
  seen : List UInt8
  missing : Nat
  least : UInt8
  greatest : UInt8
  not_ascii : 0x80 ≤ least
deriving DecidableEq, Repr

/-- The UTF-8 encoding of the replacement character. -/
def replacementCharacter : List UInt8 :=
  [0xEF, 0xBF, 0xBD]

/-- What the first byte of a character yields, and what it leaves open. -/
def leadByte (x : UInt8) : List UInt8 × Option Partial :=
  if x < 0x80 then ([x], none)
  else if 0xC2 ≤ x ∧ x ≤ 0xDF then ([], some ⟨[x], 1, 0x80, 0xBF, by decide⟩)
  else if x = 0xE0 then ([], some ⟨[x], 2, 0xA0, 0xBF, by decide⟩)
  else if x = 0xED then ([], some ⟨[x], 2, 0x80, 0x9F, by decide⟩)
  else if 0xE1 ≤ x ∧ x ≤ 0xEF then ([], some ⟨[x], 2, 0x80, 0xBF, by decide⟩)
  else if x = 0xF0 then ([], some ⟨[x], 3, 0x90, 0xBF, by decide⟩)
  else if x = 0xF4 then ([], some ⟨[x], 3, 0x80, 0x8F, by decide⟩)
  else if 0xF1 ≤ x ∧ x ≤ 0xF3 then ([], some ⟨[x], 3, 0x80, 0xBF, by decide⟩)
  else (replacementCharacter, none)

/-- One byte: it continues the open character or begins a new one. -/
def decodeByte (open? : Option Partial) (x : UInt8) :
    List UInt8 × Option Partial :=
  match open? with
  | none => leadByte x
  | some char =>
      if char.least ≤ x ∧ x ≤ char.greatest then
        if char.missing = 1 then (char.seen ++ [x], none)
        else
          ([], some ⟨char.seen ++ [x], char.missing - 1, 0x80, 0xBF, by decide⟩)
      else
        (replacementCharacter ++ (leadByte x).1, (leadByte x).2)

/-- Decoding from a character that may be open. -/
def decodeFrom : Option Partial → List UInt8 → List UInt8
  | none, [] => []
  | some _, [] => replacementCharacter
  | open?, x :: bytes =>
      (decodeByte open? x).1 ++ decodeFrom (decodeByte open? x).2 bytes

/-- `String::from_utf8_lossy`. -/
def fromUtf8Lossy (bytes : List UInt8) : List UInt8 :=
  decodeFrom none bytes

/-- Whether a byte continues the open character or begins a new one. -/
def acceptsByte (open? : Option Partial) (x : UInt8) : Bool :=
  match open? with
  | none => (leadByte x).1 ≠ replacementCharacter
  | some char => char.least ≤ x && x ≤ char.greatest

/-- Well-formedness from a character that may be open. -/
def isUtf8From : Option Partial → List UInt8 → Bool
  | none, [] => true
  | some _, [] => false
  | open?, x :: bytes =>
      acceptsByte open? x && isUtf8From (decodeByte open? x).2 bytes

/-- Whether `str::from_utf8` accepts a byte string. -/
def isUtf8 (bytes : List UInt8) : Bool :=
  isUtf8From none bytes

/-- The bytes below 128, each of which is a character. -/
def IsAscii (bytes : List UInt8) : Prop :=
  ∀ x ∈ bytes, x < 0x80

theorem isAscii_of_all {bytes : List UInt8}
    (h : bytes.all (· < 0x80) = true) : IsAscii bytes := by
  intro x hx
  simpa using List.all_eq_true.mp h x hx

theorem decodeFrom_cons (open? : Option Partial) (x : UInt8)
    (bytes : List UInt8) :
    decodeFrom open? (x :: bytes) =
      (decodeByte open? x).1 ++ decodeFrom (decodeByte open? x).2 bytes := by
  cases open? <;> rfl

theorem leadByte_ascii {x : UInt8} (hx : x < 0x80) :
    leadByte x = ([x], none) :=
  if_pos hx

/-- The decoder passes ASCII bytes through. -/
theorem fromUtf8Lossy_ascii {bytes : List UInt8} (h : IsAscii bytes) :
    fromUtf8Lossy bytes = bytes := by
  induction bytes with
  | nil => rfl
  | cons x bytes ih =>
      have hx : x < 0x80 := h x List.mem_cons_self
      have hrest : IsAscii bytes := fun y hy => h y (List.mem_cons_of_mem _ hy)
      rw [fromUtf8Lossy, decodeFrom_cons, decodeByte, leadByte_ascii hx]
      exact congrArg (x :: ·) (ih hrest)

/-- An ASCII byte ends whatever was open before it. -/
theorem decodeFrom_append_ascii (open? : Option Partial) (front : List UInt8)
    {x : UInt8} (hx : x < 0x80) (back : List UInt8) :
    decodeFrom open? (front ++ x :: back) =
      decodeFrom open? front ++ x :: fromUtf8Lossy back := by
  induction front generalizing open? with
  | nil =>
      rw [List.nil_append, decodeFrom_cons]
      cases open? with
      | none =>
          simp [decodeByte, leadByte_ascii hx, decodeFrom, fromUtf8Lossy]
      | some char =>
          have hleast : ¬ char.least ≤ x := fun hle =>
            absurd hx (UInt8.not_lt.mpr (UInt8.le_trans char.not_ascii hle))
          simp [decodeByte, hleast, leadByte_ascii hx, decodeFrom,
            fromUtf8Lossy]
  | cons y front ih =>
      rw [List.cons_append, decodeFrom_cons, decodeFrom_cons, ih,
        List.append_assoc]

/-- What stands behind an ASCII byte is decoded on its own. -/
theorem fromUtf8Lossy_append_ascii (front : List UInt8) {x : UInt8}
    (hx : x < 0x80) (back : List UInt8) :
    fromUtf8Lossy (front ++ x :: back) =
      fromUtf8Lossy front ++ x :: fromUtf8Lossy back :=
  decodeFrom_append_ascii none front hx back

/-- The bytes of the character that is open. -/
def openBytes : Option Partial → List UInt8
  | none => []
  | some char => char.seen

theorem leadByte_bytes {x : UInt8} (hx : (leadByte x).1 ≠ replacementCharacter) :
    (leadByte x).1 ++ openBytes (leadByte x).2 = [x] := by
  unfold leadByte at hx ⊢
  split_ifs at hx ⊢ <;> first | rfl | exact absurd rfl hx

theorem decodeByte_bytes {open? : Option Partial} {x : UInt8}
    (hx : acceptsByte open? x = true) :
    (decodeByte open? x).1 ++ openBytes (decodeByte open? x).2 =
      openBytes open? ++ [x] := by
  cases open? with
  | none => exact leadByte_bytes (of_decide_eq_true hx)
  | some char =>
      simp only [acceptsByte, Bool.and_eq_true, decide_eq_true_eq] at hx
      unfold decodeByte
      dsimp only
      rw [if_pos hx]
      split_ifs <;> simp [openBytes]

theorem decodeFrom_of_isUtf8From {open? : Option Partial}
    {bytes : List UInt8} (h : isUtf8From open? bytes = true) :
    decodeFrom open? bytes = openBytes open? ++ bytes := by
  induction bytes generalizing open? with
  | nil =>
      cases open? with
      | none => rfl
      | some char => cases h
  | cons x bytes ih =>
      have hstep : acceptsByte open? x = true ∧
          isUtf8From (decodeByte open? x).2 bytes = true := by
        cases open? <;> exact Bool.and_eq_true_iff.mp h
      rw [decodeFrom_cons, ih hstep.2, ← List.append_assoc,
        decodeByte_bytes hstep.1, List.append_assoc, List.singleton_append]

/-- Well-formed text is decoded as it stands. -/
theorem fromUtf8Lossy_of_isUtf8 {bytes : List UInt8}
    (h : isUtf8 bytes = true) : fromUtf8Lossy bytes = bytes :=
  decodeFrom_of_isUtf8From h

theorem mem_leadByte {x y : UInt8}
    (hy : y ∈ (leadByte x).1 ++ openBytes (leadByte x).2) :
    y = x ∨ y ∈ replacementCharacter := by
  by_cases hx : (leadByte x).1 = replacementCharacter
  · have hopen : openBytes (leadByte x).2 = [] := by
      unfold leadByte at hx ⊢
      split_ifs at hx ⊢ <;> first | rfl | cases hx
    rw [hx, hopen, List.append_nil] at hy
    exact .inr hy
  · rw [leadByte_bytes hx] at hy
    exact .inl (List.mem_singleton.mp hy)

theorem mem_decodeByte {open? : Option Partial} {x y : UInt8}
    (hy : y ∈ (decodeByte open? x).1 ++ openBytes (decodeByte open? x).2) :
    y ∈ openBytes open? ∨ y = x ∨ y ∈ replacementCharacter := by
  cases open? with
  | none => exact .inr (mem_leadByte hy)
  | some char =>
      by_cases hx : char.least ≤ x ∧ x ≤ char.greatest
      · have haccepts : acceptsByte (some char) x = true := by
          simpa [acceptsByte] using hx
        rw [decodeByte_bytes haccepts] at hy
        rcases List.mem_append.mp hy with hseen | hlast
        · exact .inl hseen
        · exact .inr (.inl (List.mem_singleton.mp hlast))
      · have hbyte : decodeByte (some char) x =
            (replacementCharacter ++ (leadByte x).1, (leadByte x).2) :=
          if_neg hx
        rw [hbyte, List.append_assoc] at hy
        rcases List.mem_append.mp hy with hreplaced | hlead
        · exact .inr (.inr hreplaced)
        · exact .inr (mem_leadByte hlead)

theorem mem_decodeFrom {open? : Option Partial} {bytes : List UInt8}
    {y : UInt8} (hy : y ∈ decodeFrom open? bytes) :
    y ∈ openBytes open? ∨ y ∈ bytes ∨ y ∈ replacementCharacter := by
  induction bytes generalizing open? with
  | nil =>
      cases open? with
      | none => cases hy
      | some char => exact .inr (.inr hy)
  | cons x bytes ih =>
      rw [decodeFrom_cons] at hy
      have hbyte : y ∈ (decodeByte open? x).1 ++
          openBytes (decodeByte open? x).2 ∨ y ∈ bytes ∨
            y ∈ replacementCharacter := by
        rcases List.mem_append.mp hy with hnow | hlater
        · exact .inl (List.mem_append_left _ hnow)
        · rcases ih hlater with hopen | hrest
          · exact .inl (List.mem_append_right _ hopen)
          · exact .inr hrest
      rcases hbyte with hnow | hrest | hreplaced
      · rcases mem_decodeByte hnow with hopen | rfl | hreplaced
        · exact .inl hopen
        · exact .inr (.inl List.mem_cons_self)
        · exact .inr (.inr hreplaced)
      · exact .inr (.inl (List.mem_cons_of_mem _ hrest))
      · exact .inr (.inr hreplaced)

/-- A decoded text has the bytes it is decoded from and replacements. -/
theorem mem_fromUtf8Lossy {bytes : List UInt8} {y : UInt8}
    (hy : y ∈ fromUtf8Lossy bytes) :
    y ∈ bytes ∨ y ∈ replacementCharacter := by
  rcases mem_decodeFrom hy with hopen | h
  · cases hopen
  · exact h

/-- A character of at most four bytes. -/
def Partial.Short (char : Partial) : Prop :=
  1 ≤ char.missing ∧ char.seen.length + char.missing ≤ 4

theorem leadByte_length (x : UInt8) :
    1 ≤ (leadByte x).1.length + (openBytes (leadByte x).2).length ∧
      ∀ char ∈ (leadByte x).2, char.Short := by
  unfold leadByte
  split_ifs <;> simp [openBytes, replacementCharacter, Partial.Short]

theorem decodeByte_length {open? : Option Partial}
    (hopen : ∀ char ∈ open?, char.Short) (x : UInt8) :
    (openBytes open?).length + 1 ≤ (decodeByte open? x).1.length +
        (openBytes (decodeByte open? x).2).length ∧
      ∀ char ∈ (decodeByte open? x).2, char.Short := by
  cases open? with
  | none =>
      exact leadByte_length x
  | some char =>
      obtain ⟨hmissing, hseen⟩ := hopen char rfl
      have hlead := leadByte_length x
      unfold decodeByte
      dsimp only
      split_ifs
      · simp [openBytes]
      · refine ⟨by simp [openBytes], ?_⟩
        rintro _ ⟨⟩
        simp only [Partial.Short, List.length_append, List.length_singleton]
        omega
      · refine ⟨?_, hlead.2⟩
        simp only [openBytes, replacementCharacter, List.length_append,
          List.length_cons, List.length_nil] at hlead ⊢
        omega

theorem length_le_decodeFrom {open? : Option Partial}
    (hopen : ∀ char ∈ open?, char.Short) (bytes : List UInt8) :
    (openBytes open?).length + bytes.length ≤
      (decodeFrom open? bytes).length := by
  induction bytes generalizing open? with
  | nil =>
      cases open? with
      | none => simp [openBytes, decodeFrom]
      | some char =>
          obtain ⟨hmissing, hseen⟩ := hopen char rfl
          simp only [openBytes, decodeFrom, replacementCharacter,
            List.length_cons, List.length_nil]
          omega
  | cons x bytes ih =>
      obtain ⟨hlength, hnext⟩ := decodeByte_length hopen x
      have hrest := ih hnext
      rw [decodeFrom_cons, List.length_append, List.length_cons]
      omega

/-- Decoding never makes a text shorter. -/
theorem length_le_fromUtf8Lossy (bytes : List UInt8) :
    bytes.length ≤ (fromUtf8Lossy bytes).length := by
  have hlength : (openBytes none).length + bytes.length ≤
      (decodeFrom none bytes).length :=
    length_le_decodeFrom (by simp) bytes
  rw [openBytes, List.length_nil, Nat.zero_add] at hlength
  exact hlength

example : fromUtf8Lossy [0x61, 0xE2, 0x82, 0xF0, 0x9F, 0x98, 0x80] =
    [0x61, 0xEF, 0xBF, 0xBD, 0xF0, 0x9F, 0x98, 0x80] := by
  decide

end Utf8Lossy

end RpictlMcp
