import RpictlMcp.Kernel.Occurrence
import RpictlMcp.Kernel.Utf8Text

/-!
# rpictl-mcp kernel: searching in decoded text

A word that is well-formed text and has no replacement character in it occurs in
a lossily decoded text exactly where it occurs in the bytes: decoding can
neither make an occurrence nor hide one.  A byte that begins a character ends
whatever was open before it, so that the bytes in front of an occurrence, the
word and the bytes behind it are decoded one by one.

In the other direction `fromUtf8Lossy_piece` takes the first character off a
decoded text together with the bytes it comes from.  The position at which an
occurrence begins moves, but the order of two occurrences stays.
-/

namespace RpictlMcp

section Utf8Search

variable {open? : Option Partial} {bytes front back word : List UInt8}
variable {x : UInt8}

/-- A byte that begins a character ends whatever was open before it. -/
theorem decodeFrom_append_lead (hopen : ∀ char ∈ open?, char.Continues)
    (front : List UInt8) (hx : isContinuation x = false) (back : List UInt8) :
    decodeFrom open? (front ++ x :: back) =
      decodeFrom open? front ++ fromUtf8Lossy (x :: back) := by
  induction front generalizing open? with
  | nil =>
      cases open? with
      | none => rfl
      | some char =>
          have hrejects : ¬(char.least ≤ x ∧ x ≤ char.greatest) := by
            rintro ⟨hleast, hgreatest⟩
            have haccepts : acceptsByte (some char) x = true := by
              simp [acceptsByte, hleast, hgreatest]
            simp [isContinuation_of_accepts hopen haccepts] at hx
          simp [decodeFrom_cons, decodeByte, hrejects, decodeFrom,
            fromUtf8Lossy]
  | cons y front ih =>
      rw [List.cons_append, decodeFrom_cons, decodeFrom_cons,
        ih (decodeByte_continues hopen), List.append_assoc]

theorem fromUtf8Lossy_append_lead (front : List UInt8)
    (hx : isContinuation x = false) (back : List UInt8) :
    fromUtf8Lossy (front ++ x :: back) =
      fromUtf8Lossy front ++ fromUtf8Lossy (x :: back) :=
  decodeFrom_append_lead (by simp) front hx back

/-- What stands behind well-formed text is decoded on its own. -/
theorem decodeFrom_append_of_isUtf8From (h : isUtf8From open? bytes = true)
    (back : List UInt8) :
    decodeFrom open? (bytes ++ back) =
      openBytes open? ++ bytes ++ fromUtf8Lossy back := by
  induction bytes generalizing open? with
  | nil =>
      obtain rfl := isUtf8From_nil_iff.mp h
      rfl
  | cons x bytes ih =>
      rw [isUtf8From_cons, Bool.and_eq_true] at h
      rw [List.cons_append, decodeFrom_cons, ih h.2, ← List.append_assoc,
        ← List.append_assoc, decodeByte_bytes h.1]
      simp

theorem fromUtf8Lossy_append_of_isUtf8 (h : isUtf8 word = true)
    (back : List UInt8) :
    fromUtf8Lossy (word ++ back) = word ++ fromUtf8Lossy back :=
  decodeFrom_append_of_isUtf8From h back

/-- Well-formed text begins with a byte that begins a character. -/
theorem head_of_isUtf8 (h : isUtf8 (x :: bytes) = true) :
    isContinuation x = false := by
  rw [isUtf8, isUtf8From_cons, Bool.and_eq_true] at h
  have hnone : ∀ char ∈ (none : Option Partial), char.Continues := by simp
  simpa using isContinuation_of_accepts hnone h.1

/-- Well-formed text is decoded apart from what surrounds it. -/
theorem fromUtf8Lossy_around (h : isUtf8 word = true) (hne : word ≠ [])
    (front back : List UInt8) :
    fromUtf8Lossy (front ++ word ++ back) =
      fromUtf8Lossy front ++ word ++ fromUtf8Lossy back := by
  obtain ⟨x, rest, rfl⟩ := List.exists_cons_of_ne_nil hne
  rw [List.append_assoc, List.cons_append,
    fromUtf8Lossy_append_lead front (head_of_isUtf8 h), ← List.cons_append,
    fromUtf8Lossy_append_of_isUtf8 h, List.append_assoc]

/-- One character: its bytes but the first one continue it. -/
structure IsChar (char : List UInt8) : Prop where
  isUtf8 : isUtf8 char = true
  nonempty : char ≠ []
  continues : ∀ y ∈ char.tail, isContinuation y = true

theorem isChar_replacementCharacter : IsChar replacementCharacter := by
  have hall : replacementCharacter.tail.all isContinuation = true := by decide
  exact ⟨by decide, by decide, List.all_eq_true.mp hall⟩

/-- The first character of a decoded text, and the bytes it comes from. -/
structure Piece (bytes char rest decoded : List UInt8) : Prop where
  split : bytes = char ++ rest
  nonempty : char ≠ []
  decodes : fromUtf8Lossy bytes = decoded ++ fromUtf8Lossy rest
  isChar : IsChar decoded
  source : decoded = char ∨ decoded = replacementCharacter

theorem acceptsBytes_append :
    acceptsBytes open? (front ++ back) =
      (acceptsBytes open? front && acceptsBytes (openAfter open? front) back)
      := by
  induction front generalizing open? with
  | nil => rfl
  | cons x front ih =>
      rw [List.cons_append, acceptsBytes, ih, acceptsBytes, Bool.and_assoc]
      rfl

theorem openAfter_append :
    openAfter open? (front ++ back) = openAfter (openAfter open? front) back :=
  List.foldl_append

/-- A character that is open because of the bytes seen of it. -/
structure Partial.Opened (char : Partial) : Prop where
  nonempty : char.seen ≠ []
  accepts : acceptsBytes none char.seen = true
  opens : openAfter none char.seen = some char
  tail : ∀ y ∈ char.seen.tail, isContinuation y = true

theorem Partial.Opened.continues {char : Partial} (h : char.Opened) :
    ∀ c ∈ some char, c.Continues := by
  rw [← h.opens]
  exact openAfter_continues (by simp)

theorem leadByte_cases (x : UInt8) :
    leadByte x = (replacementCharacter, none) ∨ leadByte x = ([x], none) ∨
      ∃ char, leadByte x = ([], some char) ∧ char.seen = [x] := by
  unfold leadByte
  split_ifs <;> simp

/-- One more byte of an open character. -/
theorem Partial.Opened.snoc {char : Partial} (h : char.Opened)
    (hx : acceptsByte (some char) x = true) :
    acceptsBytes none (char.seen ++ [x]) = true ∧
      openAfter none (char.seen ++ [x]) = (decodeByte (some char) x).2 ∧
      ∀ y ∈ (char.seen ++ [x]).tail, isContinuation y = true := by
  refine ⟨?_, ?_, ?_⟩
  · simp [acceptsBytes_append, h.accepts, h.opens, acceptsBytes, hx]
  · rw [openAfter_append, h.opens]
    rfl
  · rw [List.tail_append_of_ne_nil h.nonempty]
    intro y hy
    rcases List.mem_append.mp hy with hseen | hlast
    · exact h.tail y hseen
    · rw [List.mem_singleton.mp hlast]
      simpa using isContinuation_of_accepts h.continues hx

/-- The rest of an open character, or a replacement for what was seen of it. -/
theorem decodeFrom_piece {char : Partial} (h : char.Opened)
    (bytes : List UInt8) :
    ∃ more rest decoded, bytes = more ++ rest ∧
      decodeFrom (some char) bytes = decoded ++ fromUtf8Lossy rest ∧
      IsChar decoded ∧
      (decoded = char.seen ++ more ∨ decoded = replacementCharacter) := by
  induction bytes generalizing char with
  | nil =>
      exact ⟨[], [], replacementCharacter, rfl, rfl,
        isChar_replacementCharacter, .inr rfl⟩
  | cons x bytes ih =>
      by_cases hx : char.least ≤ x ∧ x ≤ char.greatest
      · have haccepts : acceptsByte (some char) x = true := by
          simp [acceptsByte, hx]
        obtain ⟨hall, hopens, htail⟩ := h.snoc haccepts
        by_cases hlast : char.missing = 1
        · -- The character is complete.
          have hbyte : decodeByte (some char) x =
              (char.seen ++ [x], none) := by simp [decodeByte, hx, hlast]
          rw [hbyte] at hopens
          refine ⟨[x], bytes, char.seen ++ [x], rfl, ?_, ⟨?_, by simp, htail⟩,
            .inl rfl⟩
          · rw [decodeFrom_cons, hbyte]
            rfl
          · exact isUtf8_iff.mpr ⟨hall, hopens⟩
        · obtain ⟨char', hbyte, hseen⟩ : ∃ char' : Partial,
              decodeByte (some char) x = ([], some char') ∧
                char'.seen = char.seen ++ [x] := by
            simp [decodeByte, hx, hlast]
          rw [hbyte] at hopens
          have hopened : char'.Opened :=
            ⟨by simp [hseen], hseen ▸ hall, hseen ▸ hopens, hseen ▸ htail⟩
          obtain ⟨more, rest, decoded, rfl, hdecodes, hchar, hsource⟩ :=
            ih hopened
          refine ⟨x :: more, rest, decoded, rfl, ?_, hchar, ?_⟩
          · rw [decodeFrom_cons, hbyte]
            exact hdecodes
          · simpa [hseen] using hsource
      · -- The byte does not continue the character and is decoded anew.
        refine ⟨[], x :: bytes, replacementCharacter, rfl, ?_,
          isChar_replacementCharacter, .inr rfl⟩
        have hbyte : decodeByte (some char) x =
            (replacementCharacter ++ (leadByte x).1, (leadByte x).2) :=
          if_neg hx
        rw [decodeFrom_cons, hbyte, List.append_assoc]
        rfl

/-- The first character of a decoded text. -/
theorem fromUtf8Lossy_piece (hne : bytes ≠ []) :
    ∃ char rest decoded, Piece bytes char rest decoded := by
  obtain ⟨x, bytes, rfl⟩ := List.exists_cons_of_ne_nil hne
  have hdecodes : fromUtf8Lossy (x :: bytes) =
      (leadByte x).1 ++ decodeFrom (leadByte x).2 bytes := rfl
  rcases leadByte_cases x with hlead | hlead | ⟨char, hlead, hseen⟩
  · exact ⟨[x], bytes, replacementCharacter, rfl, by simp,
      by rw [hdecodes, hlead]; rfl, isChar_replacementCharacter, .inr rfl⟩
  · have hutf8 : isUtf8 [x] = true := by
      simp [isUtf8, isUtf8From, acceptsByte, decodeByte, hlead,
        replacementCharacter]
    exact ⟨[x], bytes, [x], rfl, by simp, by rw [hdecodes, hlead]; rfl,
      ⟨hutf8, by simp, by simp⟩, .inl rfl⟩
  · have hopened : char.Opened := by
      refine ⟨by simp [hseen], ?_, ?_, by simp [hseen]⟩
      · simp [hseen, acceptsBytes, acceptsByte, hlead, replacementCharacter]
      · simp [hseen, openAfter, decodeByte, hlead]
    obtain ⟨more, rest, decoded, rfl, hrest, hchar, hsource⟩ :=
      decodeFrom_piece hopened bytes
    refine ⟨x :: more, rest, decoded, rfl, by simp, ?_, hchar, ?_⟩
    · rw [hdecodes, hlead]
      exact hrest
    · simpa [hseen] using hsource

/-- A word that may be searched for: text without a replacement character. -/
structure Searchable (word : List UInt8) : Prop where
  isUtf8 : isUtf8 word = true
  nonempty : word ≠ []
  plain : contains word replacementCharacter = false

theorem plain_of_append (h : contains (front ++ back)
    replacementCharacter = false) :
    contains back replacementCharacter = false := by
  rw [Bool.eq_false_iff, Ne, contains_iff] at h ⊢
  exact fun hback => h (hback.trans (List.suffix_append _ _).isInfix)

/-- Text that a character begins with is the whole character. -/
theorem isChar_eq_of_starts {char : List UInt8} (h : IsChar char)
    (hword : isUtf8 word = true) (hne : word ≠ []) (hstarts : word <+: char) :
    word = char := by
  obtain ⟨more, rfl⟩ := hstarts
  cases more with
  | nil => simp
  | cons y more =>
      have hmore : isUtf8 (y :: more) = true := by
        rw [← isUtf8_append hword]
        exact h.isUtf8
      have hy := h.continues y (by simp [List.tail_append_of_ne_nil hne])
      simp [head_of_isUtf8 hmore] at hy

/-- What a decoded text begins with, its bytes begin with. -/
theorem prefix_of_prefix_lossy (hword : isUtf8 word = true)
    (hplain : contains word replacementCharacter = false)
    (h : word <+: fromUtf8Lossy bytes) : word <+: bytes := by
  induction hlen : bytes.length using Nat.strongRecOn generalizing word bytes
  rename_i n ih
  by_cases hne : word = []
  · rw [hne]
    exact List.nil_prefix
  have hbytes : bytes ≠ [] := by
    rintro rfl
    exact hne (List.prefix_nil.mp h)
  obtain ⟨char, rest, decoded, hpiece⟩ := fromUtf8Lossy_piece hbytes
  rw [hpiece.decodes] at h
  have hdecoded : decoded <+: word := by
    rcases List.prefix_or_prefix_of_prefix (List.prefix_append decoded _) h
      with hle | hle
    · exact hle
    · rw [isChar_eq_of_starts hpiece.isChar hword hne hle]
  obtain ⟨word, rfl⟩ := hdecoded
  have hsource : decoded = char := by
    refine hpiece.source.resolve_right ?_
    rintro rfl
    rw [Bool.eq_false_iff, Ne, contains_iff] at hplain
    exact hplain (List.prefix_append _ _).isInfix
  rw [hpiece.split, hsource]
  refine (List.prefix_append_right_inj char).mpr ?_
  have hshorter : rest.length < n := by
    have hpos := List.length_pos_of_ne_nil hpiece.nonempty
    rw [← hlen, hpiece.split, List.length_append]
    omega
  refine ih rest.length hshorter ?_ ?_ ((List.prefix_append_right_inj
    decoded).mp h) rfl
  · rwa [← isUtf8_append hpiece.isChar.isUtf8]
  · exact plain_of_append hplain

/-- An occurrence in a decoded text is one in the bytes. -/
theorem occurs_of_occurs_lossy (hword : Searchable word)
    {before after : List UInt8}
    (h : fromUtf8Lossy bytes = before ++ word ++ after) :
    ∃ front back, bytes = front ++ word ++ back ∧
      fromUtf8Lossy front = before := by
  induction hlen : bytes.length using Nat.strongRecOn
    generalizing bytes before
  rename_i n ih
  by_cases hbefore : before = []
  · subst hbefore
    have hstarts : word <+: fromUtf8Lossy bytes :=
      ⟨after, by simpa using h.symm⟩
    obtain ⟨back, rfl⟩ :=
      prefix_of_prefix_lossy hword.isUtf8 hword.plain hstarts
    exact ⟨[], back, rfl, rfl⟩
  have hbytes : bytes ≠ [] := by
    rintro rfl
    have hempty : before ++ word ++ after = [] := h.symm
    simp [hbefore] at hempty
  obtain ⟨char, rest, decoded, hpiece⟩ := fromUtf8Lossy_piece hbytes
  have hsplit : decoded ++ fromUtf8Lossy rest = before ++ (word ++ after) := by
    rw [← hpiece.decodes, h, List.append_assoc]
  obtain ⟨x, tail, hx⟩ := List.exists_cons_of_ne_nil hword.nonempty
  have hlead : isContinuation x = false := head_of_isUtf8 (hx ▸ hword.isUtf8)
  by_cases hinside : before.length < decoded.length
  · -- An occurrence cannot begin inside of the first character.
    obtain ⟨inside, hdecoded⟩ : before <+: decoded :=
      List.prefix_of_prefix_length_le (List.prefix_append _ _)
        (hsplit ▸ List.prefix_append decoded _) (by omega)
    obtain ⟨y, inside, rfl⟩ := List.exists_cons_of_ne_nil (l := inside) (by
      rintro rfl
      simp [← hdecoded] at hinside)
    have hy : y = x := by
      rw [← hdecoded, List.append_assoc, hx] at hsplit
      exact (List.cons.inj (List.append_cancel_left hsplit)).1
    have hcontinues := hpiece.isChar.continues y (by
      rw [← hdecoded, List.tail_append_of_ne_nil hbefore]
      simp)
    simp [hy, hlead] at hcontinues
  · -- It begins behind the first character.
    obtain ⟨before, rfl⟩ : decoded <+: before :=
      List.prefix_of_prefix_length_le (List.prefix_append decoded _)
        (hsplit ▸ List.prefix_append before _) (by omega)
    have hshorter : rest.length < n := by
      have hpos := List.length_pos_of_ne_nil hpiece.nonempty
      rw [← hlen, hpiece.split, List.length_append]
      omega
    obtain ⟨front, back, rfl, rfl⟩ := ih rest.length hshorter
      (by simpa using hsplit) rfl
    refine ⟨char ++ front, back, by rw [hpiece.split]; simp, ?_⟩
    have hdecodes := hpiece.decodes
    rw [hpiece.split, show char ++ (front ++ word ++ back) =
        char ++ front ++ word ++ back by simp,
      fromUtf8Lossy_around hword.isUtf8 hword.nonempty,
      fromUtf8Lossy_around hword.isUtf8 hword.nonempty,
      ← List.append_assoc, ← List.append_assoc] at hdecodes
    exact List.append_cancel_right (List.append_cancel_right hdecodes)

/-! ## The last occurrence -/

/-- Where the bytes from an offset on stand in the decoded text. -/
def lossyOffset (bytes : List UInt8) (n : Nat) : Nat :=
  (fromUtf8Lossy (bytes.take n)).length

/-- An offset at which a character begins, and a later one. -/
theorem lossyOffset_lt {m n : Nat} (hmn : m < n)
    (hn : n ≤ bytes.length) (hm : AtBoundary bytes m) :
    lossyOffset bytes m < lossyOffset bytes n := by
  have hlt : m < bytes.length := by omega
  obtain ⟨k, rfl⟩ : ∃ k, n = m + (k + 1) := ⟨n - m - 1, by omega⟩
  have hlead : isContinuation bytes[m] = false :=
    hm _ (by simp [List.getElem?_eq_getElem hlt])
  rw [lossyOffset, lossyOffset, List.take_add, List.drop_eq_getElem_cons hlt,
    List.take_succ_cons, fromUtf8Lossy_append_lead _ hlead,
    List.length_append]
  have hlength := length_le_fromUtf8Lossy
    (bytes[m] :: (bytes.drop (m + 1)).take k)
  rw [List.length_cons] at hlength
  omega

/-- A word that may be searched for begins with a character. -/
theorem atBoundary_of_isPrefix {n : Nat} (hword : Searchable word)
    (h : word <+: bytes.drop n) : AtBoundary bytes n := by
  obtain ⟨x, rest, rfl⟩ := List.exists_cons_of_ne_nil hword.nonempty
  obtain ⟨back, hback⟩ := h
  rw [AtBoundary, ← List.head?_drop, ← hback]
  simpa using head_of_isUtf8 hword.isUtf8

/-- An occurrence in the bytes is one in the decoded text. -/
theorem occurs_lossy {n : Nat} (hword : Searchable word)
    (h : word <+: bytes.drop n) :
    word <+: (fromUtf8Lossy bytes).drop (lossyOffset bytes n) := by
  obtain ⟨back, hback⟩ := h
  have hsplit : bytes = bytes.take n ++ word ++ back := by
    rw [List.append_assoc, hback, List.take_append_drop]
  have hdecodes := fromUtf8Lossy_around hword.isUtf8 hword.nonempty
    (bytes.take n) back
  rw [← hsplit] at hdecodes
  rw [hdecodes, lossyOffset, List.append_assoc, List.drop_left]
  exact List.prefix_append _ _

/-- The last occurrence in a decoded text is the last one in the bytes. -/
theorem rfind_fromUtf8Lossy (hword : Searchable word) (bytes : List UInt8) :
    rfind (fromUtf8Lossy bytes) word =
      (rfind bytes word).map (lossyOffset bytes) := by
  have hsource : ∀ i, rfind (fromUtf8Lossy bytes) word = some i →
      ∃ m, word <+: bytes.drop m ∧ m ≤ bytes.length ∧
        lossyOffset bytes m = i := by
    intro i hi
    obtain ⟨after, hafter⟩ := isPrefix_drop_of_rfind hi
    have hsplit : fromUtf8Lossy bytes =
        (fromUtf8Lossy bytes).take i ++ word ++ after := by
      rw [List.append_assoc, hafter, List.take_append_drop]
    obtain ⟨front, back, rfl, hfront⟩ := occurs_of_occurs_lossy hword hsplit
    refine ⟨front.length, ?_, by simp, ?_⟩
    · simp [List.append_assoc]
    · rw [lossyOffset, List.append_assoc, List.take_left, hfront,
        List.length_take_of_le (rfind_le_length hi)]
  cases hfind : rfind bytes word with
  | none =>
      cases hlossy : rfind (fromUtf8Lossy bytes) word with
      | none => rfl
      | some i =>
          obtain ⟨m, hm, hle, -⟩ := hsource i hlossy
          obtain ⟨j, hj, -⟩ := le_of_rfind hle hm
          simp [hfind] at hj
  | some n =>
      have hn := isPrefix_drop_of_rfind hfind
      have hle := rfind_le_length hfind
      have hbound : lossyOffset bytes n ≤ (fromUtf8Lossy bytes).length := by
        by_contra hlt
        have hnil := occurs_lossy hword hn
        rw [List.drop_of_length_le (by omega)] at hnil
        exact hword.nonempty (List.prefix_nil.mp hnil)
      obtain ⟨i, hi, hni⟩ := le_of_rfind hbound (occurs_lossy hword hn)
      obtain ⟨m, hm, hmle, rfl⟩ := hsource i hi
      obtain ⟨j, hj, hmj⟩ := le_of_rfind hmle hm
      rw [hfind, Option.some.injEq] at hj
      have hmn : m = n := by
        by_contra hne
        have hlt := lossyOffset_lt (by omega : m < n) hle
          (atBoundary_of_isPrefix hword hm)
        omega
      rw [hi, hmn]
      rfl

/-- Two words are found in the same order. -/
theorem lossyOffset_lt_iff {other : List UInt8} {m n : Nat}
    (hword : Searchable word) (hother : Searchable other)
    (hm : rfind bytes word = some m) (hn : rfind bytes other = some n) :
    lossyOffset bytes m < lossyOffset bytes n ↔ m < n := by
  have hmbound := atBoundary_of_isPrefix hword (isPrefix_drop_of_rfind hm)
  have hnbound := atBoundary_of_isPrefix hother (isPrefix_drop_of_rfind hn)
  constructor
  · intro hlt
    by_contra hge
    rcases Nat.lt_or_ge n m with hnm | hmn
    · have := lossyOffset_lt hnm (rfind_le_length hm) hnbound
      omega
    · obtain rfl : m = n := by omega
      omega
  · exact fun hlt => lossyOffset_lt hlt (rfind_le_length hn) hmbound

end Utf8Search

end RpictlMcp
