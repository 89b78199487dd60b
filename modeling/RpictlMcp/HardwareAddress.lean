import RpictlMcp.Power

/-!
# rpictl-mcp: hardware addresses in a text

The identity check searches a table for the value of a mac entry.  This module
says what such a table lists: an address is six octets, it may be spelled in
upper or lower case and with colons or dashes, and it is listed where it stands
alone, that is, not inside a longer run of such characters.

A text in which every address stands alone can be searched for an address as for
any other word.  In other texts, and for other words, the search finds what is
not listed.
-/

namespace RpictlMcp

/-- `u8::to_ascii_lowercase`. -/
def lowerByte (x : UInt8) : UInt8 :=
  if 0x41 ≤ x ∧ x ≤ 0x5A then x + 0x20 else x

/-- One spelling for a byte of an address. -/
def spellByte (x : UInt8) : UInt8 :=
  lowerByte (if x = 0x2D then 0x3A else x)

/-- One spelling for both separators and both cases. -/
def normalizeAddress (text : Text) : Text :=
  text.map spellByte

/-- A lower-case hexadecimal digit. -/
def isHexDigit (x : UInt8) : Bool :=
  (0x30 ≤ x && x ≤ 0x39) || (0x61 ≤ x && x ≤ 0x66)

/-- A byte that may belong to an address, in any spelling. -/
def isAddressByte (x : UInt8) : Bool :=
  isHexDigit (spellByte x) || spellByte x = 0x3A

/-- A hardware address: six pairs of digits between colons. -/
def SixOctets (address : Text) : Prop :=
  ∃ octets : List Text, octets.length = 6 ∧
    (∀ octet ∈ octets, octet.length = 2 ∧ octet.all isHexDigit = true) ∧
    address = [0x3A].intercalate octets

/-- What stands between the two texts is not part of a longer run. -/
structure StandsAlone (front back : Text) : Prop where
  front : ∀ x ∈ front.getLast?, isAddressByte x = false
  back : ∀ x ∈ back.head?, isAddressByte x = false

/-- The text has the address as a whole, in some spelling. -/
def ListsWhole (text address : Text) : Prop :=
  ∃ front spelled back, text = front ++ spelled ++ back ∧
    normalizeAddress spelled = address ∧ StandsAlone front back

/-- Every address in the text stands alone. -/
def AddressesWhole (text : Text) : Prop :=
  ∀ front spelled back, text = front ++ spelled ++ back →
    SixOctets (normalizeAddress spelled) → StandsAlone front back

/-- The table lists the device with the hardware address. -/
def ListsDevice (table : List UInt8) (address : Text) : Prop :=
  SixOctets address ∧ ListsWhole (fromUtf8Lossy table) address

/-- The hardware address that a value stands for. -/
def configuredAddress (value : List Char) : Text :=
  utf8 (String.ofList (normalizeMac value))

section HardwareAddress

variable {text address word front back : Text} {x : UInt8}

theorem toAsciiLowercase_eq (text : Text) :
    toAsciiLowercase text = text.map lowerByte := rfl

/-! ## Spelling -/

theorem spellByte_lowerByte (x : UInt8) :
    spellByte (lowerByte x) = spellByte x := by
  unfold spellByte lowerByte
  grind

/-- Digits and colons are spelled as they are. -/
theorem spellByte_eq (hx : isHexDigit x = true ∨ x = 0x3A) :
    spellByte x = x := by
  unfold spellByte lowerByte
  simp only [isHexDigit, Bool.or_eq_true, Bool.and_eq_true,
    decide_eq_true_eq] at hx
  grind

theorem normalizeAddress_toAsciiLowercase (text : Text) :
    normalizeAddress (toAsciiLowercase text) = normalizeAddress text := by
  rw [normalizeAddress, normalizeAddress, toAsciiLowercase_eq, List.map_map]
  exact List.map_congr_left fun x _ => spellByte_lowerByte x

theorem isAddressByte_lowerByte (x : UInt8) :
    isAddressByte (lowerByte x) = isAddressByte x := by
  rw [isAddressByte, isAddressByte, spellByte_lowerByte]

theorem StandsAlone.toAsciiLowercase (h : StandsAlone front back) :
    StandsAlone (toAsciiLowercase front) (toAsciiLowercase back) := by
  constructor
  · intro y hy
    rw [toAsciiLowercase_eq, List.getLast?_map] at hy
    obtain ⟨x, hx, rfl⟩ := Option.mem_map.mp hy
    rw [isAddressByte_lowerByte]
    exact h.front x hx
  · intro y hy
    rw [toAsciiLowercase_eq, List.head?_map] at hy
    obtain ⟨x, hx, rfl⟩ := Option.mem_map.mp hy
    rw [isAddressByte_lowerByte]
    exact h.back x hx

/-- What is found in a text in lower case stands in the text in some case. -/
theorem exists_spelled_of_contains
    (h : contains (toAsciiLowercase text) word = true) :
    ∃ front spelled back, text = front ++ spelled ++ back ∧
      toAsciiLowercase spelled = word := by
  obtain ⟨before, after, hsplit⟩ := contains_iff.mp h
  rw [toAsciiLowercase_eq] at hsplit
  obtain ⟨start, back, rfl, hstart, -⟩ := List.map_eq_append_iff.mp hsplit.symm
  obtain ⟨front, spelled, rfl, -, hspelled⟩ := List.map_eq_append_iff.mp hstart
  exact ⟨front, spelled, back, rfl, hspelled⟩

/-! ## Six octets -/

theorem mem_intercalate {α : Type} {separator : α} {parts : List (List α)}
    {a : α} (h : a ∈ [separator].intercalate parts) :
    a = separator ∨ ∃ part ∈ parts, a ∈ part := by
  induction parts with
  | nil => simp at h
  | cons part parts ih =>
      cases parts with
      | nil => exact .inr ⟨part, by simp, by simpa using h⟩
      | cons next parts =>
          rw [List.intercalate_cons_cons, List.mem_append,
            List.mem_append, List.mem_singleton] at h
          rcases h with (hpart | hseparator) | hrest
          · exact .inr ⟨part, by simp, hpart⟩
          · exact .inl hseparator
          · refine (ih hrest).imp_right fun ⟨other, hother, ha⟩ => ?_
            exact ⟨other, List.mem_cons_of_mem _ hother, ha⟩

/-- An address has digits and colons only. -/
theorem SixOctets.bytes (h : SixOctets address) (hx : x ∈ address) :
    isHexDigit x = true ∨ x = 0x3A := by
  obtain ⟨octets, -, hoctets, rfl⟩ := h
  rcases mem_intercalate hx with hcolon | ⟨octet, hoctet, hmem⟩
  · exact .inr hcolon
  · exact .inl (List.all_eq_true.mp (hoctets octet hoctet).2 x hmem)

theorem SixOctets.length (h : SixOctets address) : address.length = 17 := by
  obtain ⟨octets, hsix, hoctets, rfl⟩ := h
  match octets, hsix with
  | [a, b, c, d, e, f], _ =>
      simp only [List.mem_cons, List.not_mem_nil, or_false, forall_eq_or_imp,
        forall_eq] at hoctets
      obtain ⟨⟨ha, -⟩, ⟨hb, -⟩, ⟨hc, -⟩, ⟨hd, -⟩, ⟨he, -⟩, ⟨hf, -⟩⟩ := hoctets
      simp [ha, hb, hc, hd, he, hf]

theorem SixOctets.normalizeAddress (h : SixOctets address) :
    normalizeAddress address = address := by
  rw [RpictlMcp.normalizeAddress]
  conv_rhs => rw [← List.map_id address]
  exact List.map_congr_left fun x hx => spellByte_eq (h.bytes hx)

theorem SixOctets.isAddressByte (h : SixOctets address) (hx : x ∈ address) :
    isAddressByte x = true := by
  have hbyte := h.bytes hx
  rw [RpictlMcp.isAddressByte, spellByte_eq hbyte]
  simpa using hbyte

/-! ## Texts in which every address stands alone -/

theorem StandsAlone.of_append {before after : Text}
    (h : StandsAlone (before ++ front) (back ++ after)) :
    StandsAlone front back := by
  constructor
  · intro x hx
    refine h.front x ?_
    rw [List.getLast?_append, hx]
    rfl
  · intro x hx
    refine h.back x ?_
    rw [List.head?_append, hx]
    rfl

/-- A piece of such a text is one. -/
theorem AddressesWhole.piece (h : AddressesWhole text)
    (hpiece : word <:+: text) : AddressesWhole word := by
  obtain ⟨before, after, rfl⟩ := hpiece
  rintro front spelled back rfl hspelled
  exact (h (before ++ front) spelled (back ++ after) (by simp)
    hspelled).of_append

theorem AddressesWhole.toAsciiLowercase (h : AddressesWhole text) :
    AddressesWhole (toAsciiLowercase text) := by
  intro front spelled back hsplit hspelled
  rw [toAsciiLowercase_eq] at hsplit
  obtain ⟨start, back, rfl, hstart, rfl⟩ := List.map_eq_append_iff.mp hsplit
  obtain ⟨front, spelled, rfl, rfl, rfl⟩ := List.map_eq_append_iff.mp hstart
  refine (h front spelled back rfl ?_).toAsciiLowercase
  rwa [← normalizeAddress_toAsciiLowercase]

/-- In such a text an address that is found is listed. -/
theorem AddressesWhole.lists (h : AddressesWhole text)
    (haddress : SixOctets address)
    (hfound : contains (RpictlMcp.toAsciiLowercase text) address = true) :
    ListsWhole text address := by
  obtain ⟨front, spelled, back, rfl, hspelled⟩ :=
    exists_spelled_of_contains hfound
  have hnormal : RpictlMcp.normalizeAddress spelled = address := by
    rw [← normalizeAddress_toAsciiLowercase, hspelled,
      haddress.normalizeAddress]
  exact ⟨front, spelled, back, rfl, hnormal,
    h front spelled back rfl (hnormal ▸ haddress)⟩

/-- A word that is found in such a text is such a text. -/
theorem AddressesWhole.of_contains (h : AddressesWhole text)
    (hfound : contains (RpictlMcp.toAsciiLowercase text) word = true) :
    AddressesWhole word :=
  h.toAsciiLowercase.piece (contains_iff.mp hfound)

/-- An address that goes on is not listed as a whole. -/
theorem not_listsWhole_longer (haddress : SixOctets address) :
    ¬ListsWhole (address ++ utf8 ":00") address := by
  have hmore : utf8 ":00" = [0x3A, 0x30, 0x30] := by decide
  rw [hmore]
  rintro ⟨front, spelled, back, hsplit, hspelled, hfront, hback⟩
  have hall : ∀ x ∈ address ++ [0x3A, 0x30, 0x30],
      isAddressByte x = true := by
    intro x hx
    rcases List.mem_append.mp hx with hx | hx
    · exact haddress.isAddressByte hx
    · have hthree : ([0x3A, 0x30, 0x30] : Text).all isAddressByte = true := by
        decide
      exact List.all_eq_true.mp hthree x hx
  have hlength := congrArg List.length hsplit
  have hsame := congrArg List.length hspelled
  rw [RpictlMcp.normalizeAddress, List.length_map] at hsame
  simp only [List.length_append, List.length_cons, List.length_nil]
    at hlength
  cases hlast : front.getLast? with
  | some x =>
      have hmem : x ∈ front ++ spelled ++ back := by
        simp [List.mem_of_getLast? hlast]
      rw [← hsplit] at hmem
      have := hfront x hlast
      rw [hall x hmem] at this
      cases this
  | none =>
      cases hhead : back.head? with
      | some x =>
          have hmem : x ∈ front ++ spelled ++ back := by
            simp [List.mem_of_head? hhead]
          rw [← hsplit] at hmem
          have := hback x hhead
          rw [hall x hmem] at this
          cases this
      | none =>
          rw [List.getLast?_eq_none_iff] at hlast
          rw [List.head?_eq_none_iff] at hhead
          simp only [hlast, hhead, List.length_nil] at hlength
          omega

/-! ## Configured values -/

theorem toNat_toLower (c : Char) :
    c.toLower.toNat < 0x41 ∨ 0x5A < c.toLower.toNat := by
  unfold Char.toLower
  split
  · rename_i hcapital
    have hleast : 0x41 ≤ c.val.toNat := hcapital.1
    have hgreatest : c.val.toNat ≤ 0x5A := hcapital.2
    have hshift : 'a'.val - 'A'.val = 0x20 := by decide
    right
    change 0x5A < (c.val + ('a'.val - 'A'.val)).toNat
    rw [hshift, UInt32.toNat_add]
    simp only [UInt32.reduceToNat]
    omega
  · rename_i hother
    have hcode : c.toNat = c.val.toNat := rfl
    by_contra hcapital
    have hleast : 0x41 ≤ c.val.toNat := by omega
    have hgreatest : c.val.toNat ≤ 0x5A := by omega
    exact hother ⟨hleast, hgreatest⟩

/-- No capital letter is left in a value. -/
theorem toNat_of_mem_normalizeMac {value : List Char} {c : Char}
    (h : c ∈ normalizeMac value) : c.toNat < 0x41 ∨ 0x5A < c.toNat := by
  obtain ⟨d, -, rfl⟩ := List.mem_map.mp h
  split
  · exact .inl (by decide)
  · exact toNat_toLower d

/-- The value is compared in lower case. -/
theorem toAsciiLowercase_configuredAddress (value : List Char) :
    toAsciiLowercase (configuredAddress value) = configuredAddress value := by
  rw [toAsciiLowercase_eq]
  conv_rhs => rw [← List.map_id (configuredAddress value)]
  refine List.map_congr_left fun x hx => ?_
  obtain ⟨c, hc, hmem⟩ := List.mem_flatMap.mp hx
  rw [String.toList_ofList] at hc
  refine if_neg fun ⟨hleast, hgreatest⟩ => ?_
  have hcapital := toNat_of_mem_normalizeMac hc
  have hcode := toNat_of_mem_utf8EncodeChar hmem
    (UInt8.lt_of_le_of_lt hgreatest (by decide))
  rw [UInt8.le_iff_toNat_le] at hleast hgreatest
  simp only [UInt8.reduceToNat] at hleast hgreatest
  omega

end HardwareAddress

end RpictlMcp
