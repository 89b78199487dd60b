import RpictlMcp.PowerTrace
import Mathlib.Data.Nat.Digits.Defs
import Mathlib.Logic.Relation

/-!
# rpictl-mcp: identities of one relay

`Config::validate` compares power identities as strings, while the power
subsystem addresses a relay by the node and the endpoint that `parse_identity`
reads out of them.  This module relates the two: two strings name one relay if
and only if one can be edited into the other without touching what the last node
entry and the last endpoint entry write.  A configuration whose strings are all
different therefore still shares a relay exactly when one board's identity is
another spelling of another board's.
-/

namespace RpictlMcp

/-- The entries of a power identity that address the relay. -/
inductive RelayKey where
  | node
  | endpoint
deriving DecidableEq, Repr

/-- The name of an entry. -/
def RelayKey.name : RelayKey → List Char
  | .node => "node".toList
  | .endpoint => "endpoint".toList

/-- The parts of a power identity. -/
def identityParts (identity : String) : List (List Char) :=
  identity.toList.splitOn ';'

/-- What a part of a power identity writes under a name. -/
def valueOf (key : RelayKey) (part : List Char) : Option (List Char) :=
  match splitOnce '=' part with
  | none => none
  | some (name, value) =>
      if trim name = key.name then some (trim value) else none

/-- What the last entry of a name writes. -/
def lastValue (key : RelayKey) : List (List Char) → Option (List Char)
  | [] => none
  | part :: parts => (lastValue key parts).or (valueOf key part)

/-- The number that a text of decimal digits denotes. -/
def number? (digits : List Char) : Option Nat :=
  if digits ≠ [] ∧ digits.all Char.isDigit then
    some (Nat.ofDigitChars 10 digits 0)
  else none

/-- The node and the endpoint of an identity, as numbers. -/
def Identity.relay? (identity : Identity) : Option (Nat × Nat) :=
  (number? identity.node.toList).bind fun node =>
    (number? identity.endpoint.toList).map fun endpoint => (node, endpoint)

/-- Two texts of digits that differ in leading zeros only. -/
def SameDigits (digits other : List Char) : Prop :=
  digits ≠ [] ∧ other ≠ [] ∧
    digits.dropWhile (· = '0') = other.dropWhile (· = '0')

/--
One edit of the parts of a power identity: a part that is no node or endpoint
entry is dropped, or one that a later part overrides; two neighbours with
different names are swapped; an entry is written with other spaces or with
another number of leading zeros.
-/
inductive Edit : List (List Char) → List (List Char) → Prop where
  | behind (part : List Char) {parts others : List (List Char)}
      (h : Edit parts others) : Edit (part :: parts) (part :: others)
  | ignored {part : List Char} (parts : List (List Char))
      (hpart : ∀ key, valueOf key part = none) : Edit (part :: parts) parts
  | overridden {part : List Char} {parts : List (List Char)} (key : RelayKey)
      (hpart : ∀ other, other ≠ key → valueOf other part = none)
      (hlater : (lastValue key parts).isSome) : Edit (part :: parts) parts
  | swapped {part other : List Char} (parts : List (List Char))
      (hnames : ∀ key, valueOf key part = none ∨ valueOf key other = none) :
      Edit (part :: other :: parts) (other :: part :: parts)
  | rewritten {part other value digits : List Char} {key : RelayKey}
      (parts : List (List Char)) (hpart : valueOf key part = some value)
      (hother : valueOf key other = some digits)
      (hdigits : SameDigits value digits) :
      Edit (part :: parts) (other :: parts)

/-- Two spellings of a power identity. -/
def Respelled (identity other : String) : Prop :=
  Relation.EqvGen Edit (identityParts identity) (identityParts other)

section Parsing

variable {key : RelayKey} {part value : List Char}
variable {parts others : List (List Char)}

@[simp] theorem lastValue_nil :
    lastValue key [] = none := rfl

@[simp] theorem lastValue_cons :
    lastValue key (part :: parts) =
      (lastValue key parts).or (valueOf key part) := rfl

/-- A part has one name. -/
theorem valueOf_unique (h : valueOf key part = some value)
    (other : RelayKey) (hother : other ≠ key) :
    valueOf other part = none := by
  unfold valueOf at h ⊢
  cases hsplit : splitOnce '=' part with
  | none => rfl
  | some entry =>
      obtain ⟨name, text⟩ := entry
      simp only [hsplit] at h ⊢
      split at h
      · rename_i hname
        rw [hname, if_neg]
        cases key <;> cases other <;> first | contradiction | decide
      · cases h

/-- The entries after one more part. -/
theorem IdentityEntries.add_node (entries : IdentityEntries)
    (part : List Char) :
    (entries.add part).node = (valueOf .node part).or entries.node := by
  unfold IdentityEntries.add valueOf
  cases splitOnce '=' part with
  | none => rfl
  | some entry =>
      change _ = Option.or (if trim entry.1 = "node".toList then _ else _) _
      generalize "node".toList = node
      dsimp only
      split_ifs <;> rfl

theorem IdentityEntries.add_endpoint (entries : IdentityEntries)
    (part : List Char) :
    (entries.add part).endpoint =
      (valueOf .endpoint part).or entries.endpoint := by
  unfold IdentityEntries.add valueOf
  cases splitOnce '=' part with
  | none => rfl
  | some entry =>
      have hnames : "node".toList ≠ "endpoint".toList := by decide
      change _ =
        Option.or (if trim entry.1 = "endpoint".toList then _ else _) _
      generalize "node".toList = node at *
      generalize "endpoint".toList = endpoint at *
      dsimp only
      by_cases hname : trim entry.1 = endpoint
      · rw [if_neg fun hnode => hnames (hnode.symm.trans hname),
          if_pos hname, if_pos hname]
        rfl
      · rw [if_neg hname, if_neg hname]
        split_ifs <;> rfl

/-- The entries of an identity are those written last. -/
theorem foldl_add_node (entries : IdentityEntries) :
    (parts.foldl IdentityEntries.add entries).node =
      (lastValue .node parts).or entries.node := by
  induction parts generalizing entries with
  | nil => rfl
  | cons part parts ih =>
      rw [List.foldl_cons, ih, IdentityEntries.add_node, lastValue_cons,
        Option.or_assoc]

theorem foldl_add_endpoint (entries : IdentityEntries) :
    (parts.foldl IdentityEntries.add entries).endpoint =
      (lastValue .endpoint parts).or entries.endpoint := by
  induction parts generalizing entries with
  | nil => rfl
  | cons part parts ih =>
      rw [List.foldl_cons, ih, IdentityEntries.add_endpoint, lastValue_cons,
        Option.or_assoc]

/-- The node and the endpoint of an accepted identity. -/
theorem parseIdentity_ok {identity : String} {parsed : Identity}
    (h : parseIdentity identity = .ok parsed) :
    lastValue .node (identityParts identity) = some parsed.node.toList ∧
      lastValue .endpoint (identityParts identity) =
        some parsed.endpoint.toList := by
  unfold parseIdentity at h
  simp only [foldl_add_node, foldl_add_endpoint, Option.or_none] at h
  rw [← identityParts] at h
  cases hnode : lastValue .node (identityParts identity) with
  | none => simp [hnode] at h
  | some node =>
      cases hendpoint : lastValue .endpoint (identityParts identity) with
      | none => simp [hnode, hendpoint] at h
      | some endpoint =>
          simp only [hnode, hendpoint] at h
          split at h
          · cases h
            simp
          · cases h

theorem parseIdentity_of_values {identity : String}
    {node endpoint : List Char}
    (hnode : lastValue .node (identityParts identity) = some node)
    (hendpoint : lastValue .endpoint (identityParts identity) = some endpoint)
    (hdigits : node.all Char.isDigit = true)
    (hdigits' : endpoint.all Char.isDigit = true) :
    ∃ mac, parseIdentity identity =
      .ok ⟨String.ofList node, String.ofList endpoint, mac⟩ := by
  unfold parseIdentity
  simp only [foldl_add_node, foldl_add_endpoint, Option.or_none]
  rw [← identityParts]
  simp [hnode, hendpoint, hdigits, hdigits']

end Parsing

section Digits

variable {digits other : List Char}

/-- The digits of a text, the last one first. -/
def digitValues (digits : List Char) : List Nat :=
  (digits.map fun c => c.toNat - '0'.toNat).reverse

theorem ofDigitChars_append_singleton (digits : List Char) (c : Char)
    (n : Nat) :
    Nat.ofDigitChars 10 (digits ++ [c]) n =
      10 * Nat.ofDigitChars 10 digits n + (c.toNat - '0'.toNat) := by
  induction digits generalizing n with
  | nil => simp [Nat.ofDigitChars_cons]
  | cons d digits ih =>
      rw [List.cons_append, Nat.ofDigitChars_cons, Nat.ofDigitChars_cons, ih]

/-- The number of a text, from its digits. -/
theorem ofDigits_digitValues (digits : List Char) :
    Nat.ofDigits 10 (digitValues digits) = Nat.ofDigitChars 10 digits 0 := by
  induction digits using List.reverseRecOn with
  | nil => rfl
  | append_singleton digits c ih =>
      rw [ofDigitChars_append_singleton, ← ih]
      simp [digitValues, Nat.ofDigits_cons]
      omega

/-- Leading zeros do not count. -/
theorem ofDigitChars_dropWhile (digits : List Char) :
    Nat.ofDigitChars 10 (digits.dropWhile (· = '0')) 0 =
      Nat.ofDigitChars 10 digits 0 := by
  induction digits with
  | nil => rfl
  | cons c digits ih =>
      by_cases hc : c = '0'
      · subst hc
        rw [List.dropWhile_cons_of_pos (by simp), ih, Nat.ofDigitChars_cons]
        rfl
      · rw [List.dropWhile_cons_of_neg (by simpa using hc)]

theorem all_dropWhile (digits : List Char) :
    (digits.dropWhile (· = '0')).all Char.isDigit =
      digits.all Char.isDigit := by
  induction digits with
  | nil => rfl
  | cons c digits ih =>
      by_cases hc : c = '0'
      · subst hc
        rw [List.dropWhile_cons_of_pos (by simp), ih, List.all_cons]
        rfl
      · rw [List.dropWhile_cons_of_neg (by simpa using hc)]

theorem digit_bounds {c : Char} (h : c.isDigit = true) :
    48 ≤ c.toNat ∧ c.toNat ≤ 57 :=
  Char.isDigit_iff_toNat.mp h

/-- The digits of a number without leading zeros are determined by it. -/
theorem digitValues_eq (hdigits : digits.all Char.isDigit = true)
    (hhead : digits.head? ≠ some '0') :
    digitValues digits = Nat.digits 10 (Nat.ofDigitChars 10 digits 0) := by
  rw [← ofDigits_digitValues]
  refine (Nat.digits_ofDigits 10 (by decide) _ ?_ ?_).symm
  · intro d hd
    obtain ⟨c, hc, rfl⟩ : ∃ c ∈ digits, c.toNat - '0'.toNat = d := by
      simpa [digitValues] using hd
    have hbounds := digit_bounds (List.all_eq_true.mp hdigits c hc)
    change c.toNat - 48 < 10
    omega
  · intro hne
    cases digits with
    | nil => exact absurd rfl hne
    | cons c digits =>
        have hc := digit_bounds (List.all_eq_true.mp hdigits c (by simp))
        have hzero : c.toNat ≠ '0'.toNat := fun h =>
          hhead (congrArg some (Char.toNat_inj.mp h))
        simp only [digitValues, List.map_cons, List.reverse_cons,
          List.getLast_append_singleton]
        change c.toNat ≠ 48 at hzero
        change c.toNat - 48 ≠ 0
        omega

theorem digitValues_injective (hdigits : digits.all Char.isDigit = true)
    (hother : other.all Char.isDigit = true)
    (h : digitValues digits = digitValues other) : digits = other := by
  have hmap := List.reverse_injective h
  induction digits generalizing other with
  | nil =>
      cases other with
      | nil => rfl
      | cons d other => cases hmap
  | cons c digits ih =>
      cases other with
      | nil => cases hmap
      | cons d other =>
          simp only [List.map_cons, List.cons.injEq, List.all_cons,
            Bool.and_eq_true] at hmap hdigits hother
          have hc := digit_bounds hdigits.1
          have hd := digit_bounds hother.1
          have htail := ih hdigits.2 hother.2
            (congrArg List.reverse hmap.2) hmap.2
          have hhead : c.toNat - 48 = d.toNat - 48 := hmap.1
          rw [Char.toNat_inj.mp (show c.toNat = d.toNat by omega), htail]

theorem head?_dropWhile (digits : List Char) :
    (digits.dropWhile (· = '0')).head? ≠ some '0' := by
  intro h
  have hhead := List.head?_dropWhile_not (fun c => decide (c = '0')) digits
  rw [h] at hhead
  simp at hhead

/-- A number determines its digits up to leading zeros. -/
theorem number?_eq_some {n : Nat} (h : number? digits = some n) :
    digits ≠ [] ∧ digits.all Char.isDigit = true ∧
      Nat.ofDigitChars 10 digits 0 = n := by
  unfold number? at h
  split at h
  · rename_i hdigits
    exact ⟨hdigits.1, hdigits.2, Option.some.inj h⟩
  · cases h

theorem sameDigits_of_number {n : Nat} (h : number? digits = some n)
    (hother : number? other = some n) : SameDigits digits other := by
  obtain ⟨hne, hdigits, hn⟩ := number?_eq_some h
  obtain ⟨hne', hdigits', hn'⟩ := number?_eq_some hother
  refine ⟨hne, hne', digitValues_injective ?_ ?_ ?_⟩
  · rw [all_dropWhile, hdigits]
  · rw [all_dropWhile, hdigits']
  · rw [digitValues_eq (by rw [all_dropWhile, hdigits]) (head?_dropWhile _),
      digitValues_eq (by rw [all_dropWhile, hdigits']) (head?_dropWhile _),
      ofDigitChars_dropWhile, ofDigitChars_dropWhile, hn, hn']

theorem SameDigits.number (h : SameDigits digits other) :
    number? digits = number? other := by
  obtain ⟨hne, hne', hdrop⟩ := h
  have hdigits := all_dropWhile digits
  have hn := ofDigitChars_dropWhile digits
  rw [hdrop, all_dropWhile] at hdigits
  rw [hdrop, ofDigitChars_dropWhile] at hn
  simp [number?, hne, hne', hdigits, hn]

end Digits

section Respelling

variable {key : RelayKey} {parts others : List (List Char)}

/-- What the last entry of a name writes, as a number where it is one. -/
def reading (parts : List (List Char)) (key : RelayKey) :
    Option (Option Nat) :=
  (lastValue key parts).map number?

theorem reading_cons (part : List Char) :
    reading (part :: parts) key =
      (reading parts key).or ((valueOf key part).map number?) := by
  unfold reading
  rw [lastValue_cons]
  cases lastValue key parts <;> rfl

/-- An edit does not change what is read. -/
theorem Edit.reading (h : Edit parts others) :
    reading parts key = reading others key := by
  induction h with
  | behind part h ih => rw [reading_cons, reading_cons, ih]
  | ignored parts hpart =>
      rw [reading_cons, hpart key, Option.map_none, Option.or_none]
  | @overridden part parts name hpart hlater =>
      rw [reading_cons]
      by_cases hkey : key = name
      · subst hkey
        obtain ⟨value, hvalue⟩ := Option.isSome_iff_exists.mp hlater
        simp [RpictlMcp.reading, hvalue]
      · rw [hpart key hkey, Option.map_none, Option.or_none]
  | swapped parts hnames =>
      simp only [reading_cons]
      rcases hnames key with h | h <;> simp [h]
  | @rewritten part other value digits name parts hpart hother hdigits =>
      rw [reading_cons, reading_cons]
      by_cases hkey : key = name
      · subst hkey
        rw [hpart, hother, Option.map_some, Option.map_some, hdigits.number]
      · rw [valueOf_unique hpart _ hkey, valueOf_unique hother _ hkey]

theorem reading_of_edits (h : Relation.EqvGen Edit parts others) :
    reading parts key = reading others key := by
  induction h with
  | rel parts others h => exact h.reading
  | refl parts => rfl
  | symm parts others h ih => exact ih.symm
  | trans parts others more h hmore ih ihmore => exact ih.trans ihmore

/-- Edits happen behind any part. -/
theorem edits_behind (part : List Char)
    (h : Relation.EqvGen Edit parts others) :
    Relation.EqvGen Edit (part :: parts) (part :: others) := by
  induction h with
  | rel parts others h => exact .rel _ _ (.behind part h)
  | refl parts => exact .refl _
  | symm parts others h ih => exact ih.symm
  | trans parts others more h hmore ih ihmore => exact ih.trans _ _ _ ihmore

/-- The last entry of a name, as it stands. -/
def lastEntry (key : RelayKey) : List (List Char) → Option (List Char)
  | [] => none
  | part :: parts =>
      (lastEntry key parts).or
        (if (valueOf key part).isSome then some part else none)

theorem lastEntry_isSome (key : RelayKey) (parts : List (List Char)) :
    (lastEntry key parts).isSome = (lastValue key parts).isSome := by
  induction parts with
  | nil => rfl
  | cons part parts ih =>
      rw [lastEntry, lastValue_cons, Option.isSome_or, Option.isSome_or, ih]
      cases valueOf key part <;> rfl

theorem valueOf_lastEntry (parts : List (List Char)) :
    (lastEntry key parts).bind (valueOf key) = lastValue key parts := by
  induction parts with
  | nil => rfl
  | cons part parts ih =>
      have hsome := lastEntry_isSome key parts
      rw [lastEntry, lastValue_cons, ← ih]
      cases hlast : lastEntry key parts with
      | some entry =>
          rw [hlast, ← ih, hlast] at hsome
          obtain ⟨value, hvalue⟩ := Option.isSome_iff_exists.mp hsome.symm
          simp only [Option.some_or, hvalue]
      | none =>
          cases hvalue : valueOf key part <;> simp [hvalue]

theorem valueOf_of_lastEntry {entry : List Char}
    (h : lastEntry key parts = some entry) :
    ∃ value, valueOf key entry = some value := by
  have hsome := lastEntry_isSome key parts
  rw [← valueOf_lastEntry, h] at hsome
  exact Option.isSome_iff_exists.mp hsome.symm

/-- The two entries that count. -/
def relayEntries (parts : List (List Char)) : List (List Char) :=
  (lastEntry .node parts).toList ++ (lastEntry .endpoint parts).toList

/-- A node entry in front of the entries that count. -/
theorem edits_node {part value : List Char}
    (hpart : valueOf .node part = some value) (parts : List (List Char)) :
    Relation.EqvGen Edit (part :: relayEntries parts)
      (relayEntries (part :: parts)) := by
  have hendpoint := valueOf_unique hpart .endpoint (by decide)
  unfold relayEntries
  simp only [lastEntry, hpart, hendpoint, Option.isSome_some, if_true,
    Option.isSome_none, Bool.false_eq_true, if_false, Option.or_none]
  cases hnode : lastEntry .node parts with
  | none => exact .refl _
  | some entry =>
      obtain ⟨later, hlater⟩ := valueOf_of_lastEntry hnode
      refine .rel _ _ (.overridden .node (valueOf_unique hpart) ?_)
      simp [hlater]

/-- An endpoint entry in front of the entries that count. -/
theorem edits_endpoint {part value : List Char}
    (hpart : valueOf .endpoint part = some value)
    (parts : List (List Char)) :
    Relation.EqvGen Edit (part :: relayEntries parts)
      (relayEntries (part :: parts)) := by
  have hnode := valueOf_unique hpart .node (by decide)
  unfold relayEntries
  simp only [lastEntry, hpart, hnode, Option.isSome_some, if_true,
    Option.isSome_none, Bool.false_eq_true, if_false, Option.or_none]
  cases hendpoint : lastEntry .endpoint parts with
  | some entry =>
      obtain ⟨later, hlater⟩ := valueOf_of_lastEntry hendpoint
      refine .rel _ _ (.overridden .endpoint (valueOf_unique hpart) ?_)
      cases lastEntry .node parts <;> simp [hlater]
  | none =>
      cases hentry : lastEntry .node parts with
      | none => exact .refl _
      | some entry =>
          obtain ⟨name, hname⟩ := valueOf_of_lastEntry hentry
          have hother := valueOf_unique hname .endpoint (by decide)
          refine .rel _ _ (.swapped [] ?_)
          rintro (- | -)
          · exact .inl hnode
          · exact .inr hother

/-- Every identity can be edited down to the two entries that count. -/
theorem edits_relayEntries (parts : List (List Char)) :
    Relation.EqvGen Edit parts (relayEntries parts) := by
  induction parts with
  | nil => exact .refl _
  | cons part parts ih =>
      refine (edits_behind part ih).trans _ _ _ ?_
      cases hnode : valueOf .node part with
      | some value => exact edits_node hnode parts
      | none =>
          cases hendpoint : valueOf .endpoint part with
          | some value => exact edits_endpoint hendpoint parts
          | none =>
              have hsame : relayEntries (part :: parts) = relayEntries parts := by
                simp [relayEntries, lastEntry, hnode, hendpoint]
              rw [hsame]
              refine .rel _ _ (.ignored _ ?_)
              rintro (- | -)
              · exact hnode
              · exact hendpoint

/-- The entry from which a number has been read. -/
theorem entry_of_reading {n : Nat} (h : reading parts key = some (some n)) :
    ∃ entry value, lastEntry key parts = some entry ∧
      valueOf key entry = some value ∧ number? value = some n := by
  obtain ⟨value, hvalue, hn⟩ := Option.map_eq_some_iff.mp h
  rw [← valueOf_lastEntry] at hvalue
  obtain ⟨entry, hlast, hentry⟩ := Option.bind_eq_some_iff.mp hvalue
  exact ⟨entry, value, hlast, hentry, hn⟩

/-- The entries of a relay are determined up to their spelling. -/
theorem edits_of_readings {node endpoint : Nat}
    (hparts : reading parts .node = some (some node) ∧
      reading parts .endpoint = some (some endpoint))
    (hothers : reading others .node = some (some node) ∧
      reading others .endpoint = some (some endpoint)) :
    Relation.EqvGen Edit parts others := by
  obtain ⟨a, v, ha, hv, hnode⟩ := entry_of_reading hparts.1
  obtain ⟨b, w, hb, hw, hendpoint⟩ := entry_of_reading hparts.2
  obtain ⟨a', v', ha', hv', hnode'⟩ := entry_of_reading hothers.1
  obtain ⟨b', w', hb', hw', hendpoint'⟩ := entry_of_reading hothers.2
  have hcanon : relayEntries parts = [a, b] := by simp [relayEntries, ha, hb]
  have hcanon' : relayEntries others = [a', b'] := by
    simp [relayEntries, ha', hb']
  have hentries : Relation.EqvGen Edit [a, b] [a', b'] :=
    .trans _ [a', b] _
      (.rel _ _ (.rewritten [b] hv hv' (sameDigits_of_number hnode hnode')))
      (.rel _ _ (.behind a' (.rewritten [] hw hw'
        (sameDigits_of_number hendpoint hendpoint'))))
  have hleft := edits_relayEntries parts
  have hright := edits_relayEntries others
  rw [hcanon] at hleft
  rw [hcanon'] at hright
  exact hleft.trans _ _ _ (hentries.trans _ _ _ hright.symm)

end Respelling

section Configuration

variable {a b : BoardProfile}

/-- A relay that the service addresses for a board. -/
def Addresses (profile : BoardProfile) (relay : Nat × Nat) : Prop :=
  ∃ identity, HasRelay profile identity ∧ identity.relay? = some relay

/-- No two boards address one relay. -/
def RelaysDistinct (config : Config) : Prop :=
  config.boards.Pairwise fun a b =>
    ∀ relay, Addresses a relay → ¬Addresses b relay

/-- The identity of a board is another spelling of that of a second board. -/
def Shadows (a b : BoardProfile) : Prop :=
  a.power.identity ≠ b.power.identity ∧
    Respelled a.power.identity b.power.identity

theorem Identity.relay?_eq_some {identity : Identity} {relay : Nat × Nat}
    (h : identity.relay? = some relay) :
    number? identity.node.toList = some relay.1 ∧
      number? identity.endpoint.toList = some relay.2 := by
  obtain ⟨node, hnode, h⟩ := Option.bind_eq_some_iff.mp h
  obtain ⟨endpoint, hendpoint, rfl⟩ := Option.map_eq_some_iff.mp h
  exact ⟨hnode, hendpoint⟩

/-- The relay of a board, read from the parts of its identity. -/
theorem Addresses.readings {relay : Nat × Nat} (h : Addresses a relay) :
    reading (identityParts a.power.identity) .node = some (some relay.1) ∧
      reading (identityParts a.power.identity) .endpoint =
        some (some relay.2) := by
  obtain ⟨identity, hrelay, hnumbers⟩ := h
  obtain ⟨hnode, hendpoint⟩ := parseIdentity_ok hrelay.parsed
  obtain ⟨hfirst, hsecond⟩ := Identity.relay?_eq_some hnumbers
  simp only [reading, hnode, hendpoint, Option.map_some, hfirst, hsecond,
    and_self]

/-- Boards that address one relay spell it in two ways, if their strings
differ. -/
theorem Addresses.respelled {relay : Nat × Nat} (ha : Addresses a relay)
    (hb : Addresses b relay) :
    Respelled a.power.identity b.power.identity :=
  edits_of_readings ha.readings hb.readings

/-- What another spelling of the identity of an addressable board says. -/
theorem Addresses.of_respelled {relay : Nat × Nat} (ha : Addresses a relay)
    (hbackend : b.power.backend = "matter")
    (h : Respelled a.power.identity b.power.identity) :
    Addresses b relay := by
  obtain ⟨hnode, hendpoint⟩ := ha.readings
  rw [reading_of_edits h] at hnode hendpoint
  obtain ⟨node, hlast, hn⟩ := Option.map_eq_some_iff.mp hnode
  obtain ⟨endpoint, hlast', hn'⟩ := Option.map_eq_some_iff.mp hendpoint
  obtain ⟨mac, hparsed⟩ := parseIdentity_of_values hlast hlast'
    (number?_eq_some hn).2.1 (number?_eq_some hn').2.1
  refine ⟨_, ⟨hbackend, hparsed⟩, ?_⟩
  simp [Identity.relay?, hn, hn']

/-- The identities of an accepted configuration differ as strings. -/
theorem identities_differ (registry : BoardRegistry) :
    registry.config.boards.Pairwise fun a b =>
      a.power.backend = b.power.backend →
        a.power.identity ≠ b.power.identity := by
  have hrelays := registry.wellFormed.relays
  rw [List.Nodup, List.pairwise_map] at hrelays
  exact hrelays.imp fun hdiffer hbackend hidentity =>
    hdiffer (by rw [hbackend, hidentity])

/--
Two boards of an accepted configuration address one relay exactly when the
identity of the one is another spelling of the identity of the other.
-/
theorem relaysDistinct_iff (registry : BoardRegistry) :
    RelaysDistinct registry.config ↔
      registry.config.boards.Pairwise fun a b =>
        (∃ relay, Addresses a relay) → b.power.backend = "matter" →
          ¬Shadows a b := by
  have hstrings := identities_differ registry
  constructor
  · intro h
    refine h.imp fun hdistinct ⟨relay, ha⟩ hbackend hshadows => ?_
    exact hdistinct relay ha (ha.of_respelled hbackend hshadows.2)
  · intro h
    refine h.imp₂ (fun a b hspelling hdiffer relay ha hb => ?_) hstrings
    obtain ⟨identity, hrelay, -⟩ := id ha
    obtain ⟨identity', hrelay', -⟩ := id hb
    exact hspelling ⟨relay, ha⟩ hrelay'.backend
      ⟨hdiffer (hrelay.backend.trans hrelay'.backend.symm),
        ha.respelled hb⟩

/-- Two boards that a space keeps apart in the configuration only. -/
def twinConfig : Config :=
  { boards := [simulated, { simulated with
      boardId := "twin"
      serial := { device := "/dev/pts/2" }
      power := ⟨"matter", "node=991; endpoint=1"⟩ }] }

/-- An accepted configuration in which two boards address one relay. -/
theorem relays_shared :
    ¬∀ config : Config, config.validate = .ok () → RelaysDistinct config := by
  intro h
  have hdistinct := h twinConfig (by decide)
  refine List.rel_of_pairwise_cons hdistinct (List.mem_singleton.mpr rfl)
    (991, 1) ⟨⟨"991", "1", none⟩, ⟨rfl, by decide⟩, by decide⟩ ?_
  exact ⟨⟨"991", "1", none⟩, ⟨rfl, by decide⟩, by decide⟩

/-- The relay that a relay command is sent to. -/
def Command.target? (command : Command) : Option (Nat × Nat) :=
  match command.args with
  | [_, _, node, endpoint] =>
      (number? node.toList).bind fun node =>
        (number? endpoint.toList).map fun endpoint => (node, endpoint)
  | _ => none

/-- A call of `set_power` sends its relay command to the relay of its board. -/
theorem SetPowerTrace.addresses {on on' : Bool} {t : List Event}
    {r : Result PowerObservation} {command : Command} {relay : Nat × Nat}
    (h : SetPowerTrace a on r t) (hlaunched : .launched command ∈ t)
    (hrelay : command.relay? = some on')
    (htarget : command.target? = some relay) : Addresses a relay := by
  have hcalm : ∀ {q : List Event}, Calm q → .launched command ∉ q := by
    intro q hq hmem
    have := hq _ hmem
    simp [Event.isCalm, Event.isPassive, hrelay] at this
  cases h with
  | refused hq hreject => simp [hcalm hq] at hlaunched
  | @launched r q rest before identity hq _ hidentity _ _ hrest =>
      have hcommand : command = switchRelay identity on := by
        simpa [hcalm hq.calm, hcalm hrest.calm] using hlaunched
      subst hcommand
      exact ⟨identity, hidentity, htarget⟩

/-- Where no two boards address one relay, a call of `set_power` for one board
never switches the relay of another. -/
theorem RelaysDistinct.exclusive {config : Config}
    (h : RelaysDistinct config) {i j : Nat} (hij : i ≠ j)
    (ha : config.boards[i]? = some a) (hb : config.boards[j]? = some b)
    {on on' : Bool} {r r' : Result PowerObservation} {t t' : List Event}
    (ht : SetPowerTrace a on r t) (ht' : SetPowerTrace b on' r' t')
    {command other : Command} (hcommand : .launched command ∈ t)
    (hother : .launched other ∈ t') (hrelay : command.relay?.isSome)
    (hrelay' : other.relay?.isSome) {relay : Nat × Nat}
    (htarget : command.target? = some relay) :
    other.target? ≠ some relay := by
  intro htarget'
  obtain ⟨position, hposition⟩ := Option.isSome_iff_exists.mp hrelay
  obtain ⟨position', hposition'⟩ := Option.isSome_iff_exists.mp hrelay'
  have hfirst := ht.addresses hcommand hposition htarget
  have hsecond := ht'.addresses hother hposition' htarget'
  obtain ⟨hi, rfl⟩ := List.getElem?_eq_some_iff.mp ha
  obtain ⟨hj, rfl⟩ := List.getElem?_eq_some_iff.mp hb
  rcases Nat.lt_or_gt_of_ne hij with hlt | hlt
  · exact List.pairwise_iff_getElem.mp h i j hi hj hlt relay hfirst hsecond
  · exact List.pairwise_iff_getElem.mp h j i hj hi hlt relay hsecond hfirst

end Configuration

end RpictlMcp
