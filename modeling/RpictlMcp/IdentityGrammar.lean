import RpictlMcp.RelayIdentity

/-!
# rpictl-mcp: the grammar of power identities

A power identity is a list of entries between semicolons, each of which has a
key and a value on the two sides of its first equals sign.  The last entry of a
key counts, and a node and an endpoint must be given by numerals.
`parse_identity` accepts these identities and takes their values.  Since it tests
the digits one by one, it accepts one kind of identity more: those in which a
node or an endpoint is given, but empty.
-/

namespace RpictlMcp

attribute [ext] IdentityEntries

section Grammar

variable {separator : Char} {text key value part front back : List Char}
variable {parts : List (List Char)}

/-- The pieces of a text between the separators in it. -/
structure SplitsAt (separator : Char) (text : List Char)
    (parts : List (List Char)) : Prop where
  text_eq : text = [separator].intercalate parts
  nonempty : parts ≠ []
  free : ∀ part ∈ parts, separator ∉ part

/-- An entry has a key in front of its first equals sign and a value behind. -/
def IsEntry (part key value : List Char) : Prop :=
  ∃ front back, part = front ++ '=' :: back ∧ '=' ∉ front ∧
    trim front = key ∧ trim back = value

/-- The entry of a key that no later entry of the key overrides. -/
def LastEntry (parts : List (List Char)) (key value : List Char) : Prop :=
  ∃ earlier part later, parts = earlier ++ part :: later ∧
    IsEntry part key value ∧ ∀ other ∈ later, ∀ v, ¬IsEntry other key v

/-- A nonempty text of digits. -/
def IsNumeral (text : List Char) : Prop :=
  text ≠ [] ∧ ∀ c ∈ text, c.isDigit = true

/-- The hardware address of an identity, as it is compared. -/
def MacOf (parts : List (List Char)) (mac : Option String) : Prop :=
  (∃ value, LastEntry parts "mac".toList value ∧
      mac = some (String.ofList (normalizeMac value))) ∨
    (∀ value, ¬LastEntry parts "mac".toList value) ∧ mac = none

/-- A well-formed identity and what it stands for. -/
def IdentityGrammar (identity : String) (parsed : Identity) : Prop :=
  ∃ parts, SplitsAt ';' identity.toList parts ∧
    LastEntry parts "node".toList parsed.node.toList ∧
    LastEntry parts "endpoint".toList parsed.endpoint.toList ∧
    IsNumeral parsed.node.toList ∧ IsNumeral parsed.endpoint.toList ∧
    MacOf parts parsed.mac

/--
The well-formed identities are accepted with what they stand for, and every
other one is rejected for the configuration.
-/
structure ParsesGrammar (identity : String) : Prop where
  accepts : ∀ parsed,
    parseIdentity identity = .ok parsed ↔ IdentityGrammar identity parsed
  rejects : ∀ error, parseIdentity identity = .error error →
    error.code = .invalidConfiguration

/-- Node and endpoint have no other characters than digits, and one of them has
none at all. -/
def EmptyNumber (identity : String) : Prop :=
  ∃ parts node endpoint, SplitsAt ';' identity.toList parts ∧
    LastEntry parts "node".toList node ∧
    LastEntry parts "endpoint".toList endpoint ∧
    (∀ c ∈ node ++ endpoint, c.isDigit = true) ∧ (node = [] ∨ endpoint = [])

/-- The pieces between separators have no separator. -/
theorem not_mem_of_mem_splitOn (h : part ∈ text.splitOn separator) :
    separator ∉ part := by
  induction text generalizing part with
  | nil =>
      obtain rfl : part = [] := by simpa using h
      exact List.not_mem_nil
  | cons c text ih =>
      rw [List.splitOn_cons_eq_if_modifyHead] at h
      split at h
      · rcases List.mem_cons.mp h with rfl | hmem
        · exact List.not_mem_nil
        · exact ih hmem
      · rename_i hc
        have hne : separator ≠ c := fun heq => hc (by simp [heq])
        cases hsplit : text.splitOn separator with
        | nil => simp [hsplit] at h
        | cons first rest =>
            rw [hsplit, List.modifyHead_cons] at h
            rcases List.mem_cons.mp h with rfl | hmem
            · have hfirst : separator ∉ first := ih (by simp [hsplit])
              simpa using ⟨hne, hfirst⟩
            · exact ih (by simp [hsplit, hmem])

theorem splitsAt_iff :
    SplitsAt separator text parts ↔ text.splitOn separator = parts := by
  constructor
  · intro h
    rw [h.text_eq, List.splitOn_intercalate separator h.free h.nonempty]
  · rintro rfl
    constructor
    · rw [List.intercalate_splitOn]
    · exact List.splitOn_ne_nil separator text
    · exact fun part hpart => not_mem_of_mem_splitOn hpart

/-- The first separator splits a text in two. -/
theorem splitOnce_eq_some_iff :
    splitOnce separator text = some (front, back) ↔
      text = front ++ separator :: back ∧ separator ∉ front := by
  constructor
  · intro h
    unfold splitOnce at h
    split at h
    · cases h
    · rename_i c value hdrop
      obtain ⟨rfl, rfl⟩ : text.takeWhile (· ≠ separator) = front ∧
          value = back := by simpa using h
      have hhead := List.head?_dropWhile_not (· ≠ separator) text
      rw [hdrop] at hhead
      obtain rfl : c = separator := by simpa using hhead
      constructor
      · rw [← hdrop, List.takeWhile_append_dropWhile]
      · intro hmem
        have hkept := List.all_eq_true.mp List.all_takeWhile _ hmem
        simp at hkept
  · rintro ⟨rfl, hfree⟩
    have hkeep : ∀ c ∈ front, decide (c ≠ separator) = true := by
      intro c hc
      exact decide_eq_true fun heq => hfree (heq ▸ hc)
    have hdrop : (front ++ separator :: back).dropWhile (· ≠ separator) =
        separator :: back := by
      rw [List.dropWhile_append_of_pos hkeep,
        List.dropWhile_cons_of_neg (by simp)]
    have htake : (front ++ separator :: back).takeWhile (· ≠ separator) =
        front := by
      rw [List.takeWhile_append_of_pos hkeep,
        List.takeWhile_cons_of_neg (by simp), List.append_nil]
    rw [splitOnce, hdrop, htake]

/-- What a part writes under a key. -/
def writtenUnder (key part : List Char) : Option (List Char) :=
  match splitOnce '=' part with
  | none => none
  | some (name, value) => if trim name = key then some (trim value) else none

theorem writtenUnder_eq_some_iff :
    writtenUnder key part = some value ↔ IsEntry part key value := by
  unfold writtenUnder
  constructor
  · intro h
    cases hsplit : splitOnce '=' part with
    | none => simp [hsplit] at h
    | some entry =>
        obtain ⟨front, back⟩ := entry
        obtain ⟨hpart, hfree⟩ := splitOnce_eq_some_iff.mp hsplit
        simp only [hsplit] at h
        split at h
        · rename_i hkey
          exact ⟨front, back, hpart, hfree, hkey, Option.some.inj h⟩
        · cases h
  · rintro ⟨front, back, hpart, hfree, hkey, hvalue⟩
    rw [splitOnce_eq_some_iff.mpr ⟨hpart, hfree⟩]
    simp only [hkey, if_true, hvalue]

/-- What the last entry of a key writes. -/
def lastWritten (key : List Char) : List (List Char) → Option (List Char)
  | [] => none
  | part :: parts => (lastWritten key parts).or (writtenUnder key part)

@[simp] theorem lastWritten_nil : lastWritten key [] = none := rfl

@[simp] theorem lastWritten_cons :
    lastWritten key (part :: parts) =
      (lastWritten key parts).or (writtenUnder key part) := rfl

/-- The entries that address the relay are entries like any other. -/
theorem lastValue_eq (key : RelayKey) (parts : List (List Char)) :
    lastValue key parts = lastWritten key.name parts := by
  induction parts with
  | nil => rfl
  | cons part parts ih => rw [lastValue_cons, lastWritten_cons, ih]; rfl

theorem lastWritten_eq_none_iff :
    lastWritten key parts = none ↔
      ∀ part ∈ parts, ∀ value, ¬IsEntry part key value := by
  induction parts with
  | nil => simp
  | cons part parts ih =>
      rw [lastWritten_cons, Option.or_eq_none_iff, ih, List.forall_mem_cons,
        and_comm, Option.eq_none_iff_forall_ne_some]
      simp only [ne_eq, writtenUnder_eq_some_iff]

/-- The last entry of a key is the one that counts. -/
theorem lastWritten_eq_some_iff :
    lastWritten key parts = some value ↔ LastEntry parts key value := by
  induction parts with
  | nil =>
      simp [LastEntry]
  | cons part parts ih =>
      rw [lastWritten_cons, Option.or_eq_some_iff, ih, writtenUnder_eq_some_iff,
        lastWritten_eq_none_iff]
      constructor
      · rintro (⟨earlier, entry, later, rfl, hentry, hlast⟩ | ⟨hnone, hentry⟩)
        · exact ⟨part :: earlier, entry, later, rfl, hentry, hlast⟩
        · exact ⟨[], part, parts, rfl, hentry, hnone⟩
      · rintro ⟨earlier, entry, later, hparts, hentry, hlast⟩
        cases earlier with
        | nil =>
            obtain ⟨rfl, rfl⟩ : part = entry ∧ parts = later := by
              simpa using hparts
            exact .inr ⟨hlast, hentry⟩
        | cons first earlier =>
            obtain ⟨rfl, rfl⟩ : part = first ∧
                parts = earlier ++ entry :: later := by simpa using hparts
            exact .inl ⟨earlier, entry, later, rfl, hentry, hlast⟩

/-- The hardware address after one more part. -/
theorem IdentityEntries.add_mac (entries : IdentityEntries)
    (part : List Char) :
    (entries.add part).mac =
      ((writtenUnder "mac".toList part).map normalizeMac).or entries.mac := by
  unfold IdentityEntries.add writtenUnder
  cases splitOnce '=' part with
  | none => rfl
  | some entry =>
      have hnode : "node".toList ≠ "mac".toList := by decide
      have hendpoint : "endpoint".toList ≠ "mac".toList := by decide
      change _ = Option.or (Option.map normalizeMac
        (if trim entry.1 = "mac".toList then _ else _)) _
      generalize "node".toList = node at *
      generalize "endpoint".toList = endpoint at *
      generalize "mac".toList = mac at *
      dsimp only
      by_cases hname : trim entry.1 = mac
      · rw [if_neg fun h => hnode (h.symm.trans hname),
          if_neg fun h => hendpoint (h.symm.trans hname), if_pos hname,
          if_pos hname]
        rfl
      · rw [if_neg hname, if_neg hname]
        split_ifs <;> rfl

theorem foldl_add_mac (entries : IdentityEntries) :
    (parts.foldl IdentityEntries.add entries).mac =
      ((lastWritten "mac".toList parts).map normalizeMac).or entries.mac := by
  induction parts generalizing entries with
  | nil => rfl
  | cons part parts ih =>
      rw [List.foldl_cons, ih, IdentityEntries.add_mac, lastWritten_cons,
        ← Option.or_assoc, Option.map_or]

/-- The end of `parse_identity`. -/
theorem ok_of_entries_iff {node? endpoint? mac? : Option (List Char)}
    {parsed : Identity} :
    (match node?, endpoint? with
      | some node, some endpoint =>
          if node.all Char.isDigit && endpoint.all Char.isDigit then
            .ok ⟨String.ofList node, String.ofList endpoint,
              mac?.map String.ofList⟩
          else .error identityError
      | _, _ => .error identityError) = (.ok parsed : Result Identity) ↔
      node? = some parsed.node.toList ∧
        endpoint? = some parsed.endpoint.toList ∧
        parsed.node.toList.all Char.isDigit = true ∧
        parsed.endpoint.toList.all Char.isDigit = true ∧
        parsed.mac = mac?.map String.ofList := by
  constructor
  · intro h
    split at h
    · rename_i node endpoint
      split at h
      · rename_i hdigits
        rw [Bool.and_eq_true] at hdigits
        cases h
        simpa using hdigits
      · cases h
    · cases h
  · rintro ⟨rfl, rfl, hnode, hendpoint, hmac⟩
    simp only [hnode, hendpoint, Bool.and_self, if_true, String.ofList_toList,
      ← hmac]

/-- What `parse_identity` has read at the end. -/
theorem foldl_add (parts : List (List Char)) :
    parts.foldl IdentityEntries.add ⟨none, none, none⟩ =
      ⟨lastWritten "node".toList parts, lastWritten "endpoint".toList parts,
        (lastWritten "mac".toList parts).map normalizeMac⟩ := by
  have hnode : (parts.foldl IdentityEntries.add ⟨none, none, none⟩).node =
      lastWritten "node".toList parts := by
    rw [foldl_add_node, Option.or_none, lastValue_eq]
    rfl
  have hendpoint :
      (parts.foldl IdentityEntries.add ⟨none, none, none⟩).endpoint =
        lastWritten "endpoint".toList parts := by
    rw [foldl_add_endpoint, Option.or_none, lastValue_eq]
    rfl
  have hmac : (parts.foldl IdentityEntries.add ⟨none, none, none⟩).mac =
      (lastWritten "mac".toList parts).map normalizeMac := by
    rw [foldl_add_mac, Option.or_none]
  exact IdentityEntries.ext hnode hendpoint hmac

/-- `parse_identity`, by what the last entries write. -/
theorem parseIdentity_eq_ok_iff {identity : String} {parsed : Identity} :
    parseIdentity identity = .ok parsed ↔
      lastWritten "node".toList (identityParts identity) =
          some parsed.node.toList ∧
        lastWritten "endpoint".toList (identityParts identity) =
          some parsed.endpoint.toList ∧
        parsed.node.toList.all Char.isDigit = true ∧
        parsed.endpoint.toList.all Char.isDigit = true ∧
        parsed.mac = ((lastWritten "mac".toList
          (identityParts identity)).map normalizeMac).map String.ofList := by
  rw [parseIdentity, ← identityParts, foldl_add]
  exact ok_of_entries_iff

theorem macOf_iff {mac : Option String} :
    MacOf parts mac ↔
      mac = ((lastWritten "mac".toList parts).map normalizeMac).map
        String.ofList := by
  unfold MacOf
  simp only [← lastWritten_eq_some_iff]
  cases lastWritten "mac".toList parts with
  | none => simp
  | some value => simp

theorem identityGrammar_iff {identity : String} {parsed : Identity} :
    IdentityGrammar identity parsed ↔
      parseIdentity identity = .ok parsed ∧
        parsed.node.toList ≠ [] ∧ parsed.endpoint.toList ≠ [] := by
  rw [parseIdentity_eq_ok_iff, List.all_eq_true, List.all_eq_true]
  simp only [lastWritten_eq_some_iff, ← macOf_iff]
  constructor
  · rintro ⟨parts, hsplit, hnode, hendpoint, ⟨hne, hdigits⟩, ⟨hne', hdigits'⟩,
      hmac⟩
    obtain rfl := splitsAt_iff.mp hsplit
    exact ⟨⟨hnode, hendpoint, hdigits, hdigits', hmac⟩, hne, hne'⟩
  · rintro ⟨⟨hnode, hendpoint, hdigits, hdigits', hmac⟩, hne, hne'⟩
    exact ⟨_, splitsAt_iff.mpr rfl, hnode, hendpoint, ⟨hne, hdigits⟩,
      ⟨hne', hdigits'⟩, hmac⟩

/-- An accepted identity without a numeral has an empty number. -/
theorem emptyNumber_iff {identity : String} :
    EmptyNumber identity ↔ ∃ parsed, parseIdentity identity = .ok parsed ∧
      (parsed.node.toList = [] ∨ parsed.endpoint.toList = []) := by
  constructor
  · rintro ⟨parts, node, endpoint, hsplit, hnode, hendpoint, hdigits, hempty⟩
    obtain rfl := splitsAt_iff.mp hsplit
    refine ⟨⟨String.ofList node, String.ofList endpoint,
      ((lastWritten "mac".toList (identityParts identity)).map
        normalizeMac).map String.ofList⟩, parseIdentity_eq_ok_iff.mpr ?_, ?_⟩
    · simp only [lastWritten_eq_some_iff, String.toList_ofList,
        List.all_eq_true]
      refine ⟨hnode, hendpoint, ?_, ?_, trivial⟩
      · exact fun c hc => hdigits c (List.mem_append_left _ hc)
      · exact fun c hc => hdigits c (List.mem_append_right _ hc)
    · simpa using hempty
  · rintro ⟨parsed, hparsed, hempty⟩
    rw [parseIdentity_eq_ok_iff, List.all_eq_true, List.all_eq_true,
      lastWritten_eq_some_iff, lastWritten_eq_some_iff] at hparsed
    obtain ⟨hnode, hendpoint, hdigits, hdigits', -⟩ := hparsed
    refine ⟨_, _, _, splitsAt_iff.mpr rfl, hnode, hendpoint, ?_, hempty⟩
    intro c hc
    rcases List.mem_append.mp hc with hc | hc
    · exact hdigits c hc
    · exact hdigits' c hc

/--
`parse_identity` follows the grammar of power identities on a string exactly if
the string does not give an empty node or endpoint in place of a numeral.
-/
theorem parseIdentity_grammar_iff (identity : String) :
    ParsesGrammar identity ↔ ¬EmptyNumber identity := by
  rw [emptyNumber_iff]
  constructor
  · rintro ⟨haccepts, -⟩ ⟨parsed, hparsed, hempty⟩
    obtain ⟨-, hnode, hendpoint⟩ :=
      identityGrammar_iff.mp ((haccepts parsed).mp hparsed)
    exact hempty.elim hnode hendpoint
  · intro hnumerals
    constructor
    · intro parsed
      rw [identityGrammar_iff]
      constructor
      · intro hparsed
        rw [← not_or]
        exact ⟨hparsed, fun hempty => hnumerals ⟨parsed, hparsed, hempty⟩⟩
      · exact And.left
    · intro error herror
      exact code_of_parseIdentity herror

/-- An identity with an empty node is accepted. -/
theorem parseIdentity_empty_node :
    parseIdentity "node=;endpoint=1" = .ok ⟨"", "1", none⟩ ∧
      ¬ParsesGrammar "node=;endpoint=1" := by
  have hparsed : parseIdentity "node=;endpoint=1" = .ok ⟨"", "1", none⟩ := by
    decide
  constructor
  · exact hparsed
  · intro hfollows
    have hgrammar := (hfollows.accepts _).mp hparsed
    exact (identityGrammar_iff.mp hgrammar).2.1 rfl

end Grammar

end RpictlMcp
