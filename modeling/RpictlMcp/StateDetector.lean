import RpictlMcp.Config
import RpictlMcp.SerialRing
import RpictlMcp.Kernel.Occurrence
import RpictlMcp.Kernel.Utf8Lossy

/-!
# rpictl-mcp: the state detector

This module embeds `state.rs`.  `StateDetector::observe` decodes console bytes,
looks for the last occurrence of each configured pattern and reports the state
whose pattern begins last.  The offsets of the decoded text are byte offsets, as
in the source.  A confidence is given in hundredths.

The two facts the rest of the development uses are that an observed state comes
with an occurrence of its own pattern in the decoded bytes, and that older
console text, if an ASCII byte separates it, cannot change what is observed.
-/

namespace RpictlMcp

/-- The states of a board. -/
inductive BoardState where
  | poweredOff
  | poweringOn
  | bootRomOrFirmware
  | ubootCountdown
  | ubootPrompt
  | linuxBooting
  | linuxLogin
  | linuxShell
  | shutdownInProgress
  | applicationRunning
  | unresponsive
  | unknown
deriving DecidableEq, Repr

/-- The name of a state on the wire. -/
def stateName : BoardState → String
  | .poweredOff => "powered_off"
  | .poweringOn => "powering_on"
  | .bootRomOrFirmware => "boot_rom_or_firmware"
  | .ubootCountdown => "uboot_countdown"
  | .ubootPrompt => "uboot_prompt"
  | .linuxBooting => "linux_booting"
  | .linuxLogin => "linux_login"
  | .linuxShell => "linux_shell"
  | .shutdownInProgress => "shutdown_in_progress"
  | .applicationRunning => "application_running"
  | .unresponsive => "unresponsive"
  | .unknown => "unknown"

/-- An observed state and what it was observed from. -/
structure StateEvidence where
  state : BoardState
  confidence : Nat
  timestamp : SystemTime
  generation : Nat
  evidence : Text
  activeProbe : Bool
deriving DecidableEq, Repr

/-- The states that can be observed with their patterns, in the code's order. -/
def StatePatterns.candidates (patterns : StatePatterns) :
    List (BoardState × Text) :=
  [(.shutdownInProgress, utf8 (patterns.shutdown.getD "")),
    (.linuxShell, utf8 patterns.linuxShell),
    (.linuxLogin, utf8 patterns.linuxLogin),
    (.linuxBooting, utf8 patterns.linuxBoot),
    (.ubootPrompt, utf8 patterns.ubootPrompt),
    (.ubootCountdown, utf8 patterns.ubootCountdown)]

/-- The last occurrences of those patterns of a list that occur. -/
def lastOccurrences (candidates : List (BoardState × Text)) (text : Text) :
    List (Nat × BoardState × Text) :=
  candidates.filterMap fun candidate =>
    (rfind text candidate.2).map (·, candidate)

/-- The last occurrences of the nonempty patterns. -/
def StatePatterns.occurrences (patterns : StatePatterns) (text : Text) :
    List (Nat × BoardState × Text) :=
  lastOccurrences
    (patterns.candidates.filter fun candidate => !candidate.2.isEmpty) text

/-- The pattern that begins last. -/
def StatePatterns.latest (patterns : StatePatterns) (text : Text) :
    Option (Nat × BoardState × Text) :=
  maxByKey Prod.fst (patterns.occurrences text)

/-- `StateDetector::observe`. -/
def StatePatterns.observe (patterns : StatePatterns) (bytes : List UInt8)
    (timestamp : SystemTime) (generation : Nat) : StateEvidence :=
  match patterns.latest (fromUtf8Lossy bytes) with
  | some (_, state, pattern) => ⟨state, 95, timestamp, generation, pattern, false⟩
  | none => ⟨.unknown, 0, timestamp, generation, [], false⟩

/-- The state observed on console bytes. -/
def StatePatterns.observed (patterns : StatePatterns) (bytes : List UInt8) :
    BoardState :=
  match patterns.latest (fromUtf8Lossy bytes) with
  | some (_, state, _) => state
  | none => .unknown

@[simp] theorem StatePatterns.observe_state (patterns : StatePatterns)
    (bytes : List UInt8) (timestamp : SystemTime) (generation : Nat) :
    (patterns.observe bytes timestamp generation).state =
      patterns.observed bytes := by
  unfold StatePatterns.observe StatePatterns.observed
  split <;> rfl

/-- The configured pattern of a state, empty for a state without one. -/
def StatePatterns.patternOf (patterns : StatePatterns) : BoardState → Text
  | .shutdownInProgress => utf8 (patterns.shutdown.getD "")
  | .linuxShell => utf8 patterns.linuxShell
  | .linuxLogin => utf8 patterns.linuxLogin
  | .linuxBooting => utf8 patterns.linuxBoot
  | .ubootPrompt => utf8 patterns.ubootPrompt
  | .ubootCountdown => utf8 patterns.ubootCountdown
  | _ => []

theorem StatePatterns.candidates_eq_patternOf {patterns : StatePatterns}
    {state : BoardState} {pattern : Text}
    (h : (state, pattern) ∈ patterns.candidates) :
    pattern = patterns.patternOf state ∧ state ≠ .unknown := by
  simp only [StatePatterns.candidates, List.mem_cons, Prod.mk.injEq,
    List.not_mem_nil, or_false] at h
  rcases h with ⟨rfl, rfl⟩ | ⟨rfl, rfl⟩ | ⟨rfl, rfl⟩ | ⟨rfl, rfl⟩ | ⟨rfl, rfl⟩ |
    ⟨rfl, rfl⟩ <;> exact ⟨rfl, by simp⟩

/-- What an entry of `occurrences` says about the text. -/
theorem StatePatterns.mem_occurrences {patterns : StatePatterns} {text : Text}
    {offset : Nat} {state : BoardState} {pattern : Text} :
    (offset, state, pattern) ∈ patterns.occurrences text ↔
      (state, pattern) ∈ patterns.candidates ∧ pattern ≠ [] ∧
        rfind text pattern = some offset := by
  simp only [StatePatterns.occurrences, lastOccurrences, List.mem_filterMap, List.mem_filter,
    Bool.not_eq_eq_eq_not, Bool.not_true, List.isEmpty_eq_false_iff,
    Option.map_eq_some_iff, Prod.mk.injEq, Prod.exists]
  constructor
  · rintro ⟨s, p, ⟨hmem, hne⟩, i, hi, rfl, rfl, rfl⟩
    exact ⟨hmem, hne, hi⟩
  · rintro ⟨hmem, hne, hi⟩
    exact ⟨state, pattern, ⟨hmem, hne⟩, offset, hi, rfl, rfl, rfl⟩

/-- An observed state is shown by an occurrence of its nonempty pattern. -/
theorem StatePatterns.occurs_of_observed {patterns : StatePatterns}
    {bytes : List UInt8} (h : patterns.observed bytes ≠ .unknown) :
    patterns.patternOf (patterns.observed bytes) ≠ [] ∧
      patterns.patternOf (patterns.observed bytes) <:+:
        fromUtf8Lossy bytes := by
  unfold StatePatterns.observed at h ⊢
  split at h
  · rename_i offset state pattern hlatest
    obtain ⟨hmem, hne, hfind⟩ :=
      StatePatterns.mem_occurrences.mp (mem_of_maxByKey hlatest)
    obtain ⟨rfl, -⟩ := StatePatterns.candidates_eq_patternOf hmem
    refine ⟨hne, contains_iff.mp ?_⟩
    rw [contains, hfind]
    rfl
  · exact absurd rfl h

theorem lastOccurrences_cons_some {candidate : BoardState × Text}
    {candidates : List (BoardState × Text)} {text : Text} {offset : Nat}
    (h : rfind text candidate.2 = some offset) :
    lastOccurrences (candidate :: candidates) text =
      (offset, candidate) :: lastOccurrences candidates text := by
  simp [lastOccurrences, h]

theorem lastOccurrences_cons_none {candidate : BoardState × Text}
    {candidates : List (BoardState × Text)} {text : Text}
    (h : rfind text candidate.2 = none) :
    lastOccurrences (candidate :: candidates) text =
      lastOccurrences candidates text := by
  simp [lastOccurrences, h]

theorem lt_of_mem_maxByKey_cons {bound : Nat} {x : Nat × BoardState × Text}
    {xs : List (Nat × BoardState × Text)} (hx : x.1 < bound)
    (hxs : ∀ found ∈ maxByKey Prod.fst xs, found.1 < bound) :
    ∀ found ∈ maxByKey Prod.fst (x :: xs), found.1 < bound := by
  intro found hfound
  rcases List.mem_cons.mp (mem_of_maxByKey hfound) with rfl | hmem
  · exact hx
  · cases hrest : maxByKey Prod.fst xs with
    | none => simp [maxByKey_eq_none.mp hrest] at hmem
    | some y =>
        exact Nat.lt_of_le_of_lt (key_le_maxByKey hmem hrest) (hxs y hrest)

/--
Text in front either moves the pattern that begins last, or, if no pattern
occurs in the old text, lets only patterns win that begin inside it.
-/
theorem maxByKey_lastOccurrences_append
    (candidates : List (BoardState × Text)) (front text : Text) :
    match maxByKey Prod.fst (lastOccurrences candidates text) with
    | some (offset, candidate) =>
        maxByKey Prod.fst (lastOccurrences candidates (front ++ text)) =
          some (front.length + offset, candidate)
    | none => ∀ found ∈
        maxByKey Prod.fst (lastOccurrences candidates (front ++ text)),
        found.1 < front.length := by
  induction candidates with
  | nil => simp [lastOccurrences, maxByKey]
  | cons candidate candidates ih =>
      cases hfind : rfind text candidate.2 with
      | some offset =>
          rw [lastOccurrences_cons_some hfind,
            lastOccurrences_cons_some (rfind_append front hfind)]
          cases hold : maxByKey Prod.fst (lastOccurrences candidates text) with
          | some winner =>
              rw [hold] at ih
              rw [maxByKey_cons_some hold, maxByKey_cons_some ih]
              by_cases hlt : winner.1 < offset <;> simp [hlt]
          | none =>
              rw [hold] at ih
              rw [maxByKey_cons_none hold]
              cases hnew : maxByKey Prod.fst
                  (lastOccurrences candidates (front ++ text)) with
              | none => exact maxByKey_cons_none hnew
              | some found =>
                  have := ih found hnew
                  rw [maxByKey_cons_some hnew]
                  exact if_pos (Nat.lt_add_right offset this)
      | none =>
          rw [lastOccurrences_cons_none hfind]
          cases hfront : rfind (front ++ text) candidate.2 with
          | none =>
              rw [lastOccurrences_cons_none hfront]
              exact ih
          | some j =>
              have hj := rfind_append_lt hfront hfind
              rw [lastOccurrences_cons_some hfront]
              cases hold : maxByKey Prod.fst
                  (lastOccurrences candidates text) with
              | some winner =>
                  rw [hold] at ih
                  rw [maxByKey_cons_some ih]
                  exact if_neg (by simp only; omega)
              | none =>
                  rw [hold] at ih
                  exact lt_of_mem_maxByKey_cons hj ih

/-- Text behind moves no last occurrence forward. -/
theorem exists_later_lastOccurrence {candidates : List (BoardState × Text)}
    {text : Text} {found : Nat × BoardState × Text} (more : Text)
    (h : found ∈ lastOccurrences candidates text) :
    ∃ later ∈ lastOccurrences candidates (text ++ more),
      found.1 ≤ later.1 := by
  obtain ⟨candidate, hmem, hfound⟩ := List.mem_filterMap.mp h
  obtain ⟨j, hj, rfl⟩ := Option.map_eq_some_iff.mp hfound
  obtain ⟨i, hi, hle⟩ := rfind_le_append more hj
  refine ⟨(i, candidate), List.mem_filterMap.mpr ⟨candidate, hmem, ?_⟩, hle⟩
  rw [hi]
  rfl

/-- If no pattern occurs in a text, then none occurs in the front of it. -/
theorem maxByKey_lastOccurrences_none {candidates : List (BoardState × Text)}
    {text more : Text}
    (h : maxByKey Prod.fst (lastOccurrences candidates (text ++ more)) =
      none) : maxByKey Prod.fst (lastOccurrences candidates text) = none := by
  rw [maxByKey_eq_none] at h ⊢
  by_contra hne
  obtain ⟨found, hfound⟩ := List.exists_mem_of_ne_nil _ hne
  obtain ⟨later, hlater, -⟩ := exists_later_lastOccurrence more hfound
  simp [h] at hlater

/-- The pattern that begins last in a text, if it is complete in the front of
the text, begins last in the front. -/
theorem maxByKey_lastOccurrences_front
    {candidates : List (BoardState × Text)} {text more : Text} {offset : Nat}
    {winner : BoardState × Text}
    (h : maxByKey Prod.fst (lastOccurrences candidates (text ++ more)) =
      some (offset, winner))
    (hfits : offset + winner.2.length ≤ text.length) :
    maxByKey Prod.fst (lastOccurrences candidates text) =
      some (offset, winner) := by
  induction candidates with
  | nil => simp [lastOccurrences, maxByKey] at h
  | cons candidate candidates ih =>
      cases hwhole : rfind (text ++ more) candidate.2 with
      | none =>
          rw [lastOccurrences_cons_none hwhole] at h
          rw [lastOccurrences_cons_none (rfind_none_of_append hwhole)]
          exact ih h
      | some i =>
          rw [lastOccurrences_cons_some hwhole] at h
          cases hrest : maxByKey Prod.fst
              (lastOccurrences candidates (text ++ more)) with
          | none =>
              -- The candidate is the only one that occurs at all.
              rw [maxByKey_cons_none hrest] at h
              obtain ⟨rfl, rfl⟩ := Prod.mk.inj (Option.some.inj h)
              rw [lastOccurrences_cons_some (rfind_of_append hwhole hfits),
                maxByKey_cons_none (maxByKey_lastOccurrences_none hrest)]
          | some last =>
              rw [maxByKey_cons_some hrest] at h
              split at h
              · -- The candidate begins behind all the others.
                rename_i hlt
                obtain ⟨rfl, rfl⟩ := Prod.mk.inj (Option.some.inj h)
                rw [lastOccurrences_cons_some (rfind_of_append hwhole hfits)]
                cases hfront : maxByKey Prod.fst
                    (lastOccurrences candidates text) with
                | none => exact maxByKey_cons_none hfront
                | some found =>
                    obtain ⟨later, hlater, hle⟩ :=
                      exists_later_lastOccurrence more
                        (mem_of_maxByKey hfront)
                    have := key_le_maxByKey hlater hrest
                    rw [maxByKey_cons_some hfront]
                    exact if_pos (by simp only at hlt ⊢; omega)
              · -- Another one begins at the same place or behind it.
                rename_i hle
                obtain rfl := Option.some.inj h
                have hfront := ih hrest
                cases hfind : rfind text candidate.2 with
                | none => rwa [lastOccurrences_cons_none hfind]
                | some j =>
                    obtain ⟨k, hk, hle'⟩ := rfind_le_append more hfind
                    rw [hwhole, Option.some.injEq] at hk
                    rw [lastOccurrences_cons_some hfind,
                      maxByKey_cons_some hfront]
                    exact if_neg (by simp only at hle ⊢; omega)

/-- Text in front moves the pattern that begins last. -/
theorem StatePatterns.latest_append {patterns : StatePatterns} {text : Text}
    {offset : Nat} {candidate : BoardState × Text} (front : Text)
    (h : patterns.latest text = some (offset, candidate)) :
    patterns.latest (front ++ text) =
      some (front.length + offset, candidate) := by
  have := maxByKey_lastOccurrences_append
    (patterns.candidates.filter fun candidate => !candidate.2.isEmpty)
    front text
  rw [StatePatterns.latest, StatePatterns.occurrences] at h
  rwa [h] at this

/-- The pattern that begins last, when it is complete in the front of a text. -/
theorem StatePatterns.latest_of_append {patterns : StatePatterns}
    {text more : Text} {offset : Nat} {state : BoardState} {pattern : Text}
    (h : patterns.latest (text ++ more) = some (offset, state, pattern))
    (hfits : offset + pattern.length ≤ text.length) :
    patterns.latest text = some (offset, state, pattern) :=
  maxByKey_lastOccurrences_front h hfits

/-- Older bytes behind an ASCII byte do not change what is observed. -/
theorem StatePatterns.observed_append {patterns : StatePatterns}
    (front : List UInt8) {x : UInt8} (hx : x < 0x80) {bytes : List UInt8}
    (h : patterns.observed bytes ≠ .unknown) :
    patterns.observed (front ++ x :: bytes) = patterns.observed bytes := by
  have hsplit : fromUtf8Lossy (front ++ x :: bytes) =
      (fromUtf8Lossy front ++ [x]) ++ fromUtf8Lossy bytes := by
    rw [fromUtf8Lossy_append_ascii front hx bytes]
    simp
  unfold StatePatterns.observed at h ⊢
  cases hlatest : patterns.latest (fromUtf8Lossy bytes) with
  | none => simp [hlatest] at h
  | some found =>
      rw [hsplit, StatePatterns.latest_append _ hlatest]

end RpictlMcp
