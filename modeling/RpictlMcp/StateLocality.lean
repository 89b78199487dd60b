import RpictlMcp.StateWindow

/-!
# rpictl-mcp: the state detector and the parts of a text

`StateDetector::observe` reports the pattern that begins last.  So what it
reports on the end of a text it reports on the whole text, whatever stands in
front; where it reports nothing on the end, it reports on the whole text only
what begins in front of the end; and an end that no pattern reaches into changes
nothing.
-/

namespace RpictlMcp

section StateLocality

/-- No occurrence of a nonempty pattern ends behind the first `n` bytes. -/
def StatePatterns.EndsWithin (patterns : StatePatterns) (text : Text)
    (n : Nat) : Prop :=
  ∀ state pattern, (state, pattern) ∈ patterns.candidates → pattern ≠ [] →
    ∀ offset, pattern <+: text.drop offset → offset + pattern.length ≤ n

/-- What the detector reports on a text, against what it reports on its end and
on its front. -/
structure ObservesLocally (patterns : StatePatterns) (front text : String)
    (timestamp : SystemTime) (generation : Nat) : Prop where
  kept :
    (patterns.observe (utf8 text) timestamp generation).state ≠ .unknown →
      patterns.observe (utf8 (front ++ text)) timestamp generation =
        patterns.observe (utf8 text) timestamp generation
  begins :
    (patterns.observe (utf8 text) timestamp generation).state = .unknown →
      (patterns.observe (utf8 (front ++ text)) timestamp generation).state =
          .unknown ∨
        ∃ offset, rfind (utf8 (front ++ text)) (patterns.patternOf
            (patterns.observe (utf8 (front ++ text)) timestamp
              generation).state) = some offset ∧
          offset < (utf8 front).length
  inside :
    patterns.EndsWithin (utf8 (front ++ text)) (utf8 front).length →
      patterns.observe (utf8 (front ++ text)) timestamp generation =
        patterns.observe (utf8 front) timestamp generation

variable {patterns : StatePatterns} {front text : Text}

/-- A pattern that does not reach beyond the front is found in the front. -/
theorem rfind_front {pattern : Text}
    (h : ∀ offset, pattern <+: (front ++ text).drop offset →
      offset + pattern.length ≤ front.length) :
    rfind (front ++ text) pattern = rfind front pattern := by
  cases hfind : rfind (front ++ text) pattern with
  | none => exact (rfind_none_of_append hfind).symm
  | some offset =>
      have hfits := h offset (isPrefix_drop_of_rfind hfind)
      exact (rfind_of_append hfind hfits).symm

theorem StatePatterns.latest_front
    (h : patterns.EndsWithin (front ++ text) front.length) :
    patterns.latest (front ++ text) = patterns.latest front := by
  have hoccurrences : patterns.occurrences (front ++ text) =
      patterns.occurrences front := by
    unfold StatePatterns.occurrences lastOccurrences
    refine List.filterMap_congr ?_
    rintro ⟨state, pattern⟩ hmem
    obtain ⟨hcandidate, hne⟩ := List.mem_filter.mp hmem
    have hpattern : pattern ≠ [] := by simpa using hne
    rw [rfind_front (h state pattern hcandidate hpattern)]
  rw [StatePatterns.latest, StatePatterns.latest, hoccurrences]

/-- The evidence of an observed state is the pattern that begins last. -/
theorem StatePatterns.observe_of_latest {bytes : List UInt8} {offset : Nat}
    {state : BoardState} {pattern : Text} {timestamp : SystemTime}
    {generation : Nat}
    (h : patterns.latest (fromUtf8Lossy bytes) =
      some (offset, state, pattern)) :
    patterns.observe bytes timestamp generation =
      ⟨state, 95, timestamp, generation, pattern, false⟩ := by
  rw [StatePatterns.observe, h]

theorem StatePatterns.observe_of_none {bytes : List UInt8}
    {timestamp : SystemTime} {generation : Nat}
    (h : patterns.latest (fromUtf8Lossy bytes) = none) :
    patterns.observe bytes timestamp generation =
      ⟨.unknown, 0, timestamp, generation, [], false⟩ := by
  rw [StatePatterns.observe, h]

/-- The pattern that begins last is that of its state. -/
theorem StatePatterns.rfind_of_latest {offset : Nat} {state : BoardState}
    {pattern : Text} (h : patterns.latest text = some (offset, state, pattern)) :
    rfind text (patterns.patternOf state) = some offset := by
  obtain ⟨hmem, -, hfind⟩ :=
    StatePatterns.mem_occurrences.mp (mem_of_maxByKey h)
  obtain ⟨rfl, -⟩ := StatePatterns.candidates_eq_patternOf hmem
  exact hfind

/--
For all patterns and texts: a state that the detector reports on the end of a
text is reported on the whole text with the same evidence; where it reports none,
the whole text shows at most a pattern that begins in front of the end; and an
end that no pattern reaches into does not matter.
-/
theorem observe_locally (patterns : StatePatterns) (front text : String)
    (timestamp : SystemTime) (generation : Nat) :
    ObservesLocally patterns front text timestamp generation := by
  constructor
  · intro hstate
    cases hlatest : patterns.latest (fromUtf8Lossy (utf8 text)) with
    | none =>
        rw [StatePatterns.observe_of_none hlatest] at hstate
        exact absurd rfl hstate
    | some found =>
        obtain ⟨offset, state, pattern⟩ := found
        rw [StatePatterns.observe_of_latest hlatest]
        rw [fromUtf8Lossy_utf8] at hlatest
        have hwhole := StatePatterns.latest_append (utf8 front) hlatest
        rw [← utf8_append, ← fromUtf8Lossy_utf8 (front ++ text)] at hwhole
        exact StatePatterns.observe_of_latest hwhole
  · intro hunknown
    rw [StatePatterns.observe_state] at hunknown
    have hnone := StatePatterns.latest_of_unknown hunknown
    rw [fromUtf8Lossy_utf8] at hnone
    cases hwhole : patterns.latest (fromUtf8Lossy (utf8 (front ++ text))) with
    | none =>
        left
        rw [StatePatterns.observe_of_none hwhole]
    | some found =>
        right
        obtain ⟨offset, state, pattern⟩ := found
        rw [StatePatterns.observe_of_latest hwhole]
        rw [fromUtf8Lossy_utf8] at hwhole
        refine ⟨offset, StatePatterns.rfind_of_latest hwhole, ?_⟩
        rw [utf8_append] at hwhole
        exact StatePatterns.latest_append_unknown hnone _ hwhole
  · intro hinside
    rw [utf8_append] at hinside
    have hsame := StatePatterns.latest_front hinside
    rw [← utf8_append] at hsame
    rw [StatePatterns.observe, StatePatterns.observe, fromUtf8Lossy_utf8,
      fromUtf8Lossy_utf8, hsame]

end StateLocality

end RpictlMcp
