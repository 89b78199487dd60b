import RpictlMcp.StateAgreement
import RpictlMcp.StateLocality
import RpictlMcp.Kernel.Utf8Search

/-!
# rpictl-mcp: the state detector on arbitrary bytes

A console does not send well-formed text only: there is line noise, and a window
of the stream may begin or end in the middle of a character.  The detector
decodes what it is given and puts replacement characters where that fails.  As
long as no pattern has a replacement character itself, this changes nothing: the
pattern that begins last in the decoded text is the one that begins last in the
bytes.  What holds of the detector on ASCII output therefore holds on any
output.
-/

namespace RpictlMcp

section StateBytes

/-- Patterns without a replacement character. -/
def StatePatterns.Plain (patterns : StatePatterns) : Prop :=
  ∀ candidate ∈ patterns.candidates,
    contains candidate.2 replacementCharacter = false

/-- `StateDetector::observe`, if it looked at the bytes themselves. -/
def StatePatterns.observeBytes (patterns : StatePatterns) (bytes : List UInt8)
    (timestamp : SystemTime) (generation : Nat) : StateEvidence :=
  match patterns.latest bytes with
  | some (_, state, pattern) =>
      ⟨state, 95, timestamp, generation, pattern, false⟩
  | none => ⟨.unknown, 0, timestamp, generation, [], false⟩

variable {patterns : StatePatterns} {front bytes : List UInt8}

theorem StatePatterns.isUtf8_of_mem_candidates
    {candidate : BoardState × Text} (h : candidate ∈ patterns.candidates) :
    isUtf8 candidate.2 = true := by
  simp only [StatePatterns.candidates, List.mem_cons, List.not_mem_nil,
    or_false] at h
  rcases h with rfl | rfl | rfl | rfl | rfl | rfl <;> exact isUtf8_utf8 _

/-- A nonempty pattern may be searched for. -/
theorem StatePatterns.Plain.searchable (h : patterns.Plain)
    {candidate : BoardState × Text} (hmem : candidate ∈ patterns.candidates)
    (hne : candidate.2 ≠ []) : Searchable candidate.2 :=
  ⟨StatePatterns.isUtf8_of_mem_candidates hmem, hne, h candidate hmem⟩

/-- The occurrences in a decoded text are those in the bytes, elsewhere. -/
theorem StatePatterns.Plain.occurrences_lossy (h : patterns.Plain)
    (bytes : List UInt8) :
    patterns.occurrences (fromUtf8Lossy bytes) =
      (patterns.occurrences bytes).map fun found =>
        (lossyOffset bytes found.1, found.2) := by
  simp only [StatePatterns.occurrences, lastOccurrences,
    List.map_filterMap]
  refine List.filterMap_congr fun candidate hcandidate => ?_
  obtain ⟨hmem, hne⟩ := List.mem_filter.mp hcandidate
  have hsearchable := h.searchable hmem (by simpa using hne)
  rw [rfind_fromUtf8Lossy hsearchable]
  cases rfind bytes candidate.2 <;> rfl

/-- The pattern that begins last in a decoded text begins last in the bytes. -/
theorem StatePatterns.Plain.latest_lossy (h : patterns.Plain)
    (bytes : List UInt8) :
    patterns.latest (fromUtf8Lossy bytes) =
      (patterns.latest bytes).map fun found =>
        (lossyOffset bytes found.1, found.2) := by
  rw [StatePatterns.latest, StatePatterns.latest, h.occurrences_lossy]
  refine maxByKey_map ?_
  rintro ⟨i, state, pattern⟩ hi ⟨j, state', pattern'⟩ hj
  obtain ⟨hmem, hne, hfind⟩ := StatePatterns.mem_occurrences.mp hi
  obtain ⟨hmem', hne', hfind'⟩ := StatePatterns.mem_occurrences.mp hj
  exact lossyOffset_lt_iff (h.searchable hmem hne) (h.searchable hmem' hne')
    hfind hfind'

/-- The detector reports what it would report without decoding. -/
theorem StatePatterns.Plain.observe (h : patterns.Plain) (bytes : List UInt8)
    (timestamp : SystemTime) (generation : Nat) :
    patterns.observe bytes timestamp generation =
      patterns.observeBytes bytes timestamp generation := by
  rw [StatePatterns.observe, StatePatterns.observeBytes, h.latest_lossy]
  cases patterns.latest bytes <;> rfl

theorem StatePatterns.observeBytes_state (timestamp : SystemTime)
    (generation : Nat) :
    (patterns.observeBytes bytes timestamp generation).state = .unknown ↔
      patterns.latest bytes = none := by
  unfold StatePatterns.observeBytes
  cases hlatest : patterns.latest bytes with
  | none => simp
  | some found =>
      obtain ⟨offset, state, pattern⟩ := found
      obtain ⟨hmem, -, -⟩ :=
        StatePatterns.mem_occurrences.mp (mem_of_maxByKey hlatest)
      simpa using (StatePatterns.candidates_eq_patternOf hmem).2

theorem StatePatterns.observeBytes_append (front : List UInt8)
    (timestamp : SystemTime) (generation : Nat)
    (h : patterns.latest bytes ≠ none) :
    patterns.observeBytes (front ++ bytes) timestamp generation =
      patterns.observeBytes bytes timestamp generation := by
  obtain ⟨found, hlatest⟩ := Option.ne_none_iff_exists'.mp h
  rw [StatePatterns.observeBytes, StatePatterns.latest_append front hlatest,
    StatePatterns.observeBytes, hlatest]

/-- A state is unknown exactly if no pattern occurs in the bytes. -/
theorem StatePatterns.Plain.observed_eq_unknown (h : patterns.Plain) :
    patterns.observed bytes = .unknown ↔ patterns.latest bytes = none := by
  rw [← patterns.observe_state bytes 0 0, h.observe,
    StatePatterns.observeBytes_state]

/-- Any bytes in front leave a state that is known as it is. -/
theorem StatePatterns.Plain.observed_append (h : patterns.Plain)
    (front : List UInt8) (hknown : patterns.observed bytes ≠ .unknown) :
    patterns.observed (front ++ bytes) = patterns.observed bytes := by
  rw [← patterns.observe_state (front ++ bytes) 0 0,
    ← patterns.observe_state bytes 0 0, h.observe, h.observe,
    StatePatterns.observeBytes_append]
  exact mt h.observed_eq_unknown.mpr hknown

/--
On any console bytes, whatever they are and wherever they have been cut, the
detector reports what it would report if it searched the bytes without decoding
them, the evidence included.
-/
theorem observe_undecoded (patterns : StatePatterns) (hplain : patterns.Plain)
    (bytes : List UInt8) (timestamp : SystemTime) (generation : Nat) :
    patterns.observe bytes timestamp generation =
      patterns.observeBytes bytes timestamp generation :=
  hplain.observe bytes timestamp generation

theorem plain_simulated : simulated.patterns.Plain := by
  have hall : (simulated.patterns.candidates.all fun candidate =>
      !contains candidate.2 replacementCharacter) = true := by decide
  intro candidate hmem
  simpa using List.all_eq_true.mp hall candidate hmem

/-- The prompt in the middle of line noise, behind half of a character. -/
theorem observe_undecoded_noise :
    simulated.patterns.observe ([0xBF, 0xE2, 0x82] ++ utf8 "U-Boot>" ++ [0xF0])
        7 1 =
      simulated.patterns.observeBytes
        ([0xBF, 0xE2, 0x82] ++ utf8 "U-Boot>" ++ [0xF0]) 7 1 :=
  observe_undecoded simulated.patterns plain_simulated _ 7 1

/-- The bytes of the current generation in front of the observed window. -/
def Console.outside (console : Console) : Nat :=
  (sinceMark console.history).length -
    (console.ring.snapshotGeneration console.ring.generation
      observationBytes).bytes.length

/--
For every history of a console with any bytes, every capacity of its ring and
every cut that eviction has made: a state that `observed_state` reports is the
state of the whole current generation, and it reports `unknown` exactly if the
pattern that begins last in the generation, if there is one, begins in front of
its window.
-/
theorem generationState_bytes (profile : BoardProfile)
    (hplain : profile.patterns.Plain) (console : Console) :
    (generationState profile console.ring ≠ .unknown →
      profile.patterns.observed (sinceMark console.history) =
        generationState profile console.ring) ∧
    (generationState profile console.ring = .unknown ↔
      ∀ found ∈ profile.patterns.latest (sinceMark console.history),
        found.1 < console.outside) := by
  obtain ⟨front, hfront⟩ := console.window_eq
  have houtside : console.outside = front.length := by
    rw [Console.outside, hfront, List.length_append]
    omega
  rw [houtside, hfront]
  unfold generationState
  refine ⟨hplain.observed_append front, ?_⟩
  rw [hplain.observed_eq_unknown]
  constructor
  · exact fun hnone => StatePatterns.latest_append_unknown hnone
  · intro hbegins
    by_contra hne
    obtain ⟨found, hlatest⟩ := Option.ne_none_iff_exists'.mp hne
    have hlt := hbegins _ (StatePatterns.latest_append front hlatest)
    simp only at hlt
    omega

/-- A console that has room for ten bytes, the first of them the end of a
character. -/
def noisyConsole : Console where
  capacity := 10
  history := [.markGeneration,
    .append 0 (utf8 "login:" ++ [0xE2, 0x82, 0xAC] ++ utf8 "U-Boot>" ++ [0xF0])]
  ring := _
  run := rfl

theorem generationState_bytes_noisy :
    (generationState simulated noisyConsole.ring ≠ .unknown →
      simulated.patterns.observed (sinceMark noisyConsole.history) =
        generationState simulated noisyConsole.ring) ∧
    (generationState simulated noisyConsole.ring = .unknown ↔
      ∀ found ∈ simulated.patterns.latest (sinceMark noisyConsole.history),
        found.1 < noisyConsole.outside) :=
  generationState_bytes simulated plain_simulated noisyConsole

/--
A state that shows in the bytes from a cursor of the current generation on, of
which there are no more than a look takes in, is the state that
`observed_state` reports on the same ring, whatever bytes the console has sent.
-/
theorem stateAfter_agrees_bytes (profile : BoardProfile)
    (hplain : profile.patterns.Plain) (console : Console) (cursor : Nat)
    (hcursor : console.generationStart ≤ cursor)
    (hroom : (console.retainedAfter cursor).length ≤ observationBytes)
    (hknown : stateAfter profile console.ring cursor ≠ .unknown) :
    generationState profile console.ring =
      stateAfter profile console.ring cursor := by
  obtain ⟨front, hfront⟩ := Console.retainedAfter_suffix hcursor hroom
  rw [stateAfter, snapshotFrom_retainedAfter,
    List.take_of_length_le hroom] at hknown ⊢
  rw [generationState, ← hfront]
  exact hplain.observed_append front hknown

theorem stateAfter_agrees_bytes_noisy :
    generationState simulated noisyConsole.ring =
      stateAfter simulated noisyConsole.ring 7 :=
  stateAfter_agrees_bytes simulated plain_simulated noisyConsole 7
    (by decide) (by decide) (by decide)

end StateBytes

end RpictlMcp
