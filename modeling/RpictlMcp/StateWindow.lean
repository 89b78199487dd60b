import RpictlMcp.StateWait

/-!
# rpictl-mcp: the observed state and the whole generation

`observed_state` looks at a window: the last bytes of the current generation that
the ring retains, at most 65,536 of them.  Since the detector reports the
pattern that begins last, and the window is an end of the generation, a state
that the window shows is the state that the whole generation shows.  The window
shows no state only if the pattern that begins last in the generation begins in
front of the window.
-/

namespace RpictlMcp

section StateWindow

variable {patterns : StatePatterns} {front bytes : List UInt8}

/-- A pattern that begins last in a text begins last with any text in front. -/
theorem StatePatterns.observed_append_ascii
    (hascii : IsAscii (front ++ bytes))
    (h : patterns.observed bytes ≠ .unknown) :
    patterns.observed (front ++ bytes) = patterns.observed bytes := by
  have hbytes := hascii.subset (List.subset_append_right front bytes)
  unfold StatePatterns.observed at h ⊢
  rw [fromUtf8Lossy_ascii hascii]
  rw [fromUtf8Lossy_ascii hbytes] at h ⊢
  cases hlatest : patterns.latest bytes with
  | none => simp [hlatest] at h
  | some found => rw [StatePatterns.latest_append front hlatest]

/-- Where no pattern occurs, only those win that begin in front of it. -/
theorem StatePatterns.latest_append_unknown
    (h : patterns.latest bytes = none) :
    ∀ found ∈ patterns.latest (front ++ bytes), found.1 < front.length := by
  have hmove := maxByKey_lastOccurrences_append
    (patterns.candidates.filter fun candidate => !candidate.2.isEmpty)
    front bytes
  rw [StatePatterns.latest, StatePatterns.occurrences] at h
  rw [h] at hmove
  exact hmove

theorem StatePatterns.latest_of_unknown
    (h : patterns.observed bytes = .unknown) :
    patterns.latest (fromUtf8Lossy bytes) = none := by
  unfold StatePatterns.observed at h
  split at h
  · rename_i offset state pattern hlatest
    obtain ⟨hmem, -, -⟩ :=
      StatePatterns.mem_occurrences.mp (mem_of_maxByKey hlatest)
    exact absurd h (StatePatterns.candidates_eq_patternOf hmem).2
  · assumption

/-- The bytes of the current generation are those of the stream. -/
theorem sinceMark_subset (console : Console) :
    sinceMark console.history ⊆ console.stream :=
  (sinceMark_suffix console.history).subset

/-- The window of the current generation, and what stands in front of it. -/
theorem Console.window_eq (console : Console) :
    ∃ front : List UInt8, sinceMark console.history = front ++
      (console.ring.snapshotGeneration console.ring.generation
        observationBytes).bytes := by
  rw [snapshotGeneration_sinceMark]
  obtain ⟨front, hfront⟩ := StampedLog.window_suffix
    (min observationBytes console.capacity) (sinceMark console.history)
  exact ⟨front, hfront.symm⟩

/--
For every history of a console and every capacity of its ring, on ASCII output:
the state that `observed_state` reports is the state of the whole current
generation, including what has been evicted, and it reports `unknown` only if
the occurrence that wins on the whole generation does not lie in the window.
-/
theorem generationState_whole (profile : BoardProfile) (console : Console)
    (hascii : IsAscii console.stream) :
    (generationState profile console.ring ≠ .unknown →
      ∀ timestamp generation,
        (profile.patterns.observe (sinceMark console.history) timestamp
          generation).state = generationState profile console.ring) ∧
    (generationState profile console.ring = .unknown →
      ∀ offset state pattern,
        profile.patterns.latest
            (fromUtf8Lossy (sinceMark console.history)) =
          some (offset, state, pattern) →
        ¬((sinceMark console.history).length -
              (console.ring.snapshotGeneration console.ring.generation
                observationBytes).bytes.length ≤ offset ∧
            offset + pattern.length ≤ (sinceMark console.history).length)) := by
  have hfresh := hascii.subset (sinceMark_subset console)
  obtain ⟨front, hfront⟩ := console.window_eq
  rw [hfront] at hfresh ⊢
  unfold generationState
  constructor
  · intro hstate timestamp generation
    rw [StatePatterns.observe_state,
      StatePatterns.observed_append_ascii hfresh hstate]
  · rintro hunknown offset state pattern hlatest ⟨hinside, -⟩
    have hnone := StatePatterns.latest_of_unknown hunknown
    rw [fromUtf8Lossy_ascii
      (hfresh.subset (List.subset_append_right _ _))] at hnone
    rw [fromUtf8Lossy_ascii hfresh] at hlatest
    have hoffset : offset < front.length :=
      StatePatterns.latest_append_unknown hnone _ hlatest
    rw [List.length_append] at hinside
    omega

/-- A console that has room for 12 bytes: the shell prompt cuts off the login
prompt in front of it. -/
def shortConsole : Console where
  capacity := 12
  history := [.markGeneration, .append 0 (utf8 "login:root@fake:#")]
  ring := _
  run := rfl

theorem generationState_whole_short :
    (generationState simulated shortConsole.ring ≠ .unknown →
      ∀ timestamp generation,
        (simulated.patterns.observe (sinceMark shortConsole.history) timestamp
          generation).state = generationState simulated shortConsole.ring) ∧
    (generationState simulated shortConsole.ring = .unknown →
      ∀ offset state pattern,
        simulated.patterns.latest
            (fromUtf8Lossy (sinceMark shortConsole.history)) =
          some (offset, state, pattern) →
        ¬((sinceMark shortConsole.history).length -
              (shortConsole.ring.snapshotGeneration
                shortConsole.ring.generation observationBytes).bytes.length ≤
            offset ∧
          offset + pattern.length ≤
            (sinceMark shortConsole.history).length)) :=
  generationState_whole simulated shortConsole (isAscii_of_all (by decide))

example : generationState simulated shortConsole.ring = .linuxShell := by
  decide

end StateWindow

end RpictlMcp
