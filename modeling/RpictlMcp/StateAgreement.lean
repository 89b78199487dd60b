import RpictlMcp.StateWindow
import RpictlMcp.PowerOnFreshness

/-!
# rpictl-mcp: the two ways to look at the state

An operation that waits looks at the bytes from its cursor on; `observed_state`
looks at the end of the current generation.  The retained bytes from a cursor on
are an end of the stream.  If the cursor was taken in the current generation and
no more bytes follow it than a look takes in, they are an end of what
`observed_state` looks at.  Since the pattern that begins last decides, a state
seen after the cursor is then the observed state.
-/

namespace RpictlMcp

open Prog

section StateAgreement

variable {ι : Type} [DecidableEq ι] {t : Thread ι} {w : World ι}
variable {earlier console : Console} {cursor : Nat}

/-- A generation number counts the boundaries. -/
theorem ConsoleLog.generation_ofOps (ops : List RingOp) :
    (ConsoleLog.ofOps ops).generation = ops.count .markGeneration := by
  induction ops using List.reverseRecOn with
  | nil => rfl
  | append_singleton ops op ih =>
      rw [ConsoleLog.ofOps_concat, List.count_append]
      cases op with
      | append timestamp input =>
          rw [ConsoleLog.apply_append]
          simpa [ConsoleLog.append] using ih
      | markGeneration =>
          rw [ConsoleLog.apply_markGeneration]
          simpa [ConsoleLog.markGeneration] using ih

theorem Console.generation_ring (console : Console) :
    console.ring.generation = console.history.count .markGeneration := by
  rw [console.retains.generation, Console.log, ConsoleLog.generation_ofOps]

/-- A cursor of the current generation is not older than its first byte. -/
theorem Console.Extends.generationStart_le (h : earlier.Extends console)
    (hmark : earlier.ring.generation = console.ring.generation) :
    console.generationStart ≤ earlier.ring.nextCursor := by
  obtain ⟨since, hhistory⟩ := h.history
  rw [Console.generation_ring, Console.generation_ring, ← hhistory,
    List.count_append] at hmark
  have hnone : .markGeneration ∉ since :=
    List.count_eq_zero.mp (by omega)
  have hfresh := sinceMark_append_unmarked earlier.history since hnone
  have hstream : console.stream =
      earlier.stream ++ since.flatMap RingOp.input := by
    rw [Console.stream, Console.stream, ← hhistory, List.flatMap_append]
  rw [Console.generationStart, ← hhistory, hfresh, hstream,
    earlier.nextCursor_ring, List.length_append, List.length_append]
  omega

/-- The bytes that the ring retains are an end of the stream. -/
theorem Console.retained_eq (console : Console) :
    console.ring.chunks.flatMap SerialChunk.bytes =
      console.stream.drop (console.stream.length - console.capacity) := by
  rw [console.retains.boundedView.bytes_eq, console.bytes_log,
    console.ring_capacity]
  congr 1
  omega

/-- What the current generation retains is an end of the stream, too. -/
theorem Console.window_eq_drop (console : Console) :
    (console.ring.snapshotGeneration console.ring.generation
      observationBytes).bytes =
        console.stream.drop (max console.generationStart
          (console.stream.length - min observationBytes console.capacity)) := by
  obtain ⟨front, hfront⟩ := sinceMark_suffix console.history
  have hstream : console.stream = front ++ sinceMark console.history :=
    hfront.symm
  have hstart : console.generationStart = front.length := by
    rw [Console.generationStart, hstream, List.length_append]
    omega
  rw [snapshotGeneration_sinceMark, hstart, hstream, StampedLog.window,
    List.length_append]
  have hindex : max front.length (front.length +
      (sinceMark console.history).length -
        min observationBytes console.capacity) =
      front.length + ((sinceMark console.history).length -
        min observationBytes console.capacity) := by
    omega
  rw [hindex, ← List.drop_drop, List.drop_left]

/-- The bytes after a cursor are an end of the window of the generation. -/
theorem Console.retainedAfter_suffix
    (hcursor : console.generationStart ≤ cursor)
    (hroom : (console.retainedAfter cursor).length ≤ observationBytes) :
    console.retainedAfter cursor <:+
      (console.ring.snapshotGeneration console.ring.generation
        observationBytes).bytes := by
  rw [console.window_eq_drop]
  rw [Console.retainedAfter] at hroom ⊢
  rw [List.length_drop] at hroom
  by_cases hend : cursor ≤ console.stream.length
  · refine List.drop_suffix_drop_left _ ?_
    omega
  · rw [List.drop_of_length_le (by omega)]
    exact List.nil_suffix

/--
A state that shows after a cursor of the current generation is the state that
every run of `observed_state` reports that looks at the same ring.
-/
theorem observedState_agrees (profile : BoardProfile)
    (hextends : earlier.Extends console)
    (hmark : earlier.ring.generation = console.ring.generation)
    (htaken : earlier.ring.nextCursor ≤ cursor)
    (hascii : ∀ chunk ∈ console.ring.chunks, IsAscii chunk.bytes)
    (hroom : (console.retainedAfter cursor).length ≤ observationBytes)
    (timestamp : SystemTime) (generation : Nat)
    (hstate : (profile.patterns.observe
      (console.ring.snapshotFrom cursor observationBytes).bytes timestamp
        generation).state ≠ .unknown)
    {r : Result BoardState}
    (hobserved : AnswersIn t (observedState profile).run r w)
    (hlooked : w.LastLooked t console) :
    r = .ok (profile.patterns.observe
      (console.ring.snapshotFrom cursor observationBytes).bytes timestamp
        generation).state := by
  have hcursor := (hextends.generationStart_le hmark).trans htaken
  obtain ⟨front, hfront⟩ := Console.retainedAfter_suffix hcursor hroom
  have hretained : IsAscii
      (console.ring.chunks.flatMap SerialChunk.bytes) := by
    intro x hx
    obtain ⟨chunk, hchunk, hmem⟩ := List.mem_flatMap.mp hx
    exact hascii chunk hchunk x hmem
  have hwindow : IsAscii (front ++ console.retainedAfter cursor) := by
    rw [hfront, console.window_eq_drop]
    rw [console.retained_eq] at hretained
    refine hretained.subset (List.IsSuffix.subset ?_)
    refine List.drop_suffix_drop_left _ ?_
    omega
  rw [StatePatterns.observe_state, snapshotFrom_retainedAfter,
    List.take_of_length_le hroom] at hstate ⊢
  have hsame : generationState profile console.ring =
      profile.patterns.observed (console.retainedAfter cursor) := by
    rw [generationState, ← hfront,
      StatePatterns.observed_append_ascii hwindow hstate]
  have hlook : Traces BoardOp.emits (fun _ _ => True)
      (observedState profile).run [] fun r t => ∃ c : Console,
        r = .ok (generationState profile c.ring) ∧ t = [.looked c] :=
    observedState_traces fun _ => trivial
  obtain ⟨c, hr, hlog⟩ := hlook.result hobserved.exec.1
  have hlast := hlooked.last
  rw [hlog] at hlast
  obtain rfl : c = console := by simpa using hlast
  rw [hr, hsame]

/-- The shell prompt after a boundary, with a ring that has lost the login
prompt in front of it. -/
theorem observedState_agrees_short :
    (.ok (generationState simulated shortConsole.ring) : Result BoardState) =
      .ok (simulated.patterns.observe
        (shortConsole.ring.snapshotFrom 0 observationBytes).bytes 0 1).state := by
  have hextends : Console.Extends ⟨12, [.markGeneration], _, rfl⟩
      shortConsole := ⟨rfl, [.append 0 (utf8 "login:root@fake:#")], rfl⟩
  have hascii : ∀ chunk ∈ shortConsole.ring.chunks, IsAscii chunk.bytes := by
    intro chunk hchunk
    obtain rfl := List.mem_singleton.mp hchunk
    exact isAscii_of_all (by decide)
  have hobserve : Acts ((), .main) (observedState simulated)
      (World.initial shortConsole)
      (.ok (generationState simulated shortConsole.ring))
      ((World.initial shortConsole).look ((), .main)) :=
    observedState_acts (alive_main ())
  exact observedState_agrees simulated hextends rfl (Nat.le_refl 0) hascii
    (by decide) 0 1 (by decide) (Performs.answersIn hobserve rfl)
    ⟨rfl, Console.Extends.refl _⟩

end StateAgreement

end RpictlMcp
