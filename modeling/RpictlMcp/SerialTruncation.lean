import RpictlMcp.SerialGeneration

/-!
# rpictl-mcp: when a generation is reported as truncated

`snapshot_generation` reports truncation if the ring holds more bytes of the
generation than it may return.  The bytes that the ring has lost before do not
count, other than in `snapshot_from`: a snapshot that has all that is left of a
generation is reported as complete.
-/

namespace RpictlMcp

open StampedLog SerialRing

/-- The bytes that are appended while a generation is current. -/
def appendedDuring (generation : Nat) : Nat → List RingOp → List UInt8
  | _, [] => []
  | current, .append _ input :: ops =>
      (if current = generation then input else []) ++
        appendedDuring generation current ops
  | current, .markGeneration :: ops =>
      appendedDuring generation (current + 1) ops

namespace ConsoleLog

/-- The entries of a generation. -/
def entriesOf (log : ConsoleLog) (generation : Nat) : List LoggedByte :=
  log.entries.filter fun entry => entry.2 = generation

/-- The entries of a generation that a ring has lost. -/
def lostOf (log : ConsoleLog) (capacity generation : Nat) : List LoggedByte :=
  (log.entries.take (log.retainedFrom capacity)).filter
    fun entry => entry.2 = generation

/-- The entries of a generation that a ring still has. -/
def keptOf (log : ConsoleLog) (capacity generation : Nat) : List LoggedByte :=
  (log.entries.drop (log.retainedFrom capacity)).filter
    fun entry => entry.2 = generation

theorem entriesOf_append (log : ConsoleLog) (generation : Nat)
    (input : List UInt8) :
    ((log.append input).entriesOf generation).map Prod.fst =
      (log.entriesOf generation).map Prod.fst ++
        if log.generation = generation then input else [] := by
  rw [entriesOf, append, List.filter_append, List.map_append, ← entriesOf]
  congr 1
  split
  · rename_i hcurrent
    rw [List.filter_eq_self.mpr]
    · simp [Function.comp_def]
    · intro entry hentry
      obtain ⟨byte, -, rfl⟩ := List.mem_map.mp hentry
      simpa using hcurrent
  · rename_i hother
    rw [List.filter_eq_nil_iff.mpr, List.map_nil]
    intro entry hentry
    obtain ⟨byte, -, rfl⟩ := List.mem_map.mp hentry
    simpa using hother

/-- The entries of a generation are what has been appended during it. -/
theorem entriesOf_run (log : ConsoleLog) (generation : Nat)
    (ops : List RingOp) :
    ((log.run ops).entriesOf generation).map Prod.fst =
      (log.entriesOf generation).map Prod.fst ++
        appendedDuring generation log.generation ops := by
  induction ops generalizing log with
  | nil => simp [run, appendedDuring]
  | cons op ops ih =>
      rw [run, ih]
      cases op with
      | append timestamp input =>
          rw [apply_append, entriesOf_append, List.append_assoc]
          rfl
      | markGeneration => rfl

theorem entriesOf_ofOps (generation : Nat) (ops : List RingOp) :
    ((ofOps ops).entriesOf generation).map Prod.fst =
      appendedDuring generation 0 ops := by
  rw [ofOps, entriesOf_run]
  rfl

/-- An entry of a generation has been lost or is still there. -/
theorem entriesOf_eq (log : ConsoleLog) (capacity generation : Nat) :
    log.entriesOf generation =
      log.lostOf capacity generation ++ log.keptOf capacity generation := by
  rw [lostOf, keptOf, ← List.filter_append, List.take_append_drop, entriesOf]

end ConsoleLog

section Truncation

variable {ring : SerialRing} {log : ConsoleLog}

/-- What `snapshot_generation` counts as available. -/
theorem Retains.available_eq (h : Retains ring log) (generation : Nat) :
    ((ring.chunks.filter fun chunk => chunk.generation = generation).map
      fun chunk => chunk.bytes.length).sum =
        (log.keptOf ring.capacity generation).length := by
  have hkept : (((log.entries.drop (log.retainedFrom ring.capacity)).zipIdx
      (log.retainedFrom ring.capacity)).filter
        fun entry => decide (entry.1.2 = generation)).map Prod.fst =
          log.keptOf ring.capacity generation := by
    rw [ConsoleLog.keptOf]
    conv_rhs =>
      rw [← List.zipIdx_map_fst (log.retainedFrom ring.capacity)
        (log.entries.drop (log.retainedFrom ring.capacity)), List.filter_map]
    rfl
  rw [← length_stamped_segments, stamped_filter_generation, ← hkept,
    List.length_map, h.tiles.entries, List.take_length]

theorem Retains.snapshotGeneration_truncated (h : Retains ring log)
    (generation maxBytes : Nat) :
    (ring.snapshotGeneration generation maxBytes).truncated = false ↔
      (log.keptOf ring.capacity generation).length ≤ maxBytes := by
  have hflag : (ring.snapshotGeneration generation maxBytes).truncated =
      decide (((ring.chunks.filter
        fun chunk => chunk.generation = generation).map
          fun chunk => chunk.bytes.length).sum > maxBytes) := rfl
  rw [hflag, h.available_eq, decide_eq_false_iff_not, Nat.not_lt]

/-- A snapshot has every entry of a generation if none has been lost and the
limit leaves room for them. -/
theorem Retains.snapshotGeneration_complete (h : Retains ring log)
    (generation maxBytes : Nat) :
    (ring.snapshotGeneration generation maxBytes).bytes =
        (log.entriesOf generation).map Prod.fst ↔
      log.lostOf ring.capacity generation = [] ∧
        (log.keptOf ring.capacity generation).length ≤ maxBytes := by
  have hbytes : (ring.snapshotGeneration generation maxBytes).bytes =
      window maxBytes ((log.keptOf ring.capacity generation).map Prod.fst) :=
    h.snapshotGeneration_bytes generation maxBytes
  rw [hbytes, log.entriesOf_eq ring.capacity generation, List.map_append]
  constructor
  · intro hall
    have hlength := congrArg List.length hall
    rw [length_window, List.length_append, List.length_map,
      List.length_map] at hlength
    constructor
    · refine List.eq_nil_of_length_eq_zero ?_
      omega
    · omega
  · rintro ⟨hlost, hroom⟩
    rw [hlost, window, List.length_map, Nat.sub_eq_zero_of_le hroom]
    rfl

/--
In every ring that a run of `append` and `mark_generation` calls ends in, the
flag of `snapshot_generation` says whether all bytes of the generation are there
exactly if none of them has been lost or the limit cuts off others.
-/
theorem snapshotGeneration_truncated_iff {capacity : Nat} {ops : List RingOp}
    {ring : SerialRing} (hring : runNewRing capacity ops = .ok ring)
    (generation maxBytes : Nat) :
    ((ring.snapshotGeneration generation maxBytes).truncated = false ↔
        (ring.snapshotGeneration generation maxBytes).bytes =
          appendedDuring generation 0 ops) ↔
      (ConsoleLog.ofOps ops).lostOf capacity generation = [] ∨
        maxBytes <
          ((ConsoleLog.ofOps ops).keptOf capacity generation).length := by
  obtain ⟨rfl, hretains⟩ := retains_of_runNewRing hring
  rw [hretains.snapshotGeneration_truncated, ← ConsoleLog.entriesOf_ofOps,
    hretains.snapshotGeneration_complete, ← Nat.not_le]
  tauto

/-- A ring of five bytes that has received seven of them. -/
theorem snapshotGeneration_truncated_iff_seven :
    (((⟨5, 5, 7, 0, [⟨2, 0, 0, [99]⟩, ⟨3, 0, 1, [100, 101, 102, 103]⟩]⟩ :
        SerialRing).snapshotGeneration 0 3).truncated = false ↔
      ((⟨5, 5, 7, 0, [⟨2, 0, 0, [99]⟩, ⟨3, 0, 1, [100, 101, 102, 103]⟩]⟩ :
        SerialRing).snapshotGeneration 0 3).bytes =
          appendedDuring 0 0 [.append 0 [97, 98, 99],
            .append 1 [100, 101, 102, 103]]) ↔
      (ConsoleLog.ofOps [.append 0 [97, 98, 99],
          .append 1 [100, 101, 102, 103]]).lostOf 5 0 = [] ∨
        3 < ((ConsoleLog.ofOps [.append 0 [97, 98, 99],
          .append 1 [100, 101, 102, 103]]).keptOf 5 0).length :=
  snapshotGeneration_truncated_iff (by decide) 0 3

/--
The same ring with room for all that it holds: a snapshot of the generation is
reported as complete, a snapshot from its first byte on is not.
-/
theorem snapshotGeneration_misses_eviction :
    ∃ ring : SerialRing,
      runNewRing 5 [.append 0 [97, 98, 99], .append 1 [100, 101, 102, 103]] =
        .ok ring ∧
      (ring.snapshotGeneration 0 64).truncated = false ∧
      (ring.snapshotGeneration 0 64).bytes ≠ appendedDuring 0 0
        [.append 0 [97, 98, 99], .append 1 [100, 101, 102, 103]] ∧
      (ring.snapshotFrom 0 64).truncated = true := by
  refine ⟨⟨5, 5, 7, 0, [⟨2, 0, 0, [99]⟩, ⟨3, 0, 1, [100, 101, 102, 103]⟩]⟩,
    ?_, ?_, ?_, ?_⟩ <;> decide

end Truncation

end RpictlMcp
