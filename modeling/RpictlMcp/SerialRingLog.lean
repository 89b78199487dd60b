import RpictlMcp.Kernel.StampedLog
import RpictlMcp.SerialRing
import Mathlib.Data.List.Chain

/-!
# rpictl-mcp: the serial ring as a view of the console log

The ring exists to stand in for a log that nobody stores: every byte the board
ever sent, each with the generation that was current when it arrived.
`ConsoleLog` is that log, and appending and marking are one line each on it.

`Retains` relates a ring to the log: the chunks of the ring tile the last
`capacity` entries of the log, and the counters of the ring are the lengths
they stand for.  The proof that `append` keeps the relation goes through the
eviction loop.  An input longer than the capacity leaves a gap between the old
chunks and the new one until the loop has dropped every old chunk, so the loop
is described without reference to the log: it drops a prefix of the stamped
bytes, whatever their stamps are (`evict_spec`).
-/

namespace RpictlMcp

open StampedLog

/-- A console byte with the generation it was received in. -/
abbrev LoggedByte := UInt8 × Nat

/-- Everything the board has sent, and the current generation. -/
structure ConsoleLog where
  entries : List LoggedByte
  generation : Nat
  sorted : entries.Pairwise (fun x y => x.2 ≤ y.2)
  current : ∀ entry ∈ entries, entry.2 ≤ generation

namespace ConsoleLog

/-- The log before anything was received. -/
def empty : ConsoleLog where
  entries := []
  generation := 0
  sorted := List.Pairwise.nil
  current := by simp

/-- The log after the board has sent `input`. -/
def append (log : ConsoleLog) (input : List UInt8) : ConsoleLog where
  entries := log.entries ++ input.map (fun byte => (byte, log.generation))
  generation := log.generation
  sorted := by
    rw [List.pairwise_append]
    refine ⟨log.sorted, ?_, ?_⟩
    · rw [List.pairwise_map]
      exact List.pairwise_of_forall (fun _ _ => Nat.le_refl _)
    · intro x hx y hy
      obtain ⟨byte, _, rfl⟩ := List.mem_map.mp hy
      exact log.current x hx
  current := by
    intro entry hentry
    rcases List.mem_append.mp hentry with h | h
    · exact log.current entry h
    · obtain ⟨byte, _, rfl⟩ := List.mem_map.mp h
      exact Nat.le_refl _

/-- The log after a generation boundary. -/
def markGeneration (log : ConsoleLog) : ConsoleLog where
  entries := log.entries
  generation := log.generation + 1
  sorted := log.sorted
  current := fun entry hentry =>
    Nat.le_succ_of_le (log.current entry hentry)

/-- The log after one change. -/
def apply (log : ConsoleLog) : RingOp → ConsoleLog
  | .append _ input => log.append input
  | .markGeneration => log.markGeneration

/-- The log after a sequence of changes. -/
def run (log : ConsoleLog) : List RingOp → ConsoleLog
  | [] => log
  | op :: ops => (log.apply op).run ops

/-- The log that a sequence of changes leaves. -/
def ofOps (ops : List RingOp) : ConsoleLog := empty.run ops

/-- The bytes of the log. -/
def bytes (log : ConsoleLog) : List UInt8 := log.entries.map Prod.fst

/-- Index of the oldest byte a ring of the given capacity still holds. -/
def retainedFrom (log : ConsoleLog) (capacity : Nat) : Nat :=
  log.entries.length - capacity

@[simp] theorem apply_append (log : ConsoleLog) (timestamp : SystemTime)
    (input : List UInt8) :
    log.apply (.append timestamp input) = log.append input := rfl

@[simp] theorem apply_markGeneration (log : ConsoleLog) :
    log.apply .markGeneration = log.markGeneration := rfl

@[simp] theorem run_nil (log : ConsoleLog) : log.run [] = log := rfl

@[simp] theorem run_cons (log : ConsoleLog) (op : RingOp) (ops : List RingOp) :
    log.run (op :: ops) = (log.apply op).run ops := rfl

@[simp] theorem run_append (log : ConsoleLog) (first second : List RingOp) :
    log.run (first ++ second) = (log.run first).run second := by
  induction first generalizing log with
  | nil => rfl
  | cons op first ih => exact ih (log.apply op)

@[simp] theorem length_bytes (log : ConsoleLog) :
    log.bytes.length = log.entries.length := by
  simp [bytes]

/-- One change adds its input to the bytes of the log. -/
theorem bytes_apply (log : ConsoleLog) (op : RingOp) :
    (log.apply op).bytes = log.bytes ++ op.input := by
  cases op with
  | append timestamp input =>
      simp [bytes, append, RingOp.input, Function.comp_def]
  | markGeneration =>
      simp [bytes, markGeneration, RingOp.input]

/-- The bytes of the log are the inputs of all changes, in order. -/
theorem bytes_run (log : ConsoleLog) (ops : List RingOp) :
    (log.run ops).bytes = log.bytes ++ ops.flatMap RingOp.input := by
  induction ops generalizing log with
  | nil => simp
  | cons op ops ih =>
      rw [run_cons, ih, bytes_apply, List.flatMap_cons, List.append_assoc]

theorem bytes_ofOps (ops : List RingOp) :
    (ofOps ops).bytes = ops.flatMap RingOp.input := by
  rw [ofOps, bytes_run]
  rfl

theorem length_entries_ofOps (ops : List RingOp) :
    (ofOps ops).entries.length = (ops.flatMap RingOp.input).length := by
  rw [← bytes_ofOps, length_bytes]

end ConsoleLog

/-- A chunk as a segment of the console log. -/
def SerialChunk.segment (chunk : SerialChunk) : Segment LoggedByte where
  start := chunk.cursor
  items := chunk.bytes.map (fun byte => (byte, chunk.generation))

/-- The chunks of a ring or a snapshot as segments of the console log. -/
def segments (chunks : List SerialChunk) : List (Segment LoggedByte) :=
  chunks.map SerialChunk.segment

@[simp] theorem SerialChunk.segment_start (chunk : SerialChunk) :
    chunk.segment.start = chunk.cursor := rfl

@[simp] theorem SerialChunk.length_segment (chunk : SerialChunk) :
    chunk.segment.items.length = chunk.bytes.length := by
  simp [SerialChunk.segment]

@[simp] theorem segments_nil : segments [] = [] := rfl

@[simp] theorem segments_cons (chunk : SerialChunk) (rest : List SerialChunk) :
    segments (chunk :: rest) = chunk.segment :: segments rest := rfl

@[simp] theorem segments_append (xs ys : List SerialChunk) :
    segments (xs ++ ys) = segments xs ++ segments ys := by
  simp [segments]

/-- No segment is empty exactly when no chunk is. -/
theorem segments_nonempty_iff (chunks : List SerialChunk) :
    (∀ s ∈ segments chunks, s.items ≠ []) ↔
      ∀ chunk ∈ chunks, chunk.bytes ≠ [] := by
  simp [segments, SerialChunk.segment]

/-- The chunks hold as many stamped bytes as their lengths add up to. -/
theorem length_stamped_segments (chunks : List SerialChunk) :
    (stamped (segments chunks)).length =
      (chunks.map fun chunk => chunk.bytes.length).sum := by
  induction chunks with
  | nil => rfl
  | cons chunk chunks ih => simp [ih]

/-- Forgetting generations and cursors leaves the bytes of the chunks. -/
theorem map_fst_segments_items (chunks : List SerialChunk) :
    ((segments chunks).flatMap Segment.items).map Prod.fst =
      chunks.flatMap SerialChunk.bytes := by
  induction chunks with
  | nil => rfl
  | cons chunk chunks ih =>
      simp [SerialChunk.segment, Function.comp_def, ih]

/-- Cutting bytes off the front of a chunk cuts them off its segment. -/
theorem SerialChunk.stamped_drop (chunk : SerialChunk) (n : Nat) :
    ({ chunk with bytes := chunk.bytes.drop n, cursor := chunk.cursor + n } :
        SerialChunk).segment.stamped = chunk.segment.stamped.drop n := by
  simp [SerialChunk.segment, Segment.stamped, drop_zipIdx, List.map_drop]

/--
The ring holds the last `capacity` entries of the log, and its counters are
the lengths they stand for.
-/
structure Retains (ring : SerialRing) (log : ConsoleLog) : Prop where
  capacity_pos : 0 < ring.capacity
  tiles :
    Tiles log.entries (log.retainedFrom ring.capacity) log.entries.length
      (segments ring.chunks)
  bytes : ring.bytes = (ring.chunks.map fun chunk => chunk.bytes.length).sum
  nextCursor : ring.nextCursor = log.entries.length
  generation : ring.generation = log.generation

namespace Retains

variable {ring : SerialRing} {log : ConsoleLog}

/-- The counter of a ring is the width of its view. -/
theorem bytes_eq (h : Retains ring log) :
    ring.bytes = min log.entries.length ring.capacity := by
  have hlen := h.tiles.length_stamped
  rw [length_stamped_segments, ← h.bytes, ConsoleLog.retainedFrom] at hlen
  omega

/-- The oldest retained cursor is where the view starts. -/
theorem oldest_eq (h : Retains ring log) :
    ring.oldest = log.retainedFrom ring.capacity := by
  have htiles := h.tiles
  unfold SerialRing.oldest
  cases hchunks : ring.chunks with
  | nil =>
      rw [hchunks] at htiles
      simp only [List.head?_nil, h.nextCursor]
      exact htiles.eq_of_nil.symm
  | cons chunk rest =>
      rw [hchunks] at htiles
      exact htiles.cons_inv.1

/-- A ring that has received nothing. -/
theorem new {capacity : Nat} (hcapacity : 0 < capacity) :
    ∃ ring, SerialRing.new capacity = .ok ring ∧ ring.capacity = capacity ∧
      Retains ring ConsoleLog.empty := by
  refine ⟨_, if_pos hcapacity, rfl, hcapacity, ?_, rfl, rfl, rfl⟩
  have hzero : ConsoleLog.empty.retainedFrom capacity = 0 := Nat.zero_sub _
  rw [hzero]
  exact Tiles.nil (Nat.zero_le _)

/-- A generation boundary changes neither the chunks nor the entries. -/
theorem markGeneration (h : Retains ring log) :
    Retains ring.markGeneration.1 log.markGeneration where
  capacity_pos := h.capacity_pos
  tiles := h.tiles
  bytes := h.bytes
  nextCursor := h.nextCursor
  generation := by
    simp only [SerialRing.markGeneration, ConsoleLog.markGeneration,
      h.generation]

end Retains

/-! ## Eviction -/

namespace SerialRing

/-- Below the capacity the eviction loop is over. -/
theorem evict_of_le {budget : Nat} {ring : SerialRing}
    (h : ring.bytes ≤ ring.capacity) : evict budget ring = .ok ring := by
  cases budget <;> simp [evict, Nat.not_lt.mpr h]

/-- A ring above its capacity runs one iteration and then the rest. -/
theorem evict_succ_of_gt {budget : Nat} {ring : SerialRing}
    (h : ring.capacity < ring.bytes) :
    evict (budget + 1) ring = evictStep ring >>= evict budget := by
  simp [evict, h]

/-- An iteration cuts the excess off a front chunk that is longer than it. -/
theorem evictStep_trim {ring : SerialRing} {front : SerialChunk}
    {rest : List SerialChunk} (hchunks : ring.chunks = front :: rest)
    (hgt : ring.capacity < ring.bytes)
    (hfront : ring.bytes - ring.capacity < front.bytes.length)
    (hcursor : front.cursor + front.bytes.length < 2 ^ 64) :
    evictStep ring = .ok
      { ring with
        bytes := ring.capacity
        chunks :=
          { front with
            bytes := front.bytes.drop (ring.bytes - ring.capacity)
            cursor := front.cursor + (ring.bytes - ring.capacity) } ::
            rest } := by
  have hexcess : checkedSub ring.bytes ring.capacity =
      .ok (ring.bytes - ring.capacity) := checkedSub_ok (by omega)
  have hadd : checkedAdd front.cursor (ring.bytes - ring.capacity) =
      .ok (front.cursor + (ring.bytes - ring.capacity)) :=
    checkedAdd_ok (by omega)
  have hsub : checkedSub ring.bytes (ring.bytes - ring.capacity) =
      .ok ring.capacity := by
    rw [checkedSub_ok (by omega)]
    congr 1
    omega
  simp only [evictStep, hexcess, hchunks, bind, Except.bind, hfront, if_true,
    hadd, hsub]

/-- An iteration drops a front chunk that is no longer than the excess. -/
theorem evictStep_drop {ring : SerialRing} {front : SerialChunk}
    {rest : List SerialChunk} (hchunks : ring.chunks = front :: rest)
    (hgt : ring.capacity < ring.bytes)
    (hfront : front.bytes.length ≤ ring.bytes - ring.capacity) :
    evictStep ring = .ok
      { ring with
        bytes := ring.bytes - front.bytes.length
        chunks := rest } := by
  have hexcess : checkedSub ring.bytes ring.capacity =
      .ok (ring.bytes - ring.capacity) := checkedSub_ok (by omega)
  have hsub : checkedSub ring.bytes front.bytes.length =
      .ok (ring.bytes - front.bytes.length) := checkedSub_ok (by omega)
  simp only [evictStep, hexcess, hchunks, bind, Except.bind,
    Nat.not_lt.mpr hfront, if_false, hsub]

/-- A ring that counts its bytes, in chunks that hold some each and end in the
64-bit range. -/
structure Counted (ring : SerialRing) : Prop where
  bytes : ring.bytes = (stamped (segments ring.chunks)).length
  nonempty : ∀ chunk ∈ ring.chunks, chunk.bytes ≠ []
  bounded : ∀ chunk ∈ ring.chunks,
    chunk.cursor + chunk.bytes.length < 2 ^ 64

/-- What eviction leaves of a ring. -/
structure Evicts (ring ring' : SerialRing) : Prop where
  capacity : ring'.capacity = ring.capacity
  nextCursor : ring'.nextCursor = ring.nextCursor
  generation : ring'.generation = ring.generation
  counted : Counted ring'
  window : window ring.capacity (stamped (segments ring'.chunks)) =
    window ring.capacity (stamped (segments ring.chunks))

theorem Evicts.refl {ring : SerialRing} (h : Counted ring) : Evicts ring ring :=
  ⟨rfl, rfl, rfl, h, rfl⟩

theorem Evicts.trans {ring ring₁ ring₂ : SerialRing} (h₁ : Evicts ring ring₁)
    (h₂ : Evicts ring₁ ring₂) : Evicts ring ring₂ where
  capacity := h₂.capacity.trans h₁.capacity
  nextCursor := h₂.nextCursor.trans h₁.nextCursor
  generation := h₂.generation.trans h₁.generation
  counted := h₂.counted
  window := by
    have hwindow := h₂.window
    rw [h₁.capacity] at hwindow
    exact hwindow.trans h₁.window

/-- Within the capacity the ring holds its window. -/
theorem Counted.stamped_eq_window {ring : SerialRing} (h : Counted ring)
    (hle : ring.bytes ≤ ring.capacity) :
    stamped (segments ring.chunks) =
      StampedLog.window ring.capacity (stamped (segments ring.chunks)) :=
  (window_of_length_le (h.bytes ▸ hle)).symm

section EvictStep

variable {ring : SerialRing} {front : SerialChunk} {rest : List SerialChunk}

/-- The counter of a ring, split behind its front chunk. -/
theorem Counted.bytes_cons (h : Counted ring)
    (hchunks : ring.chunks = front :: rest) :
    ring.bytes = front.bytes.length + (stamped (segments rest)).length := by
  rw [h.bytes, hchunks, segments_cons, stamped_cons, List.length_append]
  simp

/-- An iteration that cuts its front chunk brings the ring to its capacity. -/
theorem Counted.trim (h : Counted ring) (hchunks : ring.chunks = front :: rest)
    (hgt : ring.capacity < ring.bytes)
    (hfront : ring.bytes - ring.capacity < front.bytes.length) :
    ∃ ring', evictStep ring = .ok ring' ∧ Evicts ring ring' ∧
      ring'.bytes ≤ ring'.capacity := by
  have hsum := h.bytes_cons hchunks
  have hbounded := h.bounded
  have hnonempty := h.nonempty
  simp only [hchunks, List.mem_cons, forall_eq_or_imp] at hbounded hnonempty
  have hlen : front.segment.stamped.length = front.bytes.length := by
    simp
  refine ⟨_, evictStep_trim hchunks hgt hfront hbounded.1,
    ⟨rfl, rfl, rfl, ⟨?_, ?_, ?_⟩, ?_⟩, Nat.le_refl _⟩
  · rw [segments_cons, stamped_cons, SerialChunk.stamped_drop,
      List.length_append, List.length_drop, hlen]
    show ring.capacity = _
    omega
  · simp only [List.mem_cons, forall_eq_or_imp]
    refine ⟨List.ne_nil_of_length_pos ?_, hnonempty.2⟩
    rw [List.length_drop]
    omega
  · simp only [List.mem_cons, forall_eq_or_imp]
    refine ⟨?_, hbounded.2⟩
    rw [List.length_drop]
    omega
  · have hcut : stamped (segments ({ front with
          bytes := front.bytes.drop (ring.bytes - ring.capacity)
          cursor := front.cursor + (ring.bytes - ring.capacity) } :: rest)) =
        StampedLog.window ring.capacity (stamped (segments ring.chunks)) := by
      rw [StampedLog.window, ← h.bytes, hchunks, segments_cons, stamped_cons,
        SerialChunk.stamped_drop, segments_cons, stamped_cons,
        List.drop_append_of_le_length (by omega)]
    rw [hcut, window_window, Nat.min_self]

/-- An iteration that drops its front chunk keeps the window of the ring. -/
theorem Counted.drop (h : Counted ring) (hchunks : ring.chunks = front :: rest)
    (hgt : ring.capacity < ring.bytes)
    (hfront : front.bytes.length ≤ ring.bytes - ring.capacity) :
    ∃ ring', evictStep ring = .ok ring' ∧ Evicts ring ring' ∧
      ring'.chunks = rest := by
  have hsum := h.bytes_cons hchunks
  have hbounded := h.bounded
  have hnonempty := h.nonempty
  simp only [hchunks, List.mem_cons, forall_eq_or_imp] at hbounded hnonempty
  refine ⟨_, evictStep_drop hchunks hgt hfront,
    ⟨rfl, rfl, rfl, ⟨?_, hnonempty.2, hbounded.2⟩, ?_⟩, rfl⟩
  · show ring.bytes - front.bytes.length = (stamped (segments rest)).length
    omega
  · have hfill : ring.capacity ≤ (stamped (segments rest)).length := by
      omega
    rw [hchunks, segments_cons, stamped_cons, window_append_of_ge _ hfill]

end EvictStep

/--
The eviction loop ends within one iteration for each chunk, without a panic,
and leaves the window of the stamped bytes.
-/
theorem evict_spec (budget : Nat) (ring : SerialRing)
    (hbudget : ring.chunks.length ≤ budget) (h : Counted ring) :
    ∃ ring', evict budget ring = .ok ring' ∧ Evicts ring ring' ∧
      stamped (segments ring'.chunks) =
        StampedLog.window ring.capacity (stamped (segments ring.chunks)) := by
  induction budget generalizing ring with
  | zero =>
      have hnil : ring.chunks = [] := by
        simpa using hbudget
      have hzero : ring.bytes = 0 := by
        simp [h.bytes, hnil]
      exact ⟨ring, evict_of_le (by omega), .refl h,
        h.stamped_eq_window (by omega)⟩
  | succ budget ih =>
      by_cases hle : ring.bytes ≤ ring.capacity
      · exact ⟨ring, evict_of_le hle, .refl h, h.stamped_eq_window hle⟩
      have hgt : ring.capacity < ring.bytes := by omega
      rw [evict_succ_of_gt hgt]
      cases hchunks : ring.chunks with
      | nil =>
          -- No chunk carries a byte, so nothing can be in excess.
          have hzero : ring.bytes = 0 := by
            simp [h.bytes, hchunks]
          omega
      | cons front rest =>
          rw [← hchunks]
          by_cases htrim : ring.bytes - ring.capacity < front.bytes.length
          · obtain ⟨ring', hstep, hevicts, hle'⟩ := h.trim hchunks hgt htrim
            refine ⟨ring', ?_, hevicts, ?_⟩
            · rw [hstep]
              exact evict_of_le hle'
            · rw [hevicts.counted.stamped_eq_window hle', hevicts.capacity,
                hevicts.window]
          · obtain ⟨popped, hstep, hevicts, hrest⟩ :=
              h.drop hchunks hgt (by omega)
            have hlength : popped.chunks.length ≤ budget := by
              rw [hchunks, List.length_cons] at hbudget
              rw [hrest]
              omega
            obtain ⟨ring', hrun, hevicts', hstamped⟩ :=
              ih popped hlength hevicts.counted
            refine ⟨ring', ?_, hevicts.trans hevicts', ?_⟩
            · rw [hstep]
              exact hrun
            · rw [hstamped, hevicts.capacity, hevicts.window]

/-! ## Appending -/

theorem kept_eq_drop (capacity : Nat) (input : List UInt8) :
    kept capacity input = input.drop (input.length - capacity) := by
  unfold kept
  split
  · rfl
  · rw [Nat.sub_eq_zero_of_le (by omega), List.drop_zero]

theorem length_kept (capacity : Nat) (input : List UInt8) :
    (kept capacity input).length = min input.length capacity := by
  rw [kept_eq_drop, List.length_drop]
  omega

/-- The chunk that `append` pushes is the window of the new log entries. -/
theorem kept_segment_stamped (log : ConsoleLog) (capacity : Nat)
    (timestamp : SystemTime) (input : List UInt8) :
    ({ cursor := log.entries.length + input.length -
          (kept capacity input).length
       generation := log.generation
       timestamp
       bytes := kept capacity input } : SerialChunk).segment.stamped =
      window capacity
        ((input.map fun byte => (byte, log.generation)).zipIdx
          log.entries.length) := by
  have hlen := length_kept capacity input
  rw [window, List.length_zipIdx, List.length_map, drop_zipIdx, ← List.map_drop,
    ← kept_eq_drop]
  simp only [SerialChunk.segment, Segment.stamped]
  congr 1
  omega

/-- `append` when none of its sums and differences leaves the 64-bit range. -/
theorem append_eq {ring : SerialRing} {timestamp : SystemTime}
    {input : List UInt8}
    (hnext : ring.nextCursor + input.length < 2 ^ 64)
    (hbytes : ring.bytes + (kept ring.capacity input).length < 2 ^ 64)
    (hinput : input ≠ []) :
    ring.append timestamp input =
      (evict (ring.chunks.length + 1)
        { ring with
          nextCursor := ring.nextCursor + input.length
          bytes := ring.bytes + (kept ring.capacity input).length
          chunks := ring.chunks ++
            [{ cursor := ring.nextCursor + input.length -
                (kept ring.capacity input).length
               generation := ring.generation
               timestamp
               bytes := kept ring.capacity input }] } >>=
        fun ring' => .ok (ring', ring.nextCursor)) := by
  have hlen := length_kept ring.capacity input
  have hisEmpty : input.isEmpty = false := by
    simpa using hinput
  have hsub : checkedSub (ring.nextCursor + input.length)
      (kept ring.capacity input).length =
        .ok (ring.nextCursor + input.length -
          (kept ring.capacity input).length) := checkedSub_ok (by omega)
  unfold append
  simp only [checkedAdd_ok hnext, checkedAdd_ok hbytes, hsub, hisEmpty, bind,
    Except.bind, Bool.false_eq_true, if_false]

end SerialRing

open SerialRing

/-- A retained chunk lies inside the log. -/
theorem Retains.chunk_le {ring : SerialRing} {log : ConsoleLog}
    (h : Retains ring log) {chunk : SerialChunk} (hchunk : chunk ∈ ring.chunks) :
    chunk.cursor + chunk.bytes.length ≤ log.entries.length := by
  have hne : chunk.bytes ≠ [] :=
    (segments_nonempty_iff ring.chunks).mp h.tiles.nonempty chunk hchunk
  have hpos := List.length_pos_iff.mpr hne
  have hlast := h.tiles.getElem? (List.mem_map_of_mem hchunk)
    (i := chunk.bytes.length - 1)
    (by
      rw [SerialChunk.length_segment]
      omega)
  have hlt := (List.getElem?_eq_some_iff.mp hlast).1
  rw [SerialChunk.segment_start] at hlt
  omega

/-- An empty input leaves the ring and the log as they were. -/
theorem Retains.append_nil {ring : SerialRing} {log : ConsoleLog}
    (h : Retains ring log) (timestamp : SystemTime)
    (hlen : log.entries.length < 2 ^ 64) :
    ring.append timestamp [] = .ok (ring, log.entries.length) ∧
      Retains ring (log.append []) := by
  have hlog : log.append [] = log := by
    simp [ConsoleLog.append]
  refine ⟨?_, hlog.symm ▸ h⟩
  unfold SerialRing.append
  rw [List.length_nil, checkedAdd_ok (by rw [h.nextCursor]; exact hlen),
    h.nextCursor]
  simp only [bind, Except.bind, List.isEmpty_nil, if_true, Nat.add_zero,
    ← h.nextCursor]

section Append

variable {ring : SerialRing} {log : ConsoleLog} {input : List UInt8}

/-- The chunk that `append` pushes. -/
def SerialRing.pushed (ring : SerialRing) (timestamp : SystemTime)
    (input : List UInt8) : SerialChunk where
  cursor := ring.nextCursor + input.length - (kept ring.capacity input).length
  generation := ring.generation
  timestamp := timestamp
  bytes := kept ring.capacity input

/-- The ring in `append`, before anything is evicted. -/
def SerialRing.overfull (ring : SerialRing) (timestamp : SystemTime)
    (input : List UInt8) : SerialRing :=
  { ring with
    nextCursor := ring.nextCursor + input.length
    bytes := ring.bytes + (kept ring.capacity input).length
    chunks := ring.chunks ++ [ring.pushed timestamp input] }

/-- The chunk is the window of the new log entries. -/
theorem Retains.pushed_stamped (h : Retains ring log) (timestamp : SystemTime)
    (input : List UInt8) :
    (ring.pushed timestamp input).segment.stamped =
      window ring.capacity
        ((input.map fun byte => (byte, log.generation)).zipIdx
          log.entries.length) := by
  rw [← kept_segment_stamped log ring.capacity timestamp input,
    SerialRing.pushed, h.generation, h.nextCursor]

/-- With its new chunk the ring counts its bytes, old and new. -/
theorem Retains.overfull_counted (h : Retains ring log)
    (timestamp : SystemTime) (hinput : input ≠ [])
    (hlen : log.entries.length + input.length < 2 ^ 64) :
    Counted (ring.overfull timestamp input) where
  bytes := by
    show ring.bytes + _ = (stamped (segments (ring.chunks ++ _))).length
    rw [segments_append, stamped_append, List.length_append,
      length_stamped_segments, ← h.bytes]
    simp [SerialRing.pushed]
  nonempty := by
    intro chunk hchunk
    rcases List.mem_append.mp hchunk with hchunk | hchunk
    · exact (segments_nonempty_iff ring.chunks).mp h.tiles.nonempty chunk hchunk
    · rw [List.mem_singleton.mp hchunk]
      have hpos : 0 < input.length := List.length_pos_iff.mpr hinput
      have hcap := h.capacity_pos
      refine List.ne_nil_of_length_pos ?_
      rw [SerialRing.pushed, length_kept]
      omega
  bounded := by
    intro chunk hchunk
    rcases List.mem_append.mp hchunk with hchunk | hchunk
    · have := h.chunk_le hchunk
      omega
    · rw [List.mem_singleton.mp hchunk]
      have hkept := length_kept ring.capacity input
      have hnext := h.nextCursor
      simp only [SerialRing.pushed]
      omega

/-- After eviction the ring holds the window of the extended log. -/
theorem Retains.overfull_window (h : Retains ring log)
    (timestamp : SystemTime) (input : List UInt8) :
    window ring.capacity
        (stamped (segments (ring.overfull timestamp input).chunks)) =
      window ring.capacity (log.append input).entries.zipIdx := by
  rw [SerialRing.overfull, segments_append, stamped_append,
    h.tiles.stamped_eq_window, segments_cons, segments_nil, stamped_cons,
    stamped_nil, List.append_nil, h.pushed_stamped, window_append_window,
    ConsoleLog.append, List.zipIdx_append, Nat.zero_add]

/-- `append` succeeds on a ring that views the log, returns the length of the
log, and leaves a view of the extended log. -/
theorem Retains.append (h : Retains ring log) (timestamp : SystemTime)
    (hlen : log.entries.length + input.length < 2 ^ 64) :
    ∃ ring', ring.append timestamp input = .ok (ring', log.entries.length) ∧
      ring'.capacity = ring.capacity ∧
      Retains ring' (log.append input) := by
  by_cases hinput : input = []
  · subst hinput
    obtain ⟨hrun, hretains⟩ := h.append_nil timestamp (by simpa using hlen)
    exact ⟨ring, hrun, rfl, hretains⟩
  have hkept := length_kept ring.capacity input
  have hcount := h.bytes_eq
  have hnext := h.nextCursor
  obtain ⟨ring', hevict, hevicts, hstamped⟩ :=
    evict_spec (ring.chunks.length + 1) (ring.overfull timestamp input)
      (by simp [SerialRing.overfull])
      (h.overfull_counted timestamp hinput hlen)
  have hentries := hstamped.trans (h.overfull_window timestamp input)
  refine ⟨ring', ?_, hevicts.capacity, ?_⟩
  · have happend : ring.append timestamp input = _ :=
      append_eq (by omega) (by omega) hinput
    rw [happend, ← hnext]
    exact congrArg (· >>= fun ring' => .ok (ring', ring.nextCursor)) hevict
  · have hcap : ring'.capacity = ring.capacity := hevicts.capacity
    refine ⟨hcap.symm ▸ h.capacity_pos, ?_, ?_, ?_, ?_⟩
    · rw [hcap]
      exact Tiles.of_window
        ((segments_nonempty_iff ring'.chunks).mpr hevicts.counted.nonempty)
        hentries
    · rw [hevicts.counted.bytes, length_stamped_segments]
    · rw [hevicts.nextCursor]
      simp [SerialRing.overfull, ConsoleLog.append, hnext]
    · rw [hevicts.generation]
      exact h.generation

end Append

/-! ## Runs -/

/-- One change keeps the relation between ring and log. -/
theorem Retains.apply {ring : SerialRing} {log : ConsoleLog}
    (h : Retains ring log) (op : RingOp)
    (hlen : log.entries.length + op.input.length < 2 ^ 64) :
    ∃ ring', op.apply ring = .ok ring' ∧ ring'.capacity = ring.capacity ∧
      Retains ring' (log.apply op) := by
  cases op with
  | append timestamp input =>
      obtain ⟨ring', hrun, hcap, hretains⟩ := h.append timestamp hlen
      refine ⟨ring', ?_, hcap, hretains⟩
      have hinput : ring.append timestamp input =
          .ok (ring', log.entries.length) := hrun
      simp only [RingOp.apply, hinput, bind, Except.bind]
  | markGeneration =>
      exact ⟨ring.markGeneration.1, rfl, rfl, h.markGeneration⟩

theorem ConsoleLog.length_entries_apply (log : ConsoleLog) (op : RingOp) :
    (log.apply op).entries.length = log.entries.length + op.input.length := by
  rw [← length_bytes, bytes_apply, List.length_append, length_bytes]

/-- Any sequence of changes below the 64-bit range keeps the relation. -/
theorem Retains.run {ring : SerialRing} {log : ConsoleLog}
    (h : Retains ring log) (ops : List RingOp)
    (hlen : log.entries.length + (ops.flatMap RingOp.input).length < 2 ^ 64) :
    ∃ ring', runRing ring ops = .ok ring' ∧ ring'.capacity = ring.capacity ∧
      Retains ring' (log.run ops) := by
  induction ops generalizing ring log with
  | nil => exact ⟨ring, rfl, rfl, h⟩
  | cons op ops ih =>
      rw [List.flatMap_cons, List.length_append] at hlen
      obtain ⟨ring₁, hrun₁, hcap₁, hretains₁⟩ := h.apply op (by omega)
      obtain ⟨ring₂, hrun₂, hcap₂, hretains₂⟩ := ih hretains₁ (by
        rw [ConsoleLog.length_entries_apply]
        omega)
      refine ⟨ring₂, ?_, hcap₂.trans hcap₁, hretains₂⟩
      simp only [runRing, hrun₁, bind, Except.bind, hrun₂]

/-- An `append` that returns has stayed in the 64-bit range. -/
theorem SerialRing.lt_of_append_ok {ring : SerialRing} {timestamp : SystemTime}
    {input : List UInt8} {result : SerialRing × Nat}
    (hrun : ring.append timestamp input = .ok result) :
    ring.nextCursor + input.length < 2 ^ 64 := by
  by_contra hge
  have hadd : checkedAdd ring.nextCursor input.length = .error .addOverflow :=
    if_neg hge
  unfold SerialRing.append at hrun
  simp only [hadd, bind, Except.bind] at hrun
  cases hrun

/-- A change that returns keeps the relation. -/
theorem Retains.of_apply {ring ring' : SerialRing} {log : ConsoleLog}
    (h : Retains ring log) {op : RingOp} (hrun : op.apply ring = .ok ring') :
    ring'.capacity = ring.capacity ∧ Retains ring' (log.apply op) := by
  have hlen : log.entries.length + op.input.length < 2 ^ 64 ∨
      op = .markGeneration := by
    cases op with
    | append timestamp input =>
        left
        rw [← h.nextCursor]
        cases happend : ring.append timestamp input with
        | ok result => exact lt_of_append_ok happend
        | error panic =>
            simp only [RingOp.apply, happend, bind, Except.bind] at hrun
            cases hrun
    | markGeneration => exact Or.inr rfl
  rcases hlen with hlen | rfl
  · obtain ⟨ring₁, hrun₁, hcap, hretains⟩ := h.apply op hlen
    rw [hrun₁] at hrun
    exact Except.ok.inj hrun ▸ ⟨hcap, hretains⟩
  · exact Except.ok.inj hrun ▸ ⟨rfl, h.markGeneration⟩

/-- A sequence of changes that returns keeps the relation. -/
theorem Retains.of_runRing {ring ring' : SerialRing} {log : ConsoleLog}
    (h : Retains ring log) {ops : List RingOp}
    (hrun : runRing ring ops = .ok ring') :
    ring'.capacity = ring.capacity ∧ Retains ring' (log.run ops) := by
  induction ops generalizing ring log with
  | nil => exact Except.ok.inj hrun ▸ ⟨rfl, h⟩
  | cons op ops ih =>
      simp only [runRing] at hrun
      cases hop : op.apply ring with
      | error panic =>
          rw [hop] at hrun
          cases hrun
      | ok ring₁ =>
          rw [hop] at hrun
          obtain ⟨hcap₁, hretains₁⟩ := h.of_apply hop
          obtain ⟨hcap, hretains⟩ := ih hretains₁ hrun
          exact ⟨hcap.trans hcap₁, hretains⟩

/-- A ring that any sequence of changes has led to retains their log. -/
theorem retains_of_runNewRing {capacity : Nat} {ops : List RingOp}
    {ring : SerialRing} (hrun : runNewRing capacity ops = .ok ring) :
    ring.capacity = capacity ∧ Retains ring (ConsoleLog.ofOps ops) := by
  by_cases hcapacity : 0 < capacity
  · obtain ⟨ring₀, hnew, hcap₀, hretains₀⟩ := Retains.new hcapacity
    simp only [runNewRing, hnew, bind, Except.bind] at hrun
    obtain ⟨hcap, hretains⟩ := hretains₀.of_runRing hrun
    exact ⟨hcap.trans hcap₀, hretains⟩
  · have hnew : SerialRing.new capacity = .error .assertionFailed :=
      if_neg hcapacity
    simp only [runNewRing, hnew, bind, Except.bind] at hrun
    cases hrun

/-- A new ring after any sequence of changes below the 64-bit range. -/
theorem runNewRing_retains {capacity : Nat} (hcapacity : 0 < capacity)
    (ops : List RingOp) (hlen : (ops.flatMap RingOp.input).length < 2 ^ 64) :
    ∃ ring, runNewRing capacity ops = .ok ring ∧ ring.capacity = capacity ∧
      Retains ring (ConsoleLog.ofOps ops) := by
  obtain ⟨ring₀, hnew, hcap₀, hretains₀⟩ := Retains.new hcapacity
  obtain ⟨ring, hrun, hcap, hretains⟩ := hretains₀.run ops (by
    simpa [ConsoleLog.empty] using hlen)
  refine ⟨ring, ?_, hcap.trans hcap₀, hretains⟩
  simp only [runNewRing, hnew, bind, Except.bind, hrun]

/--
A ring is the bounded view of a log `H`: the last `capacity` bytes of `H`, each
under its own index and generation, in abutting nonempty chunks that end at the
end of `H`.
-/
structure BoundedView (capacity : Nat) (ring : SerialRing) (H : ConsoleLog) :
    Prop where
  bytes_eq :
    ring.chunks.flatMap SerialChunk.bytes =
      H.bytes.drop (H.bytes.length - min H.bytes.length capacity)
  logged : ∀ chunk ∈ ring.chunks, ∀ i (hi : i < chunk.bytes.length),
    H.entries[chunk.cursor + i]? = some (chunk.bytes[i], chunk.generation)
  nonempty : ∀ chunk ∈ ring.chunks, chunk.bytes ≠ []
  abut : ring.chunks.IsChain fun c d => c.cursor + c.bytes.length = d.cursor
  ends : ∀ chunk ∈ ring.chunks.getLast?,
    chunk.cursor + chunk.bytes.length = ring.nextCursor
  nextCursor : ring.nextCursor = H.bytes.length
  sorted : ring.chunks.Pairwise fun c d => c.generation ≤ d.generation
  current : ∀ chunk ∈ ring.chunks, chunk.generation ≤ ring.generation
  generation : ring.generation = H.generation
  counter : ring.bytes = (ring.chunks.map fun chunk => chunk.bytes.length).sum
  bounded : ring.bytes ≤ capacity

/-- A chain of segment starts is a chain of chunk cursors. -/
theorem Retains.abut {ring : SerialRing} {log : ConsoleLog}
    (h : Retains ring log) :
    ring.chunks.IsChain fun c d => c.cursor + c.bytes.length = d.cursor := by
  have hchain := h.tiles.isChain
  rw [segments, List.isChain_map] at hchain
  simpa using hchain

/-- Every retained byte stands in the log under its cursor and generation. -/
theorem Retains.logged {ring : SerialRing} {log : ConsoleLog}
    (h : Retains ring log) {chunk : SerialChunk} (hchunk : chunk ∈ ring.chunks)
    {i : Nat} (hi : i < chunk.bytes.length) :
    log.entries[chunk.cursor + i]? =
      some (chunk.bytes[i], chunk.generation) := by
  have := h.tiles.getElem? (List.mem_map_of_mem hchunk) (i := i) (by
    rwa [SerialChunk.length_segment])
  simpa [SerialChunk.segment] using this

/-- The first byte of a retained chunk shows its generation in the log. -/
theorem Retains.generation_mem {ring : SerialRing} {log : ConsoleLog}
    (h : Retains ring log) {chunk : SerialChunk}
    (hchunk : chunk ∈ ring.chunks) :
    ∃ byte, log.entries[chunk.cursor]? = some (byte, chunk.generation) := by
  have hne : chunk.bytes ≠ [] :=
    (segments_nonempty_iff ring.chunks).mp h.tiles.nonempty chunk hchunk
  exact ⟨_, h.logged hchunk (i := 0) (List.length_pos_iff.mpr hne)⟩

theorem Retains.generation_le {ring : SerialRing} {log : ConsoleLog}
    (h : Retains ring log) {chunk : SerialChunk}
    (hchunk : chunk ∈ ring.chunks) : chunk.generation ≤ ring.generation := by
  obtain ⟨byte, hget⟩ := h.generation_mem hchunk
  rw [h.generation]
  exact log.current _ (List.mem_of_getElem? hget)

/-- Chunk generations are sorted because the log is and cursors grow. -/
theorem Retains.generations_sorted {ring : SerialRing} {log : ConsoleLog}
    (h : Retains ring log) :
    ring.chunks.Pairwise fun c d => c.generation ≤ d.generation := by
  have hcursors : ring.chunks.Pairwise fun c d => c.cursor ≤ d.cursor := by
    refine List.IsChain.pairwise (h.abut.imp ?_)
    intro c d hcd
    omega
  refine hcursors.imp_of_mem ?_
  intro c d hc hd hle
  obtain ⟨x, hx⟩ := h.generation_mem hc
  obtain ⟨y, hy⟩ := h.generation_mem hd
  rcases Nat.lt_or_eq_of_le hle with hlt | heq
  · obtain ⟨hcl, hcx⟩ := List.getElem?_eq_some_iff.mp hx
    obtain ⟨hdl, hdy⟩ := List.getElem?_eq_some_iff.mp hy
    have hsorted := List.pairwise_iff_getElem.mp log.sorted _ _ hcl hdl hlt
    rwa [hcx, hdy] at hsorted
  · rw [heq, hy] at hx
    simp only [Option.some.injEq, Prod.mk.injEq] at hx
    omega

/-- The relation kept by the induction gives the whole bounded view. -/
theorem Retains.boundedView {ring : SerialRing} {log : ConsoleLog}
    (h : Retains ring log) : BoundedView ring.capacity ring log where
  bytes_eq := by
    have hitems := h.tiles.items_eq
    rw [← map_fst_segments_items, hitems, List.take_length, List.map_drop]
    simp only [ConsoleLog.bytes, List.length_map, ConsoleLog.retainedFrom]
    congr 1
    omega
  logged := fun _ hchunk _ hi => h.logged hchunk hi
  nonempty := (segments_nonempty_iff ring.chunks).mp h.tiles.nonempty
  abut := h.abut
  ends := by
    intro chunk hchunk
    have hlast : (segments ring.chunks).getLast? = some chunk.segment := by
      rw [segments, List.getLast?_map, hchunk]
      rfl
    have := h.tiles.getLast? hlast
    rw [h.nextCursor, ← this, SerialChunk.length_segment,
      SerialChunk.segment_start]
  nextCursor := by
    rw [h.nextCursor, ConsoleLog.length_bytes]
  sorted := h.generations_sorted
  current := fun _ hchunk => h.generation_le hchunk
  generation := h.generation
  counter := h.bytes
  bounded := by
    rw [h.bytes_eq]
    exact Nat.min_le_right _ _

/--
Every run of `append` and `mark_generation` calls on a new ring ends without a
panic in the bounded view of the log of its inputs, and the next `append`
returns the length of that log.
-/
theorem runNewRing_boundedView (capacity : Nat) (hcapacity : 1 ≤ capacity)
    (ops : List RingOp) (hlen : (ops.flatMap RingOp.input).length < 2 ^ 64) :
    ∃ ring, runNewRing capacity ops = .ok ring ∧
      (ConsoleLog.ofOps ops).bytes = ops.flatMap RingOp.input ∧
      BoundedView capacity ring (ConsoleLog.ofOps ops) ∧
      ∀ timestamp input,
        (ops.flatMap RingOp.input).length + input.length < 2 ^ 64 →
        ∃ ring', ring.append timestamp input =
          .ok (ring', (ops.flatMap RingOp.input).length) := by
  obtain ⟨ring, hrun, hcap, hretains⟩ :=
    runNewRing_retains hcapacity ops hlen
  refine ⟨ring, hrun, ConsoleLog.bytes_ofOps ops, hcap ▸ hretains.boundedView,
    ?_⟩
  intro timestamp input hnext
  rw [← ConsoleLog.length_entries_ofOps] at hnext ⊢
  obtain ⟨ring', happend, -, -⟩ := hretains.append timestamp hnext
  exact ⟨ring', happend⟩

/-- The bounded view for two reads that overflow a ring of five bytes. -/
theorem runNewRing_boundedView_five :
    ∃ ring,
      runNewRing 5 [.append 0 [97, 98, 99], .markGeneration,
        .append 1 [100, 101, 102, 103]] = .ok ring ∧
      (ConsoleLog.ofOps [.append 0 [97, 98, 99], .markGeneration,
        .append 1 [100, 101, 102, 103]]).bytes =
          [97, 98, 99, 100, 101, 102, 103] ∧
      BoundedView 5 ring (ConsoleLog.ofOps [.append 0 [97, 98, 99],
        .markGeneration, .append 1 [100, 101, 102, 103]]) ∧
      ∀ timestamp input, 7 + List.length input < 2 ^ 64 →
        ∃ ring', ring.append timestamp input = .ok (ring', 7) :=
  runNewRing_boundedView 5 (by decide)
    [.append 0 [97, 98, 99], .markGeneration, .append 1 [100, 101, 102, 103]]
    (by decide)

example :
    (runNewRing 5 [.append 0 [97, 98, 99], .markGeneration,
      .append 1 [100, 101, 102, 103]]).map SerialRing.chunks =
    .ok [⟨2, 0, 0, [99]⟩, ⟨3, 1, 1, [100, 101, 102, 103]⟩] := by
  decide

end RpictlMcp
