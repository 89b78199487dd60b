import RpictlMcp.SerialSnapshot

/-!
# rpictl-mcp: snapshots of one generation

`SerialRing::snapshot_generation` walks over the chunks of one generation and
skips all but the last bytes of them.  In terms of the console log it returns
the last entries among the retained entries of that generation, each at its own
index.  Since generations never decrease along the log, the entries of one
generation are a stretch of it, so the returned chunks abut and the snapshot
ends where the stretch does.  The entries of the current generation are the end
of the log: such a snapshot begins after the last generation boundary.
-/

namespace RpictlMcp

open StampedLog

namespace SerialRing

/-- The chunk loop of `snapshot_generation` drops what is to be skipped. -/
theorem stamped_generationChunks {generation : Nat}
    {chunks : List SerialChunk}
    (htagged : ∀ chunk ∈ chunks, chunk.generation = generation)
    (skip seen : Nat) :
    stamped (segments (generationChunks generation skip seen chunks)) =
      (stamped (segments chunks)).drop (skip - seen) := by
  induction chunks generalizing seen with
  | nil => simp [generationChunks]
  | cons chunk rest ih =>
      have hgeneration := htagged chunk List.mem_cons_self
      have hrest := ih
        (fun c hc => htagged c (List.mem_cons_of_mem _ hc))
        (seen + chunk.bytes.length)
      rw [segments_cons, stamped_cons, List.drop_append,
        Segment.length_stamped, SerialChunk.length_segment, Nat.sub_sub,
        ← hrest]
      simp only [generationChunks]
      split
      · rename_i hstart
        rw [segments_cons, stamped_cons, ← hgeneration,
          SerialChunk.stamped_drop]
        congr 2
        omega
      · rename_i hstart
        rw [List.drop_of_length_le, List.nil_append]
        rw [Segment.length_stamped, SerialChunk.length_segment]
        omega

/-- Selecting chunks by generation selects their entries. -/
theorem stamped_filter_generation (generation : Nat)
    (chunks : List SerialChunk) :
    stamped (segments (chunks.filter
      fun chunk => chunk.generation = generation)) =
      (stamped (segments chunks)).filter
        fun entry => entry.1.2 = generation := by
  induction chunks with
  | nil => rfl
  | cons chunk rest ih =>
      have hsame : ∀ entry ∈ chunk.segment.stamped,
          entry.1.2 = chunk.generation := by
        rintro ⟨entry, index⟩ hmem
        have hitem := (List.mem_zipIdx hmem).2.2
        simp only [SerialChunk.segment] at hitem
        simp [hitem]
      rw [segments_cons, stamped_cons, List.filter_append, ← ih]
      by_cases hgeneration : chunk.generation = generation
      · have hall : chunk.segment.stamped.filter
            (fun entry => decide (entry.1.2 = generation)) =
              chunk.segment.stamped :=
          List.filter_eq_self.mpr fun entry hmem => by
            simp [hsame entry hmem, hgeneration]
        rw [List.filter_cons_of_pos (by simpa using hgeneration), hall,
          segments_cons, stamped_cons]
      · have hnone : chunk.segment.stamped.filter
            (fun entry => decide (entry.1.2 = generation)) = [] :=
          List.filter_eq_nil_iff.mpr fun entry hmem => by
            simp [hsame entry hmem, hgeneration]
        rw [List.filter_cons_of_neg (by simpa using hgeneration), hnone,
          List.nil_append]

end SerialRing

open SerialRing

namespace Retains

variable {ring : SerialRing} {log : ConsoleLog}

/--
`snapshot_generation` returns the last entries among the retained entries of
the generation, each at its own index.
-/
theorem stamped_snapshotGeneration (h : Retains ring log)
    (generation maxBytes : Nat) :
    stamped (segments (ring.snapshotGeneration generation maxBytes).chunks) =
      window maxBytes
        ((((log.entries.drop (log.retainedFrom ring.capacity)).zipIdx
          (log.retainedFrom ring.capacity))).filter
            fun entry => entry.1.2 = generation) := by
  have hretained : stamped (segments ring.chunks) =
      (log.entries.drop (log.retainedFrom ring.capacity)).zipIdx
        (log.retainedFrom ring.capacity) := by
    rw [h.tiles.entries, List.take_length]
  have htagged : ∀ chunk ∈ ring.chunks.filter
      (fun chunk => chunk.generation = generation),
      chunk.generation = generation := by
    intro chunk hchunk
    simpa using (List.mem_filter.mp hchunk).2
  rw [← hretained, ← stamped_filter_generation, window,
    length_stamped_segments]
  exact stamped_generationChunks htagged _ 0

/-- The bytes of a snapshot of one generation. -/
theorem snapshotGeneration_bytes (h : Retains ring log)
    (generation maxBytes : Nat) :
    (ring.snapshotGeneration generation maxBytes).bytes =
      window maxBytes
        (((log.entries.drop (log.retainedFrom ring.capacity)).filter
          fun entry => entry.2 = generation).map Prod.fst) := by
  have hstamped := h.stamped_snapshotGeneration generation maxBytes
  have hentries := congrArg (fun l => (l.map Prod.fst).map Prod.fst) hstamped
  simp only [map_fst_stamped, map_fst_segments_items] at hentries
  have hfilter : ((((log.entries.drop (log.retainedFrom ring.capacity)).zipIdx
      (log.retainedFrom ring.capacity))).filter
        fun entry => decide (entry.1.2 = generation)).map Prod.fst =
      (log.entries.drop (log.retainedFrom ring.capacity)).filter
        fun entry => decide (entry.2 = generation) := by
    conv_rhs =>
      rw [← List.zipIdx_map_fst (log.retainedFrom ring.capacity)
        (log.entries.drop (log.retainedFrom ring.capacity)), List.filter_map]
    rfl
  rw [SerialSnapshot.bytes, hentries, map_window, map_window, hfilter]

end Retains

/-! ## A snapshot of one generation against the log -/

/-- The retained entries of one generation, each with its index. -/
def ConsoleLog.retainedOf (log : ConsoleLog) (capacity generation : Nat) :
    List (LoggedByte × Nat) :=
  ((log.entries.drop (log.retainedFrom capacity)).zipIdx
    (log.retainedFrom capacity)).filter fun entry => entry.1.2 = generation

/-- What a snapshot of one generation is, against the log. -/
structure GenerationView (capacity generation maxBytes : Nat)
    (ring : SerialRing) (log : ConsoleLog) (snapshot : SerialSnapshot) :
    Prop where
  entries : stamped (segments snapshot.chunks) =
    window maxBytes (log.retainedOf capacity generation)
  bytes_eq : snapshot.bytes =
    ((log.retainedOf capacity generation).map fun entry => entry.1.1).drop
      ((log.retainedOf capacity generation).length - maxBytes)
  length_eq : snapshot.bytes.length =
    min maxBytes (log.retainedOf capacity generation).length
  tagged : ∀ chunk ∈ snapshot.chunks, chunk.generation = generation
  nonempty : ∀ chunk ∈ snapshot.chunks, chunk.bytes ≠ []
  logged : ∀ chunk ∈ snapshot.chunks, ∀ i (hi : i < chunk.bytes.length),
    log.entries[chunk.cursor + i]? = some (chunk.bytes[i], generation)
  abut : snapshot.chunks.IsChain fun c d => c.cursor + c.bytes.length = d.cursor
  ends : snapshot.chunks ≠ [] →
    ∀ last ∈ (log.retainedOf capacity generation).getLast?,
      snapshot.nextCursor = last.2 + 1
  empty : snapshot.chunks = [] → snapshot.nextCursor = ring.nextCursor

/-- Every chunk that the loop of `snapshot_generation` keeps is nonempty and
carries the generation asked for. -/
theorem SerialRing.generationChunks_spec (generation skip seen : Nat)
    (chunks : List SerialChunk) :
    ∀ chunk ∈ generationChunks generation skip seen chunks,
      chunk.generation = generation ∧ chunk.bytes ≠ [] := by
  induction chunks generalizing seen with
  | nil => simp [generationChunks]
  | cons chunk rest ih =>
      intro kept hkept
      simp only [generationChunks] at hkept
      split at hkept
      · rename_i hstart
        rcases List.mem_cons.mp hkept with rfl | hkept
        · constructor
          · rfl
          · refine List.ne_nil_of_length_pos ?_
            rw [List.length_drop]
            omega
        · exact ih _ kept hkept
      · exact ih _ kept hkept

/-- The `next_cursor` of a snapshot of one generation is counted from its first
chunk. -/
theorem SerialRing.nextCursor_snapshotGeneration (ring : SerialRing)
    (generation maxBytes : Nat) :
    (ring.snapshotGeneration generation maxBytes).nextCursor =
      (match (ring.snapshotGeneration generation maxBytes).chunks.head? with
        | some chunk => chunk.cursor
        | none => ring.nextCursor) +
      ((ring.snapshotGeneration generation maxBytes).chunks.map
        fun chunk => chunk.bytes.length).sum :=
  rfl

namespace Retains

variable {ring : SerialRing} {log : ConsoleLog}

/-- The retained entries of one generation are a stretch of the log. -/
theorem exists_retainedOf_eq (log : ConsoleLog) (capacity generation : Nat) :
    ∃ before stretch after, log.entries = before ++ (stretch ++ after) ∧
      log.retainedOf capacity generation = stretch.zipIdx before.length := by
  obtain ⟨below, same, above, hsplit, hfilter⟩ :=
    exists_filter_zipIdx_eq
      (log.sorted.sublist (List.drop_sublist (log.retainedFrom capacity) _))
      generation (log.retainedFrom capacity)
  refine ⟨log.entries.take (log.retainedFrom capacity) ++ below, same, above,
    ?_, ?_⟩
  · rw [List.append_assoc, ← hsplit, List.take_append_drop]
  · have hbefore : log.retainedFrom capacity ≤ log.entries.length :=
      Nat.sub_le _ _
    rw [ConsoleLog.retainedOf, hfilter, List.length_append, List.length_take,
      Nat.min_eq_left hbefore]

/-- `snapshot_generation` tiles the end of that stretch. -/
theorem snapshotGeneration_tiles (h : Retains ring log)
    {generation : Nat} {before stretch after : List LoggedByte}
    (hlog : log.entries = before ++ (stretch ++ after))
    (hstretch : log.retainedOf ring.capacity generation =
      stretch.zipIdx before.length) (maxBytes : Nat) :
    Tiles log.entries (before.length + (stretch.length - maxBytes))
      (before.length + stretch.length)
      (segments (ring.snapshotGeneration generation maxBytes).chunks) := by
  refine Tiles.of_stretch hlog ?_ ?_
  · refine (segments_nonempty_iff _).mpr ?_
    intro chunk hchunk
    exact (generationChunks_spec _ _ _ _ chunk hchunk).2
  · rw [← hstretch]
    exact h.stamped_snapshotGeneration generation maxBytes

/-- The `next_cursor` of a snapshot of one generation is the end of its
tiling, if it returns anything. -/
theorem snapshotGeneration_nextCursor (h : Retains ring log)
    {generation : Nat} {before stretch after : List LoggedByte}
    (hlog : log.entries = before ++ (stretch ++ after))
    (hstretch : log.retainedOf ring.capacity generation =
      stretch.zipIdx before.length) {maxBytes : Nat}
    (hreturned : (ring.snapshotGeneration generation maxBytes).chunks ≠ []) :
    (ring.snapshotGeneration generation maxBytes).nextCursor =
      before.length + stretch.length := by
  have htiles := h.snapshotGeneration_tiles hlog hstretch maxBytes
  obtain ⟨first, rest, hchunks⟩ := List.exists_cons_of_ne_nil hreturned
  have hhead : (segments (ring.snapshotGeneration generation
      maxBytes).chunks).head? = some first.segment := by
    rw [hchunks]
    rfl
  rw [← htiles.head?_add hhead, length_stamped_segments,
    nextCursor_snapshotGeneration, hchunks]
  rfl

/-- `snapshot_generation` on a ring that retains a log. -/
theorem generationView (h : Retains ring log) (generation maxBytes : Nat) :
    GenerationView ring.capacity generation maxBytes ring log
      (ring.snapshotGeneration generation maxBytes) := by
  obtain ⟨before, stretch, after, hlog, hstretch⟩ :=
    exists_retainedOf_eq log ring.capacity generation
  have hentries := h.stamped_snapshotGeneration generation maxBytes
  have htiles := h.snapshotGeneration_tiles hlog hstretch maxBytes
  have htagged : ∀ chunk ∈
      (ring.snapshotGeneration generation maxBytes).chunks,
      chunk.generation = generation := fun chunk hchunk =>
    (generationChunks_spec _ _ _ _ chunk hchunk).1
  have hbytes : (ring.snapshotGeneration generation maxBytes).bytes =
      ((log.retainedOf ring.capacity generation).map
        fun entry => entry.1.1).drop
          ((log.retainedOf ring.capacity generation).length - maxBytes) := by
    have hfst := congrArg (fun l => (l.map Prod.fst).map Prod.fst) hentries
    simp only [map_fst_stamped, map_fst_segments_items] at hfst
    rw [SerialSnapshot.bytes, hfst, map_window, map_window, window,
      List.map_map, List.length_map]
    rfl
  refine ⟨hentries, hbytes, ?_, htagged, ?_, ?_, ?_, ?_, ?_⟩
  · rw [hbytes, List.length_drop, List.length_map]
    omega
  · exact fun chunk hchunk => (generationChunks_spec _ _ _ _ chunk hchunk).2
  · intro chunk hchunk i hi
    have := htiles.getElem? (List.mem_map_of_mem hchunk) (i := i) (by
      rwa [SerialChunk.length_segment])
    simpa [SerialChunk.segment, htagged chunk hchunk] using this
  · have hchain := htiles.isChain
    rw [segments, List.isChain_map] at hchain
    simpa using hchain
  · intro hreturned last hlast
    rw [h.snapshotGeneration_nextCursor hlog hstretch hreturned]
    rw [hstretch, List.getLast?_eq_getElem?, List.length_zipIdx,
      Option.mem_def, List.getElem?_zipIdx, Option.map_eq_some_iff] at hlast
    obtain ⟨entry, hentry, rfl⟩ := hlast
    have hpos := (List.getElem?_eq_some_iff.mp hentry).1
    show before.length + stretch.length =
      before.length + (stretch.length - 1) + 1
    omega
  · intro hnone
    rw [nextCursor_snapshotGeneration, hnone]
    rfl

end Retains

/--
In every ring that a run of `append` and `mark_generation` calls ends in, a
snapshot of any generation is the end of what is retained of it.
-/
theorem runNewRing_generationView (capacity : Nat) (ops : List RingOp)
    (ring : SerialRing) (hring : runNewRing capacity ops = .ok ring)
    (generation maxBytes : Nat) :
    GenerationView capacity generation maxBytes ring (ConsoleLog.ofOps ops)
      (ring.snapshotGeneration generation maxBytes) := by
  obtain ⟨hcapacity, hretains⟩ := retains_of_runNewRing hring
  rw [← hcapacity]
  exact hretains.generationView generation maxBytes

/-- Two bytes of the current generation of a ring that lost its first bytes. -/
theorem runNewRing_generationView_five :
    GenerationView 5 1 2 ⟨5, 5, 7, 1,
        [⟨2, 0, 0, [99]⟩, ⟨3, 1, 1, [100, 101, 102, 103]⟩]⟩
      (ConsoleLog.ofOps [.append 0 [97, 98, 99], .markGeneration,
        .append 1 [100, 101, 102, 103]])
      ⟨[⟨5, 1, 1, [102, 103]⟩], 7, true⟩ :=
  runNewRing_generationView 5 [.append 0 [97, 98, 99], .markGeneration,
    .append 1 [100, 101, 102, 103]] _ (by decide) 1 2

/-! ## The bytes received after the last generation boundary -/

/-- The bytes received since the last `mark_generation`. -/
def sinceMark (ops : List RingOp) : List UInt8 :=
  ops.foldl (fun fresh op => match op with
    | .append _ input => fresh ++ input
    | .markGeneration => []) []

/-- The entries of the current generation. -/
def ConsoleLog.fresh (log : ConsoleLog) : List LoggedByte :=
  log.entries.filter fun entry => entry.2 = log.generation

@[simp] theorem sinceMark_append (ops : List RingOp) (timestamp : SystemTime)
    (input : List UInt8) :
    sinceMark (ops ++ [.append timestamp input]) = sinceMark ops ++ input := by
  simp [sinceMark]

@[simp] theorem sinceMark_markGeneration (ops : List RingOp) :
    sinceMark (ops ++ [.markGeneration]) = [] := by
  simp [sinceMark]

theorem ConsoleLog.fresh_append (log : ConsoleLog) (input : List UInt8) :
    (log.append input).fresh =
      log.fresh ++ input.map fun byte => (byte, log.generation) := by
  rw [ConsoleLog.fresh, ConsoleLog.append, List.filter_append]
  congr 1
  rw [List.filter_eq_self]
  intro entry hentry
  obtain ⟨byte, -, rfl⟩ := List.mem_map.mp hentry
  simp

theorem ConsoleLog.fresh_markGeneration (log : ConsoleLog) :
    log.markGeneration.fresh = [] := by
  rw [ConsoleLog.fresh, List.filter_eq_nil_iff]
  intro entry hentry
  have := log.current entry hentry
  have hne : entry.2 ≠ log.generation + 1 := by omega
  exact fun h => hne (of_decide_eq_true h)

/-- The current generation is what was received since the last boundary. -/
theorem ConsoleLog.map_fst_fresh_ofOps (ops : List RingOp) :
    (ConsoleLog.ofOps ops).fresh.map Prod.fst = sinceMark ops := by
  induction ops using List.reverseRecOn with
  | nil => rfl
  | append_singleton ops op ih =>
      rw [ConsoleLog.ofOps_concat]
      cases op with
      | append timestamp input =>
          rw [ConsoleLog.apply_append, ConsoleLog.fresh_append,
            sinceMark_append, List.map_append, ih]
          simp [Function.comp_def]
      | markGeneration =>
          rw [ConsoleLog.apply_markGeneration, ConsoleLog.fresh_markGeneration,
            sinceMark_markGeneration]
          rfl

/-- The log is older generations followed by the current one. -/
theorem ConsoleLog.entries_eq_append_fresh (log : ConsoleLog) :
    ∃ old, log.entries = old ++ log.fresh ∧
      ∀ entry ∈ old, entry.2 ≠ log.generation := by
  obtain ⟨entries, generation, sorted, current⟩ := log
  simp only [ConsoleLog.fresh]
  induction entries with
  | nil => exact ⟨[], rfl, by simp⟩
  | cons entry entries ih =>
      rw [List.pairwise_cons] at sorted
      by_cases hentry : entry.2 = generation
      · -- From the first current entry on, all entries are current.
        refine ⟨[], ?_, by simp⟩
        rw [List.nil_append, eq_comm, List.filter_eq_self]
        intro other hother
        have hle := current other hother
        rcases List.mem_cons.mp hother with rfl | hmem
        · simpa using hentry
        · have := sorted.1 other hmem
          simp only [decide_eq_true_eq]
          omega
      · obtain ⟨old, hold, hne⟩ := ih sorted.2
          fun other hother => current other (List.mem_cons_of_mem _ hother)
        refine ⟨entry :: old, ?_, ?_⟩
        · rw [List.filter_cons_of_neg (by simpa using hentry),
            List.cons_append, ← hold]
        · intro other hother
          rcases List.mem_cons.mp hother with rfl | hmem
          · exact hentry
          · exact hne other hmem

/-- A snapshot of the current generation is the end of its bytes. -/
theorem Retains.snapshotGeneration_current {ring : SerialRing}
    {log : ConsoleLog} (h : Retains ring log) (maxBytes : Nat) :
    (ring.snapshotGeneration ring.generation maxBytes).bytes =
      window (min maxBytes ring.capacity) (log.fresh.map Prod.fst) := by
  obtain ⟨old, hold, hne⟩ := log.entries_eq_append_fresh
  have hnone : ∀ n, (old.drop n).filter
      (fun entry => decide (entry.2 = log.generation)) = [] := by
    intro n
    rw [List.filter_eq_nil_iff]
    intro entry hentry
    simpa using hne entry (List.mem_of_mem_drop hentry)
  have hall : ∀ n, (log.fresh.drop n).filter
      (fun entry => decide (entry.2 = log.generation)) =
        log.fresh.drop n := by
    intro n
    rw [List.filter_eq_self]
    intro entry hentry
    exact (List.mem_filter.mp (List.mem_of_mem_drop hentry)).2
  have hfresh : (log.entries.drop (log.retainedFrom ring.capacity)).filter
      (fun entry => decide (entry.2 = log.generation)) =
        window ring.capacity log.fresh := by
    have hlen : log.entries.length = old.length + log.fresh.length := by
      rw [hold, List.length_append]
    rw [ConsoleLog.retainedFrom, hlen, hold, List.drop_append,
      List.filter_append, hnone, List.nil_append, hall, window]
    congr 1
    omega
  rw [h.snapshotGeneration_bytes, h.generation, hfresh, map_window,
    window_window]

end RpictlMcp
