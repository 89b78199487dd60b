import RpictlMcp.SerialRingLog

/-!
# rpictl-mcp: reading the serial ring page by page

`snapshot_from` walks the chunks once, skipping what lies before the effective
start and stopping when its byte budget is spent.  On the stamped bytes this is
a filter followed by a prefix (`stamped_snapshotChunks`), for any list of
chunks.  On a ring that retains a log the result is therefore a tiling of the
log from the effective start on.

A reader that resumes each call at the previous `next_cursor` then reads the
log in order.  `readPages` runs such a reader against a ring that keeps
changing between the calls, and `readPages_correct` says what its pages are.
-/

namespace RpictlMcp

open StampedLog

namespace SerialRing

/-- One chunk of the walk keeps the stamped bytes from the start on. -/
theorem filter_stamped_segment (chunk : SerialChunk) (effectiveStart : Nat) :
    chunk.segment.stamped.filter (fun e => decide (effectiveStart ≤ e.2)) =
      (chunk.segment.items.drop (effectiveStart - chunk.cursor)).zipIdx
        (max chunk.cursor effectiveStart) :=
  filter_le_zipIdx _ _ _

/-- The chunk loop keeps the bytes from the start on, up to the budget. -/
theorem stamped_snapshotChunks (effectiveStart remaining : Nat)
    (chunks : List SerialChunk) :
    stamped (segments (snapshotChunks effectiveStart remaining chunks)) =
      ((stamped (segments chunks)).filter
        (fun e => decide (effectiveStart ≤ e.2))).take remaining := by
  induction chunks generalizing remaining with
  | nil => simp [snapshotChunks]
  | cons chunk rest ih =>
      rw [segments_cons, stamped_cons, List.filter_append,
        filter_stamped_segment, snapshotChunks]
      have hlen : chunk.segment.items.length = chunk.bytes.length := by simp
      by_cases hskip :
          min (effectiveStart - chunk.cursor) chunk.bytes.length =
            chunk.bytes.length
      · -- The whole chunk lies before the start.
        have hnil :
            chunk.segment.items.drop (effectiveStart - chunk.cursor) = [] :=
          List.drop_of_length_le (by omega)
        simp only [hskip, true_or, if_true, ih, hnil, List.zipIdx_nil,
          List.nil_append]
      · by_cases hzero : remaining = 0
        · simp [hzero, ih]
        · have hstart :
              min (effectiveStart - chunk.cursor) chunk.bytes.length =
                effectiveStart - chunk.cursor := by omega
          have hcursor : chunk.cursor + (effectiveStart - chunk.cursor) =
              max chunk.cursor effectiveStart := by omega
          have hleft : (chunk.bytes.drop
              (effectiveStart - chunk.cursor)).length =
                chunk.bytes.length - (effectiveStart - chunk.cursor) := by
            simp
          rw [if_neg (by omega), segments_cons, stamped_cons, ih, hstart,
            List.take_append]
          congr 1
          · simp only [SerialChunk.segment, Segment.stamped, hcursor,
              List.map_take, List.map_drop, take_zipIdx]
            congr 1
            rw [List.take_eq_take_iff]
            simp only [List.length_drop, List.length_map]
            omega
          · congr 1
            simp only [List.length_zipIdx, List.length_drop, hlen]
            omega

/-- The chunk loop returns no empty chunk. -/
theorem snapshotChunks_nonempty (effectiveStart remaining : Nat)
    (chunks : List SerialChunk) :
    ∀ chunk ∈ snapshotChunks effectiveStart remaining chunks,
      chunk.bytes ≠ [] := by
  induction chunks generalizing remaining with
  | nil => simp [snapshotChunks]
  | cons chunk rest ih =>
      intro c hc
      rw [snapshotChunks] at hc
      split at hc
      · exact ih remaining c hc
      · rename_i hkeep
        rcases List.mem_cons.mp hc with rfl | hc
        · refine List.ne_nil_of_length_pos ?_
          simp only [List.length_take, List.length_drop]
          omega
        · exact ih _ c hc

end SerialRing

open SerialRing

namespace Retains

variable {ring : SerialRing} {log : ConsoleLog}

/-- `snapshot_from` tiles the log from the effective start up to its end or the
budget, whichever comes first. -/
theorem snapshotFrom_tiles (h : Retains ring log) {cursor : Nat}
    (hcursor : cursor ≤ log.entries.length) (maxBytes : Nat) :
    Tiles log.entries (max cursor (log.retainedFrom ring.capacity))
      (min (max cursor (log.retainedFrom ring.capacity) + maxBytes)
        log.entries.length)
      (segments (ring.snapshotFrom cursor maxBytes).chunks) := by
  have hretained : log.retainedFrom ring.capacity ≤ log.entries.length :=
    Nat.sub_le _ _
  have hread := h.tiles.of_filter_le_take
    ((segments_nonempty_iff _).mpr
      (snapshotChunks_nonempty (max cursor ring.oldest) maxBytes ring.chunks))
    (stamped_snapshotChunks (max cursor ring.oldest) maxBytes ring.chunks)
    (by
      rw [h.oldest_eq]
      omega)
  have hstart : max (log.retainedFrom ring.capacity) (max cursor ring.oldest) =
      max cursor (log.retainedFrom ring.capacity) := by
    rw [h.oldest_eq]
    omega
  rwa [hstart] at hread

/-- The `next_cursor` of `snapshot_from` is the end of its tiling. -/
theorem snapshotFrom_nextCursor (h : Retains ring log) {cursor : Nat}
    (hcursor : cursor ≤ log.entries.length) (maxBytes : Nat) :
    (ring.snapshotFrom cursor maxBytes).nextCursor =
      min (max cursor (log.retainedFrom ring.capacity) + maxBytes)
        log.entries.length := by
  have htiles := h.snapshotFrom_tiles hcursor maxBytes
  have hle := htiles.le
  have hlen := htiles.length_stamped
  rw [length_stamped_segments] at hlen
  have hnext : (ring.snapshotFrom cursor maxBytes).nextCursor =
      max cursor ring.oldest +
        ((ring.snapshotFrom cursor maxBytes).chunks.map
          fun chunk => chunk.bytes.length).sum := rfl
  rw [hnext, hlen, h.oldest_eq]
  omega

/-- The bytes of `snapshot_from` are a slice of the log, for any cursor. -/
theorem snapshotFrom_bytes (h : Retains ring log) (cursor maxBytes : Nat) :
    (ring.snapshotFrom cursor maxBytes).bytes =
      (log.bytes.drop (max cursor (log.retainedFrom ring.capacity))).take
        maxBytes := by
  have hstamped := stamped_snapshotChunks (max cursor ring.oldest) maxBytes
    ring.chunks
  rw [h.tiles.entries, List.take_length, filter_le_zipIdx, List.drop_drop,
    take_zipIdx, h.oldest_eq] at hstamped
  have hitems := congrArg (List.map Prod.fst) hstamped
  rw [map_fst_stamped, List.zipIdx_map_fst] at hitems
  have hstart : log.retainedFrom ring.capacity +
      (max cursor (log.retainedFrom ring.capacity) -
        log.retainedFrom ring.capacity) =
      max cursor (log.retainedFrom ring.capacity) := by omega
  rw [hstart] at hitems
  have hchunks : (ring.snapshotFrom cursor maxBytes).chunks =
      snapshotChunks (max cursor (log.retainedFrom ring.capacity)) maxBytes
        ring.chunks := by
    rw [← h.oldest_eq]
    rfl
  rw [SerialSnapshot.bytes, hchunks, ← map_fst_segments_items, hitems,
    ConsoleLog.bytes, List.map_take, List.map_drop]

/-- Every byte of `snapshot_from` is reported under its index and generation. -/
theorem snapshotFrom_logged (h : Retains ring log) {cursor : Nat}
    (hcursor : cursor ≤ log.entries.length) (maxBytes : Nat)
    {chunk : SerialChunk}
    (hchunk : chunk ∈ (ring.snapshotFrom cursor maxBytes).chunks)
    {i : Nat} (hi : i < chunk.bytes.length) :
    log.entries[chunk.cursor + i]? =
      some (chunk.bytes[i], chunk.generation) := by
  have := (h.snapshotFrom_tiles hcursor maxBytes).getElem?
    (List.mem_map_of_mem hchunk) (i := i)
    (by rwa [SerialChunk.length_segment])
  simpa [SerialChunk.segment] using this

/-- The flag of `snapshot_from`: bytes were evicted, or bytes are left over. -/
theorem snapshotFrom_truncated (h : Retains ring log)
    (cursor maxBytes : Nat) :
    (ring.snapshotFrom cursor maxBytes).truncated = true ↔
      cursor < log.retainedFrom ring.capacity ∨
        (ring.snapshotFrom cursor maxBytes).nextCursor <
          log.entries.length := by
  have hflag : (ring.snapshotFrom cursor maxBytes).truncated =
      (decide (cursor < ring.oldest) ||
        decide ((ring.snapshotFrom cursor maxBytes).nextCursor <
          ring.nextCursor)) := rfl
  rw [hflag, h.oldest_eq, h.nextCursor, Bool.or_eq_true, decide_eq_true_iff,
    decide_eq_true_iff]

end Retains

/-! ## A reader that resumes at the previous `next_cursor` -/

/-- What happens around a reader: the ring changes, or the reader reads. -/
inductive ReaderStep where
  | change (op : RingOp)
  | read (maxBytes : Nat)

/-- The bytes a step adds to the log. -/
def ReaderStep.input : ReaderStep → List UInt8
  | .change op => op.input
  | .read _ => []

/-- One call of the reader, with all the ring changes that preceded it. -/
structure Page where
  before : List RingOp
  cursor : Nat
  maxBytes : Nat
  snapshot : SerialSnapshot

/-- The calls of a reader that starts at `cursor`. -/
def readPages (ring : SerialRing) (before : List RingOp) (cursor : Nat) :
    List ReaderStep → Except Panic (List Page)
  | [] => .ok []
  | .change op :: steps => do
      readPages (← op.apply ring) (before ++ [op]) cursor steps
  | .read maxBytes :: steps => do
      let snapshot := ring.snapshotFrom cursor maxBytes
      let pages ← readPages ring before snapshot.nextCursor steps
      .ok ({ before, cursor, maxBytes, snapshot } :: pages)

namespace Page

/-- The log at the time of the call. -/
def log (page : Page) : ConsoleLog := ConsoleLog.ofOps page.before

/-- Index of the oldest byte retained at the time of the call. -/
def oldest (capacity : Nat) (page : Page) : Nat :=
  page.log.bytes.length - min page.log.bytes.length capacity

/-- Index of the first byte the call can deliver. -/
def first (capacity : Nat) (page : Page) : Nat :=
  max page.cursor (page.oldest capacity)

/-- Indices of the bytes the call delivers. -/
def delivered (capacity : Nat) (page : Page) : List Nat :=
  List.range' (page.first capacity) page.snapshot.bytes.length

/-- What one call returns, against the log at the time of the call. -/
structure Correct (capacity : Nat) (page : Page) : Prop where
  bytes_eq : page.snapshot.bytes =
    (page.log.bytes.take page.snapshot.nextCursor).drop (page.first capacity)
  length_eq : page.snapshot.bytes.length =
    min page.maxBytes (page.log.bytes.length - page.first capacity)
  logged : ∀ chunk ∈ page.snapshot.chunks, ∀ i (hi : i < chunk.bytes.length),
    page.log.entries[chunk.cursor + i]? =
      some (chunk.bytes[i], chunk.generation)
  nextCursor_eq : page.snapshot.nextCursor =
    page.first capacity + page.snapshot.bytes.length
  cursor_le : page.cursor ≤ page.snapshot.nextCursor
  nextCursor_le : page.snapshot.nextCursor ≤ page.log.bytes.length
  skipped : page.cursor < page.oldest capacity →
    page.snapshot.truncated = true
  complete_iff : page.snapshot.truncated = false ↔
    page.snapshot.bytes = page.log.bytes.drop page.cursor

end Page

/-- Each page starts where the one before it ended. -/
def Resumes : Nat → List Page → Prop
  | _, [] => True
  | cursor, page :: pages =>
      page.cursor = cursor ∧ Resumes page.snapshot.nextCursor pages

/-- Where the reader stands after its pages. -/
def finalCursor : Nat → List Page → Nat
  | cursor, [] => cursor
  | _, page :: pages => finalCursor page.snapshot.nextCursor pages

/-- The pages of a reader, each on its own and all together. -/
structure ReadsInOrder (capacity start : Nat) (pages : List Page) : Prop where
  correct : ∀ page ∈ pages, page.Correct capacity
  resumes : Resumes start pages
  increasing :
    (pages.flatMap (Page.delivered capacity)).Pairwise (fun i j => i < j)
  accounted : ∀ i, start ≤ i → i < finalCursor start pages →
    i ∈ pages.flatMap (Page.delivered capacity) ∨
      ∃ page ∈ pages, page.cursor ≤ i ∧ i < page.oldest capacity ∧
        page.snapshot.truncated = true

/-- One call on a ring that retains the log of the changes before it. -/
theorem Retains.page_correct {ring : SerialRing} {before : List RingOp}
    (h : Retains ring (ConsoleLog.ofOps before)) {cursor : Nat}
    (hcursor : cursor ≤ (ConsoleLog.ofOps before).bytes.length)
    (maxBytes : Nat) :
    Page.Correct ring.capacity
      { before, cursor, maxBytes,
        snapshot := ring.snapshotFrom cursor maxBytes } := by
  have hcursor' : cursor ≤ (ConsoleLog.ofOps before).entries.length := by
    rwa [ConsoleLog.length_bytes] at hcursor
  have hnext := h.snapshotFrom_nextCursor hcursor' maxBytes
  have hbytes := h.snapshotFrom_bytes cursor maxBytes
  have hflag := h.snapshotFrom_truncated cursor maxBytes
  rw [← ConsoleLog.length_bytes] at hnext hflag
  generalize hsnapshot : ring.snapshotFrom cursor maxBytes = snapshot at *
  have holdest : (ConsoleLog.ofOps before).bytes.length -
      min (ConsoleLog.ofOps before).bytes.length ring.capacity =
        (ConsoleLog.ofOps before).retainedFrom ring.capacity := by
    rw [ConsoleLog.retainedFrom, ConsoleLog.length_bytes]
    omega
  have hretained : (ConsoleLog.ofOps before).retainedFrom ring.capacity ≤
      (ConsoleLog.ofOps before).bytes.length := by
    omega
  have hlength : snapshot.bytes.length =
      min maxBytes ((ConsoleLog.ofOps before).bytes.length -
        max cursor ((ConsoleLog.ofOps before).retainedFrom ring.capacity)) := by
    rw [hbytes, List.length_take, List.length_drop]
  constructor
  · simp only [Page.log, Page.first, Page.oldest, holdest]
    rw [hbytes, List.take_drop, hnext]
    congr 1
    rw [List.take_eq_take_iff]
    omega
  · simpa only [Page.log, Page.first, Page.oldest, holdest] using hlength
  · intro chunk hchunk i hi
    subst hsnapshot
    exact h.snapshotFrom_logged hcursor' maxBytes hchunk hi
  · simp only [Page.log, Page.first, Page.oldest, holdest]
    omega
  · show cursor ≤ snapshot.nextCursor
    omega
  · show snapshot.nextCursor ≤ _
    rw [hnext]
    exact Nat.min_le_right _ _
  · simp only [Page.log, Page.oldest, holdest]
    exact fun hlt => hflag.mpr (Or.inl hlt)
  · simp only [Page.log]
    rw [← Bool.not_eq_true, hflag]
    constructor
    · intro hcomplete
      rw [hbytes]
      have hmax : max cursor
          ((ConsoleLog.ofOps before).retainedFrom ring.capacity) = cursor := by
        omega
      rw [hmax, List.take_of_length_le]
      rw [List.length_drop]
      omega
    · -- A page that lost or left bytes is shorter than the rest of the log.
      intro hall
      have hlen := congrArg List.length hall
      rw [List.length_drop] at hlen
      omega

/-- Everything delivered later lies at or after the resume cursor. -/
theorem le_of_mem_delivered {capacity start : Nat} {pages : List Page}
    (hcorrect : ∀ page ∈ pages, page.Correct capacity)
    (hresumes : Resumes start pages) {i : Nat}
    (hi : i ∈ pages.flatMap (Page.delivered capacity)) : start ≤ i := by
  induction pages generalizing start with
  | nil => simp at hi
  | cons page pages ih =>
      obtain ⟨hstart, hrest⟩ := hresumes
      have hpage := hcorrect page (by simp)
      rw [List.flatMap_cons, List.mem_append] at hi
      rcases hi with hi | hi
      · rw [Page.delivered, List.mem_range'_1] at hi
        have : page.cursor ≤ page.first capacity := Nat.le_max_left _ _
        omega
      · have := ih (fun p hp => hcorrect p (List.mem_cons_of_mem _ hp)) hrest hi
        have := hpage.cursor_le
        omega

/-- Correct pages that resume one another read the log in order. -/
theorem readsInOrder_of_resumes {capacity start : Nat} {pages : List Page}
    (hcorrect : ∀ page ∈ pages, page.Correct capacity)
    (hresumes : Resumes start pages) : ReadsInOrder capacity start pages := by
  refine ⟨hcorrect, hresumes, ?_, ?_⟩
  · induction pages generalizing start with
    | nil => exact List.Pairwise.nil
    | cons page pages ih =>
        obtain ⟨-, hrest⟩ := hresumes
        have hpages : ∀ p ∈ pages, p.Correct capacity :=
          fun p hp => hcorrect p (List.mem_cons_of_mem _ hp)
        rw [List.flatMap_cons, List.pairwise_append]
        refine ⟨List.pairwise_lt_range', ih hpages hrest, ?_⟩
        intro i hi j hj
        rw [Page.delivered, List.mem_range'_1] at hi
        have hnext := (hcorrect page (by simp)).nextCursor_eq
        have := le_of_mem_delivered hpages hrest hj
        omega
  · induction pages generalizing start with
    | nil =>
        intro i hle hlt
        exact absurd hlt (Nat.not_lt.mpr hle)
    | cons page pages ih =>
        intro i hle hlt
        obtain ⟨hstart, hrest⟩ := hresumes
        have hpage := hcorrect page (by simp)
        have hnext := hpage.nextCursor_eq
        by_cases hlater : page.snapshot.nextCursor ≤ i
        · rcases ih (fun p hp => hcorrect p (List.mem_cons_of_mem _ hp)) hrest
            i hlater hlt with hi | ⟨p, hp, hi⟩
          · left
            rw [List.flatMap_cons]
            exact List.mem_append_right _ hi
          · exact Or.inr ⟨p, List.mem_cons_of_mem _ hp, hi⟩
        · by_cases hskip : i < page.oldest capacity
          · exact Or.inr ⟨page, by simp, by omega, hskip,
              hpage.skipped (by omega)⟩
          · left
            rw [List.flatMap_cons]
            refine List.mem_append_left _ ?_
            have hfirst : page.first capacity =
                max page.cursor (page.oldest capacity) := rfl
            rw [Page.delivered, List.mem_range'_1]
            omega

/-- The log after one more change. -/
theorem ConsoleLog.ofOps_concat (before : List RingOp) (op : RingOp) :
    ofOps (before ++ [op]) = (ofOps before).apply op := by
  rw [ofOps, run_append]
  rfl

/-- The calls of a reader are correct and resume one another. -/
theorem Retains.of_readPages {ring : SerialRing} {before : List RingOp}
    (h : Retains ring (ConsoleLog.ofOps before)) {cursor : Nat}
    (hcursor : cursor ≤ (ConsoleLog.ofOps before).bytes.length)
    {steps : List ReaderStep} {pages : List Page}
    (hpages : readPages ring before cursor steps = .ok pages) :
    (∀ page ∈ pages, page.Correct ring.capacity) ∧ Resumes cursor pages := by
  induction steps generalizing ring before cursor pages with
  | nil =>
      obtain rfl := Except.ok.inj hpages
      exact ⟨by simp, trivial⟩
  | cons step steps ih =>
      cases step with
      | change op =>
          simp only [readPages] at hpages
          cases hop : op.apply ring with
          | error panic =>
              rw [hop] at hpages
              cases hpages
          | ok ring' =>
              rw [hop] at hpages
              obtain ⟨hcap, hretains⟩ := h.of_apply hop
              rw [← ConsoleLog.ofOps_concat] at hretains
              rw [← hcap]
              refine ih hretains ?_ hpages
              rw [ConsoleLog.ofOps_concat, ConsoleLog.bytes_apply,
                List.length_append]
              omega
      | read maxBytes =>
          have hpage := h.page_correct hcursor maxBytes
          simp only [readPages, bind, Except.bind] at hpages
          split at hpages
          · cases hpages
          · rename_i later hlater
            obtain rfl := Except.ok.inj hpages
            obtain ⟨hcorrect, hresumes⟩ := ih h hpage.nextCursor_le hlater
            refine ⟨?_, rfl, hresumes⟩
            intro page hmem
            rcases List.mem_cons.mp hmem with rfl | hmem
            · exact hpage
            · exact hcorrect page hmem

/-- Below the 64-bit range no call of a reader panics. -/
theorem Retains.readPages_ok {ring : SerialRing} {log : ConsoleLog}
    (h : Retains ring log) (before : List RingOp) (cursor : Nat)
    (steps : List ReaderStep)
    (hlen : log.entries.length +
      (steps.flatMap ReaderStep.input).length < 2 ^ 64) :
    ∃ pages, readPages ring before cursor steps = .ok pages := by
  induction steps generalizing ring log before cursor with
  | nil => exact ⟨[], rfl⟩
  | cons step steps ih =>
      rw [List.flatMap_cons, List.length_append] at hlen
      cases step with
      | change op =>
          simp only [ReaderStep.input] at hlen
          obtain ⟨ring', hrun, -, hretains⟩ := h.apply op (by omega)
          obtain ⟨pages, hpages⟩ := ih hretains (before ++ [op]) cursor (by
            rw [ConsoleLog.length_entries_apply]
            omega)
          refine ⟨pages, ?_⟩
          simp only [readPages, hrun, bind, Except.bind, hpages]
      | read maxBytes =>
          simp only [ReaderStep.input, List.length_nil, Nat.zero_add] at hlen
          obtain ⟨pages, hpages⟩ := ih h before
            (ring.snapshotFrom cursor maxBytes).nextCursor hlen
          let page : Page :=
            { before, cursor, maxBytes,
              snapshot := ring.snapshotFrom cursor maxBytes }
          refine ⟨page :: pages, ?_⟩
          simp only [readPages, hpages, bind, Except.bind, page]

/--
A reader that starts at or before the end of the ring and resumes each call at
the previous `next_cursor` reads the log in order, whatever happens to the ring
between its calls; and its calls return as long as the log stays in the 64-bit
range.
-/
theorem readPages_readsInOrder (capacity : Nat) (before : List RingOp)
    (ring : SerialRing) (hring : runNewRing capacity before = .ok ring)
    (start : Nat) (hstart : start ≤ ring.nextCursor)
    (steps : List ReaderStep) :
    (∀ pages, readPages ring before start steps = .ok pages →
      ReadsInOrder capacity start pages) ∧
    ((before.flatMap RingOp.input).length +
        (steps.flatMap ReaderStep.input).length < 2 ^ 64 →
      ∃ pages, readPages ring before start steps = .ok pages) := by
  obtain ⟨hcap, hretains⟩ := retains_of_runNewRing hring
  rw [hretains.nextCursor, ← ConsoleLog.length_bytes] at hstart
  constructor
  · intro pages hpages
    obtain ⟨hcorrect, hresumes⟩ := hretains.of_readPages hstart hpages
    exact readsInOrder_of_resumes (hcap ▸ hcorrect) hresumes
  · intro hlen
    rw [← ConsoleLog.length_entries_ofOps] at hlen
    exact hretains.readPages_ok before start steps hlen

/-- A reader of a five-byte ring that misses what is evicted between calls. -/
theorem readPages_readsInOrder_five :
    (∀ pages,
      readPages ⟨5, 3, 3, 0, [⟨0, 0, 0, [97, 98, 99]⟩]⟩
        [.append 0 [97, 98, 99]] 1
        [.read 1, .change (.append 1 [100, 101, 102, 103]), .read 8] =
          .ok pages →
      ReadsInOrder 5 1 pages) ∧
    (([RingOp.append 0 [97, 98, 99]].flatMap RingOp.input).length +
        (List.flatMap ReaderStep.input
          [.read 1, .change (.append 1 [100, 101, 102, 103]),
            .read 8]).length < 2 ^ 64 →
      ∃ pages,
        readPages ⟨5, 3, 3, 0, [⟨0, 0, 0, [97, 98, 99]⟩]⟩
          [.append 0 [97, 98, 99]] 1
          [.read 1, .change (.append 1 [100, 101, 102, 103]), .read 8] =
            .ok pages) :=
  readPages_readsInOrder 5 [.append 0 [97, 98, 99]]
    ⟨5, 3, 3, 0, [⟨0, 0, 0, [97, 98, 99]⟩]⟩ (by decide) 1 (by decide)
    [.read 1, .change (.append 1 [100, 101, 102, 103]), .read 8]

end RpictlMcp
