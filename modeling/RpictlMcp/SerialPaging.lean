import RpictlMcp.SerialCapture
import RpictlMcp.Kernel.Utf8Text

/-!
# rpictl-mcp: paging through the console

A client that wants all of the console calls `capture_board_serial` again and
again and resumes at the cursor of the last result.  A page ends where its limit
is used up, or where the stream ends at the time of the call, and each page is
decoded on its own.  So the texts of the pages make up the text of the stream
exactly if no page ends inside a character.
-/

namespace RpictlMcp

open Prog

/-- How many bytes a page has at most. -/
def pageLimit (maxBytes : Option Nat) : Nat :=
  max 1 (min (maxBytes.getD 65536) 1048576)

/-- A call that resumes at a cursor. -/
def pageRequest (boardId : String) (cursor : Nat) (maxBytes : Option Nat) :
    CaptureSerialRequest where
  boardId
  maxBytes
  cursor := some cursor

/-- The calls of a client, each at the next cursor of the one before. -/
def pageThrough (registry : BoardRegistry) (boardId : String) :
    Nat → List (Option Nat) → Action (List SerialCaptureResult)
  | _, [] => return []
  | cursor, maxBytes :: more => do
      let page ← captureBoardSerial registry
        (pageRequest boardId cursor maxBytes)
      let pages ← pageThrough registry boardId page.nextCursor more
      return page :: pages

/-- The pages of calls, from the consoles that they look at. -/
def pagesOf (boardId : String) :
    Nat → List (Option Nat × Console) → List SerialCaptureResult
  | _, [] => []
  | cursor, (maxBytes, console) :: reads =>
      let page := (pageRequest boardId cursor maxBytes).result console.ring
      page :: pagesOf boardId page.nextCursor reads

/-- Where the pages end: at their limits, or at the end of the stream. -/
def pageEnds : Nat → List (Option Nat × Console) → List Nat
  | _, [] => []
  | start, (maxBytes, console) :: reads =>
      let stop := min (start + pageLimit maxBytes) console.stream.length
      stop :: pageEnds stop reads

section SerialPaging

variable {registry : BoardRegistry} {boardId : String} {cursor : Nat}
variable {stream : List UInt8}

theorem length_pagesOf (reads : List (Option Nat × Console)) :
    (pagesOf boardId cursor reads).length = reads.length := by
  induction reads generalizing cursor with
  | nil => rfl
  | cons read reads ih =>
      rw [pagesOf, List.length_cons, List.length_cons, ih]

theorem pageThrough_traces (limits : List (Option Nat)) {base : List Event} :
    Traces BoardOp.emits (fun _ _ => True)
      (pageThrough registry boardId cursor limits).run base fun r t =>
        ∀ pages, r = .ok pages → ∃ looks : List Console,
          looks.length = limits.length ∧ t = looks.map .looked ∧
            pages = pagesOf boardId cursor (limits.zip looks) := by
  induction limits generalizing cursor base with
  | nil =>
      refine Traces.done ?_
      rintro _ ⟨⟩
      exact ⟨[], rfl, rfl, rfl⟩
  | cons maxBytes limits ih =>
      refine Traces.bindE captureBoardSerial_traces ?_ (by simp)
      intro page t hpage
      obtain ⟨c, rfl, rfl⟩ := hpage page rfl
      refine Traces.bindE ih ?_ (by simp)
      intro pages t hpages
      obtain ⟨looks, hlength, rfl, rfl⟩ := hpages pages rfl
      refine Traces.done ?_
      rintro _ ⟨⟩
      exact ⟨c :: looks, by simp [hlength], by simp, rfl⟩

/-- What the consoles of the calls have sent is the front of a stream that all
of them retain; none of them has sent less than the ones before. -/
structure ReadsFront (stream : List UInt8) (cursor : Nat)
    (reads : List (Option Nat × Console)) : Prop where
  front : ∀ read ∈ reads, read.2.stream <+: stream
  retained : ∀ read ∈ reads, stream.length ≤ read.2.capacity
  ascending : reads.Pairwise fun read later =>
    read.2.stream.length ≤ later.2.stream.length
  started : ∀ read ∈ reads, cursor ≤ read.2.stream.length

/-- What the next calls read. -/
theorem ReadsFront.next {maxBytes : Option Nat} {console : Console}
    {reads : List (Option Nat × Console)}
    (h : ReadsFront stream cursor ((maxBytes, console) :: reads)) {stop : Nat}
    (hstop : stop ≤ console.stream.length) :
    ReadsFront stream stop reads where
  front := (List.forall_mem_cons.mp h.front).2
  retained := (List.forall_mem_cons.mp h.retained).2
  ascending := (List.pairwise_cons.mp h.ascending).2
  started read hread :=
    Nat.le_trans hstop ((List.pairwise_cons.mp h.ascending).1 read hread)

theorem ReadsFront.isChain {reads : List (Option Nat × Console)}
    (h : ReadsFront stream cursor reads) :
    (cursor :: pageEnds cursor reads).IsChain (· ≤ ·) := by
  induction reads generalizing cursor with
  | nil => exact .singleton _
  | cons read reads ih =>
      obtain ⟨maxBytes, console⟩ := read
      have hstarted := h.started _ List.mem_cons_self
      simp only at hstarted
      rw [pageEnds, List.isChain_cons_cons]
      exact ⟨by omega, ih (h.next (Nat.min_le_right _ _))⟩

/-- One page is a part of the stream. -/
theorem captured_eq (boardId : String) (maxBytes : Option Nat)
    {console : Console} (hfront : console.stream <+: stream)
    (hretained : stream.length ≤ console.capacity)
    (hstarted : cursor ≤ console.stream.length) :
    (pageRequest boardId cursor maxBytes).captured console.ring =
        (stream.take (min (cursor + pageLimit maxBytes)
          console.stream.length)).drop cursor ∧
      ((pageRequest boardId cursor maxBytes).result console.ring).nextCursor =
        min (cursor + pageLimit maxBytes) console.stream.length := by
  have hlength := hfront.length_le
  have holdest : console.ring.oldest = 0 := by
    rw [console.oldest_ring]
    omega
  have hcaptured : (pageRequest boardId cursor maxBytes).captured
      console.ring =
        (console.stream.drop cursor).take (pageLimit maxBytes) := by
    have hbytes := snapshotFrom_retainedAfter console cursor
      (pageLimit maxBytes)
    rw [Console.retainedAfter, ← console.oldest_ring, holdest,
      Nat.max_eq_left (Nat.zero_le cursor)] at hbytes
    exact hbytes
  obtain ⟨rest, rfl⟩ := hfront
  constructor
  · rw [hcaptured, List.take_append_of_le_length (Nat.min_le_right _ _),
      List.take_drop]
    congr 1
    rw [List.take_eq_take_iff]
    omega
  · have hnext : ((pageRequest boardId cursor maxBytes).result
        console.ring).nextCursor = max cursor console.ring.oldest +
          ((pageRequest boardId cursor maxBytes).captured
            console.ring).length :=
      console.nextCursor_snapshotFrom cursor (pageLimit maxBytes)
    rw [hnext, holdest, hcaptured, List.length_take, List.length_drop]
    omega

/-- The pages show the parts of the stream between their ends. -/
structure ShowsParts (pages : List SerialCaptureResult)
    (parts : List (List UInt8)) (ends : List Nat) : Prop where
  texts : pages.map (·.text) = parts.map fromUtf8Lossy
  flags : pages.map (·.invalidUtf8) = parts.map fun part => !isUtf8 part
  cursors : pages.map (·.nextCursor) = ends

theorem pagesOf_parts {reads : List (Option Nat × Console)}
    (h : ReadsFront stream cursor reads) :
    ShowsParts (pagesOf boardId cursor reads)
      (slices stream cursor (pageEnds cursor reads))
      (pageEnds cursor reads) := by
  induction reads generalizing cursor with
  | nil => exact ⟨rfl, rfl, rfl⟩
  | cons read reads ih =>
      obtain ⟨maxBytes, console⟩ := read
      obtain ⟨hcaptured, hnext⟩ := captured_eq boardId maxBytes
        (h.front _ List.mem_cons_self) (h.retained _ List.mem_cons_self)
        (h.started _ List.mem_cons_self)
      obtain ⟨htexts, hflags, hcursors⟩ :=
        ih (h.next (Nat.min_le_right (cursor + pageLimit maxBytes) _))
      constructor
      · simp only [pagesOf, pageEnds, slices, List.map_cons, hnext, htexts]
        rw [← hcaptured]
        rfl
      · simp only [pagesOf, pageEnds, slices, List.map_cons, hnext, hflags]
        rw [← hcaptured]
        rfl
      · simp only [pagesOf, pageEnds, List.map_cons, hnext, hcursors]

/-- The text of a well-formed stream is made up of its parts, and no page is
reported as invalid, exactly if it is cut between characters. -/
theorem ShowsParts.exact_iff {pages : List SerialCaptureResult}
    {ends : List Nat} (h : ShowsParts pages (slices stream 0 ends) ends)
    (hvalid : isUtf8 stream = true) (hends : (0 :: ends).IsChain (· ≤ ·))
    (hend : ends.getLastD 0 = stream.length) :
    (pages.flatMap (·.text) = fromUtf8Lossy stream ∧
        ∀ page ∈ pages, page.invalidUtf8 = false) ↔
      ∀ n ∈ ends, AtBoundary stream n := by
  have hflags : (∀ page ∈ pages, page.invalidUtf8 = false) ↔
      ∀ part ∈ slices stream 0 ends, isUtf8 part = true := by
    have hiff : (∀ flag ∈ pages.map (·.invalidUtf8), flag = false) ↔
        ∀ flag ∈ (slices stream 0 ends).map fun part => !isUtf8 part,
          flag = false := by
      rw [h.flags]
    simpa using hiff
  rw [hflags, isUtf8_slices_iff hvalid (atBoundary_zero hvalid) hends]
  refine ⟨And.right, fun hcuts => ⟨?_, hcuts⟩⟩
  have hparts := (isUtf8_slices_iff hvalid (atBoundary_zero hvalid)
    hends).mpr hcuts
  have hdecoded : (slices stream 0 ends).map fromUtf8Lossy =
      slices stream 0 ends := by
    conv_rhs => rw [← List.map_id (slices stream 0 ends)]
    exact List.map_congr_left fun part hpart =>
      fromUtf8Lossy_of_isUtf8 (hparts part hpart)
  have hflatten : stream.take 0 ++ (slices stream 0 ends).flatten =
      stream.take (ends.getLastD 0) := flatten_slices hends
  rw [List.flatMap_def, h.texts, hdecoded, fromUtf8Lossy_of_isUtf8 hvalid]
  rw [hend, List.take_length] at hflatten
  simpa using hflatten

section Runs

variable {ι : Type} [DecidableEq ι] {t : Thread ι} {w : World ι}
variable {limits : List (Option Nat)} {looks : List Console}
variable {console : Console}

/-- What the looks of a thread have seen, up to the last one. -/
theorem World.Ascending.readsFront (h : w.Ascending)
    (hlooks : w.threadLog t = looks.map .looked)
    (hlast : w.LastLooked t console)
    (hlength : looks.length ≤ limits.length)
    (hretained : console.stream.length ≤ console.capacity) :
    ReadsFront console.stream 0 (limits.zip looks) := by
  have hpairwise : looks.Pairwise Console.Extends := by
    have hlog := h.threadLog t
    rw [hlooks, List.pairwise_map] at hlog
    exact hlog.imp fun hextends => hextends _ _ rfl rfl
  obtain ⟨front, rfl⟩ : ∃ front, looks = front ++ [console] := by
    have hlook := hlast.last
    rw [hlooks, List.getLast?_map, Option.map_eq_some_iff] at hlook
    obtain ⟨c, hc, ⟨⟩⟩ := hlook
    exact List.getLast?_eq_some_iff.mp hc
  have hextends : ∀ c ∈ front ++ [console], c.Extends console := by
    intro c hc
    rcases List.mem_append.mp hc with hfront | hconsole
    · exact (List.pairwise_append.mp hpairwise).2.2 c hfront console
        List.mem_cons_self
    · obtain rfl := List.mem_singleton.mp hconsole
      exact .refl c
  have hmem : ∀ read ∈ limits.zip (front ++ [console]),
      read.2.Extends console := fun read hread =>
    hextends read.2 (List.of_mem_zip hread).2
  constructor
  · exact fun read hread => (hmem read hread).stream
  · intro read hread
    rw [← (hmem read hread).capacity]
    exact hretained
  · rw [← List.map_snd_zip hlength, List.pairwise_map] at hpairwise
    exact hpairwise.imp fun hlater => hlater.stream.length_le
  · exact fun _ _ => Nat.zero_le _

/--
For every run of a client that pages from the first byte to the end of a
well-formed stream, all of which is retained: the texts of its pages make up the
text of the stream, and none of them is reported as invalid, exactly if no page
ends inside a character.
-/
theorem pageThrough_text_iff {pages : List SerialCaptureResult}
    (hpages : AnswersIn t (pageThrough registry boardId 0 limits).run
      (.ok pages) w)
    (hlooks : w.threadLog t = looks.map .looked)
    (hlast : w.LastLooked t console)
    (hvalid : isUtf8 console.stream = true)
    (hretained : console.stream.length ≤ console.capacity)
    (hend : ∀ page ∈ pages.getLast?,
      page.nextCursor = console.ring.nextCursor) :
    (pages.flatMap (·.text) = fromUtf8Lossy console.stream ∧
        ∀ page ∈ pages, page.invalidUtf8 = false) ↔
      ∀ n ∈ pageEnds 0 (limits.zip looks), AtBoundary console.stream n := by
  obtain ⟨hexec, hascending⟩ := hpages.exec
  obtain ⟨seen, hlength, hlog, rfl⟩ :=
    (pageThrough_traces limits).result hexec pages rfl
  obtain rfl : looks = seen := by
    have hinjective : Function.Injective Event.looked := fun _ _ h =>
      Event.looked.inj h
    exact List.map_injective_iff.mpr hinjective (hlooks.symm.trans hlog)
  have hreads := hascending.readsFront hlooks hlast (Nat.le_of_eq hlength)
    hretained
  have hparts : ShowsParts (pagesOf boardId 0 (limits.zip looks)) _ _ :=
    pagesOf_parts hreads
  refine hparts.exact_iff hvalid hreads.isChain ?_
  -- The last page ends where the stream does.
  obtain ⟨page, hpage⟩ : ∃ page,
      (pagesOf boardId 0 (limits.zip looks)).getLast? = some page := by
    rw [← Option.isSome_iff_exists, List.getLast?_isSome]
    intro hnone
    have hempty := congrArg List.length hnone
    rw [length_pagesOf, List.length_zip, ← hlength, Nat.min_self,
      List.length_nil, List.length_eq_zero_iff] at hempty
    have hlook := hlast.last
    rw [hlooks, hempty] at hlook
    cases hlook
  rw [← hparts.cursors, List.getLastD_eq_getLast?, List.getLast?_map, hpage,
    ← console.nextCursor_ring]
  exact hend page hpage

/-- A client pages through a console that does not change. -/
theorem pageThrough_answers {profile : BoardProfile}
    (hboard : registry.board boardId = .ok profile) (console : Console)
    (limits : List (Option Nat)) :
    AnswersIn ((), .main) (pageThrough registry boardId 0 limits).run
      (.ok (pagesOf boardId 0 (limits.map (·, console))))
      (limits.foldl (fun w _ => w.look ((), .main))
        (World.initial console)) := by
  have hacts : ∀ (limits : List (Option Nat)) (cursor : Nat)
      (w : World Unit),
      Acts ((), .main) (pageThrough registry boardId cursor limits) w
        (.ok (pagesOf boardId cursor (limits.map (·, w.console))))
        (limits.foldl (fun w _ => w.look ((), .main)) w) := by
    intro limits
    induction limits with
    | nil => exact fun _ _ => Acts.pure _
    | cons maxBytes limits ih =>
        intro cursor w
        refine (captureBoardSerial_acts (alive_main ()) hboard).bind ?_
        exact (ih _ _).bind (Acts.pure _)
  exact Performs.answersIn (hacts limits 0 (World.initial console)) rfl

/-- A console that has sent one character of two bytes. -/
def accentConsole : Console where
  capacity := 12
  history := [.append 0 (utf8 "é")]
  ring := _
  run := rfl

/-- The pages that are read from it. -/
def accentPages (limits : List (Option Nat)) : List SerialCaptureResult :=
  pagesOf simulated.boardId 0 (limits.map (·, accentConsole))

/-- A page that has room for the character. -/
theorem pageThrough_text_iff_whole :
    ((accentPages [some 2]).flatMap (·.text) =
          fromUtf8Lossy accentConsole.stream ∧
        ∀ page ∈ accentPages [some 2], page.invalidUtf8 = false) ↔
      ∀ n ∈ pageEnds 0 [(some 2, accentConsole)],
        AtBoundary accentConsole.stream n :=
  pageThrough_text_iff
    (pageThrough_answers simulatedRegistry_board accentConsole [some 2])
    (show _ = [accentConsole].map Event.looked from rfl)
    ⟨rfl, Console.Extends.refl _⟩ (by decide) (by decide) (by decide)

/-- Two pages with room for one byte each destroy it, and both are reported as
invalid. -/
theorem pageThrough_splits_character :
    ∃ (w : World Unit) (pages : List SerialCaptureResult),
      AnswersIn ((), .main) (pageThrough simulatedRegistry simulated.boardId 0
        [some 1, some 1]).run (.ok pages) w ∧
      w.LastLooked ((), .main) accentConsole ∧
      isUtf8 accentConsole.stream = true ∧
      accentConsole.stream.length ≤ accentConsole.capacity ∧
      (∀ page ∈ pages.getLast?,
        page.nextCursor = accentConsole.ring.nextCursor) ∧
      pages.flatMap (·.text) ≠ fromUtf8Lossy accentConsole.stream ∧
      ∀ page ∈ pages, page.invalidUtf8 = true := by
  refine ⟨_, _, pageThrough_answers simulatedRegistry_board accentConsole _,
    ⟨rfl, Console.Extends.refl _⟩, ?_⟩
  decide

end Runs

end SerialPaging

end RpictlMcp
