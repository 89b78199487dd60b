import RpictlMcp.StateWindow

/-!
# rpictl-mcp: what a serial capture returns

`capture_board_serial` takes its start cursor from the client, or counts back
from the end of the stream, and returns it as it is.  `snapshot_from` then raises
it to the oldest retained byte, but does not lower it to the end of the stream.
So the text of a capture is what the stream holds between the two cursors of the
result exactly when the start cursor lies in the part of the stream that is
still retained.
-/

namespace RpictlMcp

open Prog

/-- The bytes that a capture takes at most. -/
def CaptureSerialRequest.limit (req : CaptureSerialRequest) : Nat :=
  max 1 (min (req.maxBytes.getD 65536) 1048576)

/-- The cursor that a capture starts at. -/
def CaptureSerialRequest.start (req : CaptureSerialRequest)
    (ring : SerialRing) : Nat :=
  req.cursor.getD (ring.nextCursor - req.limit)

/-- The bytes that a capture takes from the ring. -/
def CaptureSerialRequest.captured (req : CaptureSerialRequest)
    (ring : SerialRing) : List UInt8 :=
  (ring.snapshotFrom (req.start ring) req.limit).bytes

/-- The result of a capture, from the ring that it looks at. -/
def CaptureSerialRequest.result (req : CaptureSerialRequest)
    (ring : SerialRing) : SerialCaptureResult where
  boardId := req.boardId
  text := fromUtf8Lossy (req.captured ring)
  startCursor := req.start ring
  nextCursor := (ring.snapshotFrom (req.start ring) req.limit).nextCursor
  consoleGeneration := ring.generation
  truncated := (ring.snapshotFrom (req.start ring) req.limit).truncated
  invalidUtf8 := !isUtf8 (req.captured ring)

/--
The captured bytes are those of the stream between the two cursors of the
result, and the second one is not ahead of the ring.
-/
structure CapturesExactly (req : CaptureSerialRequest) (console : Console)
    (result : SerialCaptureResult) : Prop where
  captured : req.captured console.ring =
    (console.stream.take result.nextCursor).drop result.startCursor
  bounded : result.nextCursor ≤ console.ring.nextCursor

/--
A given cursor lies between the oldest retained byte and the end of the stream;
without one, the ring has room for what is asked for or for the whole stream.
-/
def StartsRetained (req : CaptureSerialRequest) (console : Console) : Prop :=
  match req.cursor with
  | some cursor =>
      console.ring.oldest ≤ cursor ∧ cursor ≤ console.ring.nextCursor
  | none => req.limit ≤ console.capacity ∨
      console.stream.length ≤ console.capacity

section SerialCapture

variable {registry : BoardRegistry} {req : CaptureSerialRequest}
variable {console : Console}

theorem Console.oldest_ring (console : Console) :
    console.ring.oldest = console.stream.length - console.capacity := by
  rw [console.retains.oldest_eq, console.ring_capacity,
    ConsoleLog.retainedFrom, console.length_entries_log]

/-- The next cursor of a snapshot, wherever it was asked to start. -/
theorem Console.nextCursor_snapshotFrom (console : Console)
    (cursor maxBytes : Nat) :
    (console.ring.snapshotFrom cursor maxBytes).nextCursor =
      max cursor console.ring.oldest +
        (console.ring.snapshotFrom cursor maxBytes).bytes.length := by
  rw [SerialSnapshot.bytes, List.length_flatMap]
  rfl

theorem captureBoardSerial_eq :
    captureBoardSerial registry req = (do
      let _ ← ofResult (registry.board req.boardId)
      let ring ← act .lockSerial
      return req.result ring) :=
  rfl

theorem captureBoardSerial_traces {base : List Event} :
    Traces BoardOp.emits (fun _ _ => True)
      (captureBoardSerial registry req).run base fun r t =>
        ∀ result, r = .ok result →
          ∃ c : Console, t = [.looked c] ∧ result = req.result c.ring := by
  rw [captureBoardSerial_eq]
  refine Traces.resultBind ?_ ?_
  · intro profile _
    refine Traces.lookBind (fun _ => trivial) fun c => Traces.done ?_
    rintro result ⟨⟩
    exact ⟨c, rfl, rfl⟩
  · rintro e _ result ⟨⟩

/-- The start cursor lies in the retained part of the stream. -/
theorem startsRetained_iff :
    StartsRetained req console ↔ console.ring.oldest ≤ req.start console.ring ∧
      req.start console.ring ≤ console.ring.nextCursor := by
  unfold StartsRetained CaptureSerialRequest.start
  cases req.cursor with
  | some cursor => rfl
  | none =>
      rw [console.oldest_ring, console.nextCursor_ring]
      simp only [Option.getD_none]
      omega

/-- A snapshot is what lies between its cursors if it starts at a retained
byte or at the end. -/
theorem Console.snapshotFrom_exact_iff (console : Console)
    (cursor maxBytes : Nat) :
    ((console.ring.snapshotFrom cursor maxBytes).bytes =
        (console.stream.take
          (console.ring.snapshotFrom cursor maxBytes).nextCursor).drop cursor ∧
      (console.ring.snapshotFrom cursor maxBytes).nextCursor ≤
        console.ring.nextCursor) ↔
      console.ring.oldest ≤ cursor ∧ cursor ≤ console.ring.nextCursor := by
  have hnext := console.nextCursor_snapshotFrom cursor maxBytes
  have hbytes := snapshotFrom_retainedAfter console cursor maxBytes
  rw [Console.retainedAfter, ← console.oldest_ring] at hbytes
  have hlength := congrArg List.length hbytes
  rw [List.length_take, List.length_drop] at hlength
  rw [hnext, console.nextCursor_ring]
  constructor
  · rintro ⟨hexact, hbounded⟩
    have hslice := congrArg List.length hexact
    rw [List.length_drop, List.length_take] at hslice
    omega
  · rintro ⟨hretained, hend⟩
    have hstart : max cursor console.ring.oldest = cursor := by omega
    rw [hstart] at hbytes hlength ⊢
    constructor
    · rw [List.drop_take, Nat.add_sub_cancel_left, hlength, hbytes]
      exact (List.take_eq_take_iff.mpr (by
        rw [List.length_drop]
        omega))
    · omega

variable {ι : Type} [DecidableEq ι] {t : Thread ι} {w : World ι}

/--
A capture returns what the stream holds between its cursors, and a next cursor
that is not ahead of the ring, exactly if its start cursor lies in the retained
part of the stream.
-/
theorem captureBoardSerial_exact_iff {result : SerialCaptureResult}
    (hcapture : AnswersIn t (captureBoardSerial registry req).run (.ok result)
      w)
    (hlooked : w.LastLooked t console) :
    result.text = fromUtf8Lossy (req.captured console.ring) ∧
      (CapturesExactly req console result ↔ StartsRetained req console) := by
  obtain ⟨c, hlog, rfl⟩ :=
    captureBoardSerial_traces.result hcapture.exec.1 result rfl
  have hlast := hlooked.last
  rw [hlog] at hlast
  obtain rfl : c = console := by simpa using hlast
  constructor
  · rfl
  · rw [startsRetained_iff, ← c.snapshotFrom_exact_iff _ req.limit]
    constructor
    · intro h
      exact ⟨h.captured, h.bounded⟩
    · rintro ⟨hcaptured, hbounded⟩
      exact ⟨hcaptured, hbounded⟩

theorem captureBoardSerial_acts {profile : BoardProfile} (ht : w.Alive t)
    (hboard : registry.board req.boardId = .ok profile) :
    Acts t (captureBoardSerial registry req) w
      (.ok (req.result w.console.ring)) (w.look t) := by
  rw [captureBoardSerial_eq]
  exact (lookup_acts hboard _).bind (Acts.look ht (Acts.pure _))

/-- A capture that looks at a console. -/
theorem captureBoardSerial_answers {profile : BoardProfile}
    (hboard : registry.board req.boardId = .ok profile) (console : Console) :
    AnswersIn ((), .main) (captureBoardSerial registry req).run
      (.ok (req.result console.ring))
      ((World.initial console).look ((), .main)) := by
  have hcapture : Acts ((), .main) (captureBoardSerial registry req)
      (World.initial console) (.ok (req.result console.ring))
      ((World.initial console).look ((), .main)) :=
    captureBoardSerial_acts (alive_main ()) hboard
  exact Performs.answersIn hcapture rfl

/-- A client asks for what comes after the tenth byte. -/
def tenthRequest : CaptureSerialRequest where
  boardId := simulated.boardId
  maxBytes := none
  cursor := some 10

/-- A ring of 12 bytes that has received 17 still has the tenth. -/
theorem captureBoardSerial_exact_iff_tenth :
    (tenthRequest.result shortConsole.ring).text =
        fromUtf8Lossy (tenthRequest.captured shortConsole.ring) ∧
      (CapturesExactly tenthRequest shortConsole
          (tenthRequest.result shortConsole.ring) ↔
        StartsRetained tenthRequest shortConsole) :=
  captureBoardSerial_exact_iff
    (captureBoardSerial_answers simulatedRegistry_board shortConsole)
    ⟨rfl, Console.Extends.refl _⟩

/--
A daemon that has just been started returns the cursor it was given, which is
ahead of its ring.
-/
theorem captureBoardSerial_ahead :
    ∃ (w : World Unit) (result : SerialCaptureResult),
      AnswersIn ((), .main)
        (captureBoardSerial simulatedRegistry tenthRequest).run (.ok result) w ∧
      w.LastLooked ((), .main) simulatedConsole ∧
      result.nextCursor = 10 ∧ simulatedConsole.ring.nextCursor = 0 ∧
      ¬CapturesExactly tenthRequest simulatedConsole result := by
  refine ⟨_, _, captureBoardSerial_answers simulatedRegistry_board
    simulatedConsole, ⟨rfl, Console.Extends.refl _⟩, rfl, rfl, ?_⟩
  intro h
  have hbounded := h.bounded
  revert hbounded
  decide

end SerialCapture

end RpictlMcp
