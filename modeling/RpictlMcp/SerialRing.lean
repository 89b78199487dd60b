import Mathlib.Algebra.GroupWithZero.Nat
import Mathlib.Data.List.Basic

/-!
# rpictl-mcp: the bounded serial ring

This module embeds `serial.rs`.  A `SerialRing` keeps the newest console bytes
of one board as chunks, one chunk for each read of the port; every chunk
remembers the cursor (the index in the stream) of its first byte and the
console generation it was received in.

Cursors and byte counts are 64-bit in the source, so the sums and differences
of `append` are checked here: a result outside the 64-bit range, a difference
below zero and the failed `expect` of the eviction loop are `Panic`s rather
than values.  The loop itself is run with a budget of one iteration for each
chunk; running out of it is reported as a `Panic` too, so that a theorem which
excludes panics also shows that the loop ends.  The generation counts power
and reboot operations, not bytes, and is an unbounded natural number.
-/

namespace RpictlMcp

/-- `std::time::SystemTime`, in milliseconds. -/
abbrev SystemTime := Nat

/-- The ways in which the ring code can stop without a result. -/
inductive Panic where
  | assertionFailed
  | addOverflow
  | subtractOverflow
  | ringIsEmpty
  | evictionUnfinished
deriving DecidableEq, Repr

/-- Addition of two 64-bit counters. -/
def checkedAdd (x y : Nat) : Except Panic Nat :=
  if x + y < 2 ^ 64 then .ok (x + y) else .error .addOverflow

/-- Subtraction of two 64-bit counters. -/
def checkedSub (x y : Nat) : Except Panic Nat :=
  if y ≤ x then .ok (x - y) else .error .subtractOverflow

theorem checkedAdd_ok {x y : Nat} (h : x + y < 2 ^ 64) :
    checkedAdd x y = .ok (x + y) :=
  if_pos h

theorem checkedSub_ok {x y : Nat} (h : y ≤ x) :
    checkedSub x y = .ok (x - y) :=
  if_pos h

/-- The bytes of one read of the serial port, or what eviction left of them. -/
structure SerialChunk where
  cursor : Nat
  generation : Nat
  timestamp : SystemTime
  bytes : List UInt8
deriving DecidableEq, Repr

/-- What a reader gets from the ring. -/
structure SerialSnapshot where
  chunks : List SerialChunk
  nextCursor : Nat
  truncated : Bool
deriving DecidableEq, Repr

/-- The bytes of a snapshot, in order. -/
def SerialSnapshot.bytes (snapshot : SerialSnapshot) : List UInt8 :=
  snapshot.chunks.flatMap SerialChunk.bytes

/-- The newest console bytes of one board. -/
structure SerialRing where
  capacity : Nat
  bytes : Nat
  nextCursor : Nat
  generation : Nat
  chunks : List SerialChunk
deriving DecidableEq, Repr

namespace SerialRing

/-- `SerialRing::new`. -/
def new (capacity : Nat) : Except Panic SerialRing :=
  if capacity > 0 then
    .ok { capacity, bytes := 0, nextCursor := 0, generation := 0, chunks := [] }
  else
    .error .assertionFailed

/-- `SerialRing::mark_generation`.  The source adds to a `u64`; the generation is
not bounded here. -/
def markGeneration (ring : SerialRing) : SerialRing × Nat :=
  ({ ring with generation := ring.generation + 1 }, ring.generation + 1)

/-- One iteration of the eviction loop of `append`. -/
def evictStep (ring : SerialRing) : Except Panic SerialRing := do
  let excess ← checkedSub ring.bytes ring.capacity
  match ring.chunks with
  | [] => .error .ringIsEmpty
  | front :: rest =>
      if excess < front.bytes.length then
        let cursor ← checkedAdd front.cursor excess
        let bytes ← checkedSub ring.bytes excess
        let front := { front with bytes := front.bytes.drop excess, cursor }
        .ok { ring with bytes, chunks := front :: rest }
      else
        let bytes ← checkedSub ring.bytes front.bytes.length
        .ok { ring with bytes, chunks := rest }

/-- The eviction loop of `append`, with a budget of iterations. -/
def evict : Nat → SerialRing → Except Panic SerialRing
  | 0, ring =>
      if ring.bytes > ring.capacity then .error .evictionUnfinished
      else .ok ring
  | budget + 1, ring =>
      if ring.bytes > ring.capacity then do
        evict budget (← evictStep ring)
      else .ok ring

/-- The part of an input that `append` keeps. -/
def kept (capacity : Nat) (input : List UInt8) : List UInt8 :=
  if input.length > capacity then input.drop (input.length - capacity)
  else input

/-- `SerialRing::append`: the ring afterwards and the cursor of the input. -/
def append (ring : SerialRing) (timestamp : SystemTime) (input : List UInt8) :
    Except Panic (SerialRing × Nat) := do
  let originalCursor := ring.nextCursor
  let nextCursor ← checkedAdd ring.nextCursor input.length
  if input.isEmpty then
    .ok ({ ring with nextCursor }, originalCursor)
  else
    let kept := kept ring.capacity input
    let cursor ← checkedSub nextCursor kept.length
    let bytes ← checkedAdd ring.bytes kept.length
    let chunk :=
      { cursor, generation := ring.generation, timestamp, bytes := kept }
    let ring ← evict (ring.chunks.length + 1)
      { ring with nextCursor, bytes, chunks := ring.chunks ++ [chunk] }
    .ok (ring, originalCursor)

/-- Cursor of the oldest retained byte, or the next cursor of an empty ring. -/
def oldest (ring : SerialRing) : Nat :=
  match ring.chunks.head? with
  | some chunk => chunk.cursor
  | none => ring.nextCursor

/-- The chunk loop of `snapshot_from`. -/
def snapshotChunks (effectiveStart : Nat) :
    Nat → List SerialChunk → List SerialChunk
  | _, [] => []
  | remaining, chunk :: rest =>
      let start := min (effectiveStart - chunk.cursor) chunk.bytes.length
      if start = chunk.bytes.length ∨ remaining = 0 then
        snapshotChunks effectiveStart remaining rest
      else
        let len := min (chunk.bytes.length - start) remaining
        { cursor := chunk.cursor + start
          generation := chunk.generation
          timestamp := chunk.timestamp
          bytes := (chunk.bytes.drop start).take len } ::
          snapshotChunks effectiveStart (remaining - len) rest

/-- `SerialRing::snapshot_from`. -/
def snapshotFrom (ring : SerialRing) (cursor maxBytes : Nat) : SerialSnapshot :=
  let oldest := ring.oldest
  let effectiveStart := max cursor oldest
  let chunks := snapshotChunks effectiveStart maxBytes ring.chunks
  let returned := (chunks.map fun chunk => chunk.bytes.length).sum
  { chunks
    nextCursor := effectiveStart + returned
    truncated :=
      decide (cursor < oldest) ||
        decide (effectiveStart + returned < ring.nextCursor) }

/-- The chunk loop of `snapshot_generation`. -/
def generationChunks (generation skip : Nat) :
    Nat → List SerialChunk → List SerialChunk
  | _, [] => []
  | seen, chunk :: rest =>
      let start := min (skip - seen) chunk.bytes.length
      let tail := generationChunks generation skip (seen + chunk.bytes.length) rest
      if start < chunk.bytes.length then
        { cursor := chunk.cursor + start
          generation
          timestamp := chunk.timestamp
          bytes := chunk.bytes.drop start } :: tail
      else tail

/-- `SerialRing::snapshot_generation`. -/
def snapshotGeneration (ring : SerialRing) (generation maxBytes : Nat) :
    SerialSnapshot :=
  let tagged := ring.chunks.filter fun chunk => chunk.generation = generation
  let available := (tagged.map fun chunk => chunk.bytes.length).sum
  let skip := available - maxBytes
  let chunks := generationChunks generation skip 0 tagged
  let startCursor :=
    match chunks.head? with
    | some chunk => chunk.cursor
    | none => ring.nextCursor
  let returned := (chunks.map fun chunk => chunk.bytes.length).sum
  { chunks
    nextCursor := startCursor + returned
    truncated := decide (available > maxBytes) }

end SerialRing

/-- A change to the ring: a read of the port, or a generation boundary. -/
inductive RingOp where
  | append (timestamp : SystemTime) (input : List UInt8)
  | markGeneration
deriving DecidableEq, Repr

/-- The ring after one change. -/
def RingOp.apply (ring : SerialRing) : RingOp → Except Panic SerialRing
  | .append timestamp input => do
      let (ring, _) ← ring.append timestamp input
      .ok ring
  | .markGeneration => .ok ring.markGeneration.1

/-- The bytes a change brings in. -/
def RingOp.input : RingOp → List UInt8
  | .append _ input => input
  | .markGeneration => []

/-- The ring after a sequence of changes. -/
def runRing (ring : SerialRing) : List RingOp → Except Panic SerialRing
  | [] => .ok ring
  | op :: ops => do
      runRing (← op.apply ring) ops

/-- The ring after a sequence of changes to a new ring. -/
def runNewRing (capacity : Nat) (ops : List RingOp) : Except Panic SerialRing := do
  runRing (← SerialRing.new capacity) ops

/-- Running two sequences of changes one after the other. -/
theorem runRing_append (ring : SerialRing) (first second : List RingOp) :
    runRing ring (first ++ second) =
      (runRing ring first >>= fun ring' => runRing ring' second) := by
  induction first generalizing ring with
  | nil => rfl
  | cons op first ih =>
      simp only [List.cons_append, runRing]
      cases op.apply ring with
      | error panic => rfl
      | ok ring' => exact ih ring'

end RpictlMcp
