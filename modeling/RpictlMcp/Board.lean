import RpictlMcp.BoardLease
import RpictlMcp.Config
import RpictlMcp.SerialGeneration
import RpictlMcp.StateDetector
import RpictlMcp.Kernel.Interaction

/-!
# rpictl-mcp: a board and the operations on it

The code of the service acts on a board through its lease, its serial ring, its
serial writer, power subprocesses, clocks and, in one operation, a worker
thread.  `BoardOp` lists these actions with the responses the code can see; the
service itself is a family of programs over them.

`Console` is the serial ring together with everything the board has sent, so
that a ring in this development is always one that some reads and generation
boundaries have led to.  The serial lock is never poisoned: the only code that
runs under it and could panic is `append`, and a run in which the 64-bit cursor
overflows is not considered here.

An action is judged by the events it causes.  Notes are events without an effect;
they mark the beginning of a call or what it found out.
-/

namespace RpictlMcp

/-- The ring of a board with all the changes that have led to it. -/
structure Console where
  capacity : Nat
  history : List RingOp
  ring : SerialRing
  run : runNewRing capacity history = .ok ring

namespace Console

/-- Every byte the board has sent so far. -/
def stream (console : Console) : List UInt8 :=
  console.history.flatMap RingOp.input

/-- The log of the console. -/
def log (console : Console) : ConsoleLog :=
  ConsoleLog.ofOps console.history

theorem ring_capacity (console : Console) :
    console.ring.capacity = console.capacity :=
  (retains_of_runNewRing console.run).1

theorem retains (console : Console) : Retains console.ring console.log :=
  (retains_of_runNewRing console.run).2

@[simp] theorem bytes_log (console : Console) :
    console.log.bytes = console.stream :=
  ConsoleLog.bytes_ofOps console.history

theorem length_entries_log (console : Console) :
    console.log.entries.length = console.stream.length :=
  ConsoleLog.length_entries_ofOps console.history

/-- The next cursor of a ring is the number of bytes sent so far. -/
theorem nextCursor_ring (console : Console) :
    console.ring.nextCursor = console.stream.length := by
  rw [console.retains.nextCursor, length_entries_log]

theorem runNewRing_concat {capacity : Nat} {history : List RingOp}
    {ring : SerialRing} (hrun : runNewRing capacity history = .ok ring)
    (op : RingOp) :
    runNewRing capacity (history ++ [op]) = op.apply ring := by
  simp only [runNewRing] at hrun ⊢
  cases hnew : SerialRing.new capacity with
  | error panic => simp [hnew, bind, Except.bind] at hrun
  | ok ring₀ =>
      simp only [hnew, bind, Except.bind] at hrun ⊢
      rw [runRing_append, hrun]
      simp only [bind, Except.bind, runRing]
      cases op.apply ring <;> rfl

/-- The console after a generation boundary. -/
def mark (console : Console) : Console where
  capacity := console.capacity
  history := console.history ++ [.markGeneration]
  ring := console.ring.markGeneration.1
  run := runNewRing_concat console.run .markGeneration

/-- The console of a board that has not sent anything yet. -/
def new (capacity : Nat) (hcapacity : 0 < capacity) : Console where
  capacity := capacity
  history := []
  ring :=
    { capacity, bytes := 0, nextCursor := 0, generation := 0, chunks := [] }
  run := by
    simp [runNewRing, SerialRing.new, hcapacity, runRing, bind, Except.bind]

/-- A later console of the same board. -/
structure Extends (earlier later : Console) : Prop where
  capacity : later.capacity = earlier.capacity
  history : earlier.history <+: later.history

theorem Extends.refl (console : Console) : console.Extends console :=
  ⟨rfl, List.prefix_rfl⟩

theorem Extends.trans {a b c : Console} (hab : a.Extends b)
    (hbc : b.Extends c) : a.Extends c :=
  ⟨hbc.capacity.trans hab.capacity, hab.history.trans hbc.history⟩

theorem extends_mark (console : Console) : console.Extends console.mark :=
  ⟨rfl, List.prefix_append _ _⟩

/-- A later stream continues an earlier one. -/
theorem Extends.stream {earlier later : Console}
    (h : earlier.Extends later) : earlier.stream <+: later.stream := by
  obtain ⟨more, hmore⟩ := h.history
  exact ⟨more.flatMap RingOp.input, by
    rw [Console.stream, Console.stream, ← hmore, List.flatMap_append]⟩

/-- Below the 64-bit range every history leads to a console. -/
theorem exists_console {capacity : Nat} (hcapacity : 0 < capacity)
    (history : List RingOp)
    (hlen : (history.flatMap RingOp.input).length < 2 ^ 64) :
    ∃ console : Console,
      console.capacity = capacity ∧ console.history = history := by
  obtain ⟨ring, hrun, -, -⟩ := runNewRing_retains hcapacity history hlen
  exact ⟨⟨capacity, history, ring, hrun⟩, rfl, rfl⟩

end Console

/-- What `chip-tool` reports about a relay. -/
structure PowerObservation where
  state : String
  identityVerified : Bool
  raw : Text
deriving DecidableEq, Repr

/-- A subprocess to be spawned. -/
structure Command where
  program : String
  args : List String
deriving DecidableEq, Repr

/-- What a subprocess that has ended left behind. -/
structure Output where
  success : Bool
  stdout : List UInt8
  stderr : List UInt8
deriving DecidableEq, Repr

/-- The pipes of a subprocess. -/
inductive Pipe where
  | stdout
  | stderr
deriving DecidableEq, Repr

/-- The data of one read of a pipe: at least one byte, at most a buffer. -/
def PipeData : Type :=
  { bytes : List UInt8 // 0 < bytes.length ∧ bytes.length ≤ 8192 }

/-- The outcome of one read of a pipe. -/
inductive ReadResult where
  | eof
  | data (bytes : PipeData)
  | wouldBlock
  | interrupted
  | failed (error : Text)

/-- The serial writer under its lock. -/
inductive WriterLock where
  | poisoned
  | notOpen
  | opened
deriving DecidableEq, Repr

/-- How a power worker ended. -/
inductive WorkerOutcome where
  | returned (result : Result PowerObservation)
  | panicked

/-- A point of a run that has no effect on the board. -/
inductive Note where
  | setPower (on : Bool)
  | queried (observation : PowerObservation)
  | switched (on : Bool) (output : Output)
  | booted (result : Result BoardState)

/-- The actions of the service on a board. -/
inductive BoardOp where
  | newUuid
  | nowMs
  | instantNow
  | sleep (ms : Nat)
  | acquireLease (owner : LeaseOwner) (timeoutMs : Nat)
  | releaseLease (owner : LeaseOwner)
  | leaseOwner
  | lockSerial
  | markGeneration
  | lockWriter
  | writeByte (byte : UInt8)
  | flush
  | spawn (command : Command)
  | setNonblocking (pipe : Pipe)
  | readPipe (pipe : Pipe)
  | tryWait
  | killGroup
  | killChild
  | waitChild
  | spawnWorker
  | workerFinished
  | joinWorker
  | awaitSpawn
  | finishWorker (result : Result PowerObservation)
  | note (point : Note)

/--
The response to an action.  An `Option Text` is the text of an I/O error, if
there is one; `acquireLease` yields the operation that holds the lease when it
fails; `tryWait` yields whether the child was successful once it has ended.
-/
abbrev BoardOp.Resp : BoardOp → Type
  | .newUuid => String
  | .nowMs => Nat
  | .instantNow => Nat
  | .sleep _ => Unit
  | .acquireLease _ _ => Option String
  | .releaseLease _ => Unit
  | .leaseOwner => Option LeaseOwner
  | .lockSerial => SerialRing
  | .markGeneration => Nat
  | .lockWriter => WriterLock
  | .writeByte _ => Option Text
  | .flush => Option Text
  | .spawn _ => Option Text
  | .setNonblocking _ => Option Text
  | .readPipe _ => ReadResult
  | .tryWait => Except Text (Option Bool)
  | .killGroup => Unit
  | .killChild => Unit
  | .waitChild => Option Text
  | .spawnWorker => Unit
  | .workerFinished => Bool
  | .joinWorker => WorkerOutcome
  | .awaitSpawn => Unit
  | .finishWorker _ => Unit
  | .note _ => Unit

/-- The signature of the service's programs. -/
abbrev BoardSig : Signature := ⟨BoardOp, BoardOp.Resp⟩

/-- Programs of the service that may fail. -/
abbrev Action (α : Type) := ExceptT Error (Prog BoardSig) α

/-- Perform one action, in a program that does not fail. -/
def ask (o : BoardOp) : Prog BoardSig o.Resp :=
  Prog.perform (S := BoardSig) o

/-- Perform one action. -/
def act (o : BoardOp) : Action o.Resp :=
  ExceptT.lift (ask o)

/-- Use a result that has already been computed. -/
def ofResult {α : Type} (result : Result α) : Action α :=
  ExceptT.mk (pure result)

/-- Run an action and look at its result. -/
def attempt {α : Type} (action : Action α) : Action (Result α) :=
  ExceptT.lift action.run

/-- The events that runs are judged by. -/
inductive Event where
  | acquired (owner : LeaseOwner)
  | released (owner : LeaseOwner)
  | looked (console : Console)
  | marked (console : Console)
  | slept (ms : Nat)
  | wrote (byte : UInt8) (error : Option Text)
  | launched (command : Command)
  | workerSpawned
  | workerJoined (outcome : WorkerOutcome)
  | workerReturned (result : Result PowerObservation)
  | noted (point : Note)

/-- The event of an action, given its response and the console it left. -/
def BoardOp.events : (o : BoardOp) → o.Resp → Console → List Event
  | .acquireLease owner _, none, _ => [.acquired owner]
  | .releaseLease owner, _, _ => [.released owner]
  | .lockSerial, _, console => [.looked console]
  | .markGeneration, _, console => [.marked console]
  | .sleep ms, _, _ => [.slept ms]
  | .writeByte byte, error, _ => [.wrote byte error]
  | .spawn command, none, _ => [.launched command]
  | .spawnWorker, _, _ => [.workerSpawned]
  | .joinWorker, outcome, _ => [.workerJoined outcome]
  | .finishWorker result, _, _ => [.workerReturned result]
  | .note point, _, _ => [.noted point]
  | _, _, _ => []

/-- What an action does to the console, and what it sees of it. -/
def BoardOp.OnConsole (o : BoardOp) (c : Console) (r : o.Resp)
    (c' : Console) : Prop :=
  match o, r with
  | .lockSerial, ring => ring = c.ring ∧ c' = c
  | .markGeneration, generation =>
      generation = c'.ring.generation ∧ c' = c.mark
  | _, _ => c' = c

end RpictlMcp
