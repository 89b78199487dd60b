import RpictlMcp.RemoteBackend
import RpictlMcp.Kernel.ThreadPool

/-!
# rpictl-mcp: the processes that share a socket path

Every process of the program is given the path of a socket.  One of them serves
the boards: it is the one whose listener the path names.  This module embeds how
a process becomes the one that serves, `start` of `console.rs` with
`UnixListener::bind` split into its two system calls, how it stops being that
(the drop of `ConsoleSocket`, `stop_daemon`, an exit), and the commands of
`main.rs` that take part.

The host is the file at the path together with the socket of each process.  A
socket is named by its process.  Any file at the path that is not the socket of
one of the processes is one that nobody listens on.
-/

namespace RpictlMcp

/-- `DEFAULT_SOCKET`. -/
def defaultSocket : String := "/tmp/rpictl-mcp.sock"

/-- The error of `UnixListener::bind`. -/
structure BindError where
  addrInUse : Bool
  text : String
deriving DecidableEq, Repr

/-- The actions of a process that concern the socket path. -/
inductive SocketOp where
  | bindAddress
  | listen
  | connect
  | removeFile
  | setPermissions
  | spawnListener
  | closeListener
  | dropSocket
  | exchangePing
  | sendShutdown
  | loadRegistry
  | awaitEnd
  | sleep (ms : Nat)
  | exit (code : Nat)

/-- The response to an action; a text is the text of an error. -/
abbrev SocketOp.Resp : SocketOp → Type
  | .bindAddress => Option BindError
  | .listen => Option String
  | .connect => Bool
  | .removeFile => Option String
  | .setPermissions => Option String
  | .spawnListener => Option String
  | .closeListener => Unit
  | .dropSocket => Unit
  | .exchangePing => Option (List Char)
  | .sendShutdown => Unit
  | .loadRegistry => Option String
  | .awaitEnd => Unit
  | .sleep _ => Unit
  | .exit _ => Unit

/-- The signature of the programs of a process. -/
abbrev SocketSig : Signature := ⟨SocketOp, SocketOp.Resp⟩

/-- Perform one action of a process. -/
def sys (o : SocketOp) : Prog SocketSig o.Resp :=
  Prog.perform (S := SocketSig) o

/-- Programs that may fail with a text. -/
abbrev Startup (α : Type) := ExceptT String (Prog SocketSig) α

/-- Perform one action of a process, in a program that may fail. -/
def sysE (o : SocketOp) : Startup o.Resp :=
  ExceptT.lift (sys o)

/-- `UnixListener::bind`: the address is bound, then the socket listens. -/
def bindListener : Prog SocketSig (Option BindError) := do
  match ← sys .bindAddress with
  | some error => return some error
  | none =>
      match ← sys .listen with
      | some error =>
          sys .closeListener
          return some ⟨false, error⟩
      | none => return none

namespace ConsoleSocket

/-- The second half of the listener's creation in `start`. -/
def takeOver (path : String) : Startup Unit := do
  if ← sysE .connect then
    throw s!"console socket {path} is already served"
  else
    match ← sysE .removeFile with
    | some remove =>
        throw s!"stale console socket {path} cannot be removed: {remove}"
    | none =>
        match ← ExceptT.lift bindListener with
        | some error =>
            throw s!"cannot bind console socket {path}: {error.text}"
        | none => return ()

/-- The creation of the listener in `start`. -/
def createListener (path : String) : Startup Unit := do
  match ← ExceptT.lift bindListener with
  | none => return ()
  | some error =>
      if error.addrInUse then takeOver path
      else throw s!"cannot bind console socket {path}: {error.text}"

/-- The rest of `start`.  A listener that cannot be used is closed when it is
dropped. -/
def openListener : Startup Unit := do
  match ← sysE .setPermissions with
  | some error =>
      sysE .closeListener
      throw s!"cannot secure console socket: {error}"
  | none =>
      match ← sysE .spawnListener with
      | some error =>
          sysE .closeListener
          throw s!"cannot start console listener: {error}"
      | none => return ()

/-- `start`. -/
def start (path : String) : Startup Unit := do
  createListener path
  openListener

end ConsoleSocket

/-- `ping_daemon`. -/
def pingDaemon : Prog SocketSig Bool := do
  if ← sys .connect then
    match ← sys .exchangePing with
    | none => return false
    | some stream => return decide (trim (readLine stream) = "PONG".toList)
  else
    return false

/-- The polls of `stop_daemon`. -/
def awaitStop : Nat → Startup Unit
  | 0 => throw "daemon did not stop in time"
  | polls + 1 => do
      sysE (.sleep 100)
      if ← ExceptT.lift pingDaemon then awaitStop polls
      else return ()

/-- `stop_daemon`. -/
def stopDaemon (path : String) : Startup Unit := do
  if ← ExceptT.lift pingDaemon then
    if ← sysE .connect then
      sysE .sendShutdown
      awaitStop 50
    else
      throw s!"cannot connect to daemon on {path}"
  else
    throw s!"daemon is not running on {path}"

/-- What a process does once `start` has returned. -/
def serveStarted (result : Except String Unit) : Prog SocketSig Unit :=
  match result with
  | .error _ => sys (.exit 1)
  | .ok () => do
      sys .awaitEnd
      sys .dropSocket
      sys (.exit 0)

/-- The part of `serve` and `daemon` that serves the boards. -/
def servePrimary (path : String) : Prog SocketSig Unit := do
  match ← sys .loadRegistry with
  | some _ => sys (.exit 1)
  | none =>
      let result ← (ConsoleSocket.start path).run
      serveStarted result

/-- The command `serve`: tools are sent to a daemon that answers. -/
def serveCommand (path : String) : Prog SocketSig Unit := do
  if ← pingDaemon then
    sys .awaitEnd
    sys (.exit 0)
  else
    servePrimary path

/-- The command `daemon`, in the foreground. -/
def daemonCommand (path : String) : Prog SocketSig Unit := do
  if ← pingDaemon then
    sys (.exit 1)
  else
    match ← sys .loadRegistry with
    | some _ => sys (.exit 1)
    | none => servePrimary path

/-- The polls of the parent of a daemon in the background. -/
def awaitDaemon : Nat → Prog SocketSig Unit
  | 0 => sys (.exit 1)
  | polls + 1 => do
      sys (.sleep 100)
      if ← pingDaemon then sys (.exit 0) else awaitDaemon polls

/-- The command `daemon`, in the parent of the process in the background. -/
def daemonParent : Prog SocketSig Unit := do
  if ← pingDaemon then
    sys (.exit 1)
  else
    match ← sys .loadRegistry with
    | some _ => sys (.exit 1)
    | none => awaitDaemon 30

/-- The command `daemon stop`. -/
def stopCommand (path : String) : Prog SocketSig Unit := do
  match ← (stopDaemon path).run with
  | .ok () => sys (.exit 0)
  | .error _ => sys (.exit 1)

/-- The commands `daemon status` and `doctor`. -/
def statusCommand : Prog SocketSig Unit := do
  let _ ← pingDaemon
  sys (.exit 0)

/-- What a process was started for.  The child of a daemon in the background is
a process of its own. -/
inductive SocketCommand where
  | serve
  | daemon
  | daemonParent
  | daemonChild
  | stop
  | status
deriving DecidableEq, Repr

/-- The program of a process. -/
def SocketCommand.main (path : String) : SocketCommand → Prog SocketSig Unit
  | .serve => serveCommand path
  | .daemon => daemonCommand path
  | .daemonParent => RpictlMcp.daemonParent
  | .daemonChild => servePrimary path
  | .stop => stopCommand path
  | .status => statusCommand

/-- The events of a process that others can notice. -/
inductive HostEvent where
  | bound
  | listens
  | refused
  | removed
  | dropped
  | closed
deriving DecidableEq, Repr

/-- The events of an action, given its response. -/
def SocketOp.events : (o : SocketOp) → o.Resp → List HostEvent
  | .bindAddress, none => [.bound]
  | .listen, none => [.listens]
  | .connect, false => [.refused]
  | .removeFile, none => [.removed]
  | .closeListener, _ => [.closed]
  | .dropSocket, _ => [.dropped]
  | _, _ => []

/-- The file at the path. -/
inductive SocketFile (ι : Type) where
  | socket (i : ι)
  | other
deriving DecidableEq

/-- The socket of a process. -/
inductive Endpoint where
  | unbound
  | bound
  | listening
  | closed
deriving DecidableEq, Repr

/-- A socket that has an address and has not been closed. -/
def Endpoint.isOpen : Endpoint → Bool
  | .bound => true
  | .listening => true
  | _ => false

/-- An event, its process and the process whose open socket the path named. -/
structure HostEntry (ι : Type) where
  process : ι
  named : Option ι
  event : HostEvent
deriving DecidableEq

/-- The file at the path, the sockets, and what has happened. -/
structure Host (ι : Type) where
  file : Option (SocketFile ι)
  endpoint : ι → Endpoint
  alive : ι → Bool
  log : List (HostEntry ι)

section Host

variable {ι : Type}

/-- A host on which no process has done anything; `file` is what an earlier run
has left at the path. -/
def Host.initial (leftover : Bool) : Host ι where
  file := if leftover then some .other else none
  endpoint := fun _ => .unbound
  alive := fun _ => true
  log := []

/-- The process whose open socket the path names. -/
def Host.named (w : Host ι) : Option ι :=
  match w.file with
  | some (.socket i) => if (w.endpoint i).isOpen then some i else none
  | _ => none

/-- The path is served: it names a socket that listens. -/
def Host.Served (w : Host ι) : Prop :=
  ∃ i, w.file = some (.socket i) ∧ w.endpoint i = .listening

variable [DecidableEq ι]

/-- The host after the socket of a process has changed. -/
def Host.setEndpoint (w : Host ι) (i : ι) (e : Endpoint) : Host ι :=
  { w with endpoint := Function.update w.endpoint i e }

/-- The socket of a process that has closed it, if there was one. -/
def Endpoint.close : Endpoint → Endpoint
  | .unbound => .unbound
  | _ => .closed

/-- What an action of a process does to the host.  A path that names a file
cannot be bound.  A connection is accepted only if the path is served, and may
fail even then: for lack of permission or of descriptors, or interrupted. -/
inductive HostStep (i : ι) :
    (o : SocketOp) → Host ι → o.Resp → Host ι → Prop
  | bound {w : Host ι} (hfree : w.file = none) :
      HostStep i .bindAddress w none
        { w.setEndpoint i .bound with file := some (.socket i) }
  | bindFailed {w : Host ι} (error : BindError)
      (hinUse : error.addrInUse = true → w.file ≠ none) :
      HostStep i .bindAddress w (some error) w
  | listens {w : Host ι} (hbound : w.endpoint i = .bound) :
      HostStep i .listen w none (w.setEndpoint i .listening)
  | listenFailed {w : Host ι} (error : String) :
      HostStep i .listen w (some error) w
  | connected {w : Host ι} (hserved : w.Served) :
      HostStep i .connect w true w
  | refused {w : Host ι} : HostStep i .connect w false w
  | removed {w : Host ι} (hfile : w.file ≠ none) :
      HostStep i .removeFile w none { w with file := none }
  | removeFailed {w : Host ι} (error : String) :
      HostStep i .removeFile w (some error) w
  | secured {w : Host ι} (hfile : w.file ≠ none) :
      HostStep i .setPermissions w none w
  | securingFailed {w : Host ι} (error : String) :
      HostStep i .setPermissions w (some error) w
  | spawned {w : Host ι} : HostStep i .spawnListener w none w
  | spawnFailed {w : Host ι} (error : String) :
      HostStep i .spawnListener w (some error) w
  | closed {w : Host ι} :
      HostStep i .closeListener w () (w.setEndpoint i (w.endpoint i).close)
  | dropped {w : Host ι} : HostStep i .dropSocket w () { w with file := none }
  | dropFailed {w : Host ι} : HostStep i .dropSocket w () w
  | answered {w : Host ι} (j : ι) (hlistens : w.endpoint j = .listening) :
      HostStep i .exchangePing w (some "PONG\n".toList) w
  | hungUp {w : Host ι} : HostStep i .exchangePing w (some []) w
  | pingFailed {w : Host ι} : HostStep i .exchangePing w none w
  | sentShutdown {w : Host ι} : HostStep i .sendShutdown w () w
  | loaded {w : Host ι} : HostStep i .loadRegistry w none w
  | loadFailed {w : Host ι} (error : String) :
      HostStep i .loadRegistry w (some error) w
  | ended {w : Host ι} : HostStep i .awaitEnd w () w
  | slept {w : Host ι} (ms : Nat) : HostStep i (.sleep ms) w () w
  | exited {w : Host ι} (code : Nat) :
      HostStep i (.exit code) w ()
        { w.setEndpoint i (w.endpoint i).close with
          alive := Function.update w.alive i false }

/-- One action of a process that is alive, and what is logged about it. -/
def hostSem (i : ι) (o : SocketOp) (w : Host ι) (r : o.Resp) (w' : Host ι) :
    Prop :=
  w.alive i = true ∧ ∃ v, HostStep i o w r v ∧
    w' = { v with
      log := w.log ++ (o.events r).map (HostEntry.mk i w.named) }

/-- One action on a host on which, if it is reliable, a connection fails only
where nobody listens. -/
def hostSemIf (reliable : Prop) (i : ι) (o : SocketOp) (w : Host ι)
    (r : o.Resp) (w' : Host ι) : Prop :=
  hostSem i o w r w' ∧ (reliable → o.events r = [.refused] → ¬w.Served)

/-- A process dies at any time: it crashes, is killed or was told to stop. -/
def HostEnv (w w' : Host ι) : Prop :=
  ∃ i, w' = { w.setEndpoint i (w.endpoint i).close with
    alive := Function.update w.alive i false }

/-- The processes of a host, each with a command of its own. -/
def processes (path : String) (leftover : Bool) (commands : ι → SocketCommand) :
    Pool SocketSig (fun _ : ι => Unit) (Host ι) where
  prog := fun i => (commands i).main path
  world := Host.initial leftover

/-- What the processes come to, in any order of their steps. -/
def HostReaches :
    Pool SocketSig (fun _ : ι => Unit) (Host ι) →
      Pool SocketSig (fun _ : ι => Unit) (Host ι) → Prop :=
  Pool.Reaches hostSem HostEnv

/-- The same, where connections fail only if nobody listens. -/
def ReliablyReaches :
    Pool SocketSig (fun _ : ι => Unit) (Host ι) →
      Pool SocketSig (fun _ : ι => Unit) (Host ι) → Prop :=
  Pool.Reaches (hostSemIf True) HostEnv

end Host

end RpictlMcp
