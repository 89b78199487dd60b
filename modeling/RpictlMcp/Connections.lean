import RpictlMcp.ConsoleSession
import RpictlMcp.RemoteBackend
import RpictlMcp.System
import RpictlMcp.Kernel.Layering

/-!
# rpictl-mcp: the connections of the daemon

This module embeds `serve_client` as a whole, with `claim_console` and the drop
of a `ConsoleClaim`.  Every connection is served by a thread of its own, which
reads the first line and then answers one request, forwards serial bytes or runs
a console session, in which it executes one request after the other.  A console
session has a second thread, the forwarder, and `power_on_uboot` may start its
power worker.

The requests of a connection are programs over a board, run as guests, and every
board has a world of its own; which requests are made is decided by what the
client has typed.  The client is given by its first line and by the bytes after
it.  What a subscriber of the serial port receives is the subject of another
module; here it may be anything.  The process ends 50 milliseconds after a
`SHUTDOWN`, and a run may be cut off anywhere.
-/

namespace RpictlMcp

open Prog

/-- The outcome of one read of a client's stream. -/
inductive StreamRead where
  | eof
  | data (bytes : List UInt8)
  | interrupted
  | failed

/-- What a subscriber gets within a while. -/
inductive Delivery where
  | chunk (bytes : List UInt8)
  | timeout
  | disconnected

/-- The actions of a connection that are not actions on the board. -/
inductive StreamOp where
  | cloneStream
  | readLine
  | read
  | send (bytes : Text)
  | subscribeSerial
  | receive
  | receiveTimeout
  | claimConsole (boardId : String)
  | dropClaim
  | spawnForwarder
  | loadRunning
  | storeRunning (running : Bool)
  | loadMode
  | storeMode (rpictlMode : Bool)
  | exitProcess
deriving DecidableEq, Repr

/--
The response to an action: whether it has succeeded, a line, if one was read,
the chunk that was received, unless the sender is gone, or the value of a
variable.
-/
abbrev StreamOp.Resp : StreamOp → Type
  | .cloneStream => Bool
  | .readLine => Option (List Char)
  | .read => StreamRead
  | .send _ => Bool
  | .subscribeSerial => Unit
  | .receive => Option (List UInt8)
  | .receiveTimeout => Delivery
  | .claimConsole _ => Bool
  | .dropClaim => Unit
  | .spawnForwarder => Unit
  | .loadRunning => Bool
  | .storeRunning _ => Unit
  | .loadMode => Bool
  | .storeMode _ => Unit
  | .exitProcess => Unit

/-- The signature of the actions on a stream. -/
abbrev StreamSig : Signature := ⟨StreamOp, StreamOp.Resp⟩

/-- A request of a connection: its board, if it is one of a board, and its
number. -/
structure RequestKey where
  board? : Option String
  number : Nat
deriving DecidableEq, Repr

/-- The signature of a connection. -/
abbrev ConnectionSig : Signature := Signature.host RequestKey BoardSig StreamSig

/-- Programs of a connection. -/
abbrev Connection (α : Type) := Prog ConnectionSig α

/-- One action of a connection. -/
def stream (o : StreamOp) : Connection o.Resp :=
  Prog.own RequestKey BoardSig (H := StreamSig) o

/-- The program of a request, or a part of it. -/
def request {α : Type} (key : RequestKey) (p : Prog BoardSig α) :
    Connection α :=
  Prog.embed key p

/-- The board that a request is one of; `list_boards` looks at all of them. -/
def ClientRequest.board? : ClientRequest → Option String
  | .rpc .listBoards => none
  | req => some req.boardId

/-- Write to the client and ignore errors. -/
def sendAll (bytes : Text) : Connection Unit := do
  let _ ← stream (.send bytes)
  return ()

/-- The notice for input that comes while an operation holds the lease. -/
def leaseHeldNotice : Text :=
  utf8 ("\r\n\x1b[33m[rpictl: lease held by MCP operation, input ignored]" ++
    "\x1b[0m\r\n")

/-- The notice for input that could not be written. -/
def writeFailedNotice : Text :=
  utf8 ("\r\n\x1b[31m[rpictl: failed to write to serial console]" ++
    "\x1b[0m\r\n")

section ServeClient

variable (registry : BoardRegistry) (serde : Serde)

/-- `forward_console_input`: the notices are sent where the code sends them. -/
def forwardInput (k : Nat) (boardId : String) (bytes : List UInt8) :
    Connection Unit :=
  match registry.board boardId with
  | .error _ => return ()
  | .ok profile => do
      let key : RequestKey := ⟨some boardId, k⟩
      let uuid ← request key (ask .newUuid)
      let owner : LeaseOwner :=
        ⟨"console-" ++ uuid, "interactive_console_write"⟩
      match ← request key (ask (.acquireLease owner 0)) with
      | some _ => sendAll leaseHeldNotice
      | none =>
          match ← request key (writeConsole profile bytes).run with
          | .error _ =>
              -- The guard of the lease is dropped after the notice.
              sendAll writeFailedNotice
              request key (ask (.releaseLease owner))
          | .ok () => request key (ask (.releaseLease owner))

/-- The response to a console command, in the pieces of `write!`. -/
def sendResponse (response : Text) : Connection Unit := do
  if ← stream (.send [0, 0x52]) then
    if ← stream (.send response) then sendAll [0] else return ()
  else
    return ()

/-- The variables of the `CONSOLE` loop, and how many requests it has made. -/
structure SessionVars where
  commandBuf : Option (List UInt8)
  requests : Nat
deriving DecidableEq, Repr

/-- The end of a command. -/
def completeCommand (boardId : String) (command : List UInt8) (k : Nat) :
    Connection SessionVars :=
  match stringFromUtf8 command with
  | none => do
      sendResponse (utf8 "Invalid console command encoding")
      return ⟨none, k⟩
  | some command => do
      let cmd := String.ofList (trim command.toList)
      if cmd = "__rpictl_on" then
        stream (.storeMode true)
        return ⟨none, k⟩
      else if cmd = "__rpictl_off" then
        stream (.storeMode false)
        return ⟨none, k⟩
      else
        let response ← request ⟨some boardId, k⟩
          (handleConsoleCommand registry boardId cmd)
        sendResponse response
        return ⟨none, k + 1⟩

/-- One byte of the `CONSOLE` loop. -/
def sessionByte (boardId : String) (s : SessionVars) (byte : UInt8) :
    Connection SessionVars :=
  match s.commandBuf with
  | some command =>
      if byte = 0x0A ∨ byte = 0x0D then
        completeCommand registry boardId command s.requests
      else return { s with commandBuf := some (command ++ [byte]) }
  | none =>
      if byte = 0 then return { s with commandBuf := some [] }
      else do
        forwardInput registry s.requests boardId [byte]
        return { s with requests := s.requests + 1 }

/-- The bytes of one read. -/
def sessionBytes (boardId : String) (s : SessionVars) :
    List UInt8 → Connection SessionVars
  | [] => return s
  | byte :: bytes => do
      let s' ← sessionByte registry boardId s byte
      sessionBytes boardId s' bytes

/-- One turn of the `CONSOLE` loop. -/
def sessionTurn (boardId : String) (s : SessionVars) :
    Connection (SessionVars ⊕ Unit) := do
  if ← stream .loadRunning then
    match ← stream .read with
    | .eof => return .inr ()
    | .failed => return .inr ()
    | .interrupted => return .inl s
    | .data bytes =>
        let s' ← sessionBytes registry boardId s bytes
        return .inl s'
  else
    return .inr ()

/-- The error for a console that is in use. -/
def consoleBusy (boardId : String) : Error :=
  Error.new .boardBusy "console" (utf8
    s!"board {debugStr boardId} already has an interactive console")

/-- The interactive part of `serve_client`. -/
def consoleSession (boardId : String) : Connection Unit := do
  if ← stream (.claimConsole boardId) then
    if ← stream .cloneStream then
      stream .spawnForwarder
      Prog.iterate (sessionTurn registry boardId) ⟨none, 0⟩
      stream (.storeRunning false)
      stream .dropClaim
    else
      stream .dropClaim
  else
    sendAll (utf8 "err " ++ (consoleBusy boardId).display ++ utf8 "\n")

/-- The `MONITOR` loop. -/
def monitorLoop : Connection Unit :=
  Prog.iterate (fun () => do
    match ← stream .receive with
    | none => return .inr ()
    | some bytes =>
        if ← stream (.send bytes) then return .inl () else return .inr ()) ()

/-- What `serve_client` does with a subscription. -/
def withSubscription (boardId : String) (next : Connection Unit) :
    Connection Unit :=
  match registry.board boardId with
  | .error _ =>
      sendAll (utf8 s!"err board not found or serial error: {boardId}\n")
  | .ok _ => do
      stream .subscribeSerial
      next

/-- The request of an `RPC` line, and its response. -/
def serveRpcLine (json : List Char) : Connection Unit :=
  match serde.request.decode json with
  | .error err =>
      sendAll (utf8 (String.ofList (responseLine serde
        ⟨false, none, some (utf8 s!"invalid RPC request JSON: {err}")⟩)))
  | .ok req => do
      let result ← request ⟨(ClientRequest.rpc req).board?, 0⟩
        (handleRpc registry req).run
      sendAll (utf8 (String.ofList (responseLine serde
        (RpcResponse.of (encodeResult serde result)))))

/-- `serve_client`. -/
def serveClient : Connection Unit := do
  if ← stream .cloneStream then
    match ← stream .readLine with
    | none => return ()
    | some line =>
        match parseHandshake line with
        | .ping => sendAll (utf8 "PONG\n")
        | .shutdown =>
            sendAll (utf8 "ok shutting down\n")
            stream .exitProcess
        | .rpc json => serveRpcLine registry serde json
        | .power rest =>
            let rest := String.ofList rest
            let response ← request ⟨(ClientRequest.power rest).board?, 0⟩
              (powerLine registry rest)
            sendAll response
        | .console id =>
            withSubscription registry (String.ofList id)
              (consoleSession registry (String.ofList id))
        | .monitor id =>
            withSubscription registry (String.ofList id) monitorLoop
  else
    return ()

/-- The forwarder of a console session. -/
def forwarder : Connection Unit := do
  Prog.iterate (fun () => do
    if ← stream .loadRunning then
      match ← stream .receiveTimeout with
      | .timeout => return .inl ()
      | .disconnected => return .inr ()
      | .chunk bytes =>
          if ← stream .loadMode then return .inl ()
          else if ← stream (.send bytes) then return .inl ()
          else return .inr ()
    else
      return .inr ()) ()
  stream (.storeRunning false)

/-! ## The clients -/

/-- What a client sends: its first line, unless it is unreadable, and the bytes
after it. -/
structure Client where
  line : Option (List Char)
  typed : List UInt8

/-- The board whose console a client asks for. -/
def Client.console? (client : Client) : Option String :=
  match client.line.map parseHandshake with
  | some (.console id) => some (String.ofList id)
  | _ => none

/-- The requests that the bytes of a console session ask for. -/
def sessionRequests (boardId : String) (typed : List UInt8) :
    List ClientRequest :=
  (Session.initial.run typed).2.filterMap (Served.request? boardId)

/-- The requests that a client makes. -/
def Client.requests (client : Client) : List ClientRequest :=
  match client.line.map parseHandshake with
  | some (.rpc json) =>
      match serde.request.decode json with
      | .error _ => []
      | .ok req => [.rpc req]
  | some (.power rest) => [.power (String.ofList rest)]
  | some (.console id) => sessionRequests (String.ofList id) client.typed
  | _ => []

variable {κ : Type}

/-- The requests of all clients, each with its number. -/
def requestsOf (clients : κ → Client) (i : κ × Nat) : ClientRequest :=
  ((clients i.1).requests serde)[i.2]?.getD (.rpc .listBoards)

/-- The threads of a connection. -/
inductive ConnectionRole where
  | main
  | forwarder
  | worker
deriving DecidableEq, Repr

/-- The thread of a connection in one role. -/
abbrev ConnectionThread (κ : Type) : Type := κ × ConnectionRole

/-- The program of a thread. -/
def connectionThread (clients : κ → Client) :
    ConnectionThread κ → Connection Unit
  | (_, .main) => serveClient registry serde
  | (_, .forwarder) => forwarder
  | (i, .worker) =>
      let req := requestsOf serde clients (i, 0)
      request ⟨req.board?, 0⟩ (workerOf registry req)

end ServeClient

/-! ## The daemon -/

/-- The state that the connections share. -/
structure Daemon (κ : Type) where
  boards : String → World (κ × Nat)
  unread : κ → List UInt8
  sent : κ → Text
  consoleActive : String → Bool
  claim : κ → Option String
  running : κ → Bool
  rpictlMode : κ → Bool
  forwarding : κ → Bool

section Daemon

variable {κ : Type}

/-- A daemon that has not been asked anything yet. -/
def Daemon.initial (consoles : String → Console) (clients : κ → Client) :
    Daemon κ where
  boards boardId := .initial (consoles boardId)
  unread i := (clients i).typed
  sent _ := []
  consoleActive _ := false
  claim _ := none
  running _ := true
  rpictlMode _ := false
  forwarding _ := false

variable [DecidableEq κ]

/-- What an action of a connection does. -/
def StreamOp.OnDaemon (clients : κ → Client) (i : κ) (o : StreamOp)
    (w : Daemon κ) (r : o.Resp) (w' : Daemon κ) : Prop :=
  match o, r with
  | .readLine, line => line = (clients i).line ∧ w' = w
  | .read, .data bytes => bytes ≠ [] ∧ bytes.length ≤ 1024 ∧
      ∃ rest, w.unread i = bytes ++ rest ∧
        w' = { w with unread := Function.update w.unread i rest }
  | .read, .eof => w.unread i = [] ∧ w' = w
  | .send bytes, written => ∃ part, part <+: bytes ∧
      (written = true → part = bytes) ∧
      w' = { w with sent := Function.update w.sent i (w.sent i ++ part) }
  | .claimConsole boardId, claimed =>
      if w.consoleActive boardId then claimed = false ∧ w' = w
      else claimed = true ∧
        w' = { w with
          consoleActive := Function.update w.consoleActive boardId true
          claim := Function.update w.claim i (some boardId) }
  | .dropClaim, _ =>
      match w.claim i with
      | none => w' = w
      | some boardId => w' = { w with
          consoleActive := Function.update w.consoleActive boardId false
          claim := Function.update w.claim i none }
  | .spawnForwarder, _ =>
      w' = { w with forwarding := Function.update w.forwarding i true }
  | .loadRunning, running => running = w.running i ∧ w' = w
  | .storeRunning running, _ =>
      w' = { w with running := Function.update w.running i running }
  | .loadMode, rpictlMode => rpictlMode = w.rpictlMode i ∧ w' = w
  | .storeMode rpictlMode, _ =>
      w' = { w with rpictlMode := Function.update w.rpictlMode i rpictlMode }
  | _, _ => w' = w

/-- The role in which a thread of a connection acts on the board. -/
def ConnectionRole.onBoard : ConnectionRole → Option Role
  | .main => some .main
  | .forwarder => none
  | .worker => some .worker

/-- The reader of a connection and its claim belong to the main thread. -/
def StreamOp.isMain : StreamOp → Bool
  | .readLine => true
  | .read => true
  | .claimConsole _ => true
  | .dropClaim => true
  | .spawnForwarder => true
  | _ => false

/-- The forwarder acts once it has been spawned, the power worker does not act
on the stream. -/
def StreamOp.isAllowed (o : StreamOp) (forwarding : Bool) :
    ConnectionRole → Bool
  | .main => true
  | .forwarder => forwarding && !o.isMain
  | .worker => false

/-- One action of a request on its board.  A request of no board does no more
than to look at one of them. -/
def RequestKey.OnBoards (key : RequestKey) (t : Thread (κ × Nat)) (o : BoardOp)
    (boards : String → World (κ × Nat)) (r : o.Resp)
    (boards' : String → World (κ × Nat)) : Prop :=
  match key.board? with
  | some boardId => ∃ board, boardSem t o (boards boardId) r board ∧
      boards' = Function.update boards boardId board
  | none => ∃ boardId, boardSem t o (boards boardId) r (boards boardId) ∧
      boards' = boards

/-- One action of a thread of a connection. -/
def daemonSem (clients : κ → Client) (t : ConnectionThread κ)
    (o : ConnectionSig.Op) (w : Daemon κ) (r : ConnectionSig.Resp o)
    (w' : Daemon κ) : Prop :=
  match o, r with
  | .inl (key, o), r => ∃ role, t.2.onBoard = some role ∧
      key.OnBoards ((t.1, key.number), role) o w.boards r w'.boards ∧
      w' = { w with boards := w'.boards }
  | .inr o, r => o.isAllowed (w.forwarding t.1) t.2 = true ∧
      StreamOp.OnDaemon clients t.1 o w r w'

/-- What happens without a connection. -/
def DaemonEnv (w w' : Daemon κ) : Prop :=
  ∃ boardId board, BoardEnv (w.boards boardId) board ∧
    w' = { w with boards := Function.update w.boards boardId board }

/-- The daemon before the first client has connected. -/
def startDaemon (registry : BoardRegistry) (serde : Serde)
    (consoles : String → Console) (clients : κ → Client) :
    Pool ConnectionSig (fun _ : ConnectionThread κ => Unit) (Daemon κ) :=
  ⟨connectionThread registry serde clients, .initial consoles clients⟩

/-- The runs of a daemon. -/
abbrev DaemonReaches (clients : κ → Client) :
    Pool ConnectionSig (fun _ : ConnectionThread κ => Unit) (Daemon κ) →
    Pool ConnectionSig (fun _ : ConnectionThread κ => Unit) (Daemon κ) →
    Prop :=
  Pool.Reaches (daemonSem clients) DaemonEnv

end Daemon

end RpictlMcp
