import RpictlMcp.Requests

/-!
# rpictl-mcp: the daemon and its clients

This module embeds `client.rs`, the remote procedure calls of `console.rs` and
the tools of `mcp.rs`.  A server runs its tools on a registry of its own or sends
them to a daemon; a call to the daemon is encoded as one line of JSON, dispatched
by `handle_rpc`, and its response is decoded again.

The registry methods are a parameter, so that a tool can be compared for
every outcome that a method may have; `registryMethods` are those of the faithful
model.  The JSON library is a parameter too.
-/

namespace RpictlMcp

universe u

/-- `RpcResponse`. -/
structure RpcResponse (Value : Type) where
  ok : Bool
  result : Option Value
  error : Option Text
deriving DecidableEq, Repr

/-- How values of a type are encoded, and decoded again. -/
structure Codec (α β : Type) where
  encode : α → Except String β
  decode : β → Except String α

/-- What the service uses of the JSON library. -/
structure Serde where
  Value : Type
  null : Value
  request : Codec RpcRequest (List Char)
  response : Codec (RpcResponse Value) (List Char)
  boards : Codec (List BoardSummary) Value
  boardState : Codec BoardStateResult Value
  powerState : Codec PowerStateResult Value
  capture : Codec SerialCaptureResult Value
  operation : Codec OperationResult Value

/-- The methods of a registry that the tools and the remote calls reach. -/
structure BoardMethods (m : Type → Type u) where
  listBoardSummaries : m (List BoardSummary)
  boardState : BoardStateRequest → m (Result BoardStateResult)
  boardPowerState : BoardRequest → m (Result PowerStateResult)
  captureBoardSerial : CaptureSerialRequest → m (Result SerialCaptureResult)
  powerOnBoard : PowerOnRequest → m (Result OperationResult)
  powerOnUbootBoard : PowerOnUbootRequest → m (Result OperationResult)
  powerOnLinuxBoard : PowerOnLinuxRequest → m (Result OperationResult)
  powerOffBoard : PowerOffRequest → m (Result OperationResult)
  powerCycleBoard : PowerCycleRequest → m (Result OperationResult)
  waitForBoardState : WaitStateRequest → m (Result BoardStateResult)
  enterBoardUboot : EnterUbootRequest → m (Result OperationResult)
  runBoardUbootCommand : CommandRequest → m (Result OperationResult)
  bootBoardLinux : BootLinuxRequest → m (Result OperationResult)
  linuxBoardLogin : LinuxLoginRequest → m (Result OperationResult)
  runBoardLinuxCommand : CommandRequest → m (Result OperationResult)
  rebootBoardLinux : RebootLinuxRequest → m (Result OperationResult)

section Daemon

variable {m : Type → Type u} [Monad m]
variable (serde : Serde) (methods : BoardMethods m)

/-- The result of a method as a JSON value, or the text of its error. -/
def rpcValue {α β : Type} (codec : Codec α β) (result : Result α) :
    Except Text β :=
  match result with
  | .error e => .error e.display
  | .ok v =>
      match codec.encode v with
      | .ok value => .ok value
      | .error e =>
          .error (Error.new .invalidConfiguration "rpc" (utf8 e)).display

/-- The dispatcher of `handle_rpc`. -/
def dispatchRpc : RpcRequest → m (Except Text serde.Value)
  | .listBoards =>
      (fun summaries => (serde.boards.encode summaries).mapError utf8) <$>
        methods.listBoardSummaries
  | .getBoardState r => rpcValue serde.boardState <$> methods.boardState r
  | .getPowerState r => rpcValue serde.powerState <$> methods.boardPowerState r
  | .captureSerial r => rpcValue serde.capture <$> methods.captureBoardSerial r
  | .powerOn r => rpcValue serde.operation <$> methods.powerOnBoard r
  | .powerOnUboot r => rpcValue serde.operation <$> methods.powerOnUbootBoard r
  | .powerOnLinux r => rpcValue serde.operation <$> methods.powerOnLinuxBoard r
  | .powerOff r => rpcValue serde.operation <$> methods.powerOffBoard r
  | .powerCycle r => rpcValue serde.operation <$> methods.powerCycleBoard r
  | .waitForState r => rpcValue serde.boardState <$> methods.waitForBoardState r
  | .enterUboot r => rpcValue serde.operation <$> methods.enterBoardUboot r
  | .runUbootCommand r =>
      rpcValue serde.operation <$> methods.runBoardUbootCommand r
  | .bootLinux r => rpcValue serde.operation <$> methods.bootBoardLinux r
  | .linuxLogin r => rpcValue serde.operation <$> methods.linuxBoardLogin r
  | .runLinuxCommand r =>
      rpcValue serde.operation <$> methods.runBoardLinuxCommand r
  | .rebootLinux r => rpcValue serde.operation <$> methods.rebootBoardLinux r

/-- The response that reports a result. -/
def RpcResponse.of {Value : Type} (result : Except Text Value) :
    RpcResponse Value :=
  match result with
  | .ok value => ⟨true, some value, none⟩
  | .error err => ⟨false, none, some err⟩

/-- `handle_rpc`. -/
def handleRpcJson (json : List Char) : m (RpcResponse serde.Value) :=
  match serde.request.decode json with
  | .error err =>
      pure ⟨false, none, some (utf8 s!"invalid RPC request JSON: {err}")⟩
  | .ok req => RpcResponse.of <$> dispatchRpc serde methods req

/-- The line that carries a response. -/
def responseLine (response : RpcResponse serde.Value) : List Char :=
  let line :=
    match serde.response.encode response with
    | .ok json => json
    | .error err =>
        ("\x7b\"ok\":false,\"error\":" ++ debugStr err ++ "\x7d").toList
  line ++ ['\n']

/-- `BufRead::read_line`. -/
def readLine : List Char → List Char
  | [] => []
  | c :: stream => if c = '\n' then [c] else c :: readLine stream

/-- `str::strip_prefix`. -/
def stripPrefix (front s : List Char) : Option (List Char) :=
  if front.isPrefixOf s then some (s.drop front.length) else none

/-- What the first line of a client asks for. -/
inductive Handshake where
  | ping
  | shutdown
  | rpc (json : List Char)
  | power (rest : List Char)
  | console (boardId : List Char)
  | monitor (boardId : List Char)
deriving DecidableEq, Repr

/-- The first line of a client, as `serve_client` reads it. -/
def parseHandshake (line : List Char) : Handshake :=
  let handshake := trim line
  if handshake = "PING".toList then .ping
  else if handshake = "SHUTDOWN".toList then .shutdown
  else
    match stripPrefix "RPC ".toList handshake with
    | some json => .rpc json
    | none =>
        match stripPrefix "POWER ".toList handshake with
        | some rest => .power rest
        | none =>
            match stripPrefix "CONSOLE ".toList handshake with
            | some id => .console (trim id)
            | none =>
                match stripPrefix "MONITOR ".toList handshake with
                | some id => .monitor (trim id)
                | none => .monitor handshake

/-- What `serve_client` answers to a remote call. -/
def serveRpc (stream : List Char) : m (Option (List Char)) :=
  match parseHandshake (readLine stream) with
  | .rpc json =>
      (fun response => some (responseLine serde response)) <$>
        handleRpcJson serde methods json
  | _ => pure none

end Daemon

section Client

variable {m : Type → Type u} [Monad m]

/-- A client of the daemon: what comes back on a connection for a message. -/
structure SocketClient (m : Type → Type u) where
  serde : Serde
  exchange : List Char → m (List Char)

/-- An error of the client itself. -/
def ipcError (code : ErrorCode) (message : String) : Error :=
  Error.new code "ipc_client" (utf8 message)

/-- What the client makes of the line it has read. -/
def receiveResponse (serde : Serde) (line : List Char) : Result serde.Value :=
  match serde.response.decode (trim line) with
  | .error err =>
      .error (ipcError .serialDisconnected
        (s!"invalid JSON RPC response from daemon: {err}: " ++
          debugStr (String.ofList line)))
  | .ok response =>
      if response.ok then .ok (response.result.getD serde.null)
      else
        .error (Error.new .commandDenied "daemon"
          (response.error.getD (utf8 "unknown daemon error")))

/-- `SocketClient::call`. -/
def SocketClient.call (client : SocketClient m) (request : RpcRequest) :
    m (Result client.serde.Value) :=
  match client.serde.request.encode request with
  | .error err =>
      pure (.error (ipcError .invalidConfiguration
        s!"failed to serialize request: {err}"))
  | .ok reqJson =>
      (fun stream => receiveResponse client.serde (readLine stream)) <$>
        client.exchange ("RPC ".toList ++ reqJson ++ ['\n'])

/-- The value of a call, decoded as what the method returns. -/
def decodeResult {α β : Type} (codec : Codec α β) (name : String)
    (result : Result β) : Result α :=
  match result with
  | .error e => .error e
  | .ok val =>
      match codec.decode val with
      | .ok v => .ok v
      | .error err =>
          .error (ipcError .invalidConfiguration
            s!"failed to deserialize {name}: {err}")

variable (client : SocketClient m)

namespace SocketClient

def listBoards : m (Result (List BoardSummary)) :=
  decodeResult client.serde.boards "list_boards" <$> client.call .listBoards

def getBoardState (req : BoardStateRequest) : m (Result BoardStateResult) :=
  decodeResult client.serde.boardState "get_board_state" <$>
    client.call (.getBoardState req)

def getPowerState (req : BoardRequest) : m (Result PowerStateResult) :=
  decodeResult client.serde.powerState "get_power_state" <$>
    client.call (.getPowerState req)

def captureSerial (req : CaptureSerialRequest) :
    m (Result SerialCaptureResult) :=
  decodeResult client.serde.capture "capture_serial" <$>
    client.call (.captureSerial req)

def powerOn (req : PowerOnRequest) : m (Result OperationResult) :=
  decodeResult client.serde.operation "power_on" <$> client.call (.powerOn req)

def powerOnUboot (req : PowerOnUbootRequest) : m (Result OperationResult) :=
  decodeResult client.serde.operation "power_on_uboot" <$>
    client.call (.powerOnUboot req)

def powerOnLinux (req : PowerOnLinuxRequest) : m (Result OperationResult) :=
  decodeResult client.serde.operation "power_on_linux" <$>
    client.call (.powerOnLinux req)

def powerOff (req : PowerOffRequest) : m (Result OperationResult) :=
  decodeResult client.serde.operation "power_off" <$>
    client.call (.powerOff req)

def powerCycle (req : PowerCycleRequest) : m (Result OperationResult) :=
  decodeResult client.serde.operation "power_cycle" <$>
    client.call (.powerCycle req)

def waitForState (req : WaitStateRequest) : m (Result BoardStateResult) :=
  decodeResult client.serde.boardState "wait_for_state" <$>
    client.call (.waitForState req)

def enterUboot (req : EnterUbootRequest) : m (Result OperationResult) :=
  decodeResult client.serde.operation "enter_uboot" <$>
    client.call (.enterUboot req)

def runUbootCommand (req : CommandRequest) : m (Result OperationResult) :=
  decodeResult client.serde.operation "run_uboot_command" <$>
    client.call (.runUbootCommand req)

def bootLinux (req : BootLinuxRequest) : m (Result OperationResult) :=
  decodeResult client.serde.operation "boot_linux" <$>
    client.call (.bootLinux req)

def linuxLogin (req : LinuxLoginRequest) : m (Result OperationResult) :=
  decodeResult client.serde.operation "linux_login" <$>
    client.call (.linuxLogin req)

def runLinuxCommand (req : CommandRequest) : m (Result OperationResult) :=
  decodeResult client.serde.operation "run_linux_command" <$>
    client.call (.runLinuxCommand req)

def rebootLinux (req : RebootLinuxRequest) : m (Result OperationResult) :=
  decodeResult client.serde.operation "reboot_linux" <$>
    client.call (.rebootLinux req)

end SocketClient

/-- The client of a daemon that serves a registry. -/
def daemonClient (serde : Serde) (methods : BoardMethods m) :
    SocketClient m where
  serde := serde
  exchange stream :=
    (fun answer => answer.getD []) <$> serveRpc serde methods stream

end Client

section Server

variable {m : Type → Type u} [Monad m]

/-- `ServerBackend`. -/
inductive ServerBackend (m : Type → Type u) where
  | local (registry : BoardMethods m)
  | remote (client : SocketClient m)

/-- The tools, with their parameters. -/
inductive ToolRequest where
  | listBoards
  | getBoardState (request : BoardStateRequest)
  | getPowerState (request : BoardRequest)
  | captureSerial (request : CaptureSerialRequest)
  | powerOn (request : PowerOnRequest)
  | powerOnUboot (request : PowerOnUbootRequest)
  | powerOnLinux (request : PowerOnLinuxRequest)
  | powerOff (request : PowerOffRequest)
  | powerCycle (request : PowerCycleRequest)
  | waitForState (request : WaitStateRequest)
  | enterUboot (request : EnterUbootRequest)
  | runUbootCommand (request : CommandRequest)
  | bootLinux (request : BootLinuxRequest)
  | linuxLogin (request : LinuxLoginRequest)
  | runLinuxCommand (request : CommandRequest)
  | rebootLinux (request : RebootLinuxRequest)
deriving DecidableEq, Repr

/-- `BoardsListResult`. -/
structure BoardsListResult where
  boards : List BoardSummary
deriving DecidableEq, Repr

/-- What the tools return. -/
inductive ToolResult where
  | boards (summaries : List BoardSummary)
  | boardsList (result : BoardsListResult)
  | boardState (result : BoardStateResult)
  | powerState (result : PowerStateResult)
  | capture (result : SerialCaptureResult)
  | operation (result : OperationResult)
deriving DecidableEq, Repr

/-- `RpictlServer`: its backend, and whether it lists boards as an object. -/
structure RpictlServer (m : Type → Type u) where
  backend : ServerBackend m
  gemini : Bool

/-- The list of boards in the form of the server. -/
def RpictlServer.boardsResult (server : RpictlServer m)
    (summaries : List BoardSummary) : ToolResult :=
  if server.gemini then .boardsList ⟨summaries⟩ else .boards summaries

/-- A tool, up to the text of its error. -/
def RpictlServer.call (server : RpictlServer m) :
    ToolRequest → m (Result ToolResult)
  | .listBoards =>
      match server.backend with
      | .local registry =>
          (fun summaries => .ok (server.boardsResult summaries)) <$>
            registry.listBoardSummaries
      | .remote client =>
          Except.map server.boardsResult <$> client.listBoards
  | .getBoardState request =>
      Except.map .boardState <$> match server.backend with
      | .local registry => registry.boardState request
      | .remote client => client.getBoardState request
  | .getPowerState request =>
      Except.map .powerState <$> match server.backend with
      | .local registry => registry.boardPowerState request
      | .remote client => client.getPowerState request
  | .captureSerial request =>
      Except.map .capture <$> match server.backend with
      | .local registry => registry.captureBoardSerial request
      | .remote client => client.captureSerial request
  | .powerOn request =>
      Except.map .operation <$> match server.backend with
      | .local registry => registry.powerOnBoard request
      | .remote client => client.powerOn request
  | .powerOnUboot request =>
      Except.map .operation <$> match server.backend with
      | .local registry => registry.powerOnUbootBoard request
      | .remote client => client.powerOnUboot request
  | .powerOnLinux request =>
      Except.map .operation <$> match server.backend with
      | .local registry => registry.powerOnLinuxBoard request
      | .remote client => client.powerOnLinux request
  | .powerOff request =>
      Except.map .operation <$> match server.backend with
      | .local registry => registry.powerOffBoard request
      | .remote client => client.powerOff request
  | .powerCycle request =>
      Except.map .operation <$> match server.backend with
      | .local registry => registry.powerCycleBoard request
      | .remote client => client.powerCycle request
  | .waitForState request =>
      Except.map .boardState <$> match server.backend with
      | .local registry => registry.waitForBoardState request
      | .remote client => client.waitForState request
  | .enterUboot request =>
      Except.map .operation <$> match server.backend with
      | .local registry => registry.enterBoardUboot request
      | .remote client => client.enterUboot request
  | .runUbootCommand request =>
      Except.map .operation <$> match server.backend with
      | .local registry => registry.runBoardUbootCommand request
      | .remote client => client.runUbootCommand request
  | .bootLinux request =>
      Except.map .operation <$> match server.backend with
      | .local registry => registry.bootBoardLinux request
      | .remote client => client.bootLinux request
  | .linuxLogin request =>
      Except.map .operation <$> match server.backend with
      | .local registry => registry.linuxBoardLogin request
      | .remote client => client.linuxLogin request
  | .runLinuxCommand request =>
      Except.map .operation <$> match server.backend with
      | .local registry => registry.runBoardLinuxCommand request
      | .remote client => client.runLinuxCommand request
  | .rebootLinux request =>
      Except.map .operation <$> match server.backend with
      | .local registry => registry.rebootBoardLinux request
      | .remote client => client.rebootLinux request

/-- A tool: errors are returned as text. -/
def RpictlServer.tool (server : RpictlServer m) (request : ToolRequest) :
    m (Except Text ToolResult) :=
  Except.mapError Error.display <$> server.call request

end Server

section Registry

variable (serde : Serde) (registry : BoardRegistry)

/-- `list_board_summaries`, which cannot fail. -/
def boardSummaries : Prog BoardSig (List BoardSummary) :=
  registry.list.mapM fun profile => do
    let owner ← ask .leaseOwner
    return boardSummary profile owner

theorem listBoardSummaries_eq :
    listBoardSummaries registry = ExceptT.lift (boardSummaries registry) := by
  unfold listBoardSummaries boardSummaries
  induction registry.list with
  | nil => rfl
  | cons profile profiles ih =>
      rw [List.mapM_cons, List.mapM_cons, ih]
      apply ExceptT.ext
      simp [act, Except.map]

/-- The methods of a registry. -/
def registryMethods : BoardMethods (Prog BoardSig) where
  listBoardSummaries := boardSummaries registry
  boardState req := (boardState registry req).run
  boardPowerState req := (boardPowerState registry req).run
  captureBoardSerial req := (captureBoardSerial registry req).run
  powerOnBoard req := (powerOnBoard registry req).run
  powerOnUbootBoard req := (powerOnUbootBoard registry req).run
  powerOnLinuxBoard req := (powerOnLinuxBoard registry req).run
  powerOffBoard req := (powerOffBoard registry req).run
  powerCycleBoard req := (powerCycleBoard registry req).run
  waitForBoardState req := (waitForBoardState registry req).run
  enterBoardUboot req := (enterBoardUboot registry req).run
  runBoardUbootCommand req := (runBoardUbootCommand registry req).run
  bootBoardLinux req := (bootBoardLinux registry req).run
  linuxBoardLogin req := (linuxBoardLogin registry req).run
  runBoardLinuxCommand req := (runBoardLinuxCommand registry req).run
  rebootBoardLinux req := (rebootBoardLinux registry req).run

/-- A result of the dispatcher as a JSON value, or the text of its error. -/
def encodeResult : Result RpcResult → Except Text serde.Value
  | .error e => .error e.display
  | .ok (.boards summaries) => (serde.boards.encode summaries).mapError utf8
  | .ok (.boardState result) => rpcValue serde.boardState (.ok result)
  | .ok (.powerState result) => rpcValue serde.powerState (.ok result)
  | .ok (.capture result) => rpcValue serde.capture (.ok result)
  | .ok (.operation result) => rpcValue serde.operation (.ok result)

theorem map_run_map {α : Type} (f : α → RpcResult) {codec : Codec α serde.Value}
    (hf : ∀ v, encodeResult serde (.ok (f v)) = rpcValue codec (.ok v))
    (method : Action α) :
    rpcValue codec <$> method.run =
      encodeResult serde <$> (f <$> method : Action RpcResult).run := by
  rw [ExceptT.run_map, ← comp_map]
  refine congrArg (· <$> method.run) (funext fun result => ?_)
  cases result with
  | error e => rfl
  | ok v => exact (hf v).symm

/-- The remote calls of a daemon are those of its registry. -/
theorem dispatchRpc_registry (req : RpcRequest) :
    dispatchRpc serde (registryMethods registry) req =
      encodeResult serde <$> (handleRpc registry req).run := by
  cases req with
  | listBoards =>
      change (fun summaries => (serde.boards.encode summaries).mapError utf8) <$>
        boardSummaries registry = encodeResult serde <$>
          (RpcResult.boards <$> listBoardSummaries registry :
            Action RpcResult).run
      rw [listBoardSummaries_eq]
      simp [encodeResult, Except.map]
  | getBoardState req => exact map_run_map serde _ (fun _ => rfl) _
  | getPowerState req => exact map_run_map serde _ (fun _ => rfl) _
  | captureSerial req => exact map_run_map serde _ (fun _ => rfl) _
  | powerOn req => exact map_run_map serde _ (fun _ => rfl) _
  | powerOnUboot req => exact map_run_map serde _ (fun _ => rfl) _
  | powerOnLinux req => exact map_run_map serde _ (fun _ => rfl) _
  | powerOff req => exact map_run_map serde _ (fun _ => rfl) _
  | powerCycle req => exact map_run_map serde _ (fun _ => rfl) _
  | waitForState req => exact map_run_map serde _ (fun _ => rfl) _
  | enterUboot req => exact map_run_map serde _ (fun _ => rfl) _
  | runUbootCommand req => exact map_run_map serde _ (fun _ => rfl) _
  | bootLinux req => exact map_run_map serde _ (fun _ => rfl) _
  | linuxLogin req => exact map_run_map serde _ (fun _ => rfl) _
  | runLinuxCommand req => exact map_run_map serde _ (fun _ => rfl) _
  | rebootLinux req => exact map_run_map serde _ (fun _ => rfl) _

end Registry

end RpictlMcp
