import RpictlMcp.Operations

/-!
# rpictl-mcp: the requests of the clients

This module embeds the entry points: the board methods of `operations.rs` that
the remote procedure calls reach, the dispatcher `handle_rpc`, the `POWER` commands
of the socket, and the two things an interactive console session does for its
client, forwarding input to the serial port and executing commands.

Of the requests it keeps the fields the service reads.  The results of the
methods are kept as data; their encoding as JSON cannot fail and is left out.  A
console session is represented by its two kinds of steps, each of which is a
request of its own.
-/

namespace RpictlMcp

/-- One line of `list_boards`. -/
structure BoardSummary where
  boardId : String
  displayName : Option String
  serialDevice : String
  powerBackend : String
  available : Bool
  leaseOwnerOperationId : Option String
deriving DecidableEq, Repr

structure BoardRequest where
  boardId : String
deriving DecidableEq, Repr

structure BoardStateRequest where
  boardId : String
  observeDurationMs : Option Nat
  activeProbe : Option Bool
deriving DecidableEq, Repr

structure BoardStateResult where
  boardId : String
  state : String
  confidence : Nat
  timestampMs : Nat
  consoleGeneration : Nat
  evidence : Text
  activeProbe : Bool
deriving DecidableEq, Repr

structure PowerStateResult where
  boardId : String
  state : String
  backend : String
  configuredIdentity : String
  identityVerified : Bool
  detail : Text
deriving DecidableEq, Repr

structure CaptureSerialRequest where
  boardId : String
  maxBytes : Option Nat
  cursor : Option Nat
deriving DecidableEq, Repr

structure SerialCaptureResult where
  boardId : String
  text : Text
  startCursor : Nat
  nextCursor : Nat
  consoleGeneration : Nat
  truncated : Bool
  invalidUtf8 : Bool
deriving DecidableEq, Repr

structure PowerOnRequest where
  boardId : String
  waitFor : Option String
deriving DecidableEq, Repr

structure PowerOnUbootRequest where
  boardId : String
  timeoutMs : Option Nat
deriving DecidableEq, Repr

structure PowerOnLinuxRequest where
  boardId : String
  login : Option Bool
  timeoutMs : Option Nat
deriving DecidableEq, Repr

structure PowerOffRequest where
  boardId : String
  mode : String
  reason : String
  confirmation : Bool
deriving DecidableEq, Repr

structure PowerCycleRequest where
  boardId : String
  mode : String
  reason : String
  confirmation : Bool
deriving DecidableEq, Repr

structure WaitStateRequest where
  boardId : String
  states : List String
  timeoutMs : Nat
deriving DecidableEq, Repr

structure EnterUbootRequest where
  boardId : String
  restart : String
deriving DecidableEq, Repr

structure CommandRequest where
  boardId : String
  command : String
  timeoutMs : Nat
deriving DecidableEq, Repr

structure BootLinuxRequest where
  boardId : String
  login : Option Bool
  timeoutMs : Option Nat
deriving DecidableEq, Repr

structure LinuxLoginRequest where
  boardId : String
  account : Option String
  timeoutMs : Option Nat
deriving DecidableEq, Repr

/-- The passive states a reboot may wait for. -/
inductive RebootWaitFor where
  | ubootCountdown
  | linuxBooting
  | linuxLogin
deriving DecidableEq, Repr

/-- `RebootWaitFor::board_state`. -/
def RebootWaitFor.boardState : RebootWaitFor → BoardState
  | .ubootCountdown => .ubootCountdown
  | .linuxBooting => .linuxBooting
  | .linuxLogin => .linuxLogin

structure RebootLinuxRequest where
  boardId : String
  waitFor : Option RebootWaitFor
  timeoutMs : Option Nat
  confirmation : Bool
deriving DecidableEq, Repr

/-- The summary of one board. -/
def boardSummary (profile : BoardProfile) (owner : Option LeaseOwner) :
    BoardSummary :=
  { boardId := profile.boardId
    displayName := profile.displayName
    serialDevice := profile.serial.device
    powerBackend := profile.power.backend
    available := owner.isNone
    leaseOwnerOperationId := owner.map LeaseOwner.operationId }

/-- `list_board_summaries`. -/
def listBoardSummaries (registry : BoardRegistry) :
    Action (List BoardSummary) :=
  registry.list.mapM fun profile => do
    let owner ← act .leaseOwner
    return boardSummary profile owner

/-- The carriage return of an active probe. -/
def probeIf (profile : BoardProfile) (activeProbe : Bool) : Action Unit :=
  if activeProbe then writeConsole profile (utf8 "\r") else return ()

/-- The bytes that `board_state` looks at. -/
def probedBytes (ring : SerialRing) (activeProbe : Bool) (cursor : Nat) :
    List UInt8 :=
  if activeProbe then (ring.snapshotFrom cursor observationBytes).bytes
  else (ring.snapshotGeneration ring.generation observationBytes).bytes

/-- `board_state`. -/
def boardState (registry : BoardRegistry) (req : BoardStateRequest) :
    Action BoardStateResult := do
  let profile ← ofResult (registry.board req.boardId)
  let activeProbe := req.activeProbe.getD false
  let cursor ← nextCursor
  probeIf profile activeProbe
  act (.sleep (min (req.observeDurationMs.getD 500) 5000))
  let ring ← act .lockSerial
  let timestamp ← act .nowMs
  let evidence := profile.patterns.observe
    (probedBytes ring activeProbe cursor) timestamp ring.generation
  return {
    boardId := req.boardId
    state := stateName evidence.state
    confidence := evidence.confidence
    timestampMs := evidence.timestamp
    consoleGeneration := evidence.generation
    evidence := fromUtf8Lossy evidence.evidence
    activeProbe }

/-- `board_power_state`. -/
def boardPowerState (registry : BoardRegistry) (req : BoardRequest) :
    Action PowerStateResult := do
  let profile ← ofResult (registry.board req.boardId)
  let observation ← powerState profile
  return {
    boardId := req.boardId
    state := observation.state
    backend := profile.power.backend
    configuredIdentity := profile.power.identity
    identityVerified := observation.identityVerified
    detail := observation.raw }

/-- `capture_board_serial`. -/
def captureBoardSerial (registry : BoardRegistry)
    (req : CaptureSerialRequest) : Action SerialCaptureResult := do
  let _ ← ofResult (registry.board req.boardId)
  let ring ← act .lockSerial
  let maxBytes := max 1 (min (req.maxBytes.getD 65536) 1048576)
  let startCursor := req.cursor.getD (ring.nextCursor - maxBytes)
  let snapshot := ring.snapshotFrom startCursor maxBytes
  return {
    boardId := req.boardId
    text := fromUtf8Lossy snapshot.bytes
    startCursor
    nextCursor := snapshot.nextCursor
    consoleGeneration := ring.generation
    truncated := snapshot.truncated
    invalidUtf8 := !isUtf8 snapshot.bytes }

/-- One name of a state in a request. -/
def parseState (value : String) : Result BoardState :=
  if value = "uboot" ∨ value = "uboot_prompt" then .ok .ubootPrompt
  else if value = "uboot_countdown" then .ok .ubootCountdown
  else if value = "linux_booting" then .ok .linuxBooting
  else if value = "linux_login" then .ok .linuxLogin
  else if value = "linux_shell" then .ok .linuxShell
  else if value = "shutdown_in_progress" then .ok .shutdownInProgress
  else
    .error (Error.new .invalidConfiguration "parse_states"
      (utf8 s!"unknown state {debugStr value}"))

/-- `parse_states`. -/
def parseStates (values : List String) : Result (List BoardState) :=
  values.mapM parseState

theorem parseStates_singleton (value : String) :
    parseStates [value] = (parseState value).map fun state => [state] := by
  unfold parseStates
  rw [List.mapM_cons]
  cases parseState value <;> rfl

/-- The wait at the end of `power_on_board`. -/
def waitAfterPowerOn (profile : BoardProfile) (waitFor : Option String) :
    Action Unit :=
  match waitFor.filter (· ≠ "none") with
  | none => return ()
  | some wait => do
      let states ← ofResult (parseStates [wait])
      let _ ← waitForStates profile states
        profile.timing.operationTimeoutMs none
      return ()

/-- `power_on_board`. -/
def powerOnBoard (registry : BoardRegistry) (req : PowerOnRequest) :
    Action OperationResult := do
  let result ← powerOn registry req.boardId
  let profile ← ofResult (registry.board req.boardId)
  waitAfterPowerOn profile req.waitFor
  return result

/-- `power_on_uboot_board`. -/
def powerOnUbootBoard (registry : BoardRegistry)
    (req : PowerOnUbootRequest) : Action OperationResult := do
  let profile ← ofResult (registry.board req.boardId)
  powerOnUboot registry req.boardId
    (req.timeoutMs.getD profile.timing.operationTimeoutMs)

/-- `power_on_linux_board`. -/
def powerOnLinuxBoard (registry : BoardRegistry)
    (req : PowerOnLinuxRequest) : Action OperationResult := do
  let profile ← ofResult (registry.board req.boardId)
  powerOnLinux registry req.boardId (req.login.getD false)
    (req.timeoutMs.getD profile.timing.operationTimeoutMs)

/-- The error of a power request with an argument that is not accepted. -/
def invalidArgument (phase message : String) : Error :=
  Error.new .invalidConfiguration phase (utf8 message)

/-- `power_off_board`. -/
def powerOffBoard (registry : BoardRegistry) (req : PowerOffRequest) :
    Action OperationResult :=
  if (trim req.reason.toList).isEmpty then
    throw (invalidArgument "power_off" "reason is required")
  else if req.mode = "graceful" then
    gracefulPowerOff registry req.boardId req.confirmation
  else if req.mode = "force" then
    forcedPowerOff registry req.boardId req.confirmation
  else
    throw (invalidArgument "power_off" "mode must be graceful or force")

/-- `power_cycle_board`. -/
def powerCycleBoard (registry : BoardRegistry) (req : PowerCycleRequest) :
    Action OperationResult :=
  if (trim req.reason.toList).isEmpty then
    throw (invalidArgument "power_cycle" "reason is required")
  else if ¬(req.mode = "graceful" ∨ req.mode = "force") then
    throw (invalidArgument "power_cycle" "mode must be graceful or force")
  else
    powerCycle registry req.boardId req.confirmation

/-- `wait_for_board_state`. -/
def waitForBoardState (registry : BoardRegistry) (req : WaitStateRequest) :
    Action BoardStateResult := do
  let states ← ofResult (parseStates req.states)
  let profile ← ofResult (registry.board req.boardId)
  let state ← waitForStates profile states req.timeoutMs none
  let timestampMs ← act .nowMs
  return {
    boardId := req.boardId
    state := stateName state
    confidence := 95
    timestampMs
    consoleGeneration := 0
    evidence := utf8 "matched current console generation"
    activeProbe := false }

/-- What `enter_board_uboot` does in an observed state. -/
def enterUbootFrom (registry : BoardRegistry) (profile : BoardProfile)
    (boardId restart : String) (state : BoardState) :
    Action OperationResult :=
  if state = .ubootPrompt then
    if restart = "always" then
      resetIntoUboot registry boardId profile.timing.operationTimeoutMs
    else
      simpleConsoleOperation registry boardId "enter_uboot" (utf8 "\r")
        [.ubootPrompt] 2000 false
  else if state = .ubootCountdown then
    simpleConsoleOperation registry boardId "enter_uboot"
      (utf8 profile.uboot.interrupt) [.ubootPrompt] 10000 false
  else if restart = "never" then
    throw (Error.new .ubootPromptNotFound "enter_uboot"
      (utf8 "U-Boot is not active and restart=never"))
  else if state = .linuxShell then
    rebootIntoUboot registry boardId profile.timing.operationTimeoutMs
  else
    throw (Error.new .shellNotSynchronized "enter_uboot" (utf8
      "automatic restart requires a known Linux shell or U-Boot prompt"))

/-- `enter_board_uboot`. -/
def enterBoardUboot (registry : BoardRegistry) (req : EnterUbootRequest) :
    Action OperationResult := do
  let profile ← ofResult (registry.board req.boardId)
  let state ← observedState profile
  if ¬(req.restart = "auto" ∨ req.restart = "always" ∨
      req.restart = "never") then
    throw (invalidArgument "enter_uboot"
      "restart must be auto, always, or never")
  else
    enterUbootFrom registry profile req.boardId req.restart state

/-- `run_board_uboot_command`. -/
def runBoardUbootCommand (registry : BoardRegistry) (req : CommandRequest) :
    Action OperationResult :=
  consoleCommand registry req.boardId "run_uboot_command" req.command false
    req.timeoutMs

/-- `boot_board_linux`. -/
def bootBoardLinux (registry : BoardRegistry) (req : BootLinuxRequest) :
    Action OperationResult := do
  let profile ← ofResult (registry.board req.boardId)
  let states : List BoardState :=
    if req.login.getD false then [.linuxLogin, .linuxShell]
    else [.linuxBooting, .linuxLogin, .linuxShell]
  simpleConsoleOperation registry req.boardId "boot_linux"
    (utf8 profile.uboot.bootCommand ++ utf8 "\r") states
    (req.timeoutMs.getD profile.timing.operationTimeoutMs) false

/-- `linux_board_login`. -/
def linuxBoardLogin (registry : BoardRegistry) (req : LinuxLoginRequest) :
    Action OperationResult := do
  let profile ← ofResult (registry.board req.boardId)
  match profile.linux.account with
  | none => throw accountMissing
  | some configured =>
      if req.account.any fun value => value ≠ configured then
        throw (invalidArgument "linux_login"
          "requested account is not configured")
      else
        simpleConsoleOperation registry req.boardId "linux_login"
          (utf8 configured ++ utf8 "\r") [.linuxShell]
          (req.timeoutMs.getD profile.timing.operationTimeoutMs) false

/-- `run_board_linux_command`. -/
def runBoardLinuxCommand (registry : BoardRegistry) (req : CommandRequest) :
    Action OperationResult :=
  consoleCommand registry req.boardId "run_linux_command" req.command true
    req.timeoutMs

/-- `reboot_board_linux`. -/
def rebootBoardLinux (registry : BoardRegistry) (req : RebootLinuxRequest) :
    Action OperationResult :=
  if !req.confirmation then
    throw (confirmationRequired "reboot_linux"
      "reboot requires confirmation=true")
  else do
    let profile ← ofResult (registry.board req.boardId)
    let states : List BoardState :=
      match req.waitFor with
      | some value => [value.boardState]
      | none => [.ubootCountdown, .linuxBooting, .linuxLogin]
    simpleConsoleOperation registry req.boardId "reboot_linux"
      (utf8 "reboot\r") states
      (req.timeoutMs.getD profile.timing.operationTimeoutMs) true

/-- The remote procedure calls. -/
inductive RpcRequest where
  | listBoards
  | getBoardState (req : BoardStateRequest)
  | getPowerState (req : BoardRequest)
  | captureSerial (req : CaptureSerialRequest)
  | powerOn (req : PowerOnRequest)
  | powerOnUboot (req : PowerOnUbootRequest)
  | powerOnLinux (req : PowerOnLinuxRequest)
  | powerOff (req : PowerOffRequest)
  | powerCycle (req : PowerCycleRequest)
  | waitForState (req : WaitStateRequest)
  | enterUboot (req : EnterUbootRequest)
  | runUbootCommand (req : CommandRequest)
  | bootLinux (req : BootLinuxRequest)
  | linuxLogin (req : LinuxLoginRequest)
  | runLinuxCommand (req : CommandRequest)
  | rebootLinux (req : RebootLinuxRequest)
deriving DecidableEq, Repr

/-- The values a remote procedure call may return. -/
inductive RpcResult where
  | boards (summaries : List BoardSummary)
  | boardState (result : BoardStateResult)
  | powerState (result : PowerStateResult)
  | capture (result : SerialCaptureResult)
  | operation (result : OperationResult)
deriving DecidableEq, Repr

/-- The dispatcher of `handle_rpc`, after decoding and before encoding. -/
def handleRpc (registry : BoardRegistry) : RpcRequest → Action RpcResult
  | .listBoards => .boards <$> listBoardSummaries registry
  | .getBoardState req => .boardState <$> boardState registry req
  | .getPowerState req => .powerState <$> boardPowerState registry req
  | .captureSerial req => .capture <$> captureBoardSerial registry req
  | .powerOn req => .operation <$> powerOnBoard registry req
  | .powerOnUboot req => .operation <$> powerOnUbootBoard registry req
  | .powerOnLinux req => .operation <$> powerOnLinuxBoard registry req
  | .powerOff req => .operation <$> powerOffBoard registry req
  | .powerCycle req => .operation <$> powerCycleBoard registry req
  | .waitForState req => .boardState <$> waitForBoardState registry req
  | .enterUboot req => .operation <$> enterBoardUboot registry req
  | .runUbootCommand req => .operation <$> runBoardUbootCommand registry req
  | .bootLinux req => .operation <$> bootBoardLinux registry req
  | .linuxLogin req => .operation <$> linuxBoardLogin registry req
  | .runLinuxCommand req => .operation <$> runBoardLinuxCommand registry req
  | .rebootLinux req => .operation <$> rebootBoardLinux registry req

/-- `str::split_whitespace`. -/
def splitWhitespace (s : List Char) : List (List Char) :=
  (s.splitOnP isWhitespace).filter fun word => !word.isEmpty

/-- The response to a `POWER` command, from the result of its operation. -/
def powerReply {α : Type} (succeeded : α → Text) (failed : String)
    (result : Result α) : Text :=
  match result with
  | .ok value => utf8 "ok  " ++ succeeded value ++ utf8 "\n"
  | .error error =>
      utf8 s!"err {failed} failed: " ++ error.message ++ utf8 "\n"

/-- The text of a power query. -/
def powerStatus (observation : PowerObservation) : Text :=
  utf8 (s!"power state: {observation.state} " ++
    s!"(identity_verified: {observation.identityVerified})")

/-- The `POWER` commands of the socket. -/
def powerCommand (registry : BoardRegistry) (action boardId : String) :
    Prog BoardSig Text :=
  if action = "on" then
    powerReply (fun _ => utf8 "power on succeeded") "power on" <$>
      (powerOn registry boardId).run
  else if action = "off" then
    powerReply (fun _ => utf8 "graceful power off succeeded") "power off" <$>
      (gracefulPowerOff registry boardId true).run
  else if action = "force-off" ∨ action = "off-force" then
    powerReply (fun _ => utf8 "forced power off succeeded")
      "forced power off" <$> (forcedPowerOff registry boardId true).run
  else if action = "cycle" then
    powerReply (fun _ => utf8 "power cycle succeeded") "power cycle" <$>
      (powerCycle registry boardId true).run
  else if action = "status" then
    powerReply powerStatus "power status" <$>
      (do powerState (← ofResult (registry.board boardId)) :
        Action PowerObservation).run
  else
    return utf8 s!"err unknown power action: {debugStr action}\n"

/-- A `POWER` line after its first word: the action, then the board. -/
def powerLine (registry : BoardRegistry) (rest : String) :
    Prog BoardSig Text :=
  let parts := (splitWhitespace rest.toList).map String.ofList
  powerCommand registry (parts[0]?.getD "") (parts[1]?.getD "")

/-- What the forwarding of console input tells the client. -/
inductive Forwarded where
  | noBoard
  | ignored
  | failed
  | written
deriving DecidableEq, Repr

/-- `forward_console_input`. -/
def forwardConsoleInput (registry : BoardRegistry) (boardId : String)
    (bytes : List UInt8) : Prog BoardSig Forwarded :=
  match registry.board boardId with
  | .error _ => return .noBoard
  | .ok profile => do
      let uuid ← ask .newUuid
      let owner : LeaseOwner :=
        ⟨"console-" ++ uuid, "interactive_console_write"⟩
      match ← ask (.acquireLease owner 0) with
      | some _ => return .ignored
      | none =>
          let written ← (writeConsole profile bytes).run
          ask (.releaseLease owner)
          match written with
          | .error _ => return .failed
          | .ok () => return .written

/-- The debug format of a state. -/
def debugState : BoardState → String
  | .poweredOff => "PoweredOff"
  | .poweringOn => "PoweringOn"
  | .bootRomOrFirmware => "BootRomOrFirmware"
  | .ubootCountdown => "UbootCountdown"
  | .ubootPrompt => "UbootPrompt"
  | .linuxBooting => "LinuxBooting"
  | .linuxLogin => "LinuxLogin"
  | .linuxShell => "LinuxShell"
  | .shutdownInProgress => "ShutdownInProgress"
  | .applicationRunning => "ApplicationRunning"
  | .unresponsive => "Unresponsive"
  | .unknown => "Unknown"

/-- The answer of an in-console command, from the result of its operation. -/
def consoleReply {α : Type} (succeeded : α → Text) (failed : String)
    (result : Result α) : Text :=
  match result with
  | .ok value => succeeded value
  | .error error => utf8 s!"{failed}: " ++ error.message

/-- The text of a power query in a console. -/
def consolePowerStatus (observation : PowerObservation) : Text :=
  utf8 (s!"Power state: {observation.state} " ++
    s!"(identity_verified: {observation.identityVerified})")

/-- `console_help`. -/
def consoleHelp : String :=
  "  poweron          - Power on board\r\n" ++
  "  poweroff         - Gracefully power off board\r\n" ++
  "  poweroff --force - Immediately cut relay power\r\n" ++
  "  powercycle       - Power cycle board\r\n" ++
  "  powerstatus      - Check power relay status\r\n" ++
  "  state            - Check current inferred board state\r\n" ++
  "  help             - Show this help\r\n" ++
  "  exit             - Detach from console\r\n" ++
  "  Ctrl+]           - Return to UART mode"

/-- `handle_console_command`. -/
def handleConsoleCommand (registry : BoardRegistry) (boardId cmd : String) :
    Prog BoardSig Text :=
  let parts := (splitWhitespace cmd.toList).map String.ofList
  if parts = ["poweron"] then
    consoleReply (fun _ => utf8 "Power on succeeded") "Power on failed" <$>
      (powerOn registry boardId).run
  else if parts = ["poweroff"] then
    consoleReply (fun _ => utf8 "Graceful power off succeeded")
      "Power off failed" <$> (gracefulPowerOff registry boardId true).run
  else if parts = ["poweroff", "--force"] ∨ parts = ["poweroff", "-f"] then
    consoleReply (fun _ => utf8 "Forced power off succeeded")
      "Forced power off failed" <$> (forcedPowerOff registry boardId true).run
  else if parts = ["powercycle"] then
    consoleReply (fun _ => utf8 "Power cycle succeeded")
      "Power cycle failed" <$> (powerCycle registry boardId true).run
  else if parts = ["powerstatus"] ∨ parts = ["power"] then
    consoleReply consolePowerStatus "Failed to get power state" <$>
      (do powerState (← ofResult (registry.board boardId)) :
        Action PowerObservation).run
  else if parts = ["state"] then
    consoleReply (fun state => utf8 s!"Observed board state: {debugState state}")
      "Failed to get board state" <$>
      (do observedState (← ofResult (registry.board boardId)) :
        Action BoardState).run
  else if parts = ["help"] then
    return utf8 consoleHelp
  else
    return utf8
      s!"Unknown command: {cmd}. Type help for available commands."

/-- Everything a client can ask of a board. -/
inductive ClientRequest where
  | rpc (req : RpcRequest)
  | power (rest : String)
  | consoleInput (boardId : String) (byte : UInt8)
  | consoleCommand (boardId cmd : String)
deriving DecidableEq, Repr

/-- What a client gets back. -/
inductive ClientResponse where
  | rpc (result : Result RpcResult)
  | text (reply : Text)
  | forwarded (outcome : Forwarded)

/-- The program that serves a request. -/
def serve (registry : BoardRegistry) :
    ClientRequest → Prog BoardSig ClientResponse
  | .rpc req => .rpc <$> (handleRpc registry req).run
  | .power rest => .text <$> powerLine registry rest
  | .consoleInput boardId byte =>
      .forwarded <$> forwardConsoleInput registry boardId [byte]
  | .consoleCommand boardId cmd =>
      .text <$> handleConsoleCommand registry boardId cmd

end RpictlMcp
