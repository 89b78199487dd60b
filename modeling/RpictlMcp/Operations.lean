import RpictlMcp.Power

/-!
# rpictl-mcp: console operations and board operations

This module embeds the operations of `operations.rs`: writing to the console,
observing and waiting for states, the wrapper that runs an operation under the
board lease, and the operations themselves.

An operation's list of actions is part of its result only when it succeeds, so
the programs return it together with the output.  The guard of the lease is
dropped when the operation ends, whatever its result is.

In `power_on_uboot` the handle of the power worker is an `Option` that a poll
may empty; the programs pass on whether it is still there.
-/

namespace RpictlMcp

/-- What a successful operation reports. -/
structure OperationResult where
  operationId : String
  boardId : String
  operation : String
  success : Bool
  startedMs : Nat
  finishedMs : Nat
  elapsedMs : Nat
  expectedState : Option String
  observedState : String
  output : Text
  actions : List String
  policyDecision : Option String
deriving DecidableEq, Repr

/-- The error of a serial port that fails. -/
def serialWriteError (error : Text) : Error :=
  Error.new .serialDisconnected "serial_write" error

/-- The byte loop of `write_console`. -/
def writeBytes (profile : BoardProfile) : List UInt8 → Action Unit
  | [] => return ()
  | byte :: bytes => do
      match ← act (.writeByte byte) with
      | some error => throw (serialWriteError error)
      | none =>
          if 0 < profile.timing.serialPacingMs then
            act (.sleep profile.timing.serialPacingMs)
            writeBytes profile bytes
          else
            writeBytes profile bytes

/-- `write_console`. -/
def writeConsole (profile : BoardProfile) (bytes : List UInt8) :
    Action Unit := do
  match ← act .lockWriter with
  | .poisoned => throw (serialWriteError (utf8 "writer lock poisoned"))
  | .notOpen =>
      throw (Error.new .serialOpenFailed "serial_write"
        (utf8 "serial device is not open"))
  | .opened =>
      writeBytes profile bytes
      match ← act .flush with
      | some error => throw (serialWriteError error)
      | none => return ()

/-- How many bytes of console output a state is looked for in. -/
def observationBytes : Nat := 65536

/-- The state shown by the current generation. -/
def generationState (profile : BoardProfile) (ring : SerialRing) :
    BoardState :=
  profile.patterns.observed
    (ring.snapshotGeneration ring.generation observationBytes).bytes

/-- `observed_state`. -/
def observedState (profile : BoardProfile) : Action BoardState := do
  let ring ← act .lockSerial
  return generationState profile ring

/-- The state shown by the first bytes from a cursor on. -/
def stateAfter (profile : BoardProfile) (ring : SerialRing) (cursor : Nat) :
    BoardState :=
  profile.patterns.observed (ring.snapshotFrom cursor observationBytes).bytes

/-- A state, if it is requested. -/
def requested (states : List BoardState) (state : BoardState) :
    Option BoardState :=
  if state ∈ states then some state else none

/-- One poll of `wait_for_states`. -/
def pollGeneration (profile : BoardProfile) (states : List BoardState)
    (generation : Option Nat) (ring : SerialRing) : Option BoardState :=
  if generation.all (fun expected => ring.generation = expected) then
    requested states (generationState profile ring)
  else none

/-- One poll of `wait_for_states_after_checked`. -/
def pollAfter (profile : BoardProfile) (states : List BoardState)
    (cursor : Nat) (ring : SerialRing) : Option BoardState :=
  requested states (stateAfter profile ring cursor)

/-- The error of a wait whose time ran out. -/
def stateTimeout (message : String) : Error :=
  Error.new .stateTimeout "state_wait" (utf8 message)

/-- `wait_for_states`. -/
def waitForStates (profile : BoardProfile) (states : List BoardState)
    (timeoutMs : Nat) (generation : Option Nat) : Action BoardState := do
  let started ← act .instantNow
  Prog.iterateE (fun () => do
    let ring ← act .lockSerial
    match pollGeneration profile states generation ring with
    | some state => return .inr state
    | none =>
        let now ← act .instantNow
        if started + timeoutMs ≤ now then
          throw (stateTimeout
            "requested state was not observed before timeout")
        else
          act (.sleep 100)
          return .inl ()) ()

/--
`wait_for_states_after_checked`.  The check is made before each poll and may
change the caller's variables, which keep their values when the wait fails.
-/
def waitForStatesAfterChecked {σ : Type} (profile : BoardProfile)
    (states : List BoardState) (timeoutMs cursor : Nat)
    (check : σ → Prog BoardSig (Result Unit × σ)) (s : σ) :
    Prog BoardSig (Result BoardState × σ) := do
  let started ← ask .instantNow
  Prog.iterate (fun s => do
    let checked ← check s
    match checked with
    | (.error error, s) => return .inr (.error error, s)
    | (.ok (), s) =>
        let ring ← ask .lockSerial
        match pollAfter profile states cursor ring with
        | some state => return .inr (.ok state, s)
        | none =>
            let now ← ask .instantNow
            if started + timeoutMs ≤ now then
              return .inr (.error (stateTimeout
                "fresh requested state was not observed before timeout"), s)
            else
              ask (.sleep 100)
              return .inl s) s

/-- `wait_for_states_after`. -/
def waitForStatesAfter (profile : BoardProfile) (states : List BoardState)
    (timeoutMs cursor : Nat) : Action BoardState :=
  ExceptT.mk do
    let waited ← waitForStatesAfterChecked profile states timeoutMs cursor
      (fun () => return (.ok (), ())) ()
    return waited.1

/-- The cursor of the next byte. -/
def nextCursor : Action Nat := do
  let ring ← act .lockSerial
  return ring.nextCursor

/-- What an operation returns to its wrapper: its output and its actions. -/
abbrev Performed := Text × List String

/-- The part of `operation` that runs under the lease. -/
def underLease (profile : BoardProfile) (owner : LeaseOwner)
    (expected : Option String) (startedMs : Nat) (action : Action Performed) :
    Action OperationResult := do
  let performed ← action
  let observed ← observedState profile
  let finishedMs ← act .nowMs
  return {
    operationId := owner.operationId
    boardId := profile.boardId
    operation := owner.operation
    success := true
    startedMs
    finishedMs
    elapsedMs := finishedMs - startedMs
    expectedState := expected
    observedState := stateName observed
    output := performed.1
    actions := performed.2
    policyDecision := none }

/-- `BoardLease::acquire`, and the guard's drop once the action has ended. -/
def withLease {α : Type} (owner : LeaseOwner) (timeoutMs : Nat)
    (action : Action α) : Action α := do
  match ← act (.acquireLease owner timeoutMs) with
  | some heldBy => throw (leaseBusy heldBy)
  | none =>
      let result ← attempt action
      act (.releaseLease owner)
      ofResult result

/-- `operation`. -/
def operation (registry : BoardRegistry) (boardId name : String)
    (expected : Option String)
    (action : BoardProfile → String → Action Performed) :
    Action OperationResult := do
  let profile ← ofResult (registry.board boardId)
  let operationId ← act .newUuid
  let startedMs ← act .nowMs
  let owner : LeaseOwner := ⟨operationId, name⟩
  withLease owner profile.timing.operationTimeoutMs
    (underLease profile owner expected startedMs (action profile operationId))

/-- The output of an operation that has waited for a state. -/
def observedOutput (state : BoardState) : Text :=
  utf8 s!"observed {stateName state}"

/-- The closure of `power_on`. -/
def powerOnAction (profile : BoardProfile) : Action Performed := do
  let observation ← setPower profile true
  let _ ← act .markGeneration
  return (observation.raw, ["verified relay on"])

/-- `power_on`. -/
def powerOn (registry : BoardRegistry) (boardId : String) :
    Action OperationResult :=
  operation registry boardId "power_on" none
    fun profile _ => powerOnAction profile

/-- `join_power`. -/
def joinPower : Prog BoardSig (Result Unit) := do
  let outcome ← ask .joinWorker
  match outcome with
  | .panicked =>
      return .error (Error.new .powerBackendFailed "power_on_uboot"
        (utf8 "power worker panicked"))
  | .returned (.error error) => return .error error
  | .returned (.ok _) => return .ok ()

/-- `check_power`: join the worker once it has finished. -/
def checkPower (pending : Bool) : Prog BoardSig (Result Unit × Bool) :=
  if pending then do
    let finished ← ask .workerFinished
    if finished then
      let joined ← joinPower
      return (joined, false)
    else
      return (.ok (), true)
  else
    return (.ok (), false)

/-- What the boot thread of `power_on_uboot` found, and what it did. -/
abbrev Booted := BoardState × String

/-- A write of the boot thread and the wait for the prompt it should bring. -/
def writeAndAwaitPrompt (profile : BoardProfile) (bytes : List UInt8)
    (action : String) (pending : Bool) :
    Prog BoardSig (Result Booted × Bool) := do
  let ring ← ask .lockSerial
  let written ← (writeConsole profile bytes).run
  match written with
  | .error error => return (.error error, pending)
  | .ok () =>
      let waited ← waitForStatesAfterChecked profile [.ubootPrompt] 10000
        ring.nextCursor checkPower pending
      return (waited.1.map fun state => (state, action), waited.2)

/-- The boot closure of `power_on_uboot`. -/
def bootPhase (profile : BoardProfile) (timeoutMs cursor : Nat) :
    Prog BoardSig (Result Booted × Bool) := do
  let initial ← waitForStatesAfterChecked profile
    [.ubootCountdown, .ubootPrompt] timeoutMs cursor checkPower true
  match initial with
  | (.error error, pending) => return (.error error, pending)
  | (.ok state, pending) =>
      if state = .ubootPrompt then
        -- The prompt superseded the countdown before it could be interrupted.
        writeAndAwaitPrompt profile (utf8 "\r")
          "fresh U-Boot prompt already reached; sent Enter to synchronize"
          pending
      else
        writeAndAwaitPrompt profile (utf8 profile.uboot.interrupt)
          "interrupted the fresh U-Boot autoboot countdown" pending

/-- The end of the thread scope: join the worker if no poll has done so. -/
def joinPending (pending : Bool) : Action Unit :=
  if pending then ExceptT.mk joinPower else return ()

/-- The thread scope of `power_on_uboot`. -/
def ubootScope (profile : BoardProfile) (timeoutMs cursor : Nat) :
    Action Performed := do
  act .spawnWorker
  let boot ← ExceptT.lift (bootPhase profile timeoutMs cursor)
  act (.note (.booted (boot.1.map Prod.fst)))
  joinPending boot.2
  let booted ← ofResult boot.1
  return (observedOutput booted.1, [booted.2, "verified relay on"])

/-- The error of an operation that needs the board to be off. -/
def alreadyOn (phase message : String) : Error :=
  Error.new .powerStateUnverified phase (utf8 message)

/-- The closure of `power_on_uboot`. -/
def powerOnUbootAction (profile : BoardProfile) (timeoutMs : Nat) :
    Action Performed := do
  let observation ← powerState profile
  if observation.state = "on" then
    throw (alreadyOn "power_on_uboot"
      "board is already powered on; use enter_uboot instead")
  else
    let _ ← act .markGeneration
    let countdownCursor ← nextCursor
    ubootScope profile timeoutMs countdownCursor

/-- `power_on_uboot`. -/
def powerOnUboot (registry : BoardRegistry) (boardId : String)
    (timeoutMs : Nat) : Action OperationResult :=
  operation registry boardId "power_on_uboot" (some "uboot_prompt")
    fun profile _ => powerOnUbootAction profile timeoutMs

/-- The error of a board without a Linux account. -/
def accountMissing : Error :=
  Error.new .invalidConfiguration "linux_login"
    (utf8 "Linux account is not configured")

/-- The login of `power_on_linux`. -/
def loginAfterBoot (profile : BoardProfile) (timeoutMs : Nat) :
    Action Performed :=
  match profile.linux.account with
  | none => throw accountMissing
  | some account => do
      let shellCursor ← nextCursor
      writeConsole profile (utf8 account ++ utf8 "\r")
      let state ← waitForStatesAfter profile [.linuxShell] timeoutMs
        shellCursor
      return (observedOutput state,
        ["verified relay on", "sent configured Linux account"])

/-- The closure of `power_on_linux`. -/
def powerOnLinuxAction (profile : BoardProfile) (login : Bool)
    (timeoutMs : Nat) : Action Performed := do
  let observation ← powerState profile
  if observation.state = "on" then
    throw (alreadyOn "power_on_linux"
      "board is already powered on; use boot_linux or linux_login instead")
  else
    let _ ← setPower profile true
    let _ ← act .markGeneration
    let bootCursor ← nextCursor
    let state ← waitForStatesAfter profile [.linuxLogin, .linuxShell]
      timeoutMs bootCursor
    if !login || state = .linuxShell then
      return (observedOutput state, ["verified relay on"])
    else
      loginAfterBoot profile timeoutMs

/-- `power_on_linux`. -/
def powerOnLinux (registry : BoardRegistry) (boardId : String) (login : Bool)
    (timeoutMs : Nat) : Action OperationResult :=
  operation registry boardId "power_on_linux"
    (some (if login then "linux_shell" else "linux_login"))
    fun profile _ => powerOnLinuxAction profile login timeoutMs

/-- The error of a call that needs to be confirmed. -/
def confirmationRequired (phase message : String) : Error :=
  Error.new .confirmationRequired phase (utf8 message)

/-- The closure of `forced_power_off`. -/
def forcedPowerOffAction (profile : BoardProfile) : Action Performed := do
  let observation ← setPower profile false
  return (observation.raw, ["forced relay off"])

/-- `forced_power_off`. -/
def forcedPowerOff (registry : BoardRegistry) (boardId : String)
    (confirmed : Bool) : Action OperationResult :=
  if !confirmed then
    throw (confirmationRequired "confirmation"
      "forced power-off requires confirmation=true")
  else
    operation registry boardId "power_off" (some "powered_off")
      fun profile _ => forcedPowerOffAction profile

/-- The closure of `power_cycle`. -/
def powerCycleAction (profile : BoardProfile) : Action Performed := do
  let _ ← setPower profile false
  act (.sleep profile.timing.powerCycleOffMs)
  match ← attempt (setPower profile true) with
  | .ok observation =>
      let _ ← act .markGeneration
      return (observation.raw,
        ["verified relay off", "verified relay restored on"])
  | .error error =>
      let _ ← attempt (setPower profile true)
      throw error

/-- `power_cycle`. -/
def powerCycle (registry : BoardRegistry) (boardId : String)
    (confirmed : Bool) : Action OperationResult :=
  if !confirmed then
    throw (confirmationRequired "confirmation"
      "power cycle requires confirmation=true")
  else
    operation registry boardId "power_cycle" none
      fun profile _ => powerCycleAction profile

/-- The closure of `graceful_power_off`. -/
def gracefulPowerOffAction (profile : BoardProfile) : Action Performed := do
  let state ← observedState profile
  if state ≠ .linuxShell then
    throw (Error.new .shellNotSynchronized "shutdown"
      (utf8 "a verified Linux shell is required"))
  else
    match profile.linux.shutdownCommand with
    | none =>
        throw (Error.new .invalidConfiguration "shutdown"
          (utf8 "shutdown_command is not configured"))
    | some shutdown =>
        writeConsole profile (utf8 "sync\r")
        act (.sleep 1000)
        writeConsole profile (utf8 shutdown ++ utf8 "\r")
        let _ ← waitForStates profile [.shutdownInProgress]
          profile.timing.operationTimeoutMs none
        let observation ← setPower profile false
        return (observation.raw, ["sent sync",
          "sent configured shutdown command",
          "verified relay off after shutdown"])

/-- `graceful_power_off`. -/
def gracefulPowerOff (registry : BoardRegistry) (boardId : String)
    (confirmed : Bool) : Action OperationResult :=
  if !confirmed then
    throw (confirmationRequired "confirmation"
      "graceful power-off requires confirmation=true")
  else
    operation registry boardId "power_off" (some "powered_off")
      fun profile _ => gracefulPowerOffAction profile

/-- A generation boundary, if the operation starts a new one. -/
def markIf (newGeneration : Bool) : Action Unit :=
  if newGeneration then do
    let _ ← act .markGeneration
    return ()
  else
    return ()

/-- The closure of `simple_console_operation`. -/
def simpleConsoleAction (profile : BoardProfile) (name : String)
    (bytes : List UInt8) (expected : List BoardState) (timeoutMs : Nat)
    (newGeneration : Bool) : Action Performed := do
  markIf newGeneration
  let cursor ← nextCursor
  writeConsole profile bytes
  let state ← waitForStatesAfter profile expected timeoutMs cursor
  return (observedOutput state, [s!"sent configured console input for {name}"])

/-- `simple_console_operation`. -/
def simpleConsoleOperation (registry : BoardRegistry) (boardId name : String)
    (bytes : List UInt8) (expected : List BoardState) (timeoutMs : Nat)
    (newGeneration : Bool) : Action OperationResult :=
  operation registry boardId name none fun profile _ =>
    simpleConsoleAction profile name bytes expected timeoutMs newGeneration

/-- The common closure of `reboot_into_uboot` and `reset_into_uboot`. -/
def restartIntoUbootAction (profile : BoardProfile) (command : List UInt8)
    (action : String) (timeoutMs : Nat) : Action Performed := do
  let _ ← act .markGeneration
  let restartCursor ← nextCursor
  writeConsole profile command
  let _ ← waitForStatesAfter profile [.ubootCountdown] timeoutMs restartCursor
  let promptCursor ← nextCursor
  writeConsole profile (utf8 profile.uboot.interrupt)
  let state ← waitForStatesAfter profile [.ubootPrompt] 10000 promptCursor
  return (observedOutput state,
    [action, "interrupted the fresh U-Boot autoboot countdown"])

/-- `reboot_into_uboot`. -/
def rebootIntoUboot (registry : BoardRegistry) (boardId : String)
    (timeoutMs : Nat) : Action OperationResult :=
  operation registry boardId "enter_uboot" none fun profile _ =>
    restartIntoUbootAction profile (utf8 "reboot\r")
      "sent configured Linux reboot command" timeoutMs

/-- `reset_into_uboot`. -/
def resetIntoUboot (registry : BoardRegistry) (boardId : String)
    (timeoutMs : Nat) : Action OperationResult :=
  operation registry boardId "enter_uboot" none fun profile _ =>
    restartIntoUbootAction profile (utf8 "reset\r")
      "sent configured U-Boot reset command" timeoutMs

/-- The marker that a Linux command prints with its exit status. -/
def completionMarker (operationId : String) : String :=
  "__RPICTL_" ++
    String.ofList (operationId.toList.filter fun c => c ≠ '-') ++ "__"

/-- What `console_command` transmits. -/
def commandWire (command : String) (linux : Bool) (marker : String) : Text :=
  if linux then
    utf8 s!"{command}; printf '\\n{marker}:%s\\n' \"$?\"\r"
  else
    utf8 command ++ utf8 "\r"

/-- What `console_command` makes of the console output. -/
def commandOutput (linux : Bool) (marker : String) (output : Text) :
    Result Text :=
  if linux && !contains output (utf8 s!"{marker}:0") then
    if contains output (utf8 marker) then
      .error (Error.new .commandExitNonzero "command"
        (utf8 "Linux command returned a nonzero exit status"))
    else
      .error (Error.new .commandTimeout "command"
        (utf8 "Linux completion marker was not observed"))
  else
    .ok output

/-- The closure of `console_command`. -/
def consoleCommandAction (profile : BoardProfile) (command : String)
    (linux : Bool) (timeoutMs : Nat) (operationId : String) :
    Action Performed := do
  let start ← nextCursor
  let marker := completionMarker operationId
  writeConsole profile (commandWire command linux marker)
  let terminal := if linux then BoardState.linuxShell else .ubootPrompt
  let _ ← waitForStatesAfter profile [terminal] timeoutMs start
  let ring ← act .lockSerial
  let output ← ofResult (commandOutput linux marker
    (fromUtf8Lossy (ring.snapshotFrom start observationBytes).bytes))
  return (output, [s!"sent console command {debugStr command}"])

/-- The control characters. -/
def isControl (c : Char) : Bool :=
  c.toNat < 32 || (127 ≤ c.toNat && c.toNat < 160)

/-- `validate_one_line`. -/
def validateOneLine (command : String) : Result Unit :=
  if command.isEmpty ||
      command.toList.any (fun c => c = '\r' || c = '\n' || c.toNat = 0) ||
      command.toList.any isControl then
    .error (Error.new .commandDenied "policy"
      (utf8 "command must be one nonempty line without control characters"))
  else .ok ()

/-- `console_command`. -/
def consoleCommand (registry : BoardRegistry) (boardId name command : String)
    (linux : Bool) (timeoutMs : Nat) : Action OperationResult := do
  let _ ← ofResult (registry.board boardId)
  ofResult (validateOneLine command)
  let result ← operation registry boardId name none fun profile operationId =>
    consoleCommandAction profile command linux timeoutMs operationId
  return { result with policyDecision := some "unrestricted" }

end RpictlMcp
