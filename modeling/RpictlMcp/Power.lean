import RpictlMcp.Board

/-!
# rpictl-mcp: the power subsystem

This module embeds the power part of `operations.rs`: the power identity, the
collection of a subprocess's output up to a limit and a deadline, the power
query with its identity check, and `set_power`, which queries, switches the
relay and queries again.

The programs take the profile of a board that has already been looked up; the
registry never changes, so looking it up again would yield the same profile.
Instants and durations are in milliseconds.
-/

namespace RpictlMcp

/-- The characters with the Unicode property `White_Space`. -/
def isWhitespace (c : Char) : Bool :=
  let n := c.toNat
  (9 ≤ n && n ≤ 13) || n = 0x20 || n = 0x85 || n = 0xA0 || n = 0x1680 ||
    (0x2000 ≤ n && n ≤ 0x200A) || n = 0x2028 || n = 0x2029 || n = 0x202F ||
    n = 0x205F || n = 0x3000

/-- `str::trim`. -/
def trim (s : List Char) : List Char :=
  ((s.dropWhile isWhitespace).reverse.dropWhile isWhitespace).reverse

/-- `str::split_once`: what stands before and after the first separator. -/
def splitOnce (separator : Char) (s : List Char) :
    Option (List Char × List Char) :=
  match s.dropWhile (· ≠ separator) with
  | [] => none
  | _ :: value => some (s.takeWhile (· ≠ separator), value)

/-- The relay a power identity stands for. -/
structure Identity where
  node : String
  endpoint : String
  mac : Option String
deriving DecidableEq, Repr

/-- The entries of a power identity that have been read so far. -/
structure IdentityEntries where
  node : Option (List Char)
  endpoint : Option (List Char)
  mac : Option (List Char)
deriving DecidableEq, Repr

/-- The value of a `mac` entry in the form in which it is compared. -/
def normalizeMac (value : List Char) : List Char :=
  value.map fun c => if c = '-' then ':' else c.toLower

/-- One part of a power identity: an entry, or something that is ignored. -/
def IdentityEntries.add (entries : IdentityEntries) (part : List Char) :
    IdentityEntries :=
  match splitOnce '=' part with
  | none => entries
  | some (key, value) =>
      if trim key = "node".toList then
        { entries with node := some (trim value) }
      else if trim key = "endpoint".toList then
        { entries with endpoint := some (trim value) }
      else if trim key = "mac".toList then
        { entries with mac := some (normalizeMac (trim value)) }
      else entries

/-- The error for an identity without a numeric node and endpoint. -/
def identityError : Error :=
  Error.new .invalidConfiguration "power_identity"
    (utf8 "Matter identity requires numeric node and endpoint")

/-- `parse_identity`. -/
def parseIdentity (identity : String) : Result Identity :=
  let entries := (identity.toList.splitOn ';').foldl IdentityEntries.add
    ⟨none, none, none⟩
  match entries.node, entries.endpoint with
  | some node, some endpoint =>
      if node.all Char.isDigit && endpoint.all Char.isDigit then
        .ok ⟨String.ofList node, String.ofList endpoint,
          entries.mac.map String.ofList⟩
      else .error identityError
  | _, _ => .error identityError

/-- An identity is rejected for the configuration only. -/
theorem code_of_parseIdentity {identity : String} {error : Error}
    (h : parseIdentity identity = .error error) :
    error.code = .invalidConfiguration := by
  unfold parseIdentity at h
  simp only at h
  repeat' split at h
  all_goals cases h
  all_goals rfl

/-- The most that is kept of both outputs of a power command together. -/
def maxPowerOutputBytes : Nat := 1024 * 1024

/-- The error of a power command whose I/O failed. -/
def powerIoError (phase : String) (error : Text) : Error :=
  Error.new .powerBackendFailed phase error

/-- The error of a power command with too much output. -/
def outputTruncated (phase : String) : Error :=
  Error.new .outputTruncated phase (utf8
    (s!"power command exceeded combined stdout/stderr limit of " ++
      s!"{maxPowerOutputBytes} bytes"))

/-- What is known of a pipe, and how much may still be collected. -/
structure Collection where
  eof : Bool
  bytes : List UInt8
  remaining : Nat
deriving DecidableEq, Repr

/-- `collect_power_output`: one read of a pipe. -/
def collectPowerOutput (pipe : Pipe) (bytes : List UInt8) (remaining : Nat)
    (phase : String) : Action Collection := do
  match ← act (.readPipe pipe) with
  | .eof => return ⟨true, bytes, remaining⟩
  | .data chunk =>
      if remaining < chunk.val.length then
        throw (outputTruncated phase)
      else
        return ⟨false, bytes ++ chunk.val, remaining - chunk.val.length⟩
  | .wouldBlock => return ⟨false, bytes, remaining⟩
  | .interrupted => return ⟨false, bytes, remaining⟩
  | .failed error => throw (powerIoError phase error)

/-- A pipe is read in each turn until it has ended. -/
def collectUnlessEof (eof : Bool) (pipe : Pipe) (bytes : List UInt8)
    (remaining : Nat) (phase : String) : Action Collection :=
  if eof then return ⟨true, bytes, remaining⟩
  else collectPowerOutput pipe bytes remaining phase

/-- The child is asked for its status once both pipes have ended. -/
def tryWaitIf (bothEof : Bool) : Action (Except Text (Option Bool)) :=
  if bothEof then act .tryWait else return .ok none

/-- The variables of the collection loop. -/
structure Collected where
  stdout : List UInt8
  stderr : List UInt8
  stdoutEof : Bool
  stderrEof : Bool
  remaining : Nat
deriving DecidableEq, Repr

/-- Nothing collected yet. -/
def Collected.initial : Collected :=
  ⟨[], [], false, false, maxPowerOutputBytes⟩

/-- The error of a power command that was stopped. -/
def powerCommandExpired (phase : String) : Error :=
  Error.new .commandTimeout phase
    (utf8 "power command deadline expired; subprocess terminated and reaped")

/-- One turn of the collection loop of `run_power_command`. -/
def collectTurn (deadline : Nat) (phase : String) (s : Collected) :
    Action (Collected ⊕ Output) := do
  let now ← act .instantNow
  if deadline ≤ now then
    throw (powerCommandExpired phase)
  else
    let stdout ←
      collectUnlessEof s.stdoutEof .stdout s.stdout s.remaining phase
    let stderr ←
      collectUnlessEof s.stderrEof .stderr s.stderr stdout.remaining phase
    match ← tryWaitIf (stdout.eof && stderr.eof) with
    | .error error => throw (powerIoError phase error)
    | .ok (some success) =>
        return .inr ⟨success, stdout.bytes, stderr.bytes⟩
    | .ok none =>
        let next : Collected :=
          ⟨stdout.bytes, stderr.bytes, stdout.eof, stderr.eof,
            stderr.remaining⟩
        if stderr.remaining = s.remaining then
          act (.sleep 10)
          return .inl next
        else
          return .inl next

/-- The closure of `run_power_command`: set up the pipes and collect. -/
def collectOutput (deadline : Nat) (phase : String) : Action Output := do
  match ← act (.setNonblocking .stdout) with
  | some error => throw (powerIoError phase error)
  | none =>
      match ← act (.setNonblocking .stderr) with
      | some error => throw (powerIoError phase error)
      | none => Prog.iterateE (collectTurn deadline phase) Collected.initial

/-- The end of `run_power_command`: a failed child is killed and reaped. -/
def reapFailed (phase : String) (result : Result Output) : Action Output :=
  match result with
  | .ok output => return output
  | .error error => do
      act .killGroup
      act .killChild
      match ← act .waitChild with
      | some failure => throw (powerIoError phase failure)
      | none => throw error

/-- `run_power_command`. -/
def runPowerCommand (command : Command) (deadline : Nat) (phase : String) :
    Action Output := do
  let now ← act .instantNow
  if deadline ≤ now then
    throw (Error.new .commandTimeout phase
      (utf8 "power command deadline expired before launch"))
  else
    match ← act (.spawn command) with
    | some error => throw (powerIoError phase error)
    | none =>
        let result ← attempt (collectOutput deadline phase)
        reapFailed phase result

/-- `str::to_ascii_lowercase`. -/
def toAsciiLowercase (text : Text) : Text :=
  text.map fun x => if 0x41 ≤ x ∧ x ≤ 0x5A then x + 0x20 else x

/-- The first characters of a text. -/
def takeChars : Nat → Text → Text
  | _, [] => []
  | n, x :: text =>
      if 0x80 ≤ x ∧ x < 0xC0 then x :: takeChars n text
      else
        match n with
        | 0 => []
        | n + 1 => x :: takeChars n text

/-- Both outputs of a subprocess as one text. -/
def Output.raw (output : Output) : Text :=
  fromUtf8Lossy output.stdout ++ fromUtf8Lossy output.stderr

/-- The command that queries a relay. -/
def readRelay (identity : Identity) : Command :=
  ⟨"chip-tool", ["onoff", "read", "on-off", identity.node, identity.endpoint]⟩

/-- The name of a relay position, as a command and as an observed state. -/
def relayState (on : Bool) : String :=
  if on then "on" else "off"

/-- The command that switches a relay. -/
def switchRelay (identity : Identity) (on : Bool) : Command :=
  ⟨"chip-tool", ["onoff", relayState on, identity.node, identity.endpoint]⟩

/-- The command that lists the neighbours of the host. -/
def listNeighbors : Command :=
  ⟨"ip", ["neigh"]⟩

/-- What the output of a power query says about the relay. -/
def queriedState (raw : Text) : String :=
  if contains raw (utf8 "OnOff: TRUE") then "on"
  else if contains raw (utf8 "OnOff: FALSE") then "off"
  else "unknown"

/-- Whether the neighbours of the host include the configured device. -/
def namesMac (neighbors : Output) (mac : String) : Bool :=
  neighbors.success &&
    contains (toAsciiLowercase (fromUtf8Lossy neighbors.stdout)) (utf8 mac)

/-- The identity check of a power query. -/
def verifyIdentity (identity : Identity) (deadline : Nat) : Action Bool :=
  match identity.mac with
  | none => return true
  | some mac => do
      let neighbors ←
        runPowerCommand listNeighbors deadline "power_identity"
      return namesMac neighbors mac

/-- `power_state_until`. -/
def powerStateUntil (profile : BoardProfile) (deadline : Nat) :
    Action PowerObservation :=
  if profile.power.backend ≠ "matter" then
    throw (Error.new .powerBackendFailed "power_query"
      (utf8 "only the matter backend is implemented"))
  else do
    let identity ← ofResult (parseIdentity profile.power.identity)
    let output ← runPowerCommand (readRelay identity) deadline "power_query"
    if !output.success then
      throw (Error.new .powerBackendFailed "power_query" output.raw)
    else
      let identityVerified ← verifyIdentity identity deadline
      let observation : PowerObservation :=
        ⟨queriedState output.raw, identityVerified, takeChars 4096 output.raw⟩
      act (.note (.queried observation))
      return observation

/-- `power_state`. -/
def powerState (profile : BoardProfile) : Action PowerObservation := do
  let now ← act .instantNow
  powerStateUntil profile (now + profile.timing.operationTimeoutMs)

/-- The part of `set_power` that switches the relay. -/
def switchPower (profile : BoardProfile) (on : Bool) (deadline : Nat) :
    Action Unit := do
  let identity ← ofResult (parseIdentity profile.power.identity)
  let output ←
    runPowerCommand (switchRelay identity on) deadline "power_change"
  act (.note (.switched on output))
  if !output.success || !contains output.raw (utf8 "SUCCESS") then
    throw (Error.new .powerBackendFailed "power_change" output.raw)
  else
    return ()

/-- `set_power`. -/
def setPower (profile : BoardProfile) (on : Bool) :
    Action PowerObservation := do
  act (.note (.setPower on))
  let now ← act .instantNow
  let deadline := now + profile.timing.operationTimeoutMs
  let before ← powerStateUntil profile deadline
  if !before.identityVerified then
    throw (Error.new .powerIdentityMismatch "power_identity" (utf8
      "configured Matter MAC was not found in the host neighbor table"))
  else
    switchPower profile on deadline
    let after ← powerStateUntil profile deadline
    if after.state ≠ relayState on then
      throw (Error.new .powerStateUnverified "power_verify"
        (utf8 s!"expected {relayState on}, observed {after.state}"))
    else
      return after

/-- The worker thread of `power_on_uboot`. -/
def powerWorker (profile : BoardProfile) : Prog BoardSig Unit := do
  ask .awaitSpawn
  let result ← (setPower profile true).run
  ask (.finishWorker result)

example : (parseIdentity "node=12;endpoint=1;mac=AA-bb").toOption =
    some ⟨"12", "1", some "aa:bb"⟩ := by
  decide

end RpictlMcp
