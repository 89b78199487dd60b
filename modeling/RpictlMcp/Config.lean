import RpictlMcp.Error
import RpictlMcp.Kernel.KeyedMap
import Mathlib.Data.List.Sort

/-!
# rpictl-mcp: board profiles and the registry

This module embeds `config.rs` and the lookups of `registry.rs`.  Of a profile
it keeps what the service reads: the serial settings that validation checks, the
power backend and identity, the state patterns, the console inputs and the
timing.  A `BoardRegistry` carries the proof that its configuration was
accepted.

The mutexes of a registered board are not part of this module; they belong to
the running system.
-/

namespace RpictlMcp

/-- The outcome of a call of the service. -/
abbrev Result (α : Type) := Except Error α

/--
A character inside a debug-formatted string.  Control characters, quotes and
backslashes are escaped.  The non-ASCII characters that the debug format escapes
because they are not printable or extend a grapheme are left as they are; they
occur in the texts of messages only.
-/
def escapeDebug (c : Char) : String :=
  if c = '"' then "\\\""
  else if c = '\\' then "\\\\"
  else if c = '\n' then "\\n"
  else if c = '\r' then "\\r"
  else if c = '\t' then "\\t"
  else if c.toNat = 0 then "\\0"
  else if c.toNat < 32 ∨ 127 ≤ c.toNat ∧ c.toNat < 160 then
    "\\u\x7b" ++ String.ofList (Nat.toDigits 16 c.toNat) ++ "\x7d"
  else String.singleton c

/-- The debug format of a string. -/
def debugStr (s : String) : String :=
  "\"" ++ String.join (s.toList.map escapeDebug) ++ "\""

/-- The serial port of a board. -/
structure SerialProfile where
  device : String
  baudRate : Nat := 115200
  dataBits : Nat := 8
  stopBits : Nat := 1
deriving DecidableEq, Repr

/-- The relay of a board. -/
structure PowerProfile where
  backend : String
  identity : String
deriving DecidableEq, Repr

/-- The console texts that show the state of a board. -/
structure StatePatterns where
  ubootCountdown : String
  ubootPrompt : String
  linuxBoot : String
  linuxLogin : String
  linuxShell : String
  shutdown : Option String := none
deriving DecidableEq, Repr

/-- What is sent to U-Boot. -/
structure UbootProfile where
  interrupt : String := " "
  bootCommand : String := "boot"
deriving DecidableEq, Repr

/-- What is sent to Linux. -/
structure LinuxProfile where
  account : Option String := none
  shutdownCommand : Option String := none
deriving DecidableEq, Repr

/-- The time limits of a board, in milliseconds. -/
structure TimingProfile where
  operationTimeoutMs : Nat := 30000
  powerCycleOffMs : Nat := 5000
  serialPacingMs : Nat := 0
deriving DecidableEq, Repr

/-- The profile of one board. -/
structure BoardProfile where
  boardId : String
  displayName : Option String := none
  serial : SerialProfile
  power : PowerProfile
  patterns : StatePatterns
  uboot : UbootProfile := { }
  linux : LinuxProfile := { }
  timing : TimingProfile := { }
deriving DecidableEq, Repr

/-- The configuration of the service. -/
structure Config where
  boards : List BoardProfile
  serialRingBytes : Nat := 256 * 1024
deriving DecidableEq, Repr

/-- A rejected configuration. -/
def invalid {α : Type} (message : String) : Result α :=
  .error (Error.new .invalidConfiguration "configuration" (utf8 message))

/-- The characters a board id may have. -/
def isBoardIdChar (c : Char) : Bool :=
  c.isAlphanum || c = '-' || c = '_'

/-- The checks on one profile. -/
def BoardProfile.validate (board : BoardProfile) : Result Unit := do
  if board.boardId.isEmpty || !board.boardId.toList.all isBoardIdChar then
    invalid s!"invalid board_id: {debugStr board.boardId}"
  if board.serial.device.isEmpty then
    invalid s!"{board.boardId}: serial device is empty"
  if board.serial.baudRate = 0 then
    invalid s!"{board.boardId}: baud_rate must be nonzero"
  if ¬(5 ≤ board.serial.dataBits ∧ board.serial.dataBits ≤ 8) then
    invalid s!"{board.boardId}: data_bits must be 5 through 8"
  if ¬(1 ≤ board.serial.stopBits ∧ board.serial.stopBits ≤ 2) then
    invalid s!"{board.boardId}: stop_bits must be 1 or 2"
  if board.power.backend.isEmpty || board.power.identity.isEmpty then
    invalid s!"{board.boardId}: power backend and identity are required"
  if board.timing.operationTimeoutMs = 0 ∨ board.timing.powerCycleOffMs = 0 then
    invalid s!"{board.boardId}: timeout values must be nonzero"
  if board.patterns.ubootPrompt.isEmpty || board.patterns.linuxLogin.isEmpty ||
      board.patterns.linuxShell.isEmpty then
    invalid (s!"{board.boardId}: U-Boot, Linux login, and Linux shell " ++
      "patterns are required")

/-- The checks on the profiles, with what the earlier ones have used up. -/
def validateBoards (ids devices : List String)
    (powerIds : List (String × String)) : List BoardProfile → Result Unit
  | [] => return
  | board :: rest => do
      board.validate
      if board.boardId ∈ ids then
        invalid s!"duplicate board_id: {board.boardId}"
      if board.serial.device ∈ devices then
        invalid s!"duplicate serial device: {board.serial.device}"
      if (board.power.backend, board.power.identity) ∈ powerIds then
        invalid (s!"duplicate power identity: {board.power.backend}/" ++
          board.power.identity)
      validateBoards (board.boardId :: ids) (board.serial.device :: devices)
        ((board.power.backend, board.power.identity) :: powerIds) rest

/-- `Config::validate`. -/
def Config.validate (config : Config) : Result Unit := do
  if config.boards.isEmpty then
    invalid "at least one board profile is required"
  if config.serialRingBytes = 0 then
    invalid "serial_ring_bytes must be greater than zero"
  validateBoards [] [] [] config.boards

/-- An accepted configuration. -/
structure BoardRegistry where
  config : Config
  valid : config.validate = .ok ()

/-- The error for an id no board has. -/
def boardNotFound (boardId : String) : Error :=
  Error.new .boardNotFound "discovery"
    (utf8 s!"board {debugStr boardId} is not configured")

/-- `BoardRegistry::board`. -/
def BoardRegistry.board (registry : BoardRegistry) (boardId : String) :
    Result BoardProfile :=
  match registry.config.boards.find? (·.boardId = boardId) with
  | some profile => .ok profile
  | none => .error (boardNotFound boardId)

/-- `BoardRegistry::list`. -/
def BoardRegistry.list (registry : BoardRegistry) : List BoardProfile :=
  registry.config.boards.mergeSort fun left right =>
    decide (left.boardId ≤ right.boardId)

/-- A check passes if it does not find what it rejects. -/
theorem check_eq_ok_iff {α : Type} {condition : Prop} [Decidable condition]
    {error : Error} {rest : Result α} {a : α} :
    (if condition then .error error else rest) = .ok a ↔
      ¬condition ∧ rest = .ok a := by
  split
  · rename_i hcondition
    simp [hcondition]
  · rename_i hcondition
    simp [hcondition]

/-- The limits of an accepted profile are positive. -/
theorem BoardProfile.timeouts_of_validate {board : BoardProfile}
    (h : board.validate = .ok ()) :
    0 < board.timing.operationTimeoutMs ∧
      0 < board.timing.powerCycleOffMs := by
  simp only [BoardProfile.validate, invalid, bind, Except.bind] at h
  iterate 6 obtain ⟨-, h⟩ := check_eq_ok_iff.mp h
  obtain ⟨htimeouts, -⟩ := check_eq_ok_iff.mp h
  omega

/-- The pass over the profiles accepts exactly accepted profiles with fresh ids,
devices and relays. -/
theorem validateBoards_eq_ok_iff {boards : List BoardProfile}
    {ids devices : List String} {powerIds : List (String × String)} :
    validateBoards ids devices powerIds boards = .ok () ↔
      (∀ board ∈ boards, board.validate = .ok ()) ∧
        Fresh ids (boards.map (·.boardId)) ∧
        Fresh devices (boards.map (·.serial.device)) ∧
        Fresh powerIds (boards.map fun board =>
          (board.power.backend, board.power.identity)) := by
  induction boards generalizing ids devices powerIds with
  | nil =>
      simp [validateBoards, fresh_nil, pure, Except.pure]
  | cons board rest ih =>
      simp only [validateBoards, invalid, bind, Except.bind, List.map_cons,
        fresh_cons, List.forall_mem_cons]
      cases board.validate with
      | error e => simp
      | ok =>
          simp only [check_eq_ok_iff, ih, true_and]
          constructor
          · rintro ⟨hid, hdevice, hpower, hrest, hids, hdevices, hpowers⟩
            exact ⟨hrest, ⟨hid, hids⟩, ⟨hdevice, hdevices⟩, hpower, hpowers⟩
          · rintro ⟨hrest, ⟨hid, hids⟩, ⟨hdevice, hdevices⟩, hpower, hpowers⟩
            exact ⟨hid, hdevice, hpower, hrest, hids, hdevices, hpowers⟩

/-- A configuration that `Config::validate` should accept. -/
structure Config.WellFormed (config : Config) : Prop where
  boards : config.boards ≠ []
  ring : config.serialRingBytes ≠ 0
  profiles : ∀ board ∈ config.boards, board.validate = .ok ()
  ids : (config.boards.map (·.boardId)).Nodup
  devices : (config.boards.map (·.serial.device)).Nodup
  relays : (config.boards.map fun board =>
    (board.power.backend, board.power.identity)).Nodup

theorem Config.validate_eq_ok_iff {config : Config} :
    config.validate = .ok () ↔ config.WellFormed := by
  simp only [Config.validate, invalid, bind, Except.bind, check_eq_ok_iff,
    validateBoards_eq_ok_iff, fresh_nil_left, List.isEmpty_iff]
  constructor
  · rintro ⟨hboards, hring, hprofiles, hids, hdevices, hrelays⟩
    exact ⟨hboards, hring, hprofiles, hids, hdevices, hrelays⟩
  · rintro ⟨hboards, hring, hprofiles, hids, hdevices, hrelays⟩
    exact ⟨hboards, hring, hprofiles, hids, hdevices, hrelays⟩

/-- A board as the tests of the service configure it. -/
def simulated : BoardProfile :=
  { boardId := "simulated"
    serial := { device := "/dev/pts/1" }
    power := ⟨"matter", "node=991;endpoint=1"⟩
    patterns :=
      { ubootCountdown := "Hit any key"
        ubootPrompt := "U-Boot>"
        linuxBoot := "Linux version"
        linuxLogin := "login:"
        linuxShell := "root@fake:#" } }

/-- The registry of that one board. -/
def simulatedRegistry : BoardRegistry :=
  ⟨{ boards := [simulated] }, by decide⟩

theorem simulatedRegistry_board :
    simulatedRegistry.board "simulated" = .ok simulated := by
  decide

namespace BoardRegistry

variable {registry : BoardRegistry} {boardId : String}
variable {profile : BoardProfile}

theorem wellFormed (registry : BoardRegistry) : registry.config.WellFormed :=
  Config.validate_eq_ok_iff.mp registry.valid

theorem ring_pos (registry : BoardRegistry) :
    0 < registry.config.serialRingBytes :=
  Nat.pos_of_ne_zero registry.wellFormed.ring

/-- A board that is found has an accepted profile. -/
theorem validate_of_board (h : registry.board boardId = .ok profile) :
    profile.validate = .ok () := by
  unfold BoardRegistry.board at h
  split at h
  · rename_i found hfound
    cases h
    exact registry.wellFormed.profiles _ (List.mem_of_find?_eq_some hfound)
  · cases h

/-- A lookup fails only for want of the board. -/
theorem code_of_board {e : Error} (h : registry.board boardId = .error e) :
    e.code = .boardNotFound := by
  unfold BoardRegistry.board at h
  split at h
  · cases h
  · cases h
    rfl

theorem timeout_pos (h : registry.board boardId = .ok profile) :
    0 < profile.timing.operationTimeoutMs :=
  (BoardProfile.timeouts_of_validate (validate_of_board h)).1

end BoardRegistry

end RpictlMcp
