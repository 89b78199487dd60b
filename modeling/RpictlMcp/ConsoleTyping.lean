import RpictlMcp.ConsoleSession

/-!
# rpictl-mcp: what is typed into a console

The keyboard loop of the client and the `CONSOLE` loop of the daemon are two
state machines that share one byte stream.  This module states what a sequence
of keystrokes asks for, and relates the two machines by a simulation: after each
keystroke the daemon is outside of any command and knows the mode of the client.

The stream carries the bytes of the UART unescaped, so the simulation holds up
to the first NUL byte that is typed in UART mode.
-/

namespace RpictlMcp

/-- What the keystrokes ask for, in order: input for the board, and commands. -/
def asked (rpictlMode : Bool) (line : List Char) : List UInt8 → List Served
  | [] => []
  | key :: keys =>
      if key = 0x1D then asked (!rpictlMode) [] keys
      else if !rpictlMode then .input key :: asked rpictlMode line keys
      else if key = 0x0D ∨ key = 0x0A then
        let command := String.ofList (trim line)
        if command = "exit" ∨ command = "quit" then []
        else if isRemoteConsoleCommand command then
          .command command :: asked rpictlMode [] keys
        else asked rpictlMode [] keys
      else if key = 0x08 ∨ key = 0x7F then asked rpictlMode line.dropLast keys
      else if isAsciiControl key then asked rpictlMode line keys
      else asked rpictlMode (line ++ [Char.ofNat key.toNat]) keys

/-- The input among what is served. -/
def inputs (served : List Served) : List UInt8 :=
  served.filterMap fun
    | .input byte => some byte
    | _ => none

/-- The commands among what is served. -/
def commands (served : List Served) : List String :=
  served.filterMap fun
    | .command cmd => some cmd
    | _ => none

/-- The bytes typed in UART mode, apart from Ctrl+]. -/
def uartBytes (keys : List UInt8) : List UInt8 :=
  inputs (asked false [] keys)

/-- The remote commands entered in the command console. -/
def enteredCommands (keys : List UInt8) : List String :=
  commands (asked false [] keys)

/-- The daemon after the keystrokes, and what it has served. -/
def servedFor (keys : List UInt8) : Session × List Served :=
  Session.initial.run (Keyboard.initial.run keys).1

/-- The daemon decodes the keystrokes. -/
structure DecodesTyping (keys : List UInt8) : Prop where
  uart : inputs (servedFor keys).2 = uartBytes keys
  executed : commands (servedFor keys).2 = enteredCommands keys
  modes : ∀ typed, typed <+: keys →
    (servedFor typed).1.rpictlMode = (Keyboard.initial.run typed).2.rpictlMode

section Decoding

variable {s : Session} {mode : Bool} {line : List Char}
variable {bytes : List UInt8}

@[simp] theorem inputs_append (served rest : List Served) :
    inputs (served ++ rest) = inputs served ++ inputs rest := by
  simp [inputs]

/-- A NUL byte never reaches the board. -/
theorem Session.receive_input (s : Session) (byte : UInt8) :
    0 ∉ inputs (s.receive byte).2 := by
  unfold Session.receive
  split
  · split
    · unfold Session.complete
      split
      · simp [inputs]
      · dsimp only
        split_ifs <;> simp [inputs]
    · simp [inputs]
  · split
    · simp [inputs]
    · rename_i hbyte
      simpa [inputs] using Ne.symm hbyte

theorem Session.run_inputs (s : Session) (bytes : List UInt8) :
    0 ∉ inputs (s.run bytes).2 := by
  induction bytes generalizing s with
  | nil => simp [Session.run, inputs]
  | cons byte bytes ih =>
      rw [Session.run, inputs_append, List.mem_append, not_or]
      exact ⟨s.receive_input byte, ih _⟩

/-- The bytes of a command are collected. -/
theorem Session.run_collect (command : List UInt8)
    (hbytes : ∀ byte ∈ bytes, byte ≠ 0x0A ∧ byte ≠ 0x0D) :
    Session.run ⟨some command, mode⟩ bytes =
      (⟨some (command ++ bytes), mode⟩, []) := by
  induction bytes generalizing command with
  | nil => simp [Session.run]
  | cons byte bytes ih =>
      have hbyte := hbytes byte (by simp)
      have hstep : Session.receive ⟨some command, mode⟩ byte =
          (⟨some (command ++ [byte]), mode⟩, []) := by
        simp [Session.receive, hbyte]
      rw [Session.run, hstep]
      simp [ih _ fun b hb => hbytes b (by simp [hb])]

/-- The texts that the client sends as commands. -/
def sentCommands : List String :=
  ["poweron", "poweroff", "poweroff --force", "poweroff -f", "powercycle",
    "powerstatus", "power", "state", "__rpictl_on", "__rpictl_off"]

theorem sentCommands_one_line :
    ∀ command ∈ sentCommands,
      (∀ byte ∈ utf8 command, byte ≠ 0x0A ∧ byte ≠ 0x0D) ∧
        trim command.toList = command.toList := by
  have hall : sentCommands.all (fun command =>
      (utf8 command).all (fun byte => byte ≠ 0x0A ∧ byte ≠ 0x0D) ∧
        trim command.toList = command.toList) = true := by decide
  simpa using hall

/-- A command reaches the daemon. -/
theorem Session.run_commandFrame {command : String}
    (hcommand : command ∈ sentCommands) :
    Session.run ⟨none, mode⟩ (commandFrame command) =
      if command = "__rpictl_on" then (⟨none, true⟩, [])
      else if command = "__rpictl_off" then (⟨none, false⟩, [])
      else (⟨none, mode⟩, [.command command]) := by
  obtain ⟨hbytes, htrim⟩ := sentCommands_one_line command hcommand
  have hopen : Session.receive ⟨none, mode⟩ 0 = (⟨some [], mode⟩, []) := rfl
  rw [commandFrame, List.cons_append, Session.run, hopen, Session.run_append,
    Session.run_collect [] hbytes]
  simp only [List.nil_append, Session.run, Session.receive, Session.complete,
    stringFromUtf8_utf8, htrim, String.ofList_toList, true_or, if_true,
    List.append_nil]

theorem Session.run_modeCommand (next : Bool) :
    Session.run ⟨none, mode⟩ (commandFrame (modeCommand next)) =
      (⟨none, next⟩, []) := by
  cases next
  · rw [modeCommand, if_neg (by decide),
      Session.run_commandFrame (by decide), if_neg (by decide),
      if_pos rfl]
  · rw [modeCommand, if_pos rfl, Session.run_commandFrame (by decide),
      if_pos rfl]

theorem Session.run_remoteCommand {command : String}
    (h : isRemoteConsoleCommand command = true) :
    Session.run ⟨none, mode⟩ (commandFrame command) =
      (⟨none, mode⟩, [.command command]) := by
  have hmem := of_decide_eq_true h
  have hsent : command ∈ sentCommands :=
    List.mem_append_left ["__rpictl_on", "__rpictl_off"] hmem
  rw [Session.run_commandFrame hsent, if_neg, if_neg]
  · rintro rfl
    revert hmem
    decide
  · rintro rfl
    revert hmem
    decide

/-- What a keystroke asks for is served, whatever is typed after it. -/
def ServedBy (mode : Bool) (line : List Char) (key : UInt8) : Keyed → Prop
  | .detached _ => ∀ keys, asked mode line (key :: keys) = []
  | .typed sent _ next => ∃ served,
      Session.run ⟨none, mode⟩ sent = (⟨none, next.rpictlMode⟩, served) ∧
        ∀ keys, asked mode line (key :: keys) =
          served ++ asked next.rpictlMode next.cmdBuf keys

/-- Enter sends the command of the line, or nothing. -/
theorem servedBy_enter {key : UInt8} (hkey : key = 0x0D ∨ key = 0x0A) :
    ServedBy true line key (Keyboard.enter ⟨true, line⟩) := by
  have hasked : ∀ keys, asked true line (key :: keys) =
      (if String.ofList (trim line) = "exit" ∨
          String.ofList (trim line) = "quit" then []
        else if isRemoteConsoleCommand (String.ofList (trim line)) then
          .command (String.ofList (trim line)) :: asked true [] keys
        else asked true [] keys) := by
    intro keys
    rcases hkey with rfl | rfl <;> rfl
  unfold Keyboard.enter
  generalize String.ofList (trim line) = command at hasked ⊢
  dsimp only
  split
  · rename_i hdetach
    exact fun keys => (hasked keys).trans (if_pos hdetach)
  · rename_i hdetach
    simp only [if_neg hdetach] at hasked
    split
    · rename_i hhelp
      refine ⟨[], rfl, fun keys => (hasked keys).trans (if_neg ?_)⟩
      rw [hhelp]
      decide
    · split
      · rename_i hempty
        refine ⟨[], rfl, fun keys => (hasked keys).trans (if_neg ?_)⟩
        rw [hempty]
        decide
      · split
        · rename_i hremote
          exact ⟨[.command command], Session.run_remoteCommand hremote,
            fun keys => (hasked keys).trans (if_pos hremote)⟩
        · rename_i hremote
          exact ⟨[], rfl, fun keys => (hasked keys).trans (if_neg hremote)⟩

/-- What any keystroke but a NUL byte in UART mode asks for is served. -/
theorem servedBy_press (line : List Char) {key : UInt8}
    (hkey : mode = false → key ≠ 0) :
    ServedBy mode line key (Keyboard.press ⟨mode, line⟩ key) := by
  unfold Keyboard.press
  split
  · rename_i htoggle
    exact ⟨[], Session.run_modeCommand _, fun keys => by
      rw [asked, if_pos htoggle]
      rfl⟩
  · rename_i htoggle
    cases mode with
    | false =>
        have hserved : Session.run ⟨none, false⟩ [key] =
            (⟨none, false⟩, [.input key]) := by
          simp [Session.run, Session.receive, hkey rfl]
        exact ⟨[.input key], hserved, fun keys => by
          rw [asked, if_neg htoggle]
          rfl⟩
    | true =>
        rw [if_neg (by simp)]
        split
        · rename_i henter
          exact servedBy_enter henter
        · rename_i henter
          have hasked : ∀ keys, asked true line (key :: keys) =
              (if key = 0x08 ∨ key = 0x7F then asked true line.dropLast keys
                else if isAsciiControl key then asked true line keys
                else asked true (line ++ [Char.ofNat key.toNat]) keys) := by
            intro keys
            rw [asked, if_neg htoggle, if_neg (by decide), if_neg henter]
          split
          · rename_i herase
            simp only [if_pos herase] at hasked
            split
            · rename_i hempty
              have hline : line = [] := List.isEmpty_iff.mp hempty
              exact ⟨[], rfl, fun keys => by rw [hasked, hline]; rfl⟩
            · exact ⟨[], rfl, hasked⟩
          · rename_i herase
            simp only [if_neg herase] at hasked
            split
            · rename_i hprint
              refine ⟨[], rfl, fun keys => (hasked keys).trans (if_neg ?_)⟩
              simpa using hprint
            · rename_i hprint
              refine ⟨[], rfl, fun keys => (hasked keys).trans (if_pos ?_)⟩
              simpa using hprint

/-- The daemon follows the keystrokes up to a NUL byte in UART mode. -/
theorem served_of_asked (keys : List UInt8)
    (hkeys : 0 ∉ inputs (asked mode line keys)) :
    Session.run ⟨none, mode⟩ (Keyboard.run ⟨mode, line⟩ keys).1 =
      (⟨none, (Keyboard.run ⟨mode, line⟩ keys).2.rpictlMode⟩,
        asked mode line keys) := by
  induction keys generalizing mode line with
  | nil => rfl
  | cons key keys ih =>
      have hkey : mode = false → key ≠ 0 := by
        rintro rfl rfl
        exact hkeys (by simp [asked, inputs])
      have hstep := servedBy_press line hkey
      rw [Keyboard.run]
      cases hpress : Keyboard.press ⟨mode, line⟩ key with
      | detached echo =>
          rw [hpress] at hstep
          simp [Session.run, hstep keys]
      | typed sent echo next =>
          rw [hpress] at hstep
          obtain ⟨served, hserved, hasked⟩ := hstep
          rw [hasked keys, inputs_append, List.mem_append, not_or] at hkeys
          simp only [Session.run_append, hserved, hasked keys, ih hkeys.2]

/-- More keystrokes ask for more. -/
theorem asked_append (mode : Bool) (line : List Char)
    (keys more : List UInt8) :
    asked mode line keys <+: asked mode line (keys ++ more) := by
  induction keys generalizing mode line with
  | nil => exact List.nil_prefix
  | cons key keys ih =>
      simp only [List.cons_append, asked]
      split_ifs <;>
        first
        | exact ih _ _
        | exact List.prefix_rfl
        | exact (List.prefix_cons_inj _).mpr (ih _ _)

end Decoding

/--
The daemon decodes the keystrokes exactly when no NUL byte is among those typed
in UART mode.
-/
theorem decodesTyping_iff (keys : List UInt8) :
    DecodesTyping keys ↔ 0 ∉ uartBytes keys := by
  constructor
  · intro h hnul
    rw [← h.uart] at hnul
    exact Session.run_inputs _ _ hnul
  · intro hnul
    have hserved := served_of_asked keys hnul
    refine ⟨?_, ?_, fun typed htyped => ?_⟩
    · exact congrArg (fun served => inputs served.2) hserved
    · exact congrArg (fun served => commands served.2) hserved
    · obtain ⟨more, rfl⟩ := htyped
      obtain ⟨later, hlater⟩ := asked_append false [] typed more
      have htyped : 0 ∉ uartBytes typed := by
        intro h
        refine hnul ?_
        rw [uartBytes, ← hlater, inputs_append]
        exact List.mem_append_left _ h
      exact congrArg (fun served => served.1.rpictlMode)
        (served_of_asked typed htyped)

/-- A NUL byte that is typed for the board opens a command at the daemon. -/
theorem typed_nul_lost :
    ¬∀ keys, DecodesTyping keys := by
  intro h
  exact absurd (h [0]).uart (by decide)

example :
    servedFor [0x1D, 0x73, 0x74, 0x61, 0x1D, 0x61] =
      (⟨none, false⟩, [.input 0x61]) := by
  decide

end RpictlMcp
