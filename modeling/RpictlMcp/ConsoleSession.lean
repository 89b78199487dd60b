import RpictlMcp.Requests

/-!
# rpictl-mcp: the interactive console

This module embeds the interactive part of `console.rs`: the two loops of
`run_console` on the side of the client, one for the keyboard and one for what
the daemon sends, and the `CONSOLE` loop of `serve_client` on the other side.
Both sides share one byte stream in each direction, in which a NUL byte opens a
command (towards the daemon) or a response (towards the client).

What the loops do to the outside world is kept as data: the bytes a keystroke
sends and the text it echoes, the requests that the daemon serves, the bytes and
responses that the client shows.
-/

namespace RpictlMcp

/-- The variables of the keyboard loop. -/
structure Keyboard where
  rpictlMode : Bool
  cmdBuf : List Char
deriving DecidableEq, Repr

/-- A console opens in UART mode. -/
def Keyboard.initial : Keyboard := ⟨false, []⟩

/-- What a keystroke leads to: the loop ends, or bytes are sent and text is
echoed. -/
inductive Keyed where
  | detached (echo : Text)
  | typed (sent : List UInt8) (echo : Text) (next : Keyboard)
deriving DecidableEq, Repr

/-- The prompt of the command console. -/
def rpictlPrompt : String := "\x1b[36mrpictl> \x1b[0m"

/-- `is_remote_console_command`. -/
def isRemoteConsoleCommand (command : String) : Bool :=
  command ∈ ["poweron", "poweroff", "poweroff --force", "poweroff -f",
    "powercycle", "powerstatus", "power", "state"]

/-- The bytes that carry a command to the daemon. -/
def commandFrame (command : String) : List UInt8 :=
  0 :: utf8 command ++ [0x0A]

/-- The command that tells the daemon the mode of the client. -/
def modeCommand (rpictlMode : Bool) : String :=
  if rpictlMode then "__rpictl_on" else "__rpictl_off"

/-- Ctrl+] toggles between the raw UART and the command console. -/
def Keyboard.toggle (s : Keyboard) : Keyed :=
  let nextMode := !s.rpictlMode
  .typed (commandFrame (modeCommand nextMode))
    (if nextMode then utf8 ("\r\n" ++ rpictlPrompt)
      else utf8 "\r\n\x1b[90m[UART console]\x1b[0m\r\n")
    ⟨nextMode, []⟩

/-- Enter ends a line of the command console. -/
def Keyboard.enter (s : Keyboard) : Keyed :=
  let command := String.ofList (trim s.cmdBuf)
  let next : Keyboard := { s with cmdBuf := [] }
  if command = "exit" ∨ command = "quit" then .detached (utf8 "\r\n")
  else if command = "help" then
    .typed [] (utf8 ("\r\n" ++ consoleHelp ++ "\r\n" ++ rpictlPrompt)) next
  else if command = "" then
    .typed [] (utf8 ("\r\n" ++ rpictlPrompt)) next
  else if isRemoteConsoleCommand command then
    .typed (commandFrame command) (utf8 "\r\n") next
  else
    .typed [] (utf8 (s!"\r\nUnknown command: {command}. " ++
      "Type help for available commands.\r\n" ++ rpictlPrompt)) next

/-- `u8::is_ascii_control`. -/
def isAsciiControl (byte : UInt8) : Bool :=
  byte < 0x20 || byte = 0x7F

/-- One turn of the keyboard loop. -/
def Keyboard.press (s : Keyboard) (byte : UInt8) : Keyed :=
  if byte = 0x1D then s.toggle
  else if !s.rpictlMode then .typed [byte] [] s
  else if byte = 0x0D ∨ byte = 0x0A then s.enter
  else if byte = 0x08 ∨ byte = 0x7F then
    if s.cmdBuf.isEmpty then .typed [] [] s
    else .typed [] (utf8 "\x08 \x08") { s with cmdBuf := s.cmdBuf.dropLast }
  else if !isAsciiControl byte then
    .typed [] [byte] { s with cmdBuf := s.cmdBuf ++ [Char.ofNat byte.toNat] }
  else .typed [] [] s

/-- The keyboard loop: what it sends, and its variables at the end. -/
def Keyboard.run (s : Keyboard) : List UInt8 → List UInt8 × Keyboard
  | [] => ([], s)
  | byte :: keys =>
      match s.press byte with
      | .detached _ => ([], s)
      | .typed sent _ next =>
          let rest := next.run keys
          (sent ++ rest.1, rest.2)

/-- What the daemon does for a byte from a console client. -/
inductive Served where
  | input (byte : UInt8)
  | command (cmd : String)
  | undecodable
deriving DecidableEq, Repr

/-- The variables of the `CONSOLE` loop. -/
structure Session where
  commandBuf : Option (List UInt8)
  rpictlMode : Bool
deriving DecidableEq, Repr

/-- A session opens in UART mode, outside of any command. -/
def Session.initial : Session := ⟨none, false⟩

/-- `String::from_utf8`. -/
def stringFromUtf8 (bytes : List UInt8) : Option String :=
  String.fromUTF8? bytes.toByteArray

/-- The end of a command. -/
def Session.complete (s : Session) (command : List UInt8) :
    Session × List Served :=
  match stringFromUtf8 command with
  | none => (⟨none, s.rpictlMode⟩, [.undecodable])
  | some command =>
      let cmd := String.ofList (trim command.toList)
      if cmd = "__rpictl_on" then (⟨none, true⟩, [])
      else if cmd = "__rpictl_off" then (⟨none, false⟩, [])
      else (⟨none, s.rpictlMode⟩, [.command cmd])

/-- One byte of the `CONSOLE` loop. -/
def Session.receive (s : Session) (byte : UInt8) : Session × List Served :=
  match s.commandBuf with
  | some command =>
      if byte = 0x0A ∨ byte = 0x0D then s.complete command
      else ({ s with commandBuf := some (command ++ [byte]) }, [])
  | none =>
      if byte = 0 then ({ s with commandBuf := some [] }, [])
      else (s, [.input byte])

/-- The `CONSOLE` loop over the bytes of a client. -/
def Session.run (s : Session) : List UInt8 → Session × List Served
  | [] => (s, [])
  | byte :: bytes =>
      let next := s.receive byte
      let rest := next.1.run bytes
      (rest.1, next.2 ++ rest.2)

/-- The request that serves a byte or a command of a console client. -/
def Served.request? (boardId : String) : Served → Option ClientRequest
  | .input byte => some (.consoleInput boardId byte)
  | .command cmd => some (.consoleCommand boardId cmd)
  | .undecodable => none

/-- A response as it is written to the stream of a client. -/
def responseFrame (response : Text) : List UInt8 :=
  [0, 0x52] ++ response ++ [0]

/-- What the client shows. -/
inductive Shown where
  | console (bytes : List UInt8)
  | response (text : Text)
deriving DecidableEq, Repr

/-- The variables of the receive loop. -/
structure Receiver where
  response : List UInt8
  responseMode : Bool
  pendingNul : Bool
deriving DecidableEq, Repr

/-- A client starts to receive outside of any response. -/
def Receiver.initial : Receiver := ⟨[], false, false⟩

/-- One byte of the receive loop. -/
def Receiver.receive (s : Receiver) (byte : UInt8) :
    Receiver × List Shown :=
  if s.responseMode then
    if byte = 0 then
      (⟨[], false, s.pendingNul⟩, [.response (fromUtf8Lossy s.response)])
    else ({ s with response := s.response ++ [byte] }, [])
  else if s.pendingNul then
    if byte = 0x52 then (⟨s.response, true, false⟩, [])
    else (⟨s.response, false, false⟩, [.console [0, byte]])
  else if byte = 0 then ({ s with pendingNul := true }, [])
  else (s, [.console [byte]])

/-- The receive loop over the bytes of one read. -/
def Receiver.run (s : Receiver) : List UInt8 → Receiver × List Shown
  | [] => (s, [])
  | byte :: bytes =>
      let next := s.receive byte
      let rest := next.1.run bytes
      (rest.1, next.2 ++ rest.2)

/-- The receive loop over the reads of a stream. -/
def Receiver.runReads (s : Receiver) : List (List UInt8) →
    Receiver × List Shown
  | [] => (s, [])
  | bytes :: reads =>
      let next := s.run bytes
      let rest := next.1.runReads reads
      (rest.1, next.2 ++ rest.2)

theorem Session.run_append (s : Session) (bytes rest : List UInt8) :
    s.run (bytes ++ rest) =
      (((s.run bytes).1.run rest).1,
        (s.run bytes).2 ++ ((s.run bytes).1.run rest).2) := by
  induction bytes generalizing s with
  | nil => rfl
  | cons byte bytes ih =>
      simp only [List.cons_append, Session.run, ih, List.append_assoc]

theorem Receiver.run_append (s : Receiver) (bytes rest : List UInt8) :
    s.run (bytes ++ rest) =
      (((s.run bytes).1.run rest).1,
        (s.run bytes).2 ++ ((s.run bytes).1.run rest).2) := by
  induction bytes generalizing s with
  | nil => rfl
  | cons byte bytes ih =>
      simp only [List.cons_append, Receiver.run, ih, List.append_assoc]

/-- It does not matter how a stream is split into reads. -/
theorem Receiver.runReads_eq (s : Receiver) (reads : List (List UInt8)) :
    s.runReads reads = s.run reads.flatten := by
  induction reads generalizing s with
  | nil => rfl
  | cons bytes reads ih =>
      rw [List.flatten_cons, Receiver.run_append, Receiver.runReads, ih]

/-- Decoding undoes encoding. -/
theorem stringFromUtf8_utf8 (s : String) :
    stringFromUtf8 (utf8 s) = some s := by
  have hbytes : (utf8 s).toByteArray = s.toByteArray :=
    String.utf8Encode_toList
  unfold stringFromUtf8 String.fromUTF8?
  rw [hbytes, dif_pos s.isValidUTF8]
  rfl

end RpictlMcp
