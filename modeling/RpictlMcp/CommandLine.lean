import RpictlMcp.CommandOutcome
import RpictlMcp.ConsoleSession
import RpictlMcp.EnterUboot
import RpictlMcp.StateLocality

/-!
# rpictl-mcp: one command, one line

`validate_one_line` looks at the characters of a command, the console at the
bytes that are sent.  A byte below 0x80 in an encoded text is a character of the
text, so a command without control characters is sent without control bytes, and
what `console_command` adds has none but the carriage return at the end.
-/

namespace RpictlMcp

open Prog

/-- An operation id is printed by the uuid crate, as digits and hyphens. -/
def UuidText (operationId : String) : Prop :=
  ∀ c ∈ operationId.toList, c ∈ "0123456789abcdef-".toList

/-- One line for the console: the command, and no control byte but the carriage
return at its end. -/
structure ConsoleLine (command : String) (wire : Text) : Prop where
  starts : utf8 command <+: wire
  controls : wire.filter isAsciiControl = [0x0D]
  ends : wire.getLast? = some 0x0D

section CommandLine

variable {command operationId marker : String} {linux : Bool} {c : Char}

/-! ## Control bytes and control characters -/

theorem isControl_of_byte {x : UInt8} (hmem : x ∈ String.utf8EncodeChar c)
    (hx : isAsciiControl x = true) : isControl c = true := by
  have hcases : x.toNat < 32 ∨ x.toNat = 127 := by
    simpa [isAsciiControl, UInt8.lt_iff_toNat_lt, ← UInt8.toNat_inj] using hx
  have hascii : x < 0x80 := by
    simp only [UInt8.lt_iff_toNat_lt, UInt8.reduceToNat]
    omega
  have hcode := toNat_of_mem_utf8EncodeChar hmem hascii
  simp only [isControl, Bool.or_eq_true, Bool.and_eq_true, decide_eq_true_eq]
  omega

/-- A text without control characters is sent without control bytes. -/
theorem filter_isAsciiControl_utf8 {s : String}
    (h : ∀ c ∈ s.toList, isControl c = false) :
    (utf8 s).filter isAsciiControl = [] := by
  rw [List.filter_eq_nil_iff]
  intro x hx hcontrol
  obtain ⟨c, hc, hmem⟩ := List.mem_flatMap.mp hx
  have hc := h c hc
  rw [isControl_of_byte hmem hcontrol] at hc
  cases hc

/-- What `validate_one_line` looks for are the control characters. -/
theorem any_isControl :
    (command.toList.any fun c => c = '\r' || c = '\n' || c.toNat = 0) = true →
      command.toList.any isControl = true := by
  simp only [List.any_eq_true]
  rintro ⟨c, hc, hfound⟩
  refine ⟨c, hc, ?_⟩
  simp only [Bool.or_eq_true, decide_eq_true_eq] at hfound
  rcases hfound with (rfl | rfl) | hzero
  · rfl
  · rfl
  · simp [isControl, hzero]

theorem rejectsLine_iff :
    (command.isEmpty ||
        command.toList.any (fun c => c = '\r' || c = '\n' || c.toNat = 0) ||
        command.toList.any isControl) = true ↔
      command = "" ∨ ∃ c ∈ command.toList, isControl c = true := by
  rw [Bool.or_eq_true, Bool.or_eq_true, ← List.any_eq_true]
  constructor
  · rintro ((hempty | hfound) | hcontrol)
    · exact .inl (by simpa using hempty)
    · exact .inr (any_isControl hfound)
    · exact .inr hcontrol
  · rintro (rfl | hcontrol)
    · exact .inl (.inl rfl)
    · exact .inr hcontrol

theorem validateOneLine_eq_error
    (h : command = "" ∨ ∃ c ∈ command.toList, isControl c = true) :
    ∃ e, e.code = .commandDenied ∧ validateOneLine command = .error e := by
  rw [validateOneLine, if_pos (rejectsLine_iff.mpr h)]
  exact ⟨_, rfl, rfl⟩

/-- What `validate_one_line` accepts. -/
theorem validateOneLine_eq_ok_iff :
    validateOneLine command = .ok () ↔
      command ≠ "" ∧ ∀ c ∈ command.toList, isControl c = false := by
  unfold validateOneLine
  split
  · rename_i h
    simpa [imp_iff_not_or] using rejectsLine_iff.mp h
  · rename_i h
    rw [rejectsLine_iff] at h
    simpa using h

/-! ## What is sent -/

/-- What `console_command` sends behind the command. -/
def wireTail (linux : Bool) (marker : String) : Text :=
  if linux then
    utf8 "; printf '\\n" ++ utf8 marker ++ utf8 ":%s\\n' \"$?\""
  else []

theorem commandWire_eq :
    commandWire command linux marker =
      utf8 command ++ (wireTail linux marker ++ [0x0D]) := by
  have hreturn : utf8 "\r" = [0x0D] := by decide
  cases linux with
  | false => rw [commandWire, hreturn]; rfl
  | true =>
      have hwire : commandWire command true marker =
          utf8 (command ++ "; printf '\\n" ++ marker ++
            (":%s\\n' \"$?\"" ++ "\r")) := rfl
      rw [hwire, utf8_append, utf8_append, utf8_append, utf8_append, hreturn]
      simp [wireTail]

theorem isControl_of_all {s : String}
    (h : (s.toList.all fun c => !isControl c) = true) :
    ∀ c ∈ s.toList, isControl c = false := by
  simpa using h

theorem completionMarker_isControl (hid : UuidText operationId) :
    ∀ c ∈ (completionMarker operationId).toList, isControl c = false := by
  intro c hc
  simp only [completionMarker, String.toList_append, String.toList_ofList,
    List.mem_append, List.mem_filter] at hc
  rcases hc with (hc | ⟨hc, -⟩) | hc
  · exact isControl_of_all (by decide) c hc
  · exact isControl_of_all (by decide) c (hid c hc)
  · exact isControl_of_all (by decide) c hc

/-- What stands between the command and the carriage return. -/
theorem filter_wireTail (hid : UuidText operationId) :
    (wireTail linux (completionMarker operationId)).filter isAsciiControl =
      [] := by
  cases linux with
  | false => rfl
  | true =>
      have hopening : (utf8 "; printf '\\n").filter isAsciiControl = [] := by
        decide
      have hclosing : (utf8 ":%s\\n' \"$?\"").filter isAsciiControl = [] := by
        decide
      rw [wireTail, if_pos rfl, List.filter_append, List.filter_append,
        hopening, hclosing,
        filter_isAsciiControl_utf8 (completionMarker_isControl hid)]
      rfl

/-- An accepted command is sent as one line. -/
theorem consoleLine_commandWire (hline : validateOneLine command = .ok ())
    (hid : UuidText operationId) :
    ConsoleLine command
      (commandWire command linux (completionMarker operationId)) := by
  obtain ⟨-, hcontrol⟩ := validateOneLine_eq_ok_iff.mp hline
  rw [commandWire_eq]
  constructor
  · exact List.prefix_append _ _
  · rw [List.filter_append, List.filter_append,
      filter_isAsciiControl_utf8 hcontrol, filter_wireTail hid]
    rfl
  · rw [← List.append_assoc, List.getLast?_concat]

end CommandLine

section Transmission

variable {name command operationId : String} {linux : Bool}
variable {profile : BoardProfile} {log t : List Event}

/-- Some bytes have been sent under the lease of an operation. -/
structure Sent (name operationId : String) (bytes : List UInt8)
    (log : List Event) : Prop where
  acquired : .acquired ⟨operationId, name⟩ ∈ log
  bytes : writtenBytes log = bytes

/-- What a request for a command has sent is the beginning of its line. -/
def Sending (name command : String) (linux : Bool) (log : List Event) :
    Prop :=
  ∃ operationId bytes, Sent name operationId bytes log ∧
    bytes <+: commandWire command linux (completionMarker operationId)

/-- What the thread of a request for a command may do. -/
def LinePermitted (name command : String) (linux : Bool) (log : List Event) :
    Event → Prop
  | .wrote byte error =>
      Sending name command linux (log ++ [.wrote byte error])
  | _ => True

theorem lenient_line : Lenient (LinePermitted name command linux) where
  passive _ e he := by
    cases e <;> trivial
  queried _ _ := trivial
  switched _ _ _ := trivial

theorem Sent.append {bytes : List UInt8} (h : Sent name operationId bytes log)
    (t : List Event) :
    Sent name operationId (bytes ++ writtenBytes t) (log ++ t) where
  acquired := List.mem_append_left _ h.acquired
  bytes := by rw [writtenBytes_append, h.bytes]

theorem Sent.silent {bytes : List UInt8} (h : Sent name operationId bytes log)
    (ht : writtenBytes t = []) :
    Sent name operationId bytes (log ++ t) := by
  have happend := h.append t
  rwa [ht, List.append_nil] at happend

/-- The bytes of the line are sent in their order. -/
theorem writableInOrder_sent :
    WritableInOrder (LinePermitted name command linux)
      (commandWire command linux (completionMarker operationId))
      (Sent name operationId) where
  write done byte rest log error hwhole hsent := by
    have hwrote : Sent name operationId (done ++ [byte])
        (log ++ [.wrote byte error]) := hsent.append [.wrote byte error]
    refine ⟨⟨operationId, _, hwrote, rest, ?_⟩, hwrote⟩
    rw [hwhole, List.append_assoc, List.singleton_append]
  sleep done log ms hsent := ⟨trivial, hsent.silent rfl⟩

theorem Passive.writtenBytes (h : Passive t) : writtenBytes t = [] := by
  rw [RpictlMcp.writtenBytes, h.written, List.map_nil]

theorem consoleCommandAction_sent {timeoutMs : Nat} {base : List Event}
    (hbase : Sent name operationId [] base) :
    Traces BoardOp.emits (LinePermitted name command linux)
      (consoleCommandAction profile command linux timeoutMs operationId).run
      base fun r t => ∀ performed, r = .ok performed →
        Sent name operationId
          (commandWire command linux (completionMarker operationId))
          (base ++ t) := by
  refine Traces.bindE (nextCursor_traces fun _ => trivial) ?_ (by simp)
  rintro _ _ ⟨start, ⟨⟩, rfl⟩
  refine Traces.bindE (writeConsole_inOrder writableInOrder_sent
    (hbase.silent rfl)) ?_ (by simp)
  intro _ t₁ h₁
  have hsent := h₁ rfl
  refine Traces.bindE (waitForStatesAfter_traces lenient_line _ _ _ _) ?_
    (by simp)
  intro _ t₂ h₂
  have hwaited := hsent.silent h₂.passive.writtenBytes
  refine Traces.lookBind (fun _ => trivial) fun console => ?_
  refine Traces.resultBind ?_ (by simp)
  intro output _
  refine Traces.done fun performed _ => ?_
  simpa using hwaited.silent (t := [.looked console]) rfl

variable {registry : BoardRegistry} {boardId : String} {timeoutMs : Nat}

/-- A command that succeeds has been sent as a whole. -/
theorem consoleCommand_sent :
    Traces BoardOp.emits (LinePermitted name command linux)
      (consoleCommand registry boardId name command linux timeoutMs).run []
      fun r t => ∀ result, r = .ok result → ∃ operationId,
        Sent name operationId
          (commandWire command linux (completionMarker operationId)) t := by
  refine Traces.resultBind ?_ (by simp)
  intro profile hprofile
  refine Traces.resultBind ?_ (by simp)
  intro _ _
  refine Traces.bindE (operation_outcome (fun _ => trivial)
    (fun _ _ => trivial) (fun _ _ => trivial) fun found operationId _ =>
      consoleCommandAction_sent ⟨by simp, rfl⟩) ?_ (by simp)
  rintro result t (⟨-, e, ⟨⟩⟩ | ⟨operationId, s, rfl, hreported⟩)
  obtain ⟨performed, s, console, rfl, hsent, -⟩ := hreported
  refine Traces.done fun _ _ => ⟨operationId, ?_⟩
  simpa using (hsent performed rfl).silent (t := [.looked console,
    .released ⟨operationId, name⟩]) rfl

theorem Sending.silent (h : Sending name command linux log)
    (ht : writtenBytes t = []) : Sending name command linux (log ++ t) := by
  obtain ⟨operationId, bytes, hsent, hprefix⟩ := h
  exact ⟨operationId, bytes, hsent.silent ht, hprefix⟩

/-- At every point of a run the beginning of the line has been sent. -/
theorem sending_of_lawful (h : Lawful (LinePermitted name command linux) log)
    (hwrote : writtenBytes log ≠ []) : Sending name command linux log := by
  refine within_of_lawful (Sending name command linux) h ?_ ?_ hwrote
  · exact fun log byte error hpermitted => hpermitted
  · exact fun log e hsending hsilent => hsending.silent hsilent

/-- A command that is not accepted is rejected without any effect. -/
theorem consoleCommand_rejected
    (hprofile : registry.board boardId = .ok profile)
    (h : command = "" ∨ ∃ c ∈ command.toList, isControl c = true) :
    ∃ e, e.code = .commandDenied ∧
      (consoleCommand registry boardId name command linux timeoutMs).run =
        Prog.pure (.error e) := by
  obtain ⟨e, hcode, he⟩ := validateOneLine_eq_error h
  refine ⟨e, hcode, ?_⟩
  rw [consoleCommand, hprofile, he]
  rfl

end Transmission

/-- What a request for a command sends, in all its runs. -/
structure SendsOneLine (registry : BoardRegistry)
    (boardId name command : String) (linux : Bool) (timeoutMs : Nat) :
    Prop where
  line : validateOneLine command = .ok () →
    ∀ operationId, UuidText operationId → ConsoleLine command
      (commandWire command linux (completionMarker operationId))
  sent : validateOneLine command = .ok () →
    ∀ {ι : Type} [DecidableEq ι] (t : Thread ι)
      (q : Prog BoardSig (Result OperationResult)) (w : World ι),
      RunsTo t (consoleCommand registry boardId name command linux
        timeoutMs).run q w →
      (∀ owner, .acquired owner ∈ w.threadLog t →
        UuidText owner.operationId) →
      (∃ wire, ConsoleLine command wire ∧
        writtenBytes (w.threadLog t) <+: wire) ∧
      ∀ result, q = .pure (.ok result) →
        ConsoleLine command (writtenBytes (w.threadLog t))
  rejected : ∀ profile, registry.board boardId = .ok profile →
    (command = "" ∨ ∃ c ∈ command.toList, isControl c = true) →
      ∃ e, e.code = .commandDenied ∧
        (consoleCommand registry boardId name command linux timeoutMs).run =
          .pure (.error e)

section OneLine

/--
For every command: if it is accepted, what `console_command` transmits is the
command and text without control bytes up to a carriage return, the beginning of
it at every point of every run and all of it in every run that succeeds; if it is
empty or has a control character, it is rejected and nothing else happens.
-/
theorem consoleCommand_oneLine (registry : BoardRegistry)
    (boardId name command : String) (linux : Bool) (timeoutMs : Nat) :
    SendsOneLine registry boardId name command linux timeoutMs := by
  constructor
  · exact fun hline operationId hid => consoleLine_commandWire hline hid
  · intro hline ι _ t q w hrun huuid
    have hexec := hrun.exec
    have hid : ∀ {operationId bytes}, Sent name operationId bytes
        (w.threadLog t) → UuidText operationId := fun hsent =>
      huuid _ hsent.acquired
    constructor
    · by_cases hnone : writtenBytes (w.threadLog t) = []
      · have hempty : UuidText "" := by simp [UuidText]
        refine ⟨commandWire command linux (completionMarker ""),
          consoleLine_commandWire hline hempty, ?_⟩
        rw [hnone]
        exact List.nil_prefix
      · obtain ⟨operationId, bytes, hsent, hprefix⟩ :=
          sending_of_lawful (consoleCommand_sent.lawful hexec) hnone
        rw [hsent.bytes]
        exact ⟨_, consoleLine_commandWire hline (hid hsent), hprefix⟩
    · rintro result rfl
      obtain ⟨operationId, hsent⟩ :=
        consoleCommand_sent.result hexec result rfl
      rw [hsent.bytes]
      exact consoleLine_commandWire hline (hid hsent)
  · exact fun profile hprofile h => consoleCommand_rejected hprofile h

/-- What the simulated board sends for the command "true": the echo of the line,
the status and the prompt. -/
def trueText : Text :=
  commandWire "true" true (completionMarker echoOperation) ++ utf8 "\n\n" ++
    utf8 (completionMarker echoOperation) ++ utf8 ":0\nroot@fake:#"

theorem commandOutput_trueText :
    commandOutput true (completionMarker echoOperation) trueText =
      .ok trueText := by
  have hzero : contains trueText
      (utf8 s!"{completionMarker echoOperation}:0") = true := by
    decide +kernel
  rw [commandOutput, hzero]
  rfl

/-- The command "true" is sent as one line and succeeds, under an operation id
of the documented form. -/
theorem consoleCommand_oneLine_true :
    ∃ (w : World Unit) (result : OperationResult), RunsTo ((), .main)
        (consoleCommand simulatedRegistry simulated.boardId "run_linux_command"
          "true" true 1000).run (.pure (.ok result)) w ∧
      .acquired ⟨echoOperation, "run_linux_command"⟩ ∈
        w.threadLog ((), .main) ∧
      ConsoleLine "true" (writtenBytes (w.threadLog ((), .main))) ∧
      ConsoleLine "true"
        (commandWire "true" true (completionMarker echoOperation)) := by
  have hline : validateOneLine "true" = .ok () := by decide
  have hdigits : echoOperation.toList.all
      (fun c => decide (c ∈ "0123456789abcdef-".toList)) = true := by
    decide +kernel
  have huuid : UuidText echoOperation := fun c hc =>
    of_decide_eq_true (List.all_eq_true.mp hdigits c hc)
  have htext : ShellText trueText :=
    ⟨isAscii_of_all (by decide), by decide +kernel, by decide +kernel⟩
  obtain ⟨w, result, hrun, d, hlog⟩ := consoleCommand_succeeds hline htext
    commandOutput_trueText
  have hsends := consoleCommand_oneLine simulatedRegistry simulated.boardId
    "run_linux_command" "true" true 1000
  have howners : ∀ owner, .acquired owner ∈ w.threadLog ((), .main) →
      UuidText owner.operationId := by
    intro owner howner
    obtain rfl : owner = ⟨echoOperation, "run_linux_command"⟩ := by
      simpa [hlog, writeEvents, simulated] using howner
    exact huuid
  refine ⟨w, result, hrun, by simp [hlog], ?_, hsends.line hline _ huuid⟩
  exact (hsends.sent hline _ _ w hrun howners).2 result rfl

example : commandWire "ls" true (completionMarker "0-1") =
    utf8 "ls; printf '\\n__RPICTL_01__:%s\\n' \"$?\"\r" := by
  decide

end OneLine

end RpictlMcp
