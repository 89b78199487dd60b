import RpictlMcp.PowerCommand

/-!
# rpictl-mcp: what holds in every run of a power command

Whatever the pipes, the subprocess and the clock respond: the budget that the
two pipes share is never overdrawn, a result is what both pipes have delivered up
to their ends, and the child is reaped once, after its group has been killed or
both pipes have ended.  The process group of a child that has been reaped is
never killed.
-/

namespace RpictlMcp

open Prog

section Runs

variable {command : Command} {deadline : Nat} {phase : String}

/-- The reads of the collection loop keep to the budget. -/
structure KeepsBudget (phase : String) (s : Collected) (log : List BoardCall) :
    Prop where
  round : s.stdout.length + s.stderr.length + s.remaining =
    maxPowerOutputBytes
  first : ∀ stdout log', Returns (logSem calls)
    (collectUnlessEof s.stdoutEof .stdout s.stdout s.remaining phase).run log
      (.ok stdout) log' →
    stdout.bytes.length + s.stderr.length + stdout.remaining =
      maxPowerOutputBytes
  second : ∀ stdout log' stderr log'', Returns (logSem calls)
    (collectUnlessEof s.stdoutEof .stdout s.stdout s.remaining phase).run log
      (.ok stdout) log' →
    Returns (logSem calls)
      (collectUnlessEof s.stderrEof .stderr s.stderr stdout.remaining
        phase).run log' (.ok stderr) log'' →
    stdout.bytes.length + stderr.bytes.length + stderr.remaining =
      maxPowerOutputBytes

/-- One read takes from the budget what it adds to the bytes. -/
theorem budget_of_returns {pipe : Pipe} {eof : Bool} {bytes : List UInt8}
    {remaining : Nat} {log log' : List BoardCall} {c : Collection}
    (h : Returns (logSem calls)
      (collectUnlessEof eof pipe bytes remaining phase).run log (.ok c) log') :
    c.bytes.length + c.remaining = bytes.length + remaining := by
  have hread : Traces calls (fun _ _ => True)
      (collectUnlessEof eof pipe bytes remaining phase).run log
      (ReadOnce pipe eof bytes remaining) :=
    collectUnlessEof_calls fun _ => trivial
  obtain ⟨t, -, hread⟩ := hread.returns h
  exact hread.budget c rfl

/-- The calls of a power command up to its collection loop. -/
def callsBeforeLoop (command : Command) (now : Nat) : List BoardCall :=
  [⟨.instantNow, now⟩, ⟨.spawn command, none⟩] ++ setUpCalls

/-- A round of the collection loop of a power command. -/
def CollectionRound (command : Command) (deadline : Nat) (phase : String)
    (s : Collected) (log : List BoardCall) : Prop :=
  ∃ now, ComesRound (logSem calls) (collectTurn deadline phase)
    (Collected.initial, callsBeforeLoop command now) (s, log)

/-- In every round the variables are those of the calls so far. -/
theorem CollectionRound.collecting {s : Collected} {log : List BoardCall}
    (h : CollectionRound command deadline phase s log) :
    ∃ now t, log = [⟨.instantNow, now⟩, ⟨.spawn command, none⟩] ++ t ∧
      Collecting s t := by
  obtain ⟨now, hround⟩ := h
  refine ⟨now, hround.invariant (J := fun s log => ∃ t,
    log = [⟨.instantNow, now⟩, ⟨.spawn command, none⟩] ++ t ∧ Collecting s t)
    ?_ ⟨_, rfl, collecting_setUp⟩⟩
  rintro s log s' log' ⟨t, rfl, hs⟩ hturn
  have hchild : childStatus
      ([⟨.instantNow, now⟩, ⟨.spawn command, none⟩] ++ t) = .unreaped := by
    rw [childStatus_append_quiet hs.quiet]
    rfl
  obtain ⟨t', rfl, hends⟩ := (collectTurn_calls hchild hs).returns hturn
  exact ⟨t ++ t', by rw [List.append_assoc], hends⟩

/--
In every run of a power command the reads keep to the budget, a result is all
that the two pipes have delivered up to their ends, from a child that has exited,
and output is given up as too long only if too much of it has been read.
-/
theorem runPowerCommand_collects (command : Command) (deadline : Nat)
    (phase : String) :
    (∀ s log, CollectionRound command deadline phase s log →
      KeepsBudget phase s log) ∧
    ∀ result log, Returns (logSem calls)
        (runPowerCommand command deadline phase).run [] result log →
      (∀ output, result = .ok output → Collects output log) ∧
      ∀ e, result = .error e → e.code = .outputTruncated →
        maxPowerOutputBytes <
          (bytesRead .stdout log).length + (bytesRead .stderr log).length := by
  constructor
  · intro s log hround
    obtain ⟨now, t, -, hs⟩ := hround.collecting
    have hbudget := hs.budget
    constructor
    · exact hbudget
    · intro stdout log' hstdout
      have := budget_of_returns hstdout
      omega
    · intro stdout log' stderr log'' hstdout hstderr
      have := budget_of_returns hstdout
      have := budget_of_returns hstderr
      omega
  · intro result log hrun
    obtain ⟨t, rfl, hcommand⟩ := runPowerCommand_calls.returns hrun
    constructor
    · rintro output rfl
      exact hcommand.collects
    · rintro e rfl hcode
      exact hcommand.truncated hcode

/-- Quiet calls do not reap. -/
theorem countP_reaps_eq_zero {log : List BoardCall}
    (hquiet : ∀ c ∈ log, c.IsQuiet) : log.countP reaps = 0 := by
  rw [List.countP_eq_zero]
  intro c hc
  simp [(hquiet c hc).2.2]

/-- How a power command that has spawned a child ends. -/
structure Reaps (result : Result Output) (log : List BoardCall) : Prop where
  once : log.countP reaps = 1
  ok : ∀ output, result = .ok output → ReadToEnd .stdout log ∧
    ReadToEnd .stderr log ∧ ⟨.tryWait, .ok (some output.success)⟩ ∈ log
  error : ∀ e, result = .error e → ⟨.killGroup, ()⟩ ∈ log

theorem RunsCommand.reaps {result : Result Output} {log : List BoardCall}
    (h : RunsCommand command result log)
    (hspawned : ⟨.spawn command, none⟩ ∈ log)
    (hwait : ∀ failure, ⟨.waitChild, some failure⟩ ∉ log) :
    Reaps result log := by
  cases result with
  | ok output =>
      have hcollects := h.collects
      constructor
      · cases h with
        | unlaunched hresult => cases hresult
        | launched now h =>
            obtain ⟨-, front, rfl, hquiet⟩ := h
            have hzero := countP_reaps_eq_zero hquiet
            simp [hzero, RpictlMcp.reaps]
      · rintro output ⟨⟩
        exact ⟨hcollects.stdoutEnded, hcollects.stderrEnded,
          hcollects.exited⟩
      · rintro e ⟨⟩
  | error e =>
      cases h with
      | unlaunched hresult hcode hquiet =>
          have hspawn := (hquiet _ hspawned).1
          cases hspawn
      | launched now h =>
          obtain ⟨front, final, rfl, hquiet, -⟩ := h
          cases final with
          | some failure => exact absurd (by simp) (hwait failure)
          | none =>
              have hzero := countP_reaps_eq_zero hquiet
              constructor
              · simp [hzero, RpictlMcp.reaps]
              · rintro output ⟨⟩
              · intro _ _
                simp

/--
In every run of a power command the group is killed only while its child has not
been reaped; and a run that has spawned a child and comes to its end has reaped
it once, after both pipes have ended or the group has been killed.
-/
theorem runPowerCommand_reaps {q : Prog BoardSig (Result Output)}
    {log : List BoardCall}
    (hexec : Exec (logSem calls)
      ((runPowerCommand command deadline phase).run, []) (q, log)) :
    (∀ before after, log = before ++ ⟨.killGroup, ()⟩ :: after →
      childStatus before = .unreaped) ∧
    ∀ result, q = .pure result → ⟨.spawn command, none⟩ ∈ log →
      (∀ failure, ⟨.waitChild, some failure⟩ ∉ log) → Reaps result log := by
  have htraces : Traces calls ReapsOnce
      (runPowerCommand command deadline phase).run [] (RunsCommand command) :=
    runPowerCommand_calls
  constructor
  · intro before after hlog
    exact htraces.lawful hexec before _ after hlog (.inl rfl)
  · rintro result rfl hspawned hwait
    obtain ⟨t, rfl, hcommand⟩ := htraces.returns hexec
    exact hcommand.reaps hspawned hwait

end Runs

section Brief

variable {deadline : Nat} {phase : String} {log : List BoardCall}

/-- The calls of a command that writes one piece of data and exits. -/
def briefCalls (command : Command) (data : PipeData) (success : Bool) :
    List BoardCall :=
  [⟨.instantNow, (0 : Nat)⟩, ⟨.spawn command, none⟩,
    ⟨.setNonblocking .stdout, none⟩, ⟨.setNonblocking .stderr, none⟩,
    ⟨.instantNow, (0 : Nat)⟩, ⟨.readPipe .stdout, .data data⟩,
    ⟨.readPipe .stderr, .eof⟩, ⟨.instantNow, (0 : Nat)⟩,
    ⟨.readPipe .stdout, .eof⟩, ⟨.tryWait, .ok (some success)⟩]

variable {pipe : Pipe} {bytes : List UInt8} {remaining : Nat}

theorem collectUnlessEof_data (data : PipeData)
    (hroom : data.val.length ≤ remaining) :
    Returns (logSem calls)
      (collectUnlessEof false pipe bytes remaining phase).run log
      (.ok ⟨false, bytes ++ data.val, remaining - data.val.length⟩)
      (log ++ [⟨.readPipe pipe, .data data⟩]) := by
  refine Returns.call (r := ReadResult.data data) ?_
  dsimp only
  rw [if_neg (by omega)]
  exact Returns.pure _ _

theorem collectUnlessEof_eof :
    Returns (logSem calls)
      (collectUnlessEof false pipe bytes remaining phase).run log
      (.ok ⟨true, bytes, remaining⟩) (log ++ [⟨.readPipe pipe, .eof⟩]) :=
  Returns.call (r := ReadResult.eof) (Returns.pure _ _)

/-- The turn that reads the data. -/
theorem collectTurn_data (hdeadline : 0 < deadline) (data : PipeData) :
    Returns (logSem calls) (collectTurn deadline phase Collected.initial).run
      log (.ok (.inl ⟨data.val, [], false, true,
        maxPowerOutputBytes - data.val.length⟩))
      (log ++ [⟨.instantNow, (0 : Nat)⟩] ++
        [⟨.readPipe .stdout, .data data⟩] ++ [⟨.readPipe .stderr, .eof⟩]) := by
  obtain ⟨hpos, hfits⟩ := data.property
  have hroom : data.val.length ≤ maxPowerOutputBytes := by
    simp only [maxPowerOutputBytes]
    omega
  refine Returns.call (r := (0 : Nat)) ?_
  rw [if_neg (by omega)]
  refine (collectUnlessEof_data data hroom).bindE ?_
  refine collectUnlessEof_eof.bindE ?_
  refine (Returns.pure (Except.ok (Except.ok none)) _).bindE ?_
  dsimp only
  rw [if_neg (by
    simp only [Collected.initial]
    omega)]
  exact Returns.pure _ _

/-- The turn that ends the loop. -/
theorem collectTurn_exit (hdeadline : 0 < deadline) (success : Bool) :
    Returns (logSem calls)
      (collectTurn deadline phase ⟨bytes, [], false, true, remaining⟩).run
      log (.ok (.inr ⟨success, bytes, []⟩))
      (log ++ [⟨.instantNow, (0 : Nat)⟩] ++ [⟨.readPipe .stdout, .eof⟩] ++
        [⟨.tryWait, .ok (some success)⟩]) := by
  refine Returns.call (r := (0 : Nat)) ?_
  rw [if_neg (by omega)]
  refine collectUnlessEof_eof.bindE ?_
  refine Returns.bindE (a := ⟨true, [], remaining⟩) (Returns.pure _ _) ?_
  exact Returns.bindE (a := .ok (some success)) Returns.answer
    (Returns.pure _ _)

/-- A command whose collection loop ends with an output. -/
theorem runPowerCommand_of_loop (hdeadline : 0 < deadline) {command : Command}
    {output : Output} {log' : List BoardCall}
    (hloop : Returns (logSem calls)
      (Prog.iterateE (collectTurn deadline phase) Collected.initial).run
      (log ++ callsBeforeLoop command 0) (.ok output) log') :
    Returns (logSem calls) (runPowerCommand command deadline phase).run log
      (.ok output) log' := by
  have hcalls : log ++ callsBeforeLoop command 0 =
      log ++ [⟨.instantNow, (0 : Nat)⟩] ++ [⟨.spawn command, none⟩] ++
        [⟨.setNonblocking .stdout, none⟩] ++
        [⟨.setNonblocking .stderr, none⟩] := by
    simp [callsBeforeLoop, setUpCalls]
  rw [hcalls] at hloop
  refine Returns.call (r := (0 : Nat)) ?_
  rw [if_neg (by omega)]
  refine Returns.call (r := (none : Option Text)) ?_
  refine Returns.bindE (a := .ok output)
    (Returns.bind ?_ (Returns.pure _ _)) (Returns.pure _ _)
  refine Returns.call (r := (none : Option Text)) ?_
  refine Returns.call (r := (none : Option Text)) ?_
  exact hloop

/-- A command that writes one piece of data and exits. -/
theorem runPowerCommand_brief (hdeadline : 0 < deadline) (command : Command)
    (data : PipeData) (success : Bool) :
    Returns (logSem calls) (runPowerCommand command deadline phase).run log
      (.ok ⟨success, data.val, []⟩)
      (log ++ briefCalls command data success) := by
  have hexit : briefCalls command data success =
      callsBeforeLoop command 0 ++ [⟨.instantNow, (0 : Nat)⟩] ++
        [⟨.readPipe .stdout, .data data⟩] ++ [⟨.readPipe .stderr, .eof⟩] ++
        [⟨.instantNow, (0 : Nat)⟩] ++ [⟨.readPipe .stdout, .eof⟩] ++
        [⟨.tryWait, .ok (some success)⟩] := rfl
  refine runPowerCommand_of_loop hdeadline ?_
  rw [hexit]
  simp only [← List.append_assoc]
  exact Returns.iterateE_next (collectTurn_data hdeadline data)
    (Returns.iterateE_done (collectTurn_exit hdeadline success))

/-! ### Output that comes byte by byte -/

/-- A read that delivers one byte. -/
def oneByte (x : UInt8) : PipeData := ⟨[x], by simp⟩

/-- The calls of a turn that reads one byte. -/
def byteCalls (x : UInt8) : List BoardCall :=
  [⟨.instantNow, (0 : Nat)⟩, ⟨.readPipe .stdout, .data (oneByte x)⟩]

/-- The calls of a command that writes some bytes, one by one, and exits. -/
def trickledCalls (command : Command) (bytes : List UInt8) (success : Bool) :
    List BoardCall :=
  callsBeforeLoop command 0 ++
    [⟨.instantNow, (0 : Nat)⟩, ⟨.readPipe .stdout, .wouldBlock⟩,
      ⟨.readPipe .stderr, .eof⟩, ⟨.sleep 10, ()⟩] ++
    bytes.flatMap byteCalls ++
    [⟨.instantNow, (0 : Nat)⟩, ⟨.readPipe .stdout, .eof⟩,
      ⟨.tryWait, .ok (some success)⟩]

/-- The turn in which nothing has come yet. -/
theorem collectTurn_wait (hdeadline : 0 < deadline) :
    Returns (logSem calls) (collectTurn deadline phase Collected.initial).run
      log (.ok (.inl ⟨[], [], false, true, maxPowerOutputBytes⟩))
      (log ++ [⟨.instantNow, (0 : Nat)⟩] ++
        [⟨.readPipe .stdout, .wouldBlock⟩] ++
        [⟨.readPipe .stderr, .eof⟩] ++ [⟨.sleep 10, ()⟩]) := by
  refine Returns.call (r := (0 : Nat)) ?_
  rw [if_neg (by omega)]
  refine Returns.bindE (a := ⟨false, [], maxPowerOutputBytes⟩)
    (Returns.call (r := ReadResult.wouldBlock) (Returns.pure _ _)) ?_
  refine collectUnlessEof_eof.bindE ?_
  refine (Returns.pure (Except.ok (Except.ok none)) _).bindE ?_
  exact Returns.call (r := ()) (Returns.pure _ _)

/-- A turn that reads one byte, once the other pipe has ended. -/
theorem collectTurn_byte (hdeadline : 0 < deadline) (hroom : 0 < remaining)
    (x : UInt8) :
    Returns (logSem calls)
      (collectTurn deadline phase ⟨bytes, [], false, true, remaining⟩).run
      log (.ok (.inl ⟨bytes ++ [x], [], false, true, remaining - 1⟩))
      (log ++ byteCalls x) := by
  have hcalls : log ++ byteCalls x = log ++ [⟨.instantNow, (0 : Nat)⟩] ++
      [⟨.readPipe .stdout, .data (oneByte x)⟩] := by
    simp [byteCalls]
  rw [hcalls]
  refine Returns.call (r := (0 : Nat)) ?_
  rw [if_neg (by omega)]
  refine (collectUnlessEof_data (oneByte x) hroom).bindE ?_
  refine Returns.bindE (a := ⟨true, [], remaining - 1⟩) (Returns.pure _ _) ?_
  refine (Returns.pure (Except.ok (Except.ok none)) _).bindE ?_
  dsimp only
  rw [if_neg (by omega)]
  exact Returns.pure _ _

/-- The turns that read the rest of the output, and the last one. -/
theorem collectLoop_bytes (hdeadline : 0 < deadline) {more : List UInt8}
    (hroom : more.length ≤ remaining) (success : Bool) :
    Returns (logSem calls) (Prog.iterateE (collectTurn deadline phase)
        ⟨bytes, [], false, true, remaining⟩).run log
      (.ok ⟨success, bytes ++ more, []⟩)
      (log ++ more.flatMap byteCalls ++ [⟨.instantNow, (0 : Nat)⟩,
        ⟨.readPipe .stdout, .eof⟩, ⟨.tryWait, .ok (some success)⟩]) := by
  induction more generalizing bytes remaining log with
  | nil =>
      have hexit : Returns (logSem calls)
          (Prog.iterateE (collectTurn deadline phase)
            ⟨bytes, [], false, true, remaining⟩).run log
          (.ok ⟨success, bytes, []⟩) _ :=
        Returns.iterateE_done (collectTurn_exit hdeadline success)
      simpa using hexit
  | cons x more ih =>
      rw [List.length_cons] at hroom
      have hnext : Returns (logSem calls)
          (Prog.iterateE (collectTurn deadline phase)
            ⟨bytes, [], false, true, remaining⟩).run log
          (.ok ⟨success, bytes ++ [x] ++ more, []⟩) _ :=
        Returns.iterateE_next (collectTurn_byte hdeadline (by omega) x)
          (ih (by omega))
      simpa using hnext

/-- A command that writes some bytes, one by one, and exits. -/
theorem runPowerCommand_trickled (hdeadline : 0 < deadline)
    (command : Command) (hroom : bytes.length ≤ maxPowerOutputBytes)
    (success : Bool) :
    Returns (logSem calls) (runPowerCommand command deadline phase).run log
      (.ok ⟨success, bytes, []⟩)
      (log ++ trickledCalls command bytes success) := by
  have hcalls : log ++ trickledCalls command bytes success =
      log ++ callsBeforeLoop command 0 ++ [⟨.instantNow, (0 : Nat)⟩] ++
        [⟨.readPipe .stdout, .wouldBlock⟩] ++
        [⟨.readPipe .stderr, .eof⟩] ++ [⟨.sleep 10, ()⟩] ++
        bytes.flatMap byteCalls ++ [⟨.instantNow, (0 : Nat)⟩,
          ⟨.readPipe .stdout, .eof⟩, ⟨.tryWait, .ok (some success)⟩] := by
    simp [trickledCalls]
  refine runPowerCommand_of_loop hdeadline ?_
  rw [hcalls]
  have hloop : ∀ before, Returns (logSem calls)
      (Prog.iterateE (collectTurn deadline phase)
        ⟨[], [], false, true, maxPowerOutputBytes⟩).run before
      (.ok ⟨success, bytes, []⟩) _ :=
    fun _ => collectLoop_bytes hdeadline hroom success
  exact Returns.iterateE_next (collectTurn_wait hdeadline) (hloop _)

/-- What a relay that is on answers. -/
def relayOn : PipeData := ⟨utf8 "OnOff: TRUE", by decide⟩

theorem runPowerCommand_collects_brief :
    Collects ⟨true, relayOn.val, []⟩
      (briefCalls listNeighbors relayOn true) := by
  have hrun : Returns (logSem calls)
      (runPowerCommand listNeighbors 1 "power_query").run []
      (.ok ⟨true, relayOn.val, []⟩)
      (briefCalls listNeighbors relayOn true) :=
    runPowerCommand_brief (by decide) listNeighbors relayOn true
  exact ((runPowerCommand_collects listNeighbors 1 "power_query").2 _ _
    hrun).1 _ rfl

theorem runPowerCommand_reaps_brief :
    Reaps (.ok ⟨true, relayOn.val, []⟩)
      (briefCalls listNeighbors relayOn true) := by
  have hrun : Returns (logSem calls)
      (runPowerCommand listNeighbors 1 "power_query").run []
      (.ok ⟨true, relayOn.val, []⟩)
      (briefCalls listNeighbors relayOn true) :=
    runPowerCommand_brief (by decide) listNeighbors relayOn true
  refine (runPowerCommand_reaps hrun).2 _ rfl ?_ ?_
  · simp [briefCalls]
  · simp [briefCalls]

end Brief

end RpictlMcp
