import RpictlMcp.Power
import RpictlMcp.Kernel.Transcript

/-!
# rpictl-mcp: the transcript of a power command

`run_power_command` spawns a subprocess, collects what it writes to its two
pipes, and either reaps it or kills and reaps it.  The pipes are read in turns of
one loop and share one budget.  This module says what a transcript of such a
command can look like, whatever the pipes, the subprocess and the clock respond,
and what the result says about it.
-/

namespace RpictlMcp

open Prog

/-- An action with its response. -/
abbrev BoardCall := Call BoardSig

/-- What a call has read from a pipe. -/
def readFrom (pipe : Pipe) : BoardCall → List UInt8
  | ⟨.readPipe p, .data bytes⟩ => if p = pipe then bytes.val else []
  | _ => []

/-- Everything that has been read from a pipe. -/
def bytesRead (pipe : Pipe) (log : List BoardCall) : List UInt8 :=
  log.flatMap (readFrom pipe)

/-- A read of a pipe. -/
def reads (pipe : Pipe) : BoardCall → Bool
  | ⟨.readPipe p, _⟩ => p = pipe
  | _ => false

/-- A read of a pipe that has come to the end of the file. -/
def readsEof (pipe : Pipe) : BoardCall → Bool
  | ⟨.readPipe p, .eof⟩ => p = pipe
  | _ => false

/-- The signal that kills the group of the child. -/
def killsGroup : BoardCall → Bool
  | ⟨.killGroup, _⟩ => true
  | _ => false

/-- A call that has collected the exit status of the child. -/
def reaps : BoardCall → Bool
  | ⟨.tryWait, .ok (some _)⟩ => true
  | ⟨.waitChild, none⟩ => true
  | _ => false

/-- A spawn that has succeeded. -/
def spawns : BoardCall → Bool
  | ⟨.spawn _, none⟩ => true
  | _ => false

/-- The child of a power command. -/
inductive ChildStatus where
  | none
  | unreaped
  | reaped
deriving DecidableEq, Repr

/-- The status of the child after one more call. -/
def ChildStatus.after (status : ChildStatus) (call : BoardCall) :
    ChildStatus :=
  if spawns call then .unreaped
  else if reaps call then .reaped
  else status

/-- The status of the child that was spawned last. -/
def childStatus (log : List BoardCall) : ChildStatus :=
  log.foldl ChildStatus.after .none

/-- The group is killed, and the child reaped, only while it is unreaped. -/
def ReapsOnce (log : List BoardCall) (call : BoardCall) : Prop :=
  killsGroup call ∨ reaps call → childStatus log = .unreaped

/-- A call that neither spawns nor kills nor reaps a child. -/
def BoardCall.IsQuiet (call : BoardCall) : Prop :=
  spawns call = false ∧ killsGroup call = false ∧ reaps call = false

/-- A pipe has been read up to its end, and not any more after that. -/
def ReadToEnd (pipe : Pipe) (log : List BoardCall) : Prop :=
  ∃ before call after, log = before ++ call :: after ∧ readsEof pipe call ∧
    (∀ c ∈ before, readsEof pipe c = false) ∧ ∀ c ∈ after, reads pipe c = false

/-- What has been collected from a pipe is what has been read from it. -/
structure PipeCollected (pipe : Pipe) (eof : Bool) (bytes : List UInt8)
    (log : List BoardCall) : Prop where
  bytes_eq : bytes = bytesRead pipe log
  ended : eof = true → ReadToEnd pipe log
  unended : eof = false → ∀ c ∈ log, readsEof pipe c = false

/-- The variables of the collection loop after some calls. -/
structure Collecting (s : Collected) (log : List BoardCall) : Prop where
  stdout : PipeCollected .stdout s.stdoutEof s.stdout log
  stderr : PipeCollected .stderr s.stderrEof s.stderr log
  budget : s.stdout.length + s.stderr.length + s.remaining =
    maxPowerOutputBytes
  quiet : ∀ c ∈ log, c.IsQuiet

section Transcript

variable {pipe other : Pipe} {log more : List BoardCall} {call : BoardCall}
variable {eof : Bool} {bytes : List UInt8} {remaining : Nat}

@[simp] theorem bytesRead_nil : bytesRead pipe [] = [] := rfl

@[simp] theorem bytesRead_append :
    bytesRead pipe (log ++ more) =
      bytesRead pipe log ++ bytesRead pipe more := by
  simp [bytesRead]

@[simp] theorem bytesRead_cons :
    bytesRead pipe (call :: log) =
      readFrom pipe call ++ bytesRead pipe log := by
  simp [bytesRead]

theorem childStatus_append_singleton :
    childStatus (log ++ [call]) = (childStatus log).after call := by
  simp [childStatus]

/-- A call that neither spawns nor reaps leaves the child as it is. -/
theorem childStatus_keep (hspawn : spawns call = false)
    (hreap : reaps call = false) :
    childStatus (log ++ [call]) = childStatus log := by
  rw [childStatus_append_singleton, ChildStatus.after, hspawn, hreap]
  simp

/-- Quiet calls leave the child as it is. -/
theorem childStatus_append_quiet (hquiet : ∀ c ∈ more, c.IsQuiet) :
    childStatus (log ++ more) = childStatus log := by
  induction more using List.reverseRecOn with
  | nil => rw [List.append_nil]
  | append_singleton more call ih =>
      obtain ⟨hspawn, -, hreap⟩ := hquiet call (by simp)
      rw [← List.append_assoc, childStatus_keep hspawn hreap,
        ih fun c hc => hquiet c (by simp [hc])]

/-- Calls that do not touch a pipe read nothing from it. -/
theorem readFrom_eq_nil (h : reads pipe call = false) :
    readFrom pipe call = [] := by
  unfold readFrom
  split
  · rename_i p bytes
    rw [if_neg (by simpa [reads] using h)]
  · rfl

theorem readsEof_eq_false (h : reads pipe call = false) :
    readsEof pipe call = false := by
  unfold readsEof
  split
  · rename_i p
    simpa [reads] using h
  · rfl

theorem bytesRead_eq_nil (h : ∀ c ∈ log, reads pipe c = false) :
    bytesRead pipe log = [] := by
  rw [bytesRead, List.flatMap_eq_nil_iff]
  exact fun c hc => readFrom_eq_nil (h c hc)

theorem ReadToEnd.append (h : ReadToEnd pipe log)
    (hmore : ∀ c ∈ more, reads pipe c = false) :
    ReadToEnd pipe (log ++ more) := by
  obtain ⟨before, call, after, rfl, hcall, hbefore, hafter⟩ := h
  refine ⟨before, call, after ++ more, by simp, hcall, hbefore, ?_⟩
  intro c hc
  rcases List.mem_append.mp hc with hc | hc
  · exact hafter c hc
  · exact hmore c hc

theorem ReadToEnd.prepend (h : ReadToEnd pipe log)
    (hmore : ∀ c ∈ more, reads pipe c = false) :
    ReadToEnd pipe (more ++ log) := by
  obtain ⟨before, call, after, rfl, hcall, hbefore, hafter⟩ := h
  refine ⟨more ++ before, call, after, by simp, hcall, ?_, hafter⟩
  intro c hc
  rcases List.mem_append.mp hc with hc | hc
  · exact readsEof_eq_false (hmore c hc)
  · exact hbefore c hc

/-- What is not read from a pipe does not change what is collected from it. -/
theorem PipeCollected.append (h : PipeCollected pipe eof bytes log)
    (hmore : ∀ c ∈ more, reads pipe c = false) :
    PipeCollected pipe eof bytes (log ++ more) := by
  constructor
  · rw [bytesRead_append, bytesRead_eq_nil hmore, List.append_nil]
    exact h.bytes_eq
  · exact fun heof => (h.ended heof).append hmore
  · intro heof c hc
    rcases List.mem_append.mp hc with hc | hc
    · exact h.unended heof c hc
    · exact readsEof_eq_false (hmore c hc)

/-- A read that has come to the end of the file. -/
theorem PipeCollected.toEnd (h : PipeCollected pipe false bytes log) :
    PipeCollected pipe true bytes (log ++ [⟨.readPipe pipe, .eof⟩]) := by
  constructor
  · rw [bytesRead_append, h.bytes_eq]
    simp [readFrom]
  · intro _
    exact ⟨log, _, [], rfl, by simp [readsEof], h.unended rfl, by simp⟩
  · intro heof
    cases heof

/-- A read that has not. -/
theorem PipeCollected.read (h : PipeCollected pipe false bytes log)
    {response : ReadResult} (hresponse : response ≠ .eof) :
    PipeCollected pipe false
      (bytes ++ readFrom pipe ⟨.readPipe pipe, response⟩)
      (log ++ [⟨.readPipe pipe, response⟩]) := by
  constructor
  · rw [bytesRead_append, h.bytes_eq]
    simp
  · intro heof
    cases heof
  · intro _ c hc
    rcases List.mem_append.mp hc with hc | hc
    · exact h.unended rfl c hc
    · obtain rfl := List.mem_singleton.mp hc
      cases response with
      | eof => exact absurd rfl hresponse
      | _ => rfl

/-- A read without data. -/
theorem PipeCollected.idle (h : PipeCollected pipe false bytes log)
    {response : ReadResult} (hresponse : response ≠ .eof)
    (hnone : readFrom pipe ⟨.readPipe pipe, response⟩ = []) :
    PipeCollected pipe false bytes (log ++ [⟨.readPipe pipe, response⟩]) := by
  have hread := h.read hresponse
  rwa [hnone, List.append_nil] at hread

end Transcript

/-- What is returned has been read from the pipes, and the child has exited. -/
structure Collects (output : Output) (log : List BoardCall) : Prop where
  stdout : output.stdout = bytesRead .stdout log
  stderr : output.stderr = bytesRead .stderr log
  stdoutEnded : ReadToEnd .stdout log
  stderrEnded : ReadToEnd .stderr log
  exited : ⟨.tryWait, .ok (some output.success)⟩ ∈ log
  bounded : output.stdout.length + output.stderr.length ≤ maxPowerOutputBytes

/-- The calls of the loop up to its end, by what it ends with. -/
def EndsLoop (r : Result Output) (log : List BoardCall) : Prop :=
  match r with
  | .ok output => Collects output log ∧
      ∃ front, log = front ++ [⟨.tryWait, .ok (some output.success)⟩] ∧
        ∀ c ∈ front, c.IsQuiet
  | .error e => (∀ c ∈ log, c.IsQuiet) ∧
      (e.code = .outputTruncated → maxPowerOutputBytes <
        (bytesRead .stdout log).length + (bytesRead .stderr log).length)

/-- The calls of the loop up to the end of a turn. -/
def EndsTurn (r : Result (Collected ⊕ Output)) (log : List BoardCall) : Prop :=
  match r with
  | .ok (.inl s) => Collecting s log
  | .ok (.inr output) => EndsLoop (.ok output) log
  | .error e => EndsLoop (.error e) log

/-- What one read of a pipe does, if the pipe has not ended before. -/
structure ReadOnce (pipe : Pipe) (eof : Bool) (bytes : List UInt8)
    (remaining : Nat) (r : Result Collection) (log : List BoardCall) :
    Prop where
  only : ∀ c ∈ log, ∃ response, c = ⟨.readPipe pipe, response⟩
  collected : ∀ c, r = .ok c → ∀ before,
    PipeCollected pipe eof bytes before →
      PipeCollected pipe c.eof c.bytes (before ++ log)
  budget : ∀ c, r = .ok c →
    c.bytes.length + c.remaining = bytes.length + remaining
  excess : ∀ e, r = .error e → e.code = .outputTruncated →
    remaining < (bytesRead pipe log).length

section Reading

variable {allowed : List BoardCall → BoardCall → Prop}
variable {base : List BoardCall} {pipe : Pipe} {eof : Bool}
variable {bytes : List UInt8} {remaining : Nat} {phase : String}

theorem collectPowerOutput_calls
    (hallowed : ∀ response, allowed base ⟨.readPipe pipe, response⟩) :
    Traces calls allowed (collectPowerOutput pipe bytes remaining phase).run
      base (ReadOnce pipe false bytes remaining) := by
  refine Traces.callE fun response => ⟨hallowed response, ?_⟩
  have honly : ∀ c ∈ [(⟨.readPipe pipe, response⟩ : BoardCall)],
      ∃ response, c = ⟨.readPipe pipe, response⟩ := by
    intro c hc
    exact ⟨response, List.mem_singleton.mp hc⟩
  cases response with
  | eof =>
      refine Traces.pure ⟨honly, ?_, ?_, ?_⟩
      · rintro c ⟨⟩ before hbefore
        exact hbefore.toEnd
      · rintro c ⟨⟩
        rfl
      · rintro e ⟨⟩
  | data chunk =>
      dsimp only
      split
      · rename_i hexcess
        refine Traces.pure ⟨honly, nofun, nofun, ?_⟩
        intro e _ _
        simpa [readFrom] using hexcess
      · rename_i hroom
        refine Traces.pure ⟨honly, ?_, ?_, nofun⟩
        · rintro c ⟨⟩ before hbefore
          have hdata : ReadResult.data chunk ≠ .eof := nofun
          simpa [readFrom] using hbefore.read hdata
        · rintro c ⟨⟩
          simp only [List.length_append]
          omega
  | wouldBlock =>
      refine Traces.pure ⟨honly, ?_, ?_, nofun⟩
      · rintro c ⟨⟩ before hbefore
        exact hbefore.idle nofun rfl
      · rintro c ⟨⟩
        rfl
  | interrupted =>
      refine Traces.pure ⟨honly, ?_, ?_, nofun⟩
      · rintro c ⟨⟩ before hbefore
        exact hbefore.idle nofun rfl
      · rintro c ⟨⟩
        rfl
  | failed error =>
      refine Traces.pure ⟨honly, nofun, nofun, ?_⟩
      rintro e ⟨⟩ hcode
      cases hcode

theorem collectUnlessEof_calls
    (hallowed : ∀ response, allowed base ⟨.readPipe pipe, response⟩) :
    Traces calls allowed
      (collectUnlessEof eof pipe bytes remaining phase).run base
      (ReadOnce pipe eof bytes remaining) := by
  cases eof with
  | true =>
      refine Traces.pure ⟨by simp, ?_, ?_, nofun⟩
      · rintro c ⟨⟩ before hbefore
        rw [List.append_nil]
        exact hbefore
      · rintro c ⟨⟩
        rfl
  | false => exact collectPowerOutput_calls hallowed

end Reading

/-- The status of the child is asked for only if both pipes have ended. -/
def AskedStatus (both : Bool) (r : Result (Except Text (Option Bool)))
    (log : List BoardCall) : Prop :=
  ∃ response, r = .ok response ∧
    (both = true ∧ log = [⟨.tryWait, response⟩] ∨
      both = false ∧ log = [] ∧ response = .ok none)

/-- The end of a turn, once the status of the child has been asked for. -/
def turnEnd (phase : String) (previous : Nat) (s : Collected) :
    Except Text (Option Bool) → Action (Collected ⊕ Output)
  | .error error => throw (powerIoError phase error)
  | .ok (some success) => return .inr ⟨success, s.stdout, s.stderr⟩
  | .ok none =>
      if s.remaining = previous then do
        act (.sleep 10)
        return .inl s
      else return .inl s

section Turn

variable {base log : List BoardCall} {pipe other : Pipe} {eof : Bool}
variable {bytes : List UInt8} {remaining : Nat} {s : Collected}
variable {deadline : Nat} {phase : String}

theorem ReapsOnce.of_quiet {call : BoardCall} (h : call.IsQuiet) :
    ReapsOnce log call := by
  obtain ⟨-, hkill, hreap⟩ := h
  simp [ReapsOnce, hkill, hreap]

theorem ReadOnce.quiet {r : Result Collection}
    (h : ReadOnce pipe eof bytes remaining r log) :
    ∀ c ∈ log, c.IsQuiet := by
  intro c hc
  obtain ⟨response, rfl⟩ := h.only c hc
  exact ⟨rfl, rfl, rfl⟩

theorem ReadOnce.not_reads {r : Result Collection}
    (h : ReadOnce pipe eof bytes remaining r log) (hne : pipe ≠ other) :
    ∀ c ∈ log, reads other c = false := by
  intro c hc
  obtain ⟨response, rfl⟩ := h.only c hc
  simpa [reads] using hne

theorem allowed_read (response : ReadResult) :
    ReapsOnce log ⟨.readPipe pipe, response⟩ :=
  ReapsOnce.of_quiet ⟨rfl, rfl, rfl⟩

/-- A call that reads nothing leaves the variables of the loop as they are. -/
theorem Collecting.push (h : Collecting s log) {call : BoardCall}
    (hquiet : call.IsQuiet) (hreads : ∀ pipe, reads pipe call = false) :
    Collecting s (log ++ [call]) where
  stdout := h.stdout.append (by simpa using hreads .stdout)
  stderr := h.stderr.append (by simpa using hreads .stderr)
  budget := h.budget
  quiet := by
    intro c hc
    rcases List.mem_append.mp hc with hc | hc
    · exact h.quiet c hc
    · obtain rfl := List.mem_singleton.mp hc
      exact hquiet

/-- The first read of a turn. -/
theorem Collecting.stdoutRead (h : Collecting s log) {c : Collection}
    {t : List BoardCall}
    (hread : ReadOnce .stdout s.stdoutEof s.stdout s.remaining (.ok c) t) :
    Collecting ⟨c.bytes, s.stderr, c.eof, s.stderrEof, c.remaining⟩
      (log ++ t) where
  stdout := hread.collected c rfl log h.stdout
  stderr := h.stderr.append (hread.not_reads nofun)
  budget := by
    have hbudget := hread.budget c rfl
    have hinit := h.budget
    show c.bytes.length + s.stderr.length + c.remaining = _
    omega
  quiet := by
    intro call hcall
    rcases List.mem_append.mp hcall with hcall | hcall
    · exact h.quiet call hcall
    · exact hread.quiet call hcall

/-- The second read of a turn. -/
theorem Collecting.stderrRead (h : Collecting s log) {c : Collection}
    {t : List BoardCall}
    (hread : ReadOnce .stderr s.stderrEof s.stderr s.remaining (.ok c) t) :
    Collecting ⟨s.stdout, c.bytes, s.stdoutEof, c.eof, c.remaining⟩
      (log ++ t) where
  stdout := h.stdout.append (hread.not_reads nofun)
  stderr := hread.collected c rfl log h.stderr
  budget := by
    have hbudget := hread.budget c rfl
    have hinit := h.budget
    show s.stdout.length + c.bytes.length + c.remaining = _
    omega
  quiet := by
    intro call hcall
    rcases List.mem_append.mp hcall with hcall | hcall
    · exact h.quiet call hcall
    · exact hread.quiet call hcall

/-- A read that fails ends the loop. -/
theorem Collecting.failed (h : Collecting s log) {e : Error}
    {t : List BoardCall} (hpipe : pipe = .stdout ∨ pipe = .stderr)
    (hread : ReadOnce pipe eof bytes s.remaining (.error e) t) :
    EndsLoop (.error e) (log ++ t) := by
  constructor
  · intro call hcall
    rcases List.mem_append.mp hcall with hcall | hcall
    · exact h.quiet call hcall
    · exact hread.quiet call hcall
  · intro hcode
    have hexcess := hread.excess e rfl hcode
    have hbudget := h.budget
    rw [h.stdout.bytes_eq, h.stderr.bytes_eq] at hbudget
    simp only [bytesRead_append, List.length_append]
    rcases hpipe with rfl | rfl <;> omega

theorem tryWaitIf_calls {both : Bool}
    (hchild : childStatus base = .unreaped) :
    Traces calls ReapsOnce (tryWaitIf both).run base (AskedStatus both) := by
  cases both with
  | true =>
      refine Traces.lift (Traces.perform ?_)
      rintro response es rfl
      exact ⟨⟨fun _ => hchild, trivial⟩, response, rfl, .inl ⟨rfl, rfl⟩⟩
  | false => exact Traces.pure ⟨_, rfl, .inr ⟨rfl, rfl, rfl⟩⟩

/-- The child has been reaped after both pipes have ended. -/
theorem Collecting.reaped (h : Collecting s log) (hstdout : s.stdoutEof = true)
    (hstderr : s.stderrEof = true) (success : Bool) :
    EndsLoop (.ok ⟨success, s.stdout, s.stderr⟩)
      (log ++ [⟨.tryWait, .ok (some success)⟩]) := by
  have hnone : ∀ pipe, ∀ c ∈ [(⟨.tryWait, .ok (some success)⟩ : BoardCall)],
      reads pipe c = false := by
    intro pipe c hc
    obtain rfl := List.mem_singleton.mp hc
    rfl
  have hstdout' := h.stdout.append (hnone .stdout)
  have hstderr' := h.stderr.append (hnone .stderr)
  constructor
  · constructor
    · exact hstdout'.bytes_eq
    · exact hstderr'.bytes_eq
    · exact hstdout'.ended hstdout
    · exact hstderr'.ended hstderr
    · simp
    · have hbudget := h.budget
      show s.stdout.length + s.stderr.length ≤ maxPowerOutputBytes
      omega
  · exact ⟨log, rfl, h.quiet⟩

theorem turnEnd_calls {status : Except Text (Option Bool)}
    {more : List BoardCall} {previous : Nat} (h : Collecting s log)
    (hasked : AskedStatus (s.stdoutEof && s.stderrEof) (.ok status) more) :
    Traces calls ReapsOnce (turnEnd phase previous s status).run base
      fun r t => EndsTurn r (log ++ (more ++ t)) := by
  obtain ⟨response, ⟨⟩, hasked⟩ := hasked
  have hpush : (∀ success, status ≠ .ok (some success)) →
      Collecting s (log ++ more) := by
    intro hnone
    rcases hasked with ⟨-, rfl⟩ | ⟨-, rfl, -⟩
    · refine h.push ⟨rfl, rfl, ?_⟩ fun _ => rfl
      rcases status with _ | _ | success
      · rfl
      · rfl
      · exact absurd rfl (hnone success)
    · rwa [List.append_nil]
  rcases status with error | _ | success
  · refine Traces.pure ?_
    rw [List.append_nil]
    refine ⟨(hpush nofun).quiet, ?_⟩
    intro hcode
    cases hcode
  · have hlog := hpush nofun
    dsimp only [turnEnd]
    split
    · refine Traces.callE fun _ => ⟨ReapsOnce.of_quiet ⟨rfl, rfl, rfl⟩, ?_⟩
      refine Traces.pure ?_
      rw [← List.append_assoc]
      exact hlog.push ⟨rfl, rfl, rfl⟩ fun _ => rfl
    · refine Traces.pure ?_
      rw [List.append_nil]
      exact hlog
  · refine Traces.pure ?_
    rcases hasked with ⟨hboth, rfl⟩ | ⟨-, -, hstatus⟩
    · rw [Bool.and_eq_true] at hboth
      rw [List.append_nil]
      exact h.reaped hboth.1 hboth.2 success
    · cases hstatus

theorem collectTurn_calls (hchild : childStatus base = .unreaped)
    (h : Collecting s log) :
    Traces calls ReapsOnce (collectTurn deadline phase s).run base
      fun r t => EndsTurn r (log ++ t) := by
  refine Traces.callE fun now => ⟨ReapsOnce.of_quiet ⟨rfl, rfl, rfl⟩, ?_⟩
  have hquiet : BoardCall.IsQuiet ⟨.instantNow, now⟩ := ⟨rfl, rfl, rfl⟩
  have hlog := h.push hquiet fun _ => rfl
  split
  · refine Traces.pure ⟨hlog.quiet, ?_⟩
    intro hcode
    cases hcode
  · -- The two reads, one after the other, and then the status of the child.
    refine Traces.bindE (collectUnlessEof_calls allowed_read) ?_ ?_
    · intro stdout t hstdout
      have hfirst := hlog.stdoutRead hstdout
      refine Traces.bindE (collectUnlessEof_calls allowed_read) ?_ ?_
      · intro stderr t' hstderr
        have hsecond := hfirst.stderrRead hstderr
        have hbase : childStatus (base ++ [⟨.instantNow, now⟩] ++ t ++ t') =
            .unreaped := by
          rw [childStatus_append_quiet hstderr.quiet,
            childStatus_append_quiet hstdout.quiet,
            childStatus_append_quiet (by simpa using hquiet), hchild]
        refine Traces.bindE (tryWaitIf_calls hbase) ?_ ?_
        · intro status more hasked
          refine Traces.mono (turnEnd_calls hsecond hasked) ?_
          intro r more' hends
          simpa [List.append_assoc] using hends
        · rintro e more ⟨response, ⟨⟩, -⟩
      · rintro e t' hstderr
        simpa [EndsTurn] using hfirst.failed (.inr rfl) hstderr
    · rintro e t hstdout
      simpa [EndsTurn] using hlog.failed (.inl rfl) hstdout

end Turn

/-- The calls of a power command after the spawn, by what it ends with. -/
def EndsCommand (r : Result Output) (log : List BoardCall) : Prop :=
  match r with
  | .ok output => EndsLoop (.ok output) log
  | .error e => ∃ front final,
      log = front ++ [⟨.killGroup, ()⟩, ⟨.killChild, ()⟩, ⟨.waitChild, final⟩] ∧
        (∀ c ∈ front, c.IsQuiet) ∧
        (e.code = .outputTruncated → maxPowerOutputBytes <
          (bytesRead .stdout log).length + (bytesRead .stderr log).length)

/--
The transcript of a power command: either no child is spawned, or the child is
reaped at the end.
-/
inductive RunsCommand (command : Command) (r : Result Output) :
    List BoardCall → Prop where
  | unlaunched {e : Error} {log : List BoardCall} (hresult : r = .error e)
      (hcode : e.code ≠ .outputTruncated) (hquiet : ∀ c ∈ log, c.IsQuiet) :
      RunsCommand command r log
  | launched (now : Nat) {log : List BoardCall} (h : EndsCommand r log) :
      RunsCommand command r
        (⟨.instantNow, now⟩ :: ⟨.spawn command, none⟩ :: log)

/-- The calls that set up the pipes. -/
def setUpCalls : List BoardCall :=
  [⟨.setNonblocking .stdout, none⟩, ⟨.setNonblocking .stderr, none⟩]

section Command

variable {base log : List BoardCall} {command : Command} {output : Output}
variable {deadline : Nat} {phase : String}

/-- Nothing has been collected before the first turn. -/
theorem collecting_setUp : Collecting Collected.initial setUpCalls := by
  have hreads : ∀ pipe, ∀ c ∈ setUpCalls, reads pipe c = false := by
    simp [setUpCalls, reads]
  have hnone : ∀ pipe, PipeCollected pipe false [] setUpCalls := by
    intro pipe
    constructor
    · rw [bytesRead_eq_nil (hreads pipe)]
    · nofun
    · exact fun _ c hc => readsEof_eq_false (hreads pipe c hc)
  refine ⟨hnone .stdout, hnone .stderr, rfl, ?_⟩
  simp [setUpCalls, BoardCall.IsQuiet, spawns, killsGroup, reaps]

/-- Failing to set up the pipes ends the loop before it begins. -/
theorem endsLoop_setUp {error : Text} (hquiet : ∀ c ∈ log, c.IsQuiet) :
    EndsLoop (.error (powerIoError phase error)) log := by
  constructor
  · exact hquiet
  · intro hcode
    cases hcode

theorem collectOutput_calls (hchild : childStatus base = .unreaped) :
    Traces calls ReapsOnce (collectOutput deadline phase).run base
      EndsLoop := by
  refine Traces.callE fun stdout => ⟨ReapsOnce.of_quiet ⟨rfl, rfl, rfl⟩, ?_⟩
  cases stdout with
  | some error =>
      refine Traces.pure (endsLoop_setUp ?_)
      simp [BoardCall.IsQuiet, spawns, killsGroup, reaps]
  | none =>
      refine Traces.callE fun stderr =>
        ⟨ReapsOnce.of_quiet ⟨rfl, rfl, rfl⟩, ?_⟩
      cases stderr with
      | some error =>
          refine Traces.pure (endsLoop_setUp ?_)
          simp [BoardCall.IsQuiet, spawns, killsGroup, reaps]
      | none =>
          refine Traces.iterateE (fun s t => Collecting s (setUpCalls ++ t))
            collecting_setUp ?_
          intro s t hs
          have hbase : childStatus (base ++ (setUpCalls ++ t)) = .unreaped := by
            rw [childStatus_append_quiet hs.quiet, hchild]
          have hsame : base ++ [⟨.setNonblocking .stdout, none⟩] ++
              [⟨.setNonblocking .stderr, none⟩] ++ t =
                base ++ (setUpCalls ++ t) := by
            simp [setUpCalls]
          rw [hsame]
          refine Traces.mono (collectTurn_calls hbase hs) ?_
          rintro (e | s' | output) t' hends
          · exact hends
          · exact hends
          · exact hends

/-- A failed child is killed before it is reaped. -/
theorem reapFailed_calls {result : Result Output}
    (hchild : childStatus base = .unreaped ∨ ∃ output, result = .ok output)
    (h : EndsLoop result log) :
    Traces calls ReapsOnce (reapFailed phase result).run base
      fun r t => EndsCommand r (log ++ t) := by
  cases result with
  | ok output =>
      refine Traces.pure ?_
      rwa [List.append_nil]
  | error e =>
      have hunreaped : childStatus base = .unreaped :=
        hchild.resolve_right nofun
      obtain ⟨hquiet, hexcess⟩ := h
      refine Traces.callE fun _ => ⟨fun _ => hunreaped, ?_⟩
      refine Traces.callE fun _ => ⟨ReapsOnce.of_quiet ⟨rfl, rfl, rfl⟩, ?_⟩
      refine Traces.callE fun final => ⟨fun _ => ?_, ?_⟩
      · rw [childStatus_keep rfl rfl, childStatus_keep rfl rfl, hunreaped]
      · cases final with
        | some failure =>
            exact Traces.pure ⟨log, some failure, rfl, hquiet, nofun⟩
        | none =>
            refine Traces.pure ⟨log, none, rfl, hquiet, fun hcode => ?_⟩
            have := hexcess hcode
            simp only [bytesRead_append, List.length_append]
            omega

theorem runPowerCommand_calls :
    Traces calls ReapsOnce (runPowerCommand command deadline phase).run base
      (RunsCommand command) := by
  refine Traces.callE fun now => ⟨ReapsOnce.of_quiet ⟨rfl, rfl, rfl⟩, ?_⟩
  split
  · refine Traces.pure (.unlaunched rfl nofun ?_)
    simp only [List.mem_singleton, forall_eq]
    exact ⟨rfl, rfl, rfl⟩
  · refine Traces.callE fun spawned => ⟨?_, ?_⟩
    · rintro (hkill | hreap)
      · cases hkill
      · cases hreap
    · cases spawned with
      | some error =>
          refine Traces.pure (.unlaunched rfl nofun ?_)
          simp only [List.mem_cons, List.not_mem_nil, or_false,
            forall_eq_or_imp, forall_eq]
          exact ⟨⟨rfl, rfl, rfl⟩, rfl, rfl, rfl⟩
      | none =>
          have hspawned : childStatus (base ++ [⟨.instantNow, now⟩] ++
              [⟨.spawn command, none⟩]) = .unreaped := by
            rw [childStatus_append_singleton]
            rfl
          have hcollect : Traces calls ReapsOnce
              (collectOutput deadline phase).run _ EndsLoop :=
            collectOutput_calls hspawned
          refine Traces.bindE (Φ := fun r t => ∃ result, r = .ok result ∧
            EndsLoop result t) (Traces.lift (Traces.mono hcollect ?_)) ?_ ?_
          · exact fun result t hends => ⟨result, rfl, hends⟩
          · rintro result t ⟨_, ⟨⟩, hends⟩
            refine Traces.mono (reapFailed_calls ?_ hends) ?_
            · cases result with
              | ok output => exact .inr ⟨output, rfl⟩
              | error e =>
                  refine .inl ?_
                  rw [childStatus_append_quiet hends.1, hspawned]
            · exact fun r t' hcommand => .launched now hcommand
          · rintro e t ⟨_, ⟨⟩, -⟩

theorem Collects.append (h : Collects output log) (more : List BoardCall)
    (hmore : ∀ pipe, ∀ c ∈ more, reads pipe c = false) :
    Collects output (more ++ log) where
  stdout := by
    rw [bytesRead_append, bytesRead_eq_nil (hmore .stdout)]
    exact h.stdout
  stderr := by
    rw [bytesRead_append, bytesRead_eq_nil (hmore .stderr)]
    exact h.stderr
  stdoutEnded := h.stdoutEnded.prepend (hmore .stdout)
  stderrEnded := h.stderrEnded.prepend (hmore .stderr)
  exited := List.mem_append_right _ h.exited
  bounded := h.bounded

/-- What a power command returns has been collected. -/
theorem RunsCommand.collects (h : RunsCommand command (.ok output) log) :
    Collects output log := by
  cases h with
  | unlaunched hresult => cases hresult
  | launched now h =>
      refine Collects.append h.1 [⟨.instantNow, now⟩, ⟨.spawn command, none⟩]
        fun pipe => ?_
      simp only [List.mem_cons, List.not_mem_nil, or_false,
        forall_eq_or_imp, forall_eq]
      exact ⟨rfl, rfl⟩

/-- Output is given up as too long only if too much has been read. -/
theorem RunsCommand.truncated {e : Error}
    (h : RunsCommand command (.error e) log)
    (hcode : e.code = .outputTruncated) :
    maxPowerOutputBytes <
      (bytesRead .stdout log).length + (bytesRead .stderr log).length := by
  cases h with
  | unlaunched hresult hother =>
      cases hresult
      exact absurd hcode hother
  | launched now h =>
      obtain ⟨front, final, -, -, hexcess⟩ := h
      simpa [readFrom] using hexcess hcode

end Command

end RpictlMcp
