import RpictlMcp.RequestTrace
import RpictlMcp.StateWait

/-!
# rpictl-mcp: what a Linux command comes to

`console_command` appends to a command the printing of a marker with the exit
status, waits for the shell prompt and then looks for the marker in what the
console has sent since.  But the marker is also part of the line that the
terminal echoes, and the prompt may be part of anything.  This module relates
the outcome of a command to the status that has been printed: the marker alone
is taken for a status that is not zero.
-/

namespace RpictlMcp

open Prog

/-- A decimal digit. -/
def isDigitByte (x : UInt8) : Bool :=
  0x30 ≤ x && x ≤ 0x39

/-- A text in which an exit status is printed behind the marker: its digits go on
to a byte that is no digit or to the end of the text. -/
def Reports (marker : String) (text : Text) (status : Nat) : Prop :=
  ∃ front back,
    text = front ++ utf8 marker ++ 0x3A :: (utf8 status.repr ++ back) ∧
      ∀ x ∈ back.head?, isDigitByte x = false

/-- The digits behind the marker and a colon are those of an exit status, as
they are if the marker is in the text only where the line is echoed and where
the status is printed. -/
def OnlyReports (marker : String) (text : Text) : Prop :=
  ∀ front digits back,
    text = front ++ utf8 marker ++ 0x3A :: (digits ++ back) → digits ≠ [] →
    (∀ x ∈ digits, isDigitByte x = true) →
    (∀ x ∈ back.head?, isDigitByte x = false) →
    ∃ status : Nat, digits = utf8 status.repr

/--
The outcome of a command says what its output says: success only if the status 0
has been printed, failure only if another status has been printed, and a timeout
as long as none has been.
-/
structure Truthful (marker : String) (captured : Option Text)
    (r : Result OperationResult) : Prop where
  ok : ∀ result, r = .ok result →
    ∃ text, captured = some text ∧ Reports marker text 0
  nonzero : ∀ e, r = .error e → e.code = .commandExitNonzero →
    ∃ text status, captured = some text ∧ status ≠ 0 ∧
      Reports marker text status
  pending : (∀ text, captured = some text →
      ∀ status, ¬Reports marker text status) →
    ∃ e, r = .error e ∧ (e.code = .stateTimeout ∨ e.code = .commandTimeout)

/-- If the marker is in the output that is captured, a status is in it, too. -/
def StatusWithMarker (marker : String) (captured : Option Text) : Prop :=
  ∀ text, captured = some text → contains text (utf8 marker) = true →
    ∃ status, Reports marker text status

section Output

variable {marker : String} {text : Text} {status : Nat}

/-- A numeral begins with a digit, and only that of zero begins with a zero. -/
theorem exists_head_numeral (n : Nat) :
    ∃ x, (utf8 n.repr).head? = some x ∧ isDigitByte x = true ∧
      (x = 0x30 → n = 0) := by
  induction n using Nat.strongRecOn with
  | ind n ih =>
      by_cases hn : n < 10
      · have hdigits : ∀ n < 10, ∃ x, (utf8 (Nat.repr n)).head? = some x ∧
            isDigitByte x = true ∧ (x = 0x30 → n = 0) := by
          decide
        exact hdigits n hn
      · obtain ⟨x, hhead, hdigit, hzero⟩ := ih (n / 10) (by omega)
        refine ⟨x, ?_, hdigit, fun hx => ?_⟩
        · rw [Nat.repr_eq_repr_append_repr (by omega), utf8_append,
            List.head?_append, hhead]
          rfl
        · have := hzero hx
          omega

/-- The search for the marker with the status 0. -/
theorem contains_zero_iff (hreports : OnlyReports marker text) :
    RpictlMcp.contains text (utf8 s!"{marker}:0") = true ↔
      Reports marker text 0 := by
  have hzero : utf8 s!"{marker}:0" = utf8 marker ++ [0x3A, 0x30] := by
    exact utf8_append marker ":0"
  rw [contains_iff, hzero]
  constructor
  · rintro ⟨front, rest, rfl⟩
    have hsplit : 0x30 :: rest = (0x30 :: rest.takeWhile isDigitByte) ++
        rest.dropWhile isDigitByte := by
      rw [List.cons_append, List.takeWhile_append_dropWhile]
    have hend : ∀ x ∈ (rest.dropWhile isDigitByte).head?,
        isDigitByte x = false := by
      intro x hx
      have hhead := List.head?_dropWhile_not isDigitByte rest
      rw [Option.mem_def.mp hx] at hhead
      exact hhead
    have htext : front ++ (utf8 marker ++ [0x3A, 0x30]) ++ rest =
        front ++ utf8 marker ++ 0x3A ::
          ((0x30 :: rest.takeWhile isDigitByte) ++
            rest.dropWhile isDigitByte) := by
      rw [← hsplit]
      simp
    obtain ⟨status, hstatus⟩ := hreports _ _ _ htext (by simp) (by
      intro x hx
      rcases List.mem_cons.mp hx with rfl | hx
      · decide
      · exact List.all_eq_true.mp List.all_takeWhile _ hx) hend
    obtain ⟨x, hhead, -, hx⟩ := exists_head_numeral status
    rw [← hstatus] at hhead
    obtain rfl : status = 0 := hx (by simpa using hhead.symm)
    exact ⟨front, _, by rw [htext, hstatus], hend⟩
  · rintro ⟨front, back, rfl, -⟩
    refine ⟨front, back, ?_⟩
    have hnumeral : utf8 (Nat.repr 0) = [0x30] := by decide
    rw [hnumeral]
    simp

/-- What becomes of the output of a Linux command. -/
theorem commandOutput_cases (hreports : OnlyReports marker text) :
    (Reports marker text 0 ∧ commandOutput true marker text = .ok text) ∨
      (¬Reports marker text 0 ∧ RpictlMcp.contains text (utf8 marker) = true ∧
        ∃ e, commandOutput true marker text = .error e ∧
          e.code = .commandExitNonzero) ∨
      (RpictlMcp.contains text (utf8 marker) = false ∧
        ∃ e, commandOutput true marker text = .error e ∧
          e.code = .commandTimeout) := by
  unfold commandOutput
  by_cases hzero : Reports marker text 0
  · refine .inl ⟨hzero, ?_⟩
    rw [(contains_zero_iff hreports).mpr hzero]
    rfl
  · have hnone : RpictlMcp.contains text (utf8 s!"{marker}:0") = false := by
      rw [Bool.eq_false_iff, ne_eq, contains_zero_iff hreports]
      exact hzero
    rw [hnone]
    cases hmarker : RpictlMcp.contains text (utf8 marker) with
    | true => exact .inr (.inl ⟨hzero, rfl, _, rfl, rfl⟩)
    | false => exact .inr (.inr ⟨rfl, _, rfl, rfl⟩)

theorem digit_mem {x : UInt8} (h : isDigitByte x = true) :
    x ∈ utf8 "0123456789" := by
  have hrange : ∀ n < 256, isDigitByte (UInt8.ofNat n) = true →
      UInt8.ofNat n ∈ utf8 "0123456789" := by
    decide +kernel
  have hmem := hrange x.toNat x.toNat_lt
  rw [UInt8.ofNat_toNat] at hmem
  exact hmem h

/-- A text with no digit behind the marker. -/
def Silent (marker : String) (text : Text) : Prop :=
  ∀ digit ∈ utf8 "0123456789",
    RpictlMcp.contains text (utf8 marker ++ [0x3A, digit]) = false

theorem Silent.not_digit {front rest : Text} {x : UInt8}
    (h : Silent marker text)
    (htext : text = front ++ utf8 marker ++ 0x3A :: x :: rest) :
    isDigitByte x = false := by
  rw [Bool.eq_false_iff]
  intro hdigit
  have hcontains : RpictlMcp.contains text (utf8 marker ++ [0x3A, x]) = true :=
    contains_iff.mpr ⟨front, rest, by simp [htext]⟩
  rw [h x (digit_mem hdigit)] at hcontains
  cases hcontains

theorem Silent.not_reports (h : Silent marker text) :
    ¬Reports marker text status := by
  rintro ⟨front, back, htext, -⟩
  obtain ⟨x, hhead, hdigit, -⟩ := exists_head_numeral status
  obtain ⟨rest, hrest⟩ := List.head?_eq_some_iff.mp hhead
  rw [hrest] at htext
  rw [h.not_digit htext] at hdigit
  cases hdigit

theorem Silent.onlyReports (h : Silent marker text) :
    OnlyReports marker text := by
  intro front digits back htext hne hdigits _
  obtain ⟨x, rest, rfl⟩ := List.exists_cons_of_ne_nil hne
  have hdigit := hdigits x List.mem_cons_self
  rw [h.not_digit htext] at hdigit
  cases hdigit

theorem output_of_commandOutput {output : Text}
    (h : commandOutput true marker text = .ok output) : output = text := by
  unfold commandOutput at h
  split at h
  · split at h <;> cases h
  · cases h
    rfl

end Output

/-- Polls that have failed. -/
structure FailedPolls (profile : BoardProfile) (cursor : Nat)
    (t : List Event) : Prop where
  neutral : Neutral t
  failed : ∀ c, .looked c ∈ t →
    pollAfter profile [.linuxShell] cursor c.ring = none

/-- The polls of a wait for the shell, and the output captured after it. -/
inductive Captures (profile : BoardProfile) (cursor : Nat) :
    List Event → Option Text → Prop
  | expired {polls : List Event} {seen : Console}
      (hpolls : FailedPolls profile cursor polls)
      (hseen : pollAfter profile [.linuxShell] cursor seen.ring = none) :
      Captures profile cursor (polls ++ [.looked seen]) none
  | taken {polls : List Event} {seen console : Console}
      (hpolls : FailedPolls profile cursor polls)
      (hseen : pollAfter profile [.linuxShell] cursor seen.ring =
        some .linuxShell) :
      Captures profile cursor (polls ++ [.looked seen, .looked console])
        (some (fromUtf8Lossy
          (console.ring.snapshotFrom cursor observationBytes).bytes))

/-- The errors of a command that is not known to have been transmitted. -/
def ErrorCode.isUnsent : ErrorCode → Bool
  | .boardNotFound => true
  | .commandDenied => true
  | .boardBusy => true
  | .serialOpenFailed => true
  | .serialDisconnected => true
  | _ => false

/-- What is to be known of a command once it has been transmitted. -/
structure CommandTaken (profile : BoardProfile) (command operationId : String)
    (t : List Event) (captured : Option Text) : Prop where
  log : ∃ (start : Console) (waited : List Event), t = .looked start ::
      (writeEvents profile
        (commandWire command true (completionMarker operationId)) ++ waited) ∧
    Captures profile start.ring.nextCursor waited captured

section Traces

variable {free : Bool} {profile : BoardProfile}

/-- All bytes are written, or the port has failed. -/
def WritesOrFails (profile : BoardProfile) (bytes : List UInt8)
    (r : Result Unit) (t : List Event) : Prop :=
  (r = .ok () ∧ t = writeEvents profile bytes) ∨
    ∃ e, r = .error e ∧ e.code.isUnsent = true

theorem writeEvents_cons (byte : UInt8) (bytes : List UInt8) :
    writeEvents profile (byte :: bytes) = .wrote byte none ::
      ((if 0 < profile.timing.serialPacingMs then
        [.slept profile.timing.serialPacingMs] else []) ++
          writeEvents profile bytes) :=
  rfl

theorem wrote_runs (byte : UInt8) :
    Runs free (act (.writeByte byte)) fun r t =>
      ∃ error, r = .ok error ∧ t = [.wrote byte error] := by
  refine Runs.mono (.event (e := fun _ error => .wrote byte error)
    (fun _ _ => rfl) (fun _ _ => rfl) fun _ _ _ hbase => .inr hbase.1) ?_
  rintro r t ⟨error, -, -, rfl, -, rfl⟩
  exact ⟨error, rfl, rfl⟩

theorem slept_runs (ms : Nat) :
    Runs free (act (.sleep ms)) fun r t => r = .ok () ∧ t = [.slept ms] := by
  refine Runs.mono (.event (e := fun _ _ => .slept ms)
    (fun _ _ => rfl) (fun _ _ => rfl) fun _ _ _ _ => trivial) ?_
  rintro r t ⟨-, -, -, rfl, -, rfl⟩
  exact ⟨rfl, rfl⟩

theorem writeBytes_outcome (bytes : List UInt8) :
    Runs free (writeBytes profile bytes) (WritesOrFails profile bytes) := by
  induction bytes with
  | nil => exact .pure (.inl ⟨rfl, rfl⟩)
  | cons byte bytes ih =>
      refine (wrote_runs byte).bind ?_ ?_
      · rintro error t ⟨_, ⟨⟩, rfl⟩
        cases error with
        | some error => exact .throw (.inr ⟨_, rfl, rfl⟩)
        | none =>
            dsimp only
            split
            · rename_i hpacing
              refine (slept_runs _).bind ?_ ?_
              · rintro _ t ⟨-, rfl⟩
                refine ih.mono ?_
                rintro r t (⟨rfl, rfl⟩ | hfailed)
                · exact .inl ⟨rfl, by simp [writeEvents_cons, hpacing]⟩
                · exact .inr hfailed
              · rintro e t ⟨⟨⟩, -⟩
            · rename_i hpacing
              refine ih.mono ?_
              rintro r t (⟨rfl, rfl⟩ | hfailed)
              · exact .inl ⟨rfl, by simp [writeEvents_cons, hpacing]⟩
              · exact .inr hfailed
      · rintro e t ⟨_, ⟨⟩, -⟩

/-- An action without events that cannot fail. -/
theorem silent_runs {o : BoardOp} (hsilent : ∀ r c, BoardOp.events o r c = []) :
    Runs free (act o) fun r t => (∃ a, r = .ok a) ∧ t = [] := by
  refine fun base _ => Traces.lift (Traces.perform ?_)
  rintro r es ⟨c, c', -, rfl⟩
  rw [hsilent]
  exact ⟨trivial, neutral_nil, ⟨r, rfl⟩, rfl⟩

/-- A write to the console succeeds or fails with an error of the port. -/
theorem writeConsole_outcome (bytes : List UInt8) :
    Runs free (writeConsole profile bytes) (WritesOrFails profile bytes) := by
  refine (silent_runs fun _ _ => rfl).bind ?_ fun e t ⟨⟨_, h⟩, _⟩ => nomatch h
  rintro lock t ⟨-, rfl⟩
  cases lock with
  | poisoned => exact .throw (.inr ⟨_, rfl, rfl⟩)
  | notOpen => exact .throw (.inr ⟨_, rfl, rfl⟩)
  | opened =>
      refine (writeBytes_outcome bytes).bind ?_ ?_
      · rintro _ t (⟨-, rfl⟩ | ⟨e, ⟨⟩, -⟩)
        refine (silent_runs fun _ _ => rfl).bind ?_
          fun e t ⟨⟨_, h⟩, _⟩ => nomatch h
        rintro error t ⟨-, rfl⟩
        cases error with
        | some error => exact .throw (.inr ⟨_, rfl, rfl⟩)
        | none => exact .pure (.inl ⟨rfl, by simp⟩)
      · rintro e t (⟨⟨⟩, -⟩ | hfailed)
        exact .inr hfailed

/-- The end of a wait for the shell. -/
def EndsWait (profile : BoardProfile) (cursor : Nat) (seen : Console)
    (r : Result BoardState) : Prop :=
  (r = .ok .linuxShell ∧
      pollAfter profile [.linuxShell] cursor seen.ring = some .linuxShell) ∨
    (∃ e, r = .error e ∧ e.code = .stateTimeout) ∧
      pollAfter profile [.linuxShell] cursor seen.ring = none

theorem FailedPolls.poll {cursor : Nat} {t : List Event} {c : Console}
    (h : FailedPolls profile cursor t)
    (hpoll : pollAfter profile [.linuxShell] cursor c.ring = none) :
    FailedPolls profile cursor (t ++ [.looked c, .slept 100]) := by
  obtain ⟨hneutral, hfailed⟩ := h
  constructor
  · simp [hneutral, Event.isNeutral]
  · intro d hd
    rcases List.mem_append.mp hd with hd | hd
    · exact hfailed d hd
    · obtain rfl : d = c := by simpa using hd
      exact hpoll

theorem linuxShell_of_poll {cursor : Nat} {ring : SerialRing}
    {state : BoardState}
    (h : pollAfter profile [.linuxShell] cursor ring = some state) :
    state = .linuxShell := by
  obtain ⟨rfl, hmem⟩ := mem_of_requested h
  simpa using hmem

/-- A wait for the shell: polls that fail, and one that ends it. -/
theorem waitForShell_outcome (timeoutMs cursor : Nat) :
    Runs free (waitForStatesAfter profile [.linuxShell] timeoutMs cursor)
      fun r t => ∃ polls seen, t = polls ++ [.looked seen] ∧
        FailedPolls profile cursor polls ∧
        EndsWait profile cursor seen r := by
  intro base _
  have hwait : Traces BoardOp.emits (Permitted free)
      (waitForStatesAfterChecked profile [.linuxShell] timeoutMs cursor
        (fun () => return (.ok (), ())) ()) base fun r t =>
          ∃ polls seen, t = polls ++ [.looked seen] ∧
            FailedPolls profile cursor polls ∧
            EndsWait profile cursor seen r.1 := by
    refine Traces.askSilent (fun _ _ => rfl) fun started =>
      Traces.iterate (fun _ t => FailedPolls profile cursor t)
        ⟨neutral_nil, nofun⟩ ?_
    intro s t ht
    refine Traces.askLook fun c => ⟨trivial, ?_⟩
    split
    · rename_i state hpoll
      obtain rfl := linuxShell_of_poll hpoll
      exact Traces.pure ⟨t, c, rfl, ht, .inl ⟨rfl, hpoll⟩⟩
    · rename_i hpoll
      refine Traces.askSilent (fun _ _ => rfl) fun now => ?_
      split
      · exact Traces.pure ⟨t, c, rfl, ht, .inr ⟨⟨_, rfl, rfl⟩, hpoll⟩⟩
      · refine Traces.askEvent (fun _ _ => rfl) trivial fun _ =>
          Traces.pure ?_
        exact ht.poll hpoll
  refine Traces.bind hwait ?_
  rintro ⟨r, s⟩ t ⟨polls, seen, rfl, hpolls, hend⟩
  refine Traces.pure ⟨?_, polls, seen, by simp, hpolls, hend⟩
  simp [hpolls.neutral, Event.isNeutral]

theorem looked_runs :
    Runs free (act .lockSerial) fun r t =>
      ∃ c : Console, r = .ok c.ring ∧ t = [.looked c] := by
  refine Runs.mono (.event (e := fun c _ => .looked c) (fun _ _ => rfl)
    (fun _ _ => rfl) fun _ _ _ _ => trivial) ?_
  rintro r t ⟨ring, c, c', rfl, ⟨rfl, rfl⟩, rfl⟩
  exact ⟨_, rfl, rfl⟩

theorem nextCursor_runs :
    Runs free nextCursor fun r t =>
      ∃ c : Console, r = .ok c.ring.nextCursor ∧ t = [.looked c] := by
  intro base _
  refine Traces.mono (nextCursor_traces fun _ => trivial) ?_
  rintro r t ⟨c, rfl, rfl⟩
  exact ⟨by simp [Event.isNeutral], c, rfl, rfl⟩

theorem result_runs {α : Type} {result : Result α} :
    Runs free (ofResult result) fun r t => r = result ∧ t = [] :=
  fun _ _ => Traces.pure ⟨neutral_nil, rfl, rfl⟩

/-- What a command that has been transmitted answers. -/
def Answers (operationId : String) (captured : Option Text)
    (r : Result Text) : Prop :=
  match captured with
  | none => ∃ e, r = .error e ∧ e.code = .stateTimeout
  | some text => r = commandOutput true (completionMarker operationId) text

/-- What a Linux command does under the lease. -/
inductive CommandRun (profile : BoardProfile) (command operationId : String) :
    Result Performed → List Event → Prop
  | unsent {e : Error} {t : List Event} (he : e.code.isUnsent = true) :
      CommandRun profile command operationId (.error e) t
  | sent {captured : Option Text} {r : Result Performed} {t : List Event}
      (htaken : CommandTaken profile command operationId t captured)
      (hanswers : Answers operationId captured (r.map (·.1))) :
      CommandRun profile command operationId r t

theorem consoleCommandAction_outcome (command operationId : String)
    (timeoutMs : Nat) :
    Runs free (consoleCommandAction profile command true timeoutMs
      operationId) (CommandRun profile command operationId) := by
  refine nextCursor_runs.bind ?_ fun e t ⟨_, h, _⟩ => nomatch h
  rintro _ t ⟨start, ⟨⟩, rfl⟩
  refine (writeConsole_outcome _).bind ?_ ?_
  · rintro _ t (⟨-, rfl⟩ | ⟨e, ⟨⟩, -⟩)
    refine (waitForShell_outcome _ _).bind ?_ ?_
    · rintro state t ⟨polls, seen, rfl, hpolls, ⟨⟨⟩, hseen⟩ | ⟨⟨e, ⟨⟩, -⟩, -⟩⟩
      refine looked_runs.bind ?_ fun e t ⟨_, h, _⟩ => nomatch h
      rintro _ t ⟨console, ⟨⟩, rfl⟩
      have htaken : ∀ t, t = [.looked start] ++ (writeEvents profile
          (commandWire command true (completionMarker operationId)) ++
            (polls ++ [.looked seen] ++ [.looked console])) →
          CommandTaken profile command operationId t (some (fromUtf8Lossy
            (console.ring.snapshotFrom start.ring.nextCursor
              observationBytes).bytes)) := by
        rintro t rfl
        exact ⟨start, _, rfl, by simpa using .taken hpolls hseen⟩
      refine result_runs.bind ?_ ?_
      · rintro output t ⟨houtput, rfl⟩
        exact .pure (.sent (htaken _ (by simp)) houtput)
      · rintro e t ⟨houtput, rfl⟩
        exact .sent (htaken _ (by simp)) houtput
    · rintro e t ⟨polls, seen, rfl, hpolls, ⟨⟨⟩, -⟩ | ⟨⟨e, ⟨⟩, he⟩, hseen⟩⟩
      exact .sent ⟨start, _, rfl, .expired hpolls hseen⟩ ⟨_, rfl, he⟩
  · rintro e t (⟨⟨⟩, -⟩ | ⟨e, ⟨⟩, he⟩)
    exact .unsent he

variable {registry : BoardRegistry} {boardId name command : String}
variable {timeoutMs : Nat} {base : List Event}

/-- What a request for a Linux command does. -/
def LinuxCommandTrace (registry : BoardRegistry) (boardId name command : String)
    (r : Result OperationResult) (t : List Event) : Prop :=
  (∃ e, r = .error e ∧ e.code.isUnsent = true) ∨
    ∃ profile operationId s, registry.board boardId = .ok profile ∧
      t = .acquired ⟨operationId, name⟩ ::
        (s ++ [.released ⟨operationId, name⟩]) ∧
      Reported (CommandRun profile command operationId) r s

theorem board_unsent {e : Error} (h : registry.board boardId = .error e) :
    e.code.isUnsent = true := by
  rw [BoardRegistry.code_of_board h]
  rfl

theorem validateOneLine_unsent {e : Error}
    (h : validateOneLine command = .error e) : e.code.isUnsent = true := by
  unfold validateOneLine at h
  split at h
  · cases h
    rfl
  · cases h

theorem commandOperation_outcome (hbase : pending base = false) :
    Traces BoardOp.emits (Permitted free)
      (operation registry boardId name none fun profile operationId =>
        consoleCommandAction profile command true timeoutMs operationId).run
      base (LinuxCommandTrace registry boardId name command) := by
  refine Traces.resultBind ?_ fun e he => .inl ⟨e, rfl, board_unsent he⟩
  intro profile hprofile
  refine Traces.silentBind (fun _ _ => rfl) fun operationId =>
    Traces.silentBind (fun _ _ => rfl) fun startedMs => ?_
  refine Traces.mono (withLease_traces (underLease_traces
    (consoleCommandAction_outcome command operationId timeoutMs).keepsLease)
    hbase) ?_
  rintro r t (⟨-, heldBy, rfl⟩ | ⟨s, rfl, hs⟩)
  · exact .inl ⟨_, rfl, rfl⟩
  · exact .inr ⟨profile, operationId, s, hprofile, rfl, hs⟩

theorem consoleCommand_outcome (hbase : pending base = false) :
    Traces BoardOp.emits (Permitted free)
      (consoleCommand registry boardId name command true timeoutMs).run base
      (LinuxCommandTrace registry boardId name command) := by
  refine Traces.resultBind ?_ fun e he => .inl ⟨e, rfl, board_unsent he⟩
  intro profile hprofile
  refine Traces.resultBind ?_ fun e he =>
    .inl ⟨e, rfl, validateOneLine_unsent he⟩
  intro _ _
  refine Traces.bindE (commandOperation_outcome hbase) ?_ fun e t ht => ht
  rintro result t (⟨e, ⟨⟩, -⟩ | ⟨profile, operationId, s, hprofile, rfl, hs⟩)
  exact Traces.done (.inr ⟨profile, operationId, s, hprofile, by simp, hs⟩)

/-- A command that has been transmitted, and the output captured after it. -/
def Transmitted (registry : BoardRegistry) (boardId name command : String)
    (operationId : String) (captured : Option Text)
    (r : Result OperationResult) (log : List Event) : Prop :=
  ∃ profile s, registry.board boardId = .ok profile ∧
    log = .acquired ⟨operationId, name⟩ ::
      (s ++ [.released ⟨operationId, name⟩]) ∧
    Reported (fun _ s => CommandTaken profile command operationId s captured)
      r s

/-- A command is not transmitted, or its outcome answers what is captured. -/
theorem LinuxCommandTrace.unsent_or {r : Result OperationResult}
    {t : List Event}
    (h : LinuxCommandTrace registry boardId name command r t) :
    (∃ e, r = .error e ∧ e.code.isUnsent = true) ∨
      ∃ operationId captured, Transmitted registry boardId name command
          operationId captured r t ∧
        Answers operationId captured (r.map (·.output)) := by
  rcases h with hunsent | ⟨profile, operationId, s, hprofile, rfl, hs⟩
  · exact .inl hunsent
  · cases r with
    | error e =>
        rcases hs with he | ⟨htaken, hanswers⟩
        · exact .inl ⟨e, rfl, he⟩
        · exact .inr ⟨operationId, _,
            ⟨profile, s, hprofile, rfl, htaken⟩, hanswers⟩
    | ok result =>
        obtain ⟨performed, s, c, rfl, _ | ⟨htaken, hanswers⟩, houtput⟩ := hs
        refine .inr ⟨operationId, _, ⟨profile, _, hprofile, rfl,
          performed, s, c, rfl, htaken, houtput⟩, ?_⟩
        simpa [Except.map, houtput] using hanswers

end Traces

section Outcome

variable {marker operationId : String} {captured : Option Text}

theorem Truthful.of_timeout {e : Error}
    (he : e.code = .stateTimeout ∨ e.code = .commandTimeout) :
    Truthful marker captured (.error e) := by
  constructor
  · rintro result ⟨⟩
  · rintro _ ⟨⟩ hcode
    rcases he with he | he <;> rw [he] at hcode <;> cases hcode
  · exact fun _ => ⟨e, rfl, he⟩

/-- A command that succeeds has captured its output. -/
theorem Answers.output {r : Result OperationResult}
    (h : Answers operationId captured (r.map (·.output))) :
    ∀ result, r = .ok result → captured = some result.output := by
  rintro result rfl
  cases captured with
  | none =>
      obtain ⟨e, ⟨⟩, -⟩ := h
  | some text =>
      exact congrArg some (output_of_commandOutput h.symm).symm

/-- Success is right if the status 0 has been printed. -/
theorem Truthful.of_zero {result : OperationResult} {text : Text}
    (hzero : Reports marker text 0) :
    Truthful marker (some text) (.ok result) := by
  constructor
  · exact fun _ _ => ⟨text, rfl, hzero⟩
  · rintro e ⟨⟩
  · exact fun hnone => absurd hzero (hnone text rfl 0)

/-- Failure is right if some status has been printed, and not 0. -/
theorem truthful_nonzero_iff {e : Error} {text : Text}
    (he : e.code = .commandExitNonzero) (hzero : ¬Reports marker text 0) :
    Truthful marker (some text) (.error e) ↔
      ∃ status, Reports marker text status := by
  constructor
  · intro htruthful
    obtain ⟨_, status, ⟨⟩, -, hstatus⟩ := htruthful.nonzero e rfl he
    exact ⟨status, hstatus⟩
  · rintro ⟨status, hreports⟩
    constructor
    · rintro result ⟨⟩
    · rintro _ ⟨⟩ -
      refine ⟨text, status, rfl, ?_, hreports⟩
      rintro rfl
      exact hzero hreports
    · exact fun hnone => absurd hreports (hnone text rfl status)

theorem statusWithMarker_some {text : Text} :
    StatusWithMarker marker (some text) ↔
      (contains text (utf8 marker) = true →
        ∃ status, Reports marker text status) := by
  constructor
  · exact fun h => h text rfl
  · rintro h _ ⟨⟩
    exact h

/-- The outcome is right about the status exactly if there is one wherever the
marker is. -/
theorem Answers.truthful_iff {r : Result OperationResult}
    (h : Answers operationId captured (r.map (·.output)))
    (honly : ∀ text, captured = some text →
      OnlyReports (completionMarker operationId) text) :
    Truthful (completionMarker operationId) captured r ↔
      StatusWithMarker (completionMarker operationId) captured := by
  cases captured with
  | none =>
      obtain ⟨e, hr, he⟩ := h
      cases r with
      | ok result => cases hr
      | error e =>
          cases hr
          have hnone : StatusWithMarker (completionMarker operationId) none :=
            nofun
          exact iff_of_true (.of_timeout (.inl he)) hnone
  | some text =>
      rw [statusWithMarker_some]
      rcases commandOutput_cases (honly text rfl) with
        ⟨hzero, houtput⟩ | ⟨hzero, hmarker, e, houtput, he⟩ |
          ⟨hmarker, e, houtput, he⟩ <;>
        rw [Answers, houtput] at h
      · cases r with
        | error e => cases h
        | ok result => exact iff_of_true (.of_zero hzero) fun _ => ⟨0, hzero⟩
      · cases r with
        | ok result => cases h
        | error e =>
            cases h
            rw [truthful_nonzero_iff he hzero]
            exact ⟨fun hstatus _ => hstatus, fun hstatus => hstatus hmarker⟩
      · cases r with
        | ok result => cases h
        | error e =>
            cases h
            rw [hmarker]
            exact iff_of_true (.of_timeout (.inr he)) nofun

variable {ι : Type} [DecidableEq ι] {t : Thread ι} {w : World ι}
variable {registry : BoardRegistry} {boardId name command : String}
variable {timeoutMs : Nat}

/--
The outcome of a command that has been transmitted is right about the exit
status exactly if the output that has been captured has a status in it whenever
it has the marker in it.
-/
theorem consoleCommand_truthful_iff {r : Result OperationResult}
    (hrun : AnswersIn t
      (consoleCommand registry boardId name command true timeoutMs).run r w) :
    (∃ e, r = .error e ∧ e.code.isUnsent = true) ∨
      ∃ operationId captured,
        Transmitted registry boardId name command operationId captured r
          (w.threadLog t) ∧
        (∀ result, r = .ok result → captured = some result.output) ∧
        ((∀ text, captured = some text →
            OnlyReports (completionMarker operationId) text) →
          (Truthful (completionMarker operationId) captured r ↔
            StatusWithMarker (completionMarker operationId) captured)) := by
  have htraces : Traces BoardOp.emits (Permitted true)
      (consoleCommand registry boardId name command true timeoutMs).run []
      (LinuxCommandTrace registry boardId name command) :=
    consoleCommand_outcome rfl
  have htrace := htraces.result hrun.exec.1
  rcases htrace.unsent_or with hunsent | ⟨operationId, captured, hsent, h⟩
  · exact .inl hunsent
  · exact .inr ⟨operationId, captured, hsent, h.output, h.truthful_iff⟩

/-- The world in which a command has been sent and the board has been looked at
twice. -/
def commandWorld (owner : LeaseOwner) (wire : Text) (d : Console) :
    World Unit :=
  (((((((World.initial simulatedConsole).acquireBy ((), .main) owner).look
    ((), .main)).emit ((), .main) (writeEvents simulated wire)).hear d).look
      ((), .main)).look ((), .main))

/-- The events of that world's request. -/
theorem threadLog_commandWorld (owner : LeaseOwner) (wire : Text)
    (d : Console) :
    (commandWorld owner wire d).threadLog ((), .main) = .acquired owner ::
      (.looked simulatedConsole ::
        (writeEvents simulated wire ++ [.looked d, .looked d])) := by
  simp only [commandWorld, threadLog_look, threadLog_hear, threadLog_emit,
    threadLog_acquireBy]
  simp [World.threadLog, World.initial, World.hear, World.look, World.emit,
    World.acquireBy]

/-- A text that shows the shell of the simulated board. -/
structure ShellText (text : Text) : Prop where
  ascii : IsAscii text
  short : text.length ≤ observationBytes
  shown : simulated.patterns.observed text = .linuxShell

/-- A board that has sent such a text has ended the wait, and the text is what
is captured. -/
theorem ShellText.exists_sends {text : Text} (h : ShellText text) :
    ∃ d, simulatedConsole.Sends d text ∧
      pollAfter simulated [.linuxShell] simulatedConsole.ring.nextCursor
        d.ring = some .linuxShell ∧
      fromUtf8Lossy (d.ring.snapshotFrom simulatedConsole.ring.nextCursor
        observationBytes).bytes = text := by
  have hring : simulatedConsole.capacity = 256 * 1024 := rfl
  have hlimit : observationBytes = 64 * 1024 := rfl
  have hempty : simulatedConsole.stream = [] := rfl
  have hshort := h.short
  obtain ⟨d, hsends⟩ : ∃ d, simulatedConsole.Sends d text :=
    simulatedConsole.exists_sends simulatedRegistry.ring_pos (by
      rw [hempty, List.nil_append]
      omega)
  have hretained := hsends.retainedAfter (by omega)
  refine ⟨d, hsends, ?_, ?_⟩
  · rw [pollAfter, stateAfter_eq, hretained, List.take_of_length_le hshort,
      h.shown]
    rfl
  · rw [snapshotFrom_retainedAfter, hretained, List.take_of_length_le hshort,
      fromUtf8Lossy_ascii h.ascii]

/-- What an action returns of a result that has been computed. -/
theorem ofResult_acts {α β : Type} (r : Result α) (f : α → β)
    (v : World Unit) :
    Acts ((), .main) (do return f (← ofResult r)) v (r.map f) v := by
  cases r with
  | ok a => exact Acts.bind (Acts.ofResult _) (Acts.pure _)
  | error e => exact Acts.fail (Acts.ofResult _)

/-- A command on a board that shows its shell: the output decides. -/
theorem consoleCommandAction_acts (name command operationId : String)
    (timeoutMs : Nat) {text : Text} {d : Console}
    (hsends : simulatedConsole.Sends d text)
    (hpoll : pollAfter simulated [.linuxShell]
      simulatedConsole.ring.nextCursor d.ring = some .linuxShell)
    (hcaptured : fromUtf8Lossy (d.ring.snapshotFrom
      simulatedConsole.ring.nextCursor observationBytes).bytes = text) :
    Acts ((), .main) (consoleCommandAction simulated command true timeoutMs
      operationId) ((World.initial simulatedConsole).acquireBy
        ((), .main) ⟨operationId, name⟩)
      ((commandOutput true (completionMarker operationId) text).map
        fun output => (output, [s!"sent console command {debugStr command}"]))
      (commandWorld ⟨operationId, name⟩
        (commandWire command true (completionMarker operationId)) d) := by
  refine Acts.bind (nextCursor_acts (alive_main ())) ?_
  refine Acts.bind (writeConsole_acts (alive_main ()) _) ?_
  refine Acts.bind (waitForStatesAfter_acts (alive_main ()) hsends hpoll) ?_
  refine Acts.look (alive_main ()) ?_
  rw [← hcaptured]
  exact ofResult_acts _ _ _

/-- A command whose line is accepted comes to its operation. -/
theorem validated_acts (hline : validateOneLine command = .ok ())
    (v : World Unit) :
    Acts ((), .main) (ofResult (validateOneLine command)) v (.ok ()) v := by
  rw [hline]
  exact Acts.ofResult _

/-- A command that succeeds after the board has printed a status of zero. -/
theorem consoleCommand_succeeds {operationId : String} {text : Text}
    (hline : validateOneLine command = .ok ()) (htext : ShellText text)
    (houtput : commandOutput true (completionMarker operationId) text =
      .ok text) :
    ∃ (w : World Unit) (result : OperationResult), AnswersIn ((), .main)
        (consoleCommand simulatedRegistry simulated.boardId name command true
          timeoutMs).run (.ok result) w ∧
      ∃ d, w.threadLog ((), .main) = .acquired ⟨operationId, name⟩ ::
        .looked simulatedConsole :: (writeEvents simulated
          (commandWire command true (completionMarker operationId)) ++
            [.looked d, .looked d, .looked d,
              .released ⟨operationId, name⟩]) := by
  obtain ⟨d, hsends, hpoll, hcaptured⟩ := htext.exists_sends
  have haction := consoleCommandAction_acts name command operationId timeoutMs
    hsends hpoll hcaptured
  rw [houtput] at haction
  obtain ⟨result, hoperation⟩ : ∃ result, Acts ((), .main)
      (operation simulatedRegistry simulated.boardId name none
        fun profile operationId =>
          consoleCommandAction profile command true timeoutMs operationId)
      (World.initial simulatedConsole) (.ok result) _ :=
    operation_acts_as operationId simulatedRegistry_board rfl haction rfl
  have hrun : Acts ((), .main) (consoleCommand simulatedRegistry
      simulated.boardId name command true timeoutMs)
      (World.initial simulatedConsole)
      (.ok { result with policyDecision := some "unrestricted" }) _ :=
    Acts.bind (lookup_acts simulatedRegistry_board _)
      (Acts.bind (validated_acts hline _)
        (Acts.bind hoperation (Acts.pure _)))
  refine ⟨_, _, Performs.answersIn hrun rfl, d, ?_⟩
  rw [threadLog_releaseBy, threadLog_look, threadLog_commandWorld]
  simp only [List.cons_append, List.append_assoc]
  rfl

/-- A command that fails after the board has sent some text. -/
theorem consoleCommand_fails {operationId : String} {text : Text} {e : Error}
    (hline : validateOneLine command = .ok ()) (htext : ShellText text)
    (houtput : commandOutput true (completionMarker operationId) text =
      .error e) :
    ∃ w : World Unit, AnswersIn ((), .main)
        (consoleCommand simulatedRegistry simulated.boardId name command true
          timeoutMs).run (.error e) w ∧
      Transmitted simulatedRegistry simulated.boardId name command operationId
        (some text) (.error e) (w.threadLog ((), .main)) := by
  obtain ⟨d, hsends, hpoll, hcaptured⟩ := htext.exists_sends
  have haction := consoleCommandAction_acts name command operationId timeoutMs
    hsends hpoll hcaptured
  rw [houtput] at haction
  have hrun : Acts ((), .main) (consoleCommand simulatedRegistry
      simulated.boardId name command true timeoutMs)
      (World.initial simulatedConsole) (.error e) _ :=
    Acts.bind (lookup_acts simulatedRegistry_board _)
      (Acts.bind (validated_acts hline _) (Acts.fail (operation_fails_as
        operationId simulatedRegistry_board rfl haction rfl)))
  have hpolls : FailedPolls simulated simulatedConsole.ring.nextCursor [] :=
    ⟨neutral_nil, by simp⟩
  have htaken : CommandTaken simulated command operationId
      (.looked simulatedConsole :: (writeEvents simulated
        (commandWire command true (completionMarker operationId)) ++
          [.looked d, .looked d])) (some text) := by
    refine ⟨simulatedConsole, _, rfl, ?_⟩
    rw [← hcaptured]
    exact .taken hpolls hpoll
  refine ⟨_, Performs.answersIn hrun rfl, simulated, _,
    simulatedRegistry_board, ?_, htaken⟩
  rw [threadLog_releaseBy, threadLog_commandWorld, List.cons_append]

/-- The operation that is given to the next command. -/
def echoOperation : String :=
  "5f0e9c1a-7d42-4b88-9c35-20e6a1d4f7b3"

/-- A command that prints the prompt of the simulated board. -/
def echoCommand : String :=
  "echo root@fake:#"

/-- The line that is transmitted for it, as the terminal echoes it. -/
def echoedLine : Text :=
  commandWire echoCommand true (completionMarker echoOperation) ++ utf8 "\n"

/-- The prompt is in the line. -/
theorem echoedLine_shown :
    simulated.patterns.observed echoedLine = .linuxShell := by
  decide

theorem echoedLine_silent :
    Silent (completionMarker echoOperation) echoedLine := by
  unfold Silent
  decide +kernel

/-- The marker in the echo is taken for a status that is not zero. -/
theorem commandOutput_echoedLine :
    ∃ e, commandOutput true (completionMarker echoOperation) echoedLine =
      .error e ∧ e.code = .commandExitNonzero := by
  rcases commandOutput_cases echoedLine_silent.onlyReports with
    ⟨hzero, -⟩ | ⟨-, -, hnonzero⟩ | ⟨hmarker, -⟩
  · exact absurd hzero echoedLine_silent.not_reports
  · exact hnonzero
  · have hecho : contains echoedLine
        (utf8 (completionMarker echoOperation)) = true := by
      decide
    rw [hecho] at hmarker
    cases hmarker

/-- The board sends nothing but the echo. -/
theorem echoCommand_fails :
    ∃ (w : World Unit) (e : Error), e.code = .commandExitNonzero ∧
      AnswersIn ((), .main) (consoleCommand simulatedRegistry simulated.boardId
        "run_linux_command" echoCommand true 1000).run (.error e) w ∧
      Transmitted simulatedRegistry simulated.boardId "run_linux_command"
        echoCommand echoOperation (some echoedLine) (.error e)
        (w.threadLog ((), .main)) := by
  obtain ⟨e, houtput, hcode⟩ := commandOutput_echoedLine
  have hline : validateOneLine echoCommand = .ok () := by decide
  have htext : ShellText echoedLine :=
    ⟨isAscii_of_all (by decide), by decide, echoedLine_shown⟩
  obtain ⟨w, hrun, hsent⟩ := consoleCommand_fails hline htext houtput
  exact ⟨w, e, hcode, hrun, hsent⟩

/-- The outcome of that command. -/
theorem consoleCommand_truthful_iff_echo :
    ∃ (w : World Unit) (e : Error) (operationId : String)
      (captured : Option Text), e.code = .commandExitNonzero ∧
        Transmitted simulatedRegistry simulated.boardId "run_linux_command"
          echoCommand operationId captured (.error e)
          (w.threadLog ((), .main)) ∧
        ((∀ text, captured = some text →
            OnlyReports (completionMarker operationId) text) →
          (Truthful (completionMarker operationId) captured (.error e) ↔
            StatusWithMarker (completionMarker operationId) captured)) := by
  obtain ⟨w, e, hcode, hrun, -⟩ := echoCommand_fails
  rcases consoleCommand_truthful_iff hrun with
    ⟨_, ⟨⟩, hunsent⟩ | ⟨operationId, captured, hsent, -, hiff⟩
  · rw [hcode] at hunsent
    cases hunsent
  · exact ⟨w, e, operationId, captured, hcode, hsent, hiff⟩

/--
A command that prints the prompt of the shell: the echo of its line ends the
wait, and its marker, behind which no status has been printed yet, is taken for
the end of a command that has failed.
-/
theorem consoleCommand_running :
    ∃ (w : World Unit) (e : Error),
      AnswersIn ((), .main) (consoleCommand simulatedRegistry simulated.boardId
        "run_linux_command" echoCommand true 1000).run (.error e) w ∧
      Transmitted simulatedRegistry simulated.boardId "run_linux_command"
        echoCommand echoOperation (some echoedLine) (.error e)
        (w.threadLog ((), .main)) ∧
      OnlyReports (completionMarker echoOperation) echoedLine ∧
      e.code = .commandExitNonzero ∧
      (∀ status,
        ¬Reports (completionMarker echoOperation) echoedLine status) ∧
      ¬Truthful (completionMarker echoOperation) (some echoedLine)
        (.error e) := by
  obtain ⟨w, e, hcode, hrun, hsent⟩ := echoCommand_fails
  have hnone : ∀ status,
      ¬Reports (completionMarker echoOperation) echoedLine status :=
    fun _ => echoedLine_silent.not_reports
  refine ⟨w, e, hrun, hsent, echoedLine_silent.onlyReports, hcode, hnone, ?_⟩
  intro htruthful
  obtain ⟨text, status, ⟨⟩, -, hstatus⟩ := htruthful.nonzero e rfl hcode
  exact hnone status hstatus

end Outcome

end RpictlMcp
