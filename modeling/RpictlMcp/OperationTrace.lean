import RpictlMcp.PowerTrace
import RpictlMcp.Operations

/-!
# rpictl-mcp: traces of the operations

What the parts of an operation do, in the trace logic.  `Permitted` is what a
thread that serves a request may do: it writes, marks generations, switches the
relay and starts a worker only while it holds the lease, it starts the worker
only after it has marked a generation, it switches the relay only right after a
query of the same call of `set_power` has verified the identity, and it gives the
lease back only when its worker has been joined.  The flag `free` lifts the
condition on writes.

`IsConsole` are the actions under the lease that deal with the console alone.
They reject nothing.
-/

namespace RpictlMcp

open Prog

/-- The log ends with a verified query inside a call of `set_power`. -/
def VerifiedFor (on : Bool) (log : List Event) : Prop :=
  ∃ front q before, log = front ++ (.noted (.setPower on) :: q ++
      [.noted (.queried before)]) ∧
    Passive q ∧ before.identityVerified = true

/-- What a thread that serves a request may do. -/
def Permitted (free : Bool) (log : List Event) : Event → Prop
  | .wrote _ _ => free = true ∨ holds log = true
  | .marked _ => holds log = true
  | .launched command => ∀ on, command.relay? = some on →
      VerifiedFor on log ∧ holds log = true ∧ pending log = false
  | .noted (.setPower _) => holds log = true ∧ pending log = false
  | .workerSpawned =>
      holds log = true ∧ pending log = false ∧ ∃ c, .marked c ∈ log
  | .workerJoined _ => pending log = true
  | .released _ => pending log = false
  | .workerReturned _ => False
  | _ => True

theorem lenient_permitted (free : Bool) : Lenient (Permitted free) where
  passive := by
    intro log e he
    cases e <;> simp_all [Permitted, Event.isPassive]
  queried _ _ := trivial
  switched _ _ _ := trivial

/-- Events that deal with the console alone. -/
def Event.isConsole : Event → Bool
  | .looked _ => true
  | .slept _ => true
  | .wrote _ _ => true
  | .marked _ => true
  | _ => false

/-- A trace of console events. -/
def ConsoleOnly (t : List Event) : Prop :=
  ∀ e ∈ t, e.isConsole = true

@[simp] theorem consoleOnly_nil : ConsoleOnly [] := by
  simp [ConsoleOnly]

@[simp] theorem consoleOnly_cons {e : Event} {t : List Event} :
    ConsoleOnly (e :: t) ↔ e.isConsole = true ∧ ConsoleOnly t := by
  simp [ConsoleOnly]

@[simp] theorem consoleOnly_append {s t : List Event} :
    ConsoleOnly (s ++ t) ↔ ConsoleOnly s ∧ ConsoleOnly t := by
  simp [ConsoleOnly, or_imp, forall_and]

theorem Event.isNeutral_of_isConsole {e : Event} (h : e.isConsole = true) :
    e.isNeutral = true := by
  cases e <;> first | rfl | simp [Event.isConsole] at h

theorem ConsoleOnly.neutral {t : List Event} (h : ConsoleOnly t) :
    Neutral t :=
  fun e he => Event.isNeutral_of_isConsole (h e he)

theorem Event.isNeutral_of_isCalm {e : Event} (h : e.isCalm = true) :
    e.isNeutral = true := by
  cases e <;> first
    | rfl
    | simp [Event.isCalm, Event.isPassive] at h

theorem Calm.neutral {t : List Event} (h : Calm t) : Neutral t :=
  fun e he => Event.isNeutral_of_isCalm (h e he)

/-- A log of a thread that holds the lease and has no worker. -/
def Leased (log : List Event) : Prop :=
  holds log = true ∧ pending log = false

theorem Leased.append {log t : List Event} (h : Leased log)
    (ht : Neutral t) : Leased (log ++ t) :=
  ⟨by rw [holds_append ht, h.1], by rw [pending_append ht, h.2]⟩

/-- The region of console events under the lease. -/
def Region.console : Region where
  within log := holds log = true
  has := Event.isConsole
  keep hlog he := by
    rw [holds_append (by simp [Event.isNeutral_of_isConsole he]), hlog]

section OperationTrace

variable {free : Bool} {profile : BoardProfile} {α β : Type}

/-- An action under the lease that deals with the console alone. -/
abbrev IsConsole (free : Bool) (action : Action α) : Prop :=
  Within .console (Permitted free) action

/-- An action whose one event deals with the console and is permitted. -/
theorem IsConsole.event {o : BoardOp} {e : Console → o.Resp → Event}
    (hevent : ∀ r c, BoardOp.events o r c = [e c r])
    (hconsole : ∀ r c, (e c r).isConsole = true)
    (hallowed : ∀ base r c, holds base = true →
      Permitted free base (e c r)) : IsConsole free (act o) :=
  .act fun base r c hbase => by
    rw [hevent]
    exact ⟨⟨hallowed base r c hbase, trivial⟩, by
      simpa [Region.console] using hconsole r c⟩

theorem isConsole_look : IsConsole free (act .lockSerial) :=
  .event (e := fun c _ => .looked c) (fun _ _ => rfl) (fun _ _ => rfl)
    fun _ _ _ _ => trivial

theorem isConsole_sleep (ms : Nat) : IsConsole free (act (.sleep ms)) :=
  .event (e := fun _ _ => .slept ms) (fun _ _ => rfl) (fun _ _ => rfl)
    fun _ _ _ _ => trivial

theorem isConsole_mark : IsConsole free (act .markGeneration) :=
  .event (e := fun c _ => .marked c) (fun _ _ => rfl) (fun _ _ => rfl)
    fun _ _ _ hbase => hbase

theorem nextCursor_console : IsConsole free nextCursor :=
  .bind isConsole_look fun _ => .pure _

theorem markIf_console (newGeneration : Bool) :
    IsConsole free (markIf newGeneration) := by
  cases newGeneration with
  | true => exact .bind isConsole_mark fun _ => .pure _
  | false => exact .pure _

end OperationTrace

section Console

variable {allowed : List Event → Event → Prop} {profile : BoardProfile}

/-- The byte and the outcome of a write. -/
def Event.written? : Event → Option (UInt8 × Option Text)
  | .wrote byte error => some (byte, error)
  | _ => none

/-- The writes of a trace. -/
def written (t : List Event) : List (UInt8 × Option Text) :=
  t.filterMap Event.written?

@[simp] theorem written_nil : written [] = [] := rfl

@[simp] theorem written_cons (e : Event) (t : List Event) :
    written (e :: t) = e.written?.toList ++ written t := by
  cases h : e.written? <;> simp [written, h]

@[simp] theorem written_append (s t : List Event) :
    written (s ++ t) = written s ++ written t := by
  simp [written]

variable (profile) in
/-- Bytes are written without an error, with the pacing of the board. -/
def writeEvents (bytes : List UInt8) : List Event :=
  bytes.flatMap fun byte => .wrote byte none ::
    if 0 < profile.timing.serialPacingMs then
      [.slept profile.timing.serialPacingMs]
    else []

/-- What a write to the console does: all bytes in order, or a part of them. -/
structure WriteTrace (profile : BoardProfile) (bytes : List UInt8)
    (r : Result Unit) (t : List Event) : Prop where
  accepted : Accepted r
  console : ConsoleOnly t
  all : r = .ok () → t = writeEvents profile bytes

theorem WriteTrace.of_error {bytes : List UInt8} {e : Error}
    {t : List Event} (he : e.code.isRejection = false) (ht : ConsoleOnly t) :
    WriteTrace profile bytes (.error e) t :=
  ⟨accepted_error.mpr he, ht, by simp⟩

theorem WriteTrace.cons {byte : UInt8} {bytes : List UInt8}
    {r : Result Unit} {t : List Event} (h : WriteTrace profile bytes r t)
    (hpacing : ¬0 < profile.timing.serialPacingMs) :
    WriteTrace profile (byte :: bytes) r (.wrote byte none :: t) where
  accepted := h.accepted
  console := by simp [h.console, Event.isConsole]
  all hr := by
    rw [h.all hr]
    simp [writeEvents, hpacing]

theorem WriteTrace.paced {byte : UInt8} {bytes : List UInt8}
    {r : Result Unit} {t : List Event} (h : WriteTrace profile bytes r t)
    (hpacing : 0 < profile.timing.serialPacingMs) :
    WriteTrace profile (byte :: bytes) r
      (.wrote byte none :: .slept profile.timing.serialPacingMs :: t) where
  accepted := h.accepted
  console := by simp [h.console, Event.isConsole]
  all hr := by
    rw [h.all hr]
    simp [writeEvents, hpacing]

/-- Logs that stay writable while console events happen. -/
structure Writable (allowed : List Event → Event → Prop)
    (within : List Event → Prop) : Prop where
  keep : ∀ log e, within log → e.isConsole = true → within (log ++ [e])
  write : ∀ log byte error, within log → allowed log (.wrote byte error)
  sleep : ∀ log ms, within log → allowed log (.slept ms)

theorem writeBytes_traces {within : List Event → Prop}
    (hwritable : Writable allowed within) (bytes : List UInt8)
    {base : List Event} (hbase : within base) :
    Traces BoardOp.emits allowed (writeBytes profile bytes).run base
      (WriteTrace profile bytes) := by
  induction bytes generalizing base with
  | nil => exact Traces.done ⟨accepted_ok (), consoleOnly_nil, fun _ => rfl⟩
  | cons byte bytes ih =>
      refine Traces.actBind ?_
      rintro error es ⟨c, c', -, rfl⟩
      refine ⟨⟨hwritable.write _ _ _ hbase, trivial⟩, ?_⟩
      have hwrote := hwritable.keep _ (.wrote byte error) hbase rfl
      cases error with
      | some error =>
          exact Traces.throwError (.of_error rfl
            (by simp [BoardOp.events, Event.isConsole]))
      | none =>
          simp only
          split
          · rename_i hpacing
            refine Traces.eventBind (fun _ _ => rfl)
              (hwritable.sleep _ _ hwrote) fun _ => ?_
            exact Traces.mono (ih (hwritable.keep _ _ hwrote rfl))
              fun r t ht => ht.paced hpacing
          · rename_i hpacing
            exact Traces.mono (ih hwrote) fun r t ht => ht.cons hpacing

/-- What a write to the console does. -/
theorem writeConsole_traces {within : List Event → Prop}
    (hwritable : Writable allowed within) (bytes : List UInt8)
    {base : List Event} (hbase : within base) :
    Traces BoardOp.emits allowed (writeConsole profile bytes).run base
      (WriteTrace profile bytes) := by
  refine Traces.silentBind (fun _ _ => rfl) fun lock => ?_
  cases lock with
  | poisoned => exact Traces.throwError (.of_error rfl consoleOnly_nil)
  | notOpen => exact Traces.throwError (.of_error rfl consoleOnly_nil)
  | opened =>
      refine Traces.bindE (writeBytes_traces hwritable bytes hbase) ?_ ?_
      · intro _ t ht
        refine Traces.silentBind (fun _ _ => rfl) fun error => ?_
        cases error with
        | some error =>
            exact Traces.throwError (.of_error rfl (by simpa using ht.console))
        | none => exact Traces.done (by simpa using ht)
      · intro e t ht
        exact .of_error (accepted_error.mp ht.accepted) ht.console

/-- The bytes of a text may be written in their order; `sent` says how far a
log has come. -/
structure WritableInOrder (allowed : List Event → Event → Prop)
    (whole : List UInt8) (sent : List UInt8 → List Event → Prop) : Prop where
  write : ∀ done byte rest log error, whole = done ++ byte :: rest →
    sent done log → allowed log (.wrote byte error) ∧
      sent (done ++ [byte]) (log ++ [.wrote byte error])
  sleep : ∀ done log ms, sent done log →
    allowed log (.slept ms) ∧ sent done (log ++ [.slept ms])

theorem writeBytes_inOrder {whole done bytes : List UInt8}
    {sent : List UInt8 → List Event → Prop}
    (hwritable : WritableInOrder allowed whole sent)
    (hwhole : whole = done ++ bytes) {base : List Event}
    (hbase : sent done base) :
    Traces BoardOp.emits allowed (writeBytes profile bytes).run base
      fun r t => r = .ok () → sent whole (base ++ t) := by
  induction bytes generalizing done base with
  | nil =>
      refine Traces.done fun _ => ?_
      rw [List.append_nil, hwhole, List.append_nil]
      exact hbase
  | cons byte bytes ih =>
      refine Traces.actBind ?_
      rintro error es ⟨c, c', -, rfl⟩
      obtain ⟨hallowed, hwrote⟩ :=
        hwritable.write done byte bytes base error hwhole hbase
      refine ⟨⟨hallowed, trivial⟩, ?_⟩
      cases error with
      | some error => exact Traces.throwError (by simp)
      | none =>
          have hnext : whole = (done ++ [byte]) ++ bytes := by
            rw [hwhole, List.append_cons]
          simp only
          split
          · obtain ⟨hallowed, hslept⟩ := hwritable.sleep _ _
              profile.timing.serialPacingMs hwrote
            refine Traces.eventBind (fun _ _ => rfl) hallowed fun _ => ?_
            refine Traces.mono (ih hnext hslept) fun r t ht hr => ?_
            simpa [BoardOp.events] using ht hr
          · refine Traces.mono (ih hnext hwrote) fun r t ht hr => ?_
            simpa [BoardOp.events] using ht hr

/-- A write that succeeds has transmitted all bytes, in their order. -/
theorem writeConsole_inOrder {whole : List UInt8}
    {sent : List UInt8 → List Event → Prop}
    (hwritable : WritableInOrder allowed whole sent) {base : List Event}
    (hbase : sent [] base) :
    Traces BoardOp.emits allowed (writeConsole profile whole).run base
      fun r t => r = .ok () → sent whole (base ++ t) := by
  refine Traces.silentBind (fun _ _ => rfl) fun lock => ?_
  cases lock with
  | poisoned => exact Traces.throwError (by simp)
  | notOpen => exact Traces.throwError (by simp)
  | opened =>
      refine Traces.bindE (writeBytes_inOrder hwritable
        (List.nil_append _).symm hbase) ?_ (by simp)
      intro _ t ht
      refine Traces.silentBind (fun _ _ => rfl) fun error => ?_
      cases error with
      | some error => exact Traces.throwError (by simp)
      | none =>
          refine Traces.done fun _ => ?_
          simpa using ht rfl

theorem writable_held (free : Bool) :
    Writable (Permitted free) fun log => holds log = true where
  keep _ _ hlog he := Region.console.keep hlog he
  write _ _ _ hlog := .inr hlog
  sleep _ _ _ := trivial

theorem writeConsole_console {free : Bool} (bytes : List UInt8) :
    IsConsole free (writeConsole profile bytes) :=
  fun _ hbase => Traces.mono
    (writeConsole_traces (writable_held free) bytes hbase)
    fun _ _ ht => ⟨ht.accepted, ht.console, fun _ _ => trivial⟩

end Console

section Waiting

theorem mem_of_requested {states : List BoardState} {state found : BoardState}
    (h : requested states state = some found) :
    state = found ∧ found ∈ states := by
  unfold requested at h
  split at h
  · rename_i hmem
    cases h
    exact ⟨rfl, hmem⟩
  · cases h

variable {allowed : List Event → Event → Prop} {profile : BoardProfile}

/--
What a wait with a check does.  `J` is what the check keeps up while the wait
goes on and `F` what it leaves behind when it fails.
-/
theorem waitForStatesAfterChecked_traces {σ : Type} {states : List BoardState}
    {timeoutMs cursor : Nat} {check : σ → Prog BoardSig (Result Unit × σ)}
    {s : σ} {base : List Event} {J : σ → List Event → Prop}
    {F : Error → σ → List Event → Prop} (hinit : J s [])
    (hcheck : ∀ s t, J s t →
      Traces BoardOp.emits allowed (check s) (base ++ t) fun r t' =>
        match r with
        | (.ok (), s') => J s' (t ++ t')
        | (.error e, s') => F e s' (t ++ t'))
    (hlook : ∀ s t c, J s t →
      allowed (base ++ t) (.looked c) ∧ J s (t ++ [.looked c]))
    (hsleep : ∀ s t, J s t →
      allowed (base ++ t) (.slept 100) ∧ J s (t ++ [.slept 100])) :
    Traces BoardOp.emits allowed
      (waitForStatesAfterChecked profile states timeoutMs cursor check s) base
      fun r t => match r with
        | (.ok state, s') => J s' t ∧ ∃ front c, t = front ++ [.looked c] ∧
            pollAfter profile states cursor c.ring = some state
        | (.error e, s') =>
            F e s' t ∨ J s' t ∧ e.code.isRejection = false := by
  refine Traces.askSilent (fun _ _ => rfl) fun started =>
    Traces.iterate J hinit fun s t hJ => ?_
  refine Traces.bind (hcheck s t hJ) ?_
  rintro ⟨⟨e⟩ | ⟨⟨⟩⟩, s'⟩ t' hr
  · refine Traces.pure ?_
    simpa using Or.inl hr
  · refine Traces.askLook fun c => ?_
    obtain ⟨hallowed, hlooked⟩ := hlook s' (t ++ t') c hr
    refine ⟨by simpa using hallowed, ?_⟩
    split
    · rename_i state hpoll
      refine Traces.pure ⟨?_, t ++ t', c, ?_, hpoll⟩
      · simpa using hlooked
      · simp
    · refine Traces.askSilent (fun _ _ => rfl) fun now => ?_
      split
      · refine Traces.pure (.inr ⟨?_, rfl⟩)
        simpa using hlooked
      · obtain ⟨hallowed', hslept⟩ := hsleep s' _ hlooked
        refine Traces.askEvent (fun _ _ => rfl) (by simpa using hallowed')
          fun _ => Traces.pure ?_
        simpa using hslept

theorem nextCursor_traces {base : List Event}
    (hlook : ∀ c : Console, allowed base (.looked c)) :
    Traces BoardOp.emits allowed nextCursor.run base fun r t =>
      ∃ c : Console, r = .ok c.ring.nextCursor ∧ t = [.looked c] :=
  Traces.lookBind hlook fun c => Traces.done ⟨c, rfl, rfl⟩

theorem observedState_traces {base : List Event}
    (hlook : ∀ c : Console, allowed base (.looked c)) :
    Traces BoardOp.emits allowed (observedState profile).run base fun r t =>
      ∃ c : Console,
        r = .ok (generationState profile c.ring) ∧ t = [.looked c] :=
  Traces.lookBind hlook fun c => Traces.done ⟨c, rfl, rfl⟩

/-- What a wait without a check does: it looks until a poll succeeds. -/
structure WaitTrace (poll : SerialRing → Option BoardState)
    (r : Result BoardState) (t : List Event) : Prop where
  accepted : Accepted r
  passive : Passive t
  console : ConsoleOnly t
  last : ∀ state, r = .ok state →
    ∃ front c, t = front ++ [.looked c] ∧ poll c.ring = some state

theorem waitForStatesAfter_traces (hlenient : Lenient allowed)
    (states : List BoardState) (timeoutMs cursor : Nat) (base : List Event) :
    Traces BoardOp.emits allowed
      (waitForStatesAfter profile states timeoutMs cursor).run base
      (WaitTrace (pollAfter profile states cursor)) := by
  refine Traces.bind (waitForStatesAfterChecked_traces
    (J := fun _ t => Passive t ∧ ConsoleOnly t)
    (F := fun _ _ _ => False) (by simp) ?_ ?_ ?_) ?_
  · intro s t ht
    exact Traces.pure (by simpa using ht)
  · intro s t c ht
    exact ⟨hlenient.passive _ _ rfl, by
      simp [ht.1, ht.2, Event.isPassive, Event.isConsole]⟩
  · intro s t ht
    exact ⟨hlenient.passive _ _ rfl, by
      simp [ht.1, ht.2, Event.isPassive, Event.isConsole]⟩
  · rintro ⟨⟨e⟩ | ⟨state⟩, ⟨⟩⟩ t hr
    · rcases hr with hfailed | ⟨ht, he⟩
      · exact hfailed.elim
      · exact Traces.pure ⟨accepted_error.mpr he, by simpa using ht.1,
          by simpa using ht.2, by simp⟩
    · obtain ⟨ht, front, c, rfl, hpoll⟩ := hr
      refine Traces.pure ⟨accepted_ok state, by simpa using ht.1,
        by simpa using ht.2, ?_⟩
      rintro _ ⟨⟩
      exact ⟨front, c, by simp, hpoll⟩

theorem waitForStates_traces (hlenient : Lenient allowed)
    (states : List BoardState) (timeoutMs : Nat) (generation : Option Nat)
    (base : List Event) :
    Traces BoardOp.emits allowed
      (waitForStates profile states timeoutMs generation).run base
      (WaitTrace (pollGeneration profile states generation)) := by
  refine Traces.silentBind (fun _ _ => rfl) fun started =>
    Traces.iterateE (fun _ t => Passive t ∧ ConsoleOnly t) (by simp) ?_
  intro s t ht
  refine Traces.lookBind (fun _ => hlenient.passive _ _ rfl) fun c => ?_
  have hlooked : Passive (t ++ [.looked c]) ∧
      ConsoleOnly (t ++ [.looked c]) := by
    simp [ht.1, ht.2, Event.isPassive, Event.isConsole]
  split
  · rename_i state hpoll
    refine Traces.done ⟨accepted_ok state, by simpa using hlooked.1,
      by simpa using hlooked.2, ?_⟩
    rintro _ ⟨⟩
    exact ⟨t, c, by simp, hpoll⟩
  · refine Traces.silentBind (fun _ _ => rfl) fun now => ?_
    split
    · exact Traces.throwError ⟨accepted_error.mpr rfl,
        by simpa using hlooked.1, by simpa using hlooked.2, by simp⟩
    · refine Traces.eventBind (fun _ _ => rfl)
        (hlenient.passive _ _ rfl) fun _ => Traces.done ?_
      simpa [Event.isPassive, Event.isConsole] using hlooked

end Waiting

section OperationTrace

variable {free : Bool} {profile : BoardProfile}

theorem waitForStatesAfter_console (states : List BoardState)
    (timeoutMs cursor : Nat) :
    IsConsole free (waitForStatesAfter profile states timeoutMs cursor) := by
  intro base _
  refine Traces.mono (waitForStatesAfter_traces (lenient_permitted free)
    states timeoutMs cursor base) ?_
  exact fun r t ht => ⟨ht.accepted, ht.console, fun _ _ => trivial⟩

theorem simpleConsoleAction_console (name : String) (bytes : List UInt8)
    (expected : List BoardState) (timeoutMs : Nat) (newGeneration : Bool) :
    IsConsole free (simpleConsoleAction profile name bytes expected timeoutMs
      newGeneration) :=
  .bind (markIf_console newGeneration) fun _ =>
    .bind nextCursor_console fun _ =>
      .bind (writeConsole_console bytes) fun _ =>
        .bind (waitForStatesAfter_console _ _ _) fun _ => .pure _

theorem restartIntoUbootAction_console (command : List UInt8)
    (action : String) (timeoutMs : Nat) :
    IsConsole free (restartIntoUbootAction profile command action
      timeoutMs) :=
  .bind isConsole_mark fun _ =>
    .bind nextCursor_console fun _ =>
      .bind (writeConsole_console command) fun _ =>
        .bind (waitForStatesAfter_console _ _ _) fun _ =>
          .bind nextCursor_console fun _ =>
            .bind (writeConsole_console _) fun _ =>
              .bind (waitForStatesAfter_console _ _ _) fun _ => .pure _

theorem accepted_commandOutput (linux : Bool) (marker : String)
    (output : Text) : Accepted (commandOutput linux marker output) := by
  unfold commandOutput
  split
  · split <;> exact accepted_error.mpr rfl
  · exact accepted_ok output

theorem consoleCommandAction_console (command : String) (linux : Bool)
    (timeoutMs : Nat) (operationId : String) :
    IsConsole free (consoleCommandAction profile command linux timeoutMs
      operationId) :=
  .bind nextCursor_console fun _ =>
    .bind (writeConsole_console _) fun _ =>
      .bind (waitForStatesAfter_console _ _ _) fun _ =>
        .bind isConsole_look fun _ =>
          .bind (.result (accepted_commandOutput _ _ _)) fun _ => .pure _

end OperationTrace

/-- Events that change the board. -/
def Event.isEffect : Event → Bool
  | .wrote _ _ => true
  | .marked _ => true
  | .launched command => command.relay?.isSome
  | _ => false

/-- A trace without an effect on the board. -/
def Inert (t : List Event) : Prop :=
  ∀ e ∈ t, e.isEffect = false

@[simp] theorem inert_nil : Inert [] := by
  simp [Inert]

@[simp] theorem inert_cons {e : Event} {t : List Event} :
    Inert (e :: t) ↔ e.isEffect = false ∧ Inert t := by
  simp [Inert]

@[simp] theorem inert_append {s t : List Event} :
    Inert (s ++ t) ↔ Inert s ∧ Inert t := by
  simp [Inert, or_imp, forall_and]

theorem Passive.inert {t : List Event} (h : Passive t) : Inert t := by
  intro e he
  have := h e he
  cases e <;> simp_all [Event.isEffect, Event.isPassive]

/-- A rejection comes without an effect on the board. -/
def Harmless {α : Type} (r : Result α) (t : List Event) : Prop :=
  ∀ e, r = .error e → e.code.isRejection = true → Inert t

theorem Accepted.harmless {α : Type} {r : Result α} (h : Accepted r)
    (t : List Event) : Harmless r t := by
  intro e he hreject
  simp [h e he] at hreject

theorem harmless_of_accepted {α : Type} {e : Error}
    (he : e.code.isRejection = false) (t : List Event) :
    Harmless (.error e : Result α) t :=
  Accepted.harmless (accepted_error.mpr he) t

/--
A relay command was launched, it was successful and has reported so, and the
last query observed the requested state.
-/
def Settled (on : Bool) (t : List Event) : Prop :=
  ∃ front command rest output after,
    t = front ++ .launched command :: rest ∧ command.relay? = some on ∧
    notes rest = [.switched on output, .queried after] ∧
    output.success = true ∧ contains output.raw (utf8 "SUCCESS") = true ∧
    after.state = relayState on

/-- The last power event of a trace ends a successful call of `set_power`. -/
def Achieved (profile : BoardProfile) (on : Bool) (t : List Event) : Prop :=
  ∃ front s observation rest, t = front ++ s ++ rest ∧
    SetPowerTrace profile on (.ok observation) s ∧ ConsoleOnly rest

section SetPower

variable {profile : BoardProfile} {on : Bool} {r : Result PowerObservation}
variable {t : List Event}

theorem SetPowerTrace.neutral (h : SetPowerTrace profile on r t) :
    Neutral t := by
  cases h with
  | refused hq hreject => simp [hq.neutral, Event.isNeutral]
  | launched hq hverified hrelay hverifiable haccepted hrest =>
      simp [hq.neutral, hrest.calm.neutral, Event.isNeutral]

/-- A call of `set_power` is rejected only for a bad identity. -/
theorem SetPowerTrace.inert_of_rejected {e : Error}
    (h : SetPowerTrace profile on (.error e) t)
    (he : e.code.isRejection = true) : BadIdentity profile e ∧ Inert t := by
  cases h with
  | refused hq hreject =>
      obtain ⟨rfl, hbad⟩ := hreject he
      exact ⟨hbad, by simp [Event.isEffect]⟩
  | launched hq hverified hrelay hverifiable haccepted hrest =>
      simp [accepted_error.mp haccepted] at he

theorem SetPowerTrace.harmless {α : Type} {e : Error}
    (h : SetPowerTrace profile on (.error e) t) :
    Harmless (.error e : Result α) t := by
  rintro _ ⟨⟩ he
  exact (h.inert_of_rejected he).2

/-- A call of `set_power` that succeeds has switched a relay. -/
theorem SetPowerTrace.switchable {observation : PowerObservation}
    (h : SetPowerTrace profile on (.ok observation) t) :
    Switchable profile := by
  cases h with
  | launched hq hverified hrelay hverifiable haccepted hrest =>
      exact ⟨_, hrelay, hverifiable⟩

theorem SetPowerTrace.accepted {identity : Identity}
    (h : SetPowerTrace profile on r t) (hrelay : HasRelay profile identity) :
    Accepted r := by
  rintro e rfl
  by_contra hreject
  exact hrelay.not_bad e (h.inert_of_rejected (by simpa using hreject)).1

theorem SetPowerTrace.achieved {observation : PowerObservation}
    (h : SetPowerTrace profile on (.ok observation) t) (front : List Event)
    {rest : List Event} (hrest : ConsoleOnly rest) :
    Achieved profile on (front ++ t ++ rest) :=
  ⟨front, t, observation, rest, rfl, h, hrest⟩

/-- After a successful call of `set_power` the relay is settled. -/
theorem SetPowerTrace.settled {observation : PowerObservation}
    (h : SetPowerTrace profile on (.ok observation) t)
    (front rest : List Event) (hrest : notes rest = []) :
    Settled on (front ++ t ++ rest) := by
  cases h with
  | @launched _ q after before identity hq hverified hrelay hverifiable
      haccepted hswitched =>
      obtain ⟨output, more, hnotes, hsuccess, hreported, hstate⟩ :=
        (hswitched.confirmed observation).mp rfl
      obtain ⟨output', hlast⟩ := hswitched.last observation rfl
      obtain ⟨rfl, rfl⟩ : output = output' ∧ more = [] := by
        rw [hnotes] at hlast
        simpa using hlast
      refine ⟨front ++ (.noted (.setPower on) :: q ++
        [.noted (.queried before)]), switchRelay identity on, after ++ rest,
        output, observation, by simp, switchRelay_relay? identity on, ?_,
        hsuccess, hreported, hstate⟩
      rw [notes_append, hnotes, hrest, List.append_nil]

end SetPower

/-- What an action does when it is run under the lease. -/
def Runs {α : Type} (free : Bool) (action : Action α)
    (Φ : Result α → List Event → Prop) : Prop :=
  ∀ base, Leased base → Traces BoardOp.emits (Permitted free) action.run base
    fun r t => Neutral t ∧ Φ r t

namespace Runs

variable {α β : Type} {free : Bool} {Φ : Result α → List Event → Prop}
variable {Ψ : Result β → List Event → Prop}

theorem mono {action : Action α} {Φ' : Result α → List Event → Prop}
    (h : Runs free action Φ) (hΦ : ∀ r t, Φ r t → Φ' r t) :
    Runs free action Φ' :=
  fun base hbase => Traces.mono (h base hbase) fun r t ht =>
    ⟨ht.1, hΦ r t ht.2⟩

theorem pure {a : α} (h : Φ (.ok a) []) :
    Runs free (Pure.pure a : Action α) Φ :=
  fun _ _ => Traces.pure ⟨neutral_nil, h⟩

theorem throw {e : Error} (h : Φ (.error e) []) :
    Runs free (throw e : Action α) Φ :=
  fun _ _ => Traces.pure ⟨neutral_nil, h⟩

theorem bind {x : Action α} {f : α → Action β} (hx : Runs free x Φ)
    (hok : ∀ a t, Φ (.ok a) t → Runs free (f a) fun b t' => Ψ b (t ++ t'))
    (herror : ∀ e t, Φ (.error e) t → Ψ (.error e) t) :
    Runs free (x >>= f) Ψ := by
  intro base hbase
  refine Traces.bindE (hx base hbase) ?_ ?_
  · rintro a t ⟨ht, ha⟩
    refine Traces.mono (hok a t ha (base ++ t) (hbase.append ht)) ?_
    exact fun b t' ht' => ⟨neutral_append.mpr ⟨ht, ht'.1⟩, ht'.2⟩
  · rintro e t ⟨ht, he⟩
    exact ⟨ht, herror e t he⟩

theorem attempt {action : Action α} (h : Runs free action Φ) :
    Runs free (attempt action) fun r t => ∃ a, r = .ok a ∧ Φ a t :=
  fun base hbase => Traces.lift (Traces.mono (h base hbase) fun r _ ht =>
    ⟨ht.1, r, rfl, ht.2⟩)

theorem of_console {action : Action α} {post : α → Prop}
    (h : Confined .console (Permitted free) action post) :
    Runs free action fun r t =>
      Accepted r ∧ ConsoleOnly t ∧ ∀ a, r = .ok a → post a :=
  fun base hbase => Traces.mono (h base hbase.1) fun _ _ ht =>
    ⟨ConsoleOnly.neutral ht.2.1, ht⟩

/-- An action of the board with one event, which cannot fail. -/
theorem event {o : BoardOp} {e : Console → o.Resp → Event}
    (hevent : ∀ r c, BoardOp.events o r c = [e c r])
    (hneutral : ∀ r c, (e c r).isNeutral = true)
    (hallowed : ∀ base r c, Leased base → Permitted free base (e c r)) :
    Runs free (act o) fun r t => ∃ a c c', r = .ok a ∧
      BoardOp.OnConsole o c a c' ∧ t = [e c' a] := by
  refine fun base hbase => Traces.lift (Traces.perform ?_)
  rintro r es ⟨c, c', hon, rfl⟩
  rw [hevent]
  exact ⟨⟨hallowed base r c' hbase, trivial⟩, by simp [hneutral],
    r, c, c', rfl, hon, rfl⟩

/-- Console actions in front of the rest of an action. -/
theorem afterConsole {x : Action α} {f : α → Action β}
    (hx : IsConsole free x)
    (hok : ∀ a t, ConsoleOnly t → Runs free (f a) fun b t' => Ψ b (t ++ t'))
    (herror : ∀ e t, e.code.isRejection = false → ConsoleOnly t →
      Ψ (.error e) t) :
    Runs free (x >>= f) Ψ :=
  .bind (.of_console hx) (fun a t ht => hok a t ht.2.1)
    fun e t ht => herror e t (accepted_error.mp ht.1) ht.2.1

end Runs

section Actions

variable {free : Bool} {profile : BoardProfile}

theorem setPower_runs (on : Bool) :
    Runs free (setPower profile on) (SetPowerTrace profile on) := by
  intro base hbase
  refine Traces.mono (setPower_traces (lenient_permitted free) on hbase ?_)
    fun _ _ ht => ⟨ht.neutral, ht⟩
  intro q before identity hq hverified on' hon'
  obtain rfl := Option.some.inj ((switchRelay_relay? identity on).symm.trans
    hon')
  have hleased := hbase.append (t := .noted (.setPower on) :: q ++
    [.noted (.queried before)]) (by simp [hq.neutral, Event.isNeutral])
  exact ⟨⟨base, q, before, rfl, hq, hverified⟩, hleased.1, hleased.2⟩

theorem powerState_traces {allowed : List Event → Event → Prop}
    (hlenient : Lenient allowed) (base : List Event) :
    Traces BoardOp.emits allowed (powerState profile).run base
      (QueryTrace profile) :=
  Traces.silentBind (fun _ _ => rfl) fun _ =>
    powerStateUntil_traces hlenient _ base

theorem powerState_runs :
    Runs free (powerState profile) (QueryTrace profile) := by
  intro base _
  refine Traces.mono (powerState_traces (lenient_permitted free) base)
    fun r t ht => ⟨?_, ht⟩
  cases r with
  | ok observation =>
      obtain ⟨q, identity, rfl, hq, -⟩ := ht
      simp [hq.neutral, Event.isNeutral]
  | error e => exact ht.1.neutral

/-- What an operation that leaves the relay in one position yields. -/
structure PowerOutcome {α : Type} (profile : BoardProfile) (on : Bool)
    (r : Result α) (t : List Event) : Prop where
  harmless : Harmless r t
  achieved : ∀ a, r = .ok a → Achieved profile on t

theorem PowerOutcome.of_error {α : Type} {on : Bool} {e : Error}
    {t : List Event} (h : Harmless (.error e : Result α) t) :
    PowerOutcome profile on (.error e : Result α) t :=
  ⟨h, by simp⟩

theorem powerOnAction_runs :
    Runs free (powerOnAction profile) (PowerOutcome profile true) := by
  refine .bind (setPower_runs true) ?_ fun _ _ ht => .of_error ht.harmless
  intro observation t ht
  refine .afterConsole isConsole_mark (fun _ t' ht' => ?_)
    fun e t' he _ => .of_error (harmless_of_accepted he _)
  refine .pure ⟨(accepted_ok _).harmless _, fun _ _ => ?_⟩
  simpa using ht.achieved [] ht'

theorem forcedPowerOffAction_runs :
    Runs free (forcedPowerOffAction profile)
      (PowerOutcome profile false) := by
  refine .bind (setPower_runs false) ?_ fun _ _ ht => .of_error ht.harmless
  intro observation t ht
  refine .pure ⟨(accepted_ok _).harmless _, fun _ _ => ?_⟩
  simpa using ht.achieved [] consoleOnly_nil

/-- A wait under the lease, from a cursor on. -/
theorem waitForStatesAfter_runs (states : List BoardState)
    (timeoutMs cursor : Nat) :
    Runs free (waitForStatesAfter profile states timeoutMs cursor)
      (WaitTrace (pollAfter profile states cursor)) :=
  fun base _ => Traces.mono (waitForStatesAfter_traces
    (lenient_permitted free) states timeoutMs cursor base) fun _ _ ht =>
      ⟨ht.passive.neutral, ht⟩

/-- A wait under the lease, in the current generation. -/
theorem waitForStates_runs (states : List BoardState) (timeoutMs : Nat)
    (generation : Option Nat) :
    Runs free (waitForStates profile states timeoutMs generation)
      (WaitTrace (pollGeneration profile states generation)) :=
  fun base _ => Traces.mono (waitForStates_traces (lenient_permitted free)
    states timeoutMs generation base) fun _ _ ht =>
      ⟨ht.passive.neutral, ht⟩

/-- An observation under the lease. -/
theorem observedState_runs :
    Runs free (observedState profile) fun r t => ∃ c : Console,
      r = .ok (generationState profile c.ring) ∧ t = [.looked c] := by
  intro base _
  refine Traces.mono (observedState_traces fun _ => trivial) ?_
  rintro _ _ ⟨c, rfl, rfl⟩
  exact ⟨by simp [Event.isNeutral], c, rfl, rfl⟩

end Actions

end RpictlMcp
