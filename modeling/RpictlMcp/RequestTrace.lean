import RpictlMcp.UbootTrace
import RpictlMcp.Requests

/-!
# rpictl-mcp: traces of the requests

An operation acquires the lease, runs its closure, observes the state when that
has succeeded and gives the lease back.  `OperationTrace` says so of its trace
and passes on what is known of the closure.  From it follow the traces of the
board methods, of the remote procedure calls and of everything else a client can
ask for: every request keeps to what is permitted, and `Refused` collects the
ways in which a call can be rejected after it has changed the board.
-/

namespace RpictlMcp

open Prog

section Operation

variable {free : Bool} {α : Type}

/-- The end of an operation's closure, and the observation that follows it. -/
def Reported (Φ : Result Performed → List Event → Prop)
    (r : Result OperationResult) (s : List Event) : Prop :=
  match r with
  | .error e => Φ (.error e) s
  | .ok result => ∃ performed s' c, s = s' ++ [.looked c] ∧
      Φ (.ok performed) s' ∧ result.output = performed.1

/-- What an operation does, given what its closure does. -/
def OperationTrace (registry : BoardRegistry) (boardId : String)
    (Φ : BoardProfile → Result Performed → List Event → Prop)
    (r : Result OperationResult) (t : List Event) : Prop :=
  (t = [] ∧ ∃ e, r = .error e ∧ e.code.isRejection = false) ∨
    ∃ profile owner s, registry.board boardId = .ok profile ∧
      t = .acquired owner :: (s ++ [.released owner]) ∧
      Reported (Φ profile) r s

/-- A closure that gives back what it was given: the lease without a worker. -/
def KeepsLease (free : Bool) (action : Action α)
    (Φ : Result α → List Event → Prop) : Prop :=
  ∀ base, Leased base → Traces BoardOp.emits (Permitted free) action.run base
    fun r t => Leased (base ++ t) ∧ Φ r t

theorem Runs.keepsLease {action : Action α}
    {Φ : Result α → List Event → Prop} (h : Runs free action Φ) :
    KeepsLease free action Φ :=
  fun base hbase => Traces.mono (h base hbase) fun _ _ ht =>
    ⟨hbase.append ht.1, ht.2⟩

theorem underLease_traces {profile : BoardProfile} {owner : LeaseOwner}
    {expected : Option String} {startedMs : Nat} {action : Action Performed}
    {Φ : Result Performed → List Event → Prop}
    (haction : KeepsLease free action Φ) :
    KeepsLease free (underLease profile owner expected startedMs action)
      (Reported Φ) := by
  intro base hbase
  refine Traces.bindE (haction base hbase) ?_ ?_
  · intro performed s hs
    refine Traces.bindE (observedState_runs _ hs.1) ?_ ?_
    · intro observed t ht
      obtain ⟨hneutral, c, -, rfl⟩ := ht
      refine Traces.silentBind (fun _ _ => rfl) fun finishedMs => ?_
      refine Traces.done ⟨?_, performed, s, c, by simp, hs.2, rfl⟩
      have := hs.1.append hneutral
      simpa using this
    · intro e t ht
      obtain ⟨-, c, ⟨⟩, -⟩ := ht
  · exact fun e s hs => hs

theorem withLease_traces {owner : LeaseOwner} {timeoutMs : Nat}
    {action : Action α} {Φ : Result α → List Event → Prop}
    (haction : KeepsLease free action Φ) {base : List Event}
    (hbase : pending base = false) :
    Traces BoardOp.emits (Permitted free)
      (withLease owner timeoutMs action).run base fun r t =>
        (t = [] ∧ ∃ heldBy, r = .error (leaseBusy heldBy)) ∨
          ∃ s, t = .acquired owner :: (s ++ [.released owner]) ∧ Φ r s := by
  refine Traces.actBind ?_
  intro heldBy es hes
  obtain ⟨c, c', -, rfl⟩ := hes
  cases heldBy with
  | some heldBy =>
      exact ⟨trivial, Traces.throwError (.inl ⟨rfl, heldBy, rfl⟩)⟩
  | none =>
      refine ⟨⟨trivial, trivial⟩, ?_⟩
      have hleased : Leased (base ++ [.acquired owner]) := by
        simp [Leased, Event.lease, Event.worker, hbase]
      refine Traces.attemptBind (haction _ hleased) fun r s hs => ?_
      refine Traces.eventBind (fun _ _ => rfl) hs.1.2 fun _ => ?_
      refine Traces.pure (.inr ⟨s, by simp [BoardOp.events], hs.2⟩)

/-- What an operation does, given what its closure does. -/
theorem operation_traces {registry : BoardRegistry} {boardId name : String}
    {expected : Option String}
    {action : BoardProfile → String → Action Performed}
    {Φ : BoardProfile → Result Performed → List Event → Prop}
    (haction : ∀ profile operationId,
      registry.board boardId = .ok profile →
        KeepsLease free (action profile operationId) (Φ profile))
    {base : List Event} (hbase : pending base = false) :
    Traces BoardOp.emits (Permitted free)
      (operation registry boardId name expected action).run base
      (OperationTrace registry boardId Φ) := by
  refine Traces.resultBind ?_ ?_
  · intro profile hprofile
    refine Traces.silentBind (fun _ _ => rfl) fun operationId =>
      Traces.silentBind (fun _ _ => rfl) fun startedMs => ?_
    refine Traces.mono (withLease_traces (underLease_traces
      (haction profile operationId hprofile)) hbase) ?_
    intro r t ht
    rcases ht with ⟨ht, heldBy, hr⟩ | ⟨s, ht, hs⟩
    · exact .inl ⟨ht, _, hr, rfl⟩
    · exact .inr ⟨profile, _, s, hprofile, ht, hs⟩
  · intro e he
    refine .inl ⟨rfl, e, rfl, ?_⟩
    rw [BoardRegistry.code_of_board he]
    rfl

/-- An operation does under any permission what its closure does under it. -/
theorem operation_outcome {allowed : List Event → Event → Prop}
    {registry : BoardRegistry} {boardId name : String}
    {expected : Option String}
    {action : BoardProfile → String → Action Performed}
    {Φ : String → Result Performed → List Event → Prop} {base : List Event}
    (hacquire : ∀ owner, allowed base (.acquired owner))
    (hlook : ∀ log c, allowed log (.looked c))
    (hrelease : ∀ log owner, allowed log (.released owner))
    (haction : ∀ profile operationId,
      registry.board boardId = .ok profile →
        Traces BoardOp.emits allowed (action profile operationId).run
          (base ++ [.acquired ⟨operationId, name⟩]) (Φ operationId)) :
    Traces BoardOp.emits allowed
      (operation registry boardId name expected action).run base fun r t =>
        (t = [] ∧ ∃ e, r = .error e) ∨
          ∃ operationId s, t = .acquired ⟨operationId, name⟩ ::
              (s ++ [.released ⟨operationId, name⟩]) ∧
            Reported (Φ operationId) r s := by
  refine Traces.resultBind ?_ fun e _ => .inl ⟨rfl, e, rfl⟩
  intro profile hprofile
  refine Traces.silentBind (fun _ _ => rfl) fun operationId =>
    Traces.silentBind (fun _ _ => rfl) fun startedMs => Traces.actBind ?_
  intro heldBy es hes
  obtain ⟨c, c', -, rfl⟩ := hes
  cases heldBy with
  | some heldBy => exact ⟨trivial, Traces.throwError (.inl ⟨rfl, _, rfl⟩)⟩
  | none =>
      refine ⟨⟨hacquire _, trivial⟩, ?_⟩
      refine Traces.attemptBind (Φ := Reported (Φ operationId)) ?_
        fun r s hs => ?_
      · refine Traces.bindE (haction profile operationId hprofile) ?_
          fun _ _ he => he
        intro performed t ht
        refine Traces.bindE (observedState_traces fun c => hlook _ c) ?_ ?_
        · rintro observed _ ⟨c, -, rfl⟩
          refine Traces.silentBind (fun _ _ => rfl) fun finishedMs => ?_
          exact Traces.done ⟨performed, t, c, by simp, ht, rfl⟩
        · rintro e _ ⟨c, ⟨⟩, -⟩
      · refine Traces.eventBind (fun _ _ => rfl) (hrelease _ _) fun _ => ?_
        exact Traces.pure (.inr ⟨operationId, s, by simp [BoardOp.events], hs⟩)

theorem operation_allowed {allowed : List Event → Event → Prop}
    {registry : BoardRegistry} {boardId name : String}
    {expected : Option String}
    {action : BoardProfile → String → Action Performed} {base : List Event}
    (hacquire : ∀ owner, allowed base (.acquired owner))
    (hlook : ∀ log c, allowed log (.looked c))
    (hrelease : ∀ log owner, allowed log (.released owner))
    (haction : ∀ profile operationId owner,
      registry.board boardId = .ok profile →
        Traces BoardOp.emits allowed (action profile operationId).run
          (base ++ [.acquired owner]) fun _ _ => True) :
    Traces BoardOp.emits allowed
      (operation registry boardId name expected action).run base
      fun _ _ => True :=
  Traces.mono (operation_outcome hacquire hlook hrelease
    fun profile operationId => haction profile operationId _)
    fun _ _ _ => trivial

end Operation

section Operations

variable {free : Bool} {registry : BoardRegistry} {boardId : String}
variable {base : List Event}

theorem IsConsole.keepsLease {α : Type} {action : Action α}
    (h : IsConsole free action) :
    KeepsLease free action fun r s => Accepted r ∧ ConsoleOnly s :=
  (Runs.mono (.of_console h) fun _ _ ht => ⟨ht.1, ht.2.1⟩).keepsLease

/-- The rejections of an operation are harmless but for those of its closure
that are not. -/
theorem OperationTrace.harmless_or
    {Φ : BoardProfile → Result Performed → List Event → Prop}
    {R : BoardProfile → List Event → Prop}
    {r : Result OperationResult} {t : List Event}
    (h : OperationTrace registry boardId Φ r t)
    (hmono : ∀ profile s u, s ⊆ u → R profile s → R profile u)
    (hΦ : ∀ profile e s, Φ profile (.error e) s →
      Harmless (.error e : Result Performed) s ∨ R profile s) :
    Harmless r t ∨
      ∃ profile, registry.board boardId = .ok profile ∧ R profile t := by
  rcases h with ⟨rfl, -⟩ | ⟨profile, owner, s, hprofile, rfl, hs⟩
  · exact .inl fun _ _ _ => inert_nil
  · cases r with
    | ok result => exact .inl ((accepted_ok _).harmless _)
    | error e =>
        rcases hΦ profile e s hs with hharmless | hrefused
        · left
          rintro _ ⟨⟩ hreject
          have := hharmless e rfl hreject
          simp [this, Event.isEffect]
        · have hst : s ⊆ .acquired owner :: (s ++ [.released owner]) := by
            intro e he
            simp [he]
          exact .inr ⟨profile, hprofile, hmono profile _ _ hst hrefused⟩

/-- A closure whose rejections are harmless makes a harmless operation. -/
theorem OperationTrace.harmless
    {Φ : BoardProfile → Result Performed → List Event → Prop}
    {r : Result OperationResult} {t : List Event}
    (h : OperationTrace registry boardId Φ r t)
    (hΦ : ∀ profile e s, Φ profile (.error e) s →
      Harmless (.error e : Result Performed) s) : Harmless r t := by
  have hall := h.harmless_or (R := fun _ _ => False) (fun _ _ _ _ => id)
    fun profile e s hs => .inl (hΦ profile e s hs)
  simpa using hall

/-- What an operation does that deals with the console alone. -/
abbrev ConsoleOperation (registry : BoardRegistry) (boardId : String) :
    Result OperationResult → List Event → Prop :=
  OperationTrace registry boardId fun _ r s => Accepted r ∧ ConsoleOnly s

theorem ConsoleOperation.accepted {r : Result OperationResult}
    {t : List Event} (h : ConsoleOperation registry boardId r t) :
    Accepted r := by
  intro e he
  subst he
  rcases h with ⟨-, e', he, haccepted⟩ | ⟨profile, owner, s, -, -, hs⟩
  · cases he
    exact haccepted
  · exact accepted_error.mp hs.1

theorem powerOn_traces (hbase : pending base = false) :
    Traces BoardOp.emits (Permitted free) (powerOn registry boardId).run base
      (OperationTrace registry boardId fun profile =>
        PowerOutcome profile true) := by
  unfold powerOn
  refine operation_traces (fun profile _ _ => ?_) hbase
  exact powerOnAction_runs.keepsLease

theorem powerOnUboot_traces (hbase : pending base = false) (timeoutMs : Nat) :
    Traces BoardOp.emits (Permitted free)
      (powerOnUboot registry boardId timeoutMs).run base
      (OperationTrace registry boardId UbootTrace) := by
  unfold powerOnUboot
  refine operation_traces (fun profile _ _ log hlog => ?_) hbase
  exact powerOnUbootAction_traces hlog timeoutMs

theorem powerOnLinux_traces (hbase : pending base = false) (login : Bool)
    (timeoutMs : Nat) :
    Traces BoardOp.emits (Permitted free)
      (powerOnLinux registry boardId login timeoutMs).run base
      (OperationTrace registry boardId fun profile r t =>
        (∀ a, r = .ok a → Achieved profile true t) ∧
          (Harmless r t ∨ LoginRefused profile login t)) := by
  unfold powerOnLinux
  refine operation_traces (fun profile _ _ => ?_) hbase
  exact (powerOnLinuxAction_runs login timeoutMs).keepsLease

/-- The trace of a call that is confirmed, or is rejected at once. -/
def Confirming (confirmed : Bool)
    (Φ : Result OperationResult → List Event → Prop)
    (r : Result OperationResult) (t : List Event) : Prop :=
  (confirmed = false ∧ t = [] ∧ ∃ e, r = .error e) ∨
    confirmed = true ∧ Φ r t

theorem Confirming.harmless {confirmed : Bool}
    {Φ : Result OperationResult → List Event → Prop}
    {r : Result OperationResult} {t : List Event}
    (h : Confirming confirmed Φ r t) (hΦ : Φ r t → Harmless r t) :
    Harmless r t := by
  rcases h with ⟨-, rfl, -⟩ | ⟨-, h⟩
  · exact fun _ _ _ => inert_nil
  · exact hΦ h

theorem forcedPowerOff_traces (hbase : pending base = false)
    (confirmed : Bool) :
    Traces BoardOp.emits (Permitted free)
      (forcedPowerOff registry boardId confirmed).run base
      (Confirming confirmed (OperationTrace registry boardId fun profile =>
        PowerOutcome profile false)) := by
  cases confirmed with
  | false => exact Traces.throwError (.inl ⟨rfl, rfl, _, rfl⟩)
  | true =>
      refine Traces.mono (operation_traces (fun profile _ _ => ?_) hbase)
        fun _ _ ht => .inr ⟨rfl, ht⟩
      exact forcedPowerOffAction_runs.keepsLease

theorem gracefulPowerOff_traces (hbase : pending base = false)
    (confirmed : Bool) :
    Traces BoardOp.emits (Permitted free)
      (gracefulPowerOff registry boardId confirmed).run base
      (Confirming confirmed (OperationTrace registry boardId
        fun profile r t => (∀ a, r = .ok a → Achieved profile false t) ∧
          (Harmless r t ∨ RelayRefused profile t))) := by
  cases confirmed with
  | false => exact Traces.throwError (.inl ⟨rfl, rfl, _, rfl⟩)
  | true =>
      refine Traces.mono (operation_traces (fun profile _ _ => ?_) hbase)
        fun _ _ ht => .inr ⟨rfl, ht⟩
      exact gracefulPowerOffAction_runs.keepsLease

theorem powerCycle_traces (hbase : pending base = false)
    (confirmed : Bool) :
    Traces BoardOp.emits (Permitted free)
      (powerCycle registry boardId confirmed).run base
      (Confirming confirmed
        (OperationTrace registry boardId PowerCycleTrace)) := by
  cases confirmed with
  | false => exact Traces.throwError (.inl ⟨rfl, rfl, _, rfl⟩)
  | true =>
      refine Traces.mono (operation_traces (fun profile _ _ => ?_) hbase)
        fun _ _ ht => .inr ⟨rfl, ht⟩
      exact powerCycleAction_runs.keepsLease

theorem simpleConsoleOperation_traces (hbase : pending base = false)
    (name : String) (bytes : List UInt8) (expected : List BoardState)
    (timeoutMs : Nat) (newGeneration : Bool) :
    Traces BoardOp.emits (Permitted free)
      (simpleConsoleOperation registry boardId name bytes expected timeoutMs
        newGeneration).run base (ConsoleOperation registry boardId) := by
  unfold simpleConsoleOperation
  refine operation_traces (fun profile _ _ => ?_) hbase
  exact (simpleConsoleAction_console _ _ _ _ _).keepsLease

theorem rebootIntoUboot_traces (hbase : pending base = false)
    (timeoutMs : Nat) :
    Traces BoardOp.emits (Permitted free)
      (rebootIntoUboot registry boardId timeoutMs).run base
      (ConsoleOperation registry boardId) := by
  unfold rebootIntoUboot
  refine operation_traces (fun profile _ _ => ?_) hbase
  exact (restartIntoUbootAction_console _ _ _).keepsLease

theorem resetIntoUboot_traces (hbase : pending base = false)
    (timeoutMs : Nat) :
    Traces BoardOp.emits (Permitted free)
      (resetIntoUboot registry boardId timeoutMs).run base
      (ConsoleOperation registry boardId) := by
  unfold resetIntoUboot
  refine operation_traces (fun profile _ _ => ?_) hbase
  exact (restartIntoUbootAction_console _ _ _).keepsLease

end Operations

section Methods

variable {free : Bool} {registry : BoardRegistry}

theorem accepted_board (boardId : String) :
    Accepted (registry.board boardId) := by
  intro e he
  rw [BoardRegistry.code_of_board he]
  rfl

theorem listBoardSummaries_quiet :
    IsQuiet (Permitted free) (listBoardSummaries registry) := by
  unfold listBoardSummaries
  induction registry.list with
  | nil => exact .pure _
  | cons profile profiles ih =>
      have howner : IsQuiet (Permitted free) (act .leaseOwner) :=
        .silent (o := .leaseOwner) fun _ _ => rfl
      rw [List.mapM_cons]
      exact .bind (.bind howner fun _ => .pure _) fun _ =>
        .bind ih fun _ => .pure _

theorem look_quiet : IsQuiet (Permitted free) (act .lockSerial) :=
  .act fun _ _ _ _ => ⟨⟨trivial, trivial⟩, by
    simp [BoardOp.events, Region.passive, Event.isPassive]⟩

theorem captureBoardSerial_quiet (req : CaptureSerialRequest) :
    IsQuiet (Permitted free) (captureBoardSerial registry req) :=
  .bind (.result (accepted_board _)) fun _ =>
    .bind look_quiet fun _ => .pure _

/-- The region in which an active probe moves. -/
def Region.probe : Region where
  within _ := True
  has := Event.isConsole
  keep _ _ := trivial

/-- Permissions under which a look at the console, with or without a write
before it, can be carried out. -/
structure Probing (allowed : List Event → Event → Prop) (write : Bool) :
    Prop where
  look : ∀ log console, allowed log (.looked console)
  sleep : ∀ log ms, allowed log (.slept ms)
  write : write = true → ∀ log byte error, allowed log (.wrote byte error)

theorem probing_permitted (write : Bool) :
    Probing (Permitted write) write where
  look _ _ := trivial
  sleep _ _ := trivial
  write hwrite _ _ _ := .inl hwrite

section Probe

variable {allowed : List Event → Event → Prop}

theorem Probing.writable (h : Probing allowed true) :
    Writable allowed fun _ => True where
  keep _ _ _ _ := trivial
  write log byte error _ := h.write rfl log byte error
  sleep log ms _ := h.sleep log ms

theorem Probing.within_look {write : Bool} (h : Probing allowed write) :
    Within .probe allowed (act .lockSerial) :=
  .act fun base _ console _ => ⟨⟨h.look base console, trivial⟩, by
    simp [BoardOp.events, Region.probe, Event.isConsole]⟩

/-- An observation of the state is never rejected; with an active probe it may
write to the console. -/
theorem boardState_within (registry : BoardRegistry) (req : BoardStateRequest)
    (h : Probing allowed (req.activeProbe.getD false)) :
    Within .probe allowed (boardState registry req) := by
  refine .bind (.result (accepted_board _)) fun profile =>
    .bind (.bind h.within_look fun _ => .pure _) fun cursor => ?_
  have hprobe : Within .probe allowed
      (probeIf profile (req.activeProbe.getD false)) := by
    cases hactive : req.activeProbe.getD false with
    | false => exact .pure _
    | true =>
        rw [hactive] at h
        exact fun base _ => Traces.mono
          (writeConsole_traces h.writable _ trivial)
          fun _ _ ht => ⟨ht.accepted, ht.console, fun _ _ => trivial⟩
  refine .bind hprobe fun _ => .bind ?_ fun _ => .bind h.within_look fun ring =>
    .bind (.silent fun _ _ => rfl) fun timestamp => .pure _
  exact .act fun base _ _ _ => ⟨⟨h.sleep base _, trivial⟩, by
    simp [BoardOp.events, Region.probe, Event.isConsole]⟩

end Probe

theorem Within.harmless {R : Region} {α : Type} {action : Action α}
    (h : Within R (Permitted free) action) {base : List Event}
    (hbase : R.within base) :
    Traces BoardOp.emits (Permitted free) action.run base Harmless :=
  Traces.mono (h base hbase) fun _ t ht => ht.1.harmless t

theorem boardPowerState_harmless (req : BoardRequest) (base : List Event) :
    Traces BoardOp.emits (Permitted free) (boardPowerState registry req).run
      base Harmless := by
  refine Traces.resultBind ?_ ?_
  · intro profile _
    refine Traces.bindE (powerState_traces (lenient_permitted _) base) ?_ ?_
    · exact fun _ _ _ => Traces.done ((accepted_ok _).harmless _)
    · intro e t ht _ he hreject
      cases he
      rw [(ht.2 hreject).1]
      exact inert_nil
  · intro e he
    exact harmless_of_accepted (accepted_board _ e he) _

/-- The ways in which a call can be rejected after it has changed the board,
and the worker's rejections that `power_on_uboot` passes on. -/
def Refused (registry : BoardRegistry) (req : RpcRequest)
    (t : List Event) : Prop :=
  match req with
  | .powerOn req => ∃ profile wait e,
      registry.board req.boardId = .ok profile ∧ Switchable profile ∧
      req.waitFor = some wait ∧ wait ≠ "none" ∧ parseState wait = .error e
  | .powerOnUboot req => ∃ profile identity e,
      registry.board req.boardId = .ok profile ∧
      HasRelay profile identity ∧ e.code.isRejection = true ∧
      .workerJoined (.returned (.error e)) ∈ t
  | .powerOnLinux req => ∃ profile,
      registry.board req.boardId = .ok profile ∧
      LoginRefused profile (req.login.getD false) t
  | .powerOff req => ∃ profile,
      registry.board req.boardId = .ok profile ∧
      (trim req.reason.toList).isEmpty = false ∧ req.mode = "graceful" ∧
      req.confirmation = true ∧ RelayRefused profile t
  | _ => False

/-- What a remote procedure call does: its rejections are harmless, but for
the ones that are listed. -/
def RpcTrace (registry : BoardRegistry) (req : RpcRequest)
    (r : Result RpcResult) (t : List Event) : Prop :=
  Harmless r t ∨ Refused registry req t

theorem harmless_map {α β : Type} {f : α → β} {r : Result α}
    {t : List Event} (h : Harmless r t) : Harmless (r.map f) t := by
  intro e he hreject
  cases r with
  | ok a => cases he
  | error e' =>
      cases he
      exact h e rfl hreject

theorem waitAfterPowerOn_traces {profile : BoardProfile}
    {waitFor : Option String} {base : List Event} :
    Traces BoardOp.emits (Permitted free)
      (waitAfterPowerOn profile waitFor).run base fun r _ =>
        Accepted r ∨ ∃ wait e, waitFor = some wait ∧ wait ≠ "none" ∧
          parseState wait = .error e := by
  unfold waitAfterPowerOn
  split
  · exact Traces.done (.inl (accepted_ok ()))
  · rename_i wait hwait
    obtain ⟨hsome, hnone⟩ := Option.filter_eq_some_iff.mp hwait
    refine Traces.resultBind ?_ ?_
    · intro states _
      refine Traces.bindE (waitForStates_traces (lenient_permitted free)
        _ _ _ _) ?_ ?_
      · exact fun _ _ _ => Traces.done (.inl (accepted_ok ()))
      · exact fun e t ht => .inl (accepted_error.mpr
          (accepted_error.mp ht.accepted))
    · intro e he
      refine .inr ⟨wait, e, hsome, by simpa using hnone, ?_⟩
      rw [parseStates_singleton] at he
      cases hparse : parseState wait with
      | ok state => simp [hparse, Except.map] at he
      | error e' =>
          rw [hparse] at he
          cases he
          rfl

end Methods

/-- A request that writes to the console without a lease. -/
def ClientRequest.isProbe : ClientRequest → Bool
  | .rpc (.getBoardState req) => req.activeProbe.getD false
  | _ => false

section Dispatch

variable {free : Bool} {registry : BoardRegistry} {base : List Event}

theorem powerOnBoard_traces (hbase : pending base = false)
    (req : PowerOnRequest) :
    Traces BoardOp.emits (Permitted free) (powerOnBoard registry req).run base
      fun r t => Harmless r t ∨ Refused registry (.powerOn req) t := by
  refine Traces.bindE (powerOn_traces hbase) ?_ ?_
  · intro result t ht
    rcases ht with ⟨-, e, ⟨⟩, -⟩ | ⟨profile, owner, s, hprofile, -, hs⟩
    obtain ⟨performed, s', c, -, hs', -⟩ := hs
    obtain ⟨front, s, observation, rest, -, hpower, -⟩ :=
      hs'.achieved performed rfl
    refine Traces.resultBind ?_ ?_
    · intro profile' hprofile'
      obtain rfl := Except.ok.inj (hprofile.symm.trans hprofile')
      refine Traces.bindE waitAfterPowerOn_traces ?_ ?_
      · exact fun _ _ _ => Traces.done (.inl ((accepted_ok _).harmless _))
      · intro e t' ht'
        rcases ht' with haccepted | ⟨wait, e', hwait, hnone, hparse⟩
        · exact .inl (harmless_of_accepted (accepted_error.mp haccepted) _)
        · exact .inr ⟨profile, wait, e', hprofile, hpower.switchable, hwait,
            hnone, hparse⟩
    · intro e he
      rw [hprofile] at he
      cases he
  · exact fun e t ht => .inl (ht.harmless fun _ _ _ hs => hs.harmless)

/-- A lookup of the board that the call names. -/
theorem Traces.boardBind {β : Type} {boardId : String}
    {f : BoardProfile → Action β} {Ψ : Result β → List Event → Prop}
    (hΨ : ∀ e, e.code.isRejection = false → Ψ (.error e) [])
    (h : ∀ profile, registry.board boardId = .ok profile →
      Traces BoardOp.emits (Permitted free) (f profile).run base Ψ) :
    Traces BoardOp.emits (Permitted free)
      (ofResult (registry.board boardId) >>= f).run base Ψ :=
  Traces.resultBind h fun e he => hΨ e (accepted_board boardId e he)

theorem powerOnUbootBoard_traces (hbase : pending base = false)
    (req : PowerOnUbootRequest) :
    Traces BoardOp.emits (Permitted free)
      (powerOnUbootBoard registry req).run base
      (OperationTrace registry req.boardId UbootTrace) :=
  Traces.boardBind (fun e he => .inl ⟨rfl, e, rfl, he⟩) fun _ _ =>
    powerOnUboot_traces hbase _

theorem powerOnLinuxBoard_traces (hbase : pending base = false)
    (req : PowerOnLinuxRequest) :
    Traces BoardOp.emits (Permitted free)
      (powerOnLinuxBoard registry req).run base
      (OperationTrace registry req.boardId fun profile r t =>
        (∀ a, r = .ok a → Achieved profile true t) ∧
          (Harmless r t ∨
            LoginRefused profile (req.login.getD false) t)) :=
  Traces.boardBind (fun e he => .inl ⟨rfl, e, rfl, he⟩) fun _ _ =>
    powerOnLinux_traces hbase _ _

/-- The worker's rejection is the only one that `power_on_uboot` passes on. -/
theorem refused_of_uboot {req : PowerOnUbootRequest}
    {r : Result OperationResult} {t : List Event}
    (h : OperationTrace registry req.boardId UbootTrace r t) :
    Harmless r t ∨ Refused registry (.powerOnUboot req) t := by
  have hrefused := h.harmless_or (R := fun profile t => ∃ identity e,
    HasRelay profile identity ∧ e.code.isRejection = true ∧
      .workerJoined (.returned (.error e)) ∈ t) ?_ ?_
  · refine hrefused.imp_right ?_
    rintro ⟨profile, hprofile, identity, e, hrest⟩
    exact ⟨profile, identity, e, hprofile, hrest⟩
  · rintro profile s u hsu ⟨identity, e, hrelay, hreject, hmem⟩
    exact ⟨identity, e, hrelay, hreject, hsu hmem⟩
  · rintro profile e s (⟨-, hharmless, -⟩ | ⟨front, c, s, rfl, harmed, hscoped⟩)
    · exact .inl hharmless
    · obtain ⟨identity, hrelay⟩ := harmed.relay
      obtain ⟨outcome, boot, u, v, rfl, hr, hscope⟩ := hscoped
      cases hreject : e.code.isRejection with
      | false => exact .inl (harmless_of_accepted hreject _)
      | true =>
          have houtcome := hscope.returned_of_rejected hr.symm hreject
          refine .inr ⟨identity, e, hrelay, hreject, ?_⟩
          rcases hscope.mem with hu | hv
          · simp [← houtcome, hu]
          · simp [← houtcome, hv]

/-- A login that is refused after the power is on. -/
theorem refused_of_linux {req : PowerOnLinuxRequest}
    {r : Result OperationResult} {t : List Event}
    (h : OperationTrace registry req.boardId (fun profile r t =>
      (∀ a, r = .ok a → Achieved profile true t) ∧
        (Harmless r t ∨ LoginRefused profile (req.login.getD false) t)) r t) :
    Harmless r t ∨ Refused registry (.powerOnLinux req) t :=
  h.harmless_or (fun _ _ _ hsu hrefused => hrefused.mono hsu)
    fun _ _ _ hs => hs.2

theorem powerOffBoard_traces (hbase : pending base = false)
    (req : PowerOffRequest) :
    Traces BoardOp.emits (Permitted free)
      (powerOffBoard registry req).run base
      fun r t => Harmless r t ∨ Refused registry (.powerOff req) t := by
  unfold powerOffBoard
  split
  · exact Traces.throwError (.inl fun _ _ _ => inert_nil)
  · rename_i hreason
    split
    · rename_i hmode
      refine Traces.mono (gracefulPowerOff_traces hbase _) fun r t ht => ?_
      rcases ht with ⟨-, rfl, -⟩ | ⟨hconfirmed, ht⟩
      · exact .inl fun _ _ _ => inert_nil
      · have hrefused := ht.harmless_or (R := RelayRefused)
          (fun _ _ _ hsu hrefused => hrefused.mono hsu)
          fun _ _ _ hs => hs.2
        refine hrefused.imp_right ?_
        rintro ⟨profile, hprofile, hrelay⟩
        exact ⟨profile, hprofile, by simpa using hreason, hmode, hconfirmed,
          hrelay⟩
    · split
      · refine Traces.mono (forcedPowerOff_traces hbase _) fun r t ht => ?_
        refine .inl (ht.harmless fun h => h.harmless fun _ _ _ hs =>
          hs.harmless)
      · exact Traces.throwError (.inl fun _ _ _ => inert_nil)

theorem powerCycleBoard_harmless (hbase : pending base = false)
    (req : PowerCycleRequest) :
    Traces BoardOp.emits (Permitted free)
      (powerCycleBoard registry req).run base Harmless := by
  unfold powerCycleBoard
  split
  · exact Traces.throwError fun _ _ _ => inert_nil
  · split
    · exact Traces.throwError fun _ _ _ => inert_nil
    · refine Traces.mono (powerCycle_traces hbase _) fun r t ht => ?_
      exact ht.harmless fun h => h.harmless fun _ _ _ hs => hs.harmless

theorem waitForBoardState_harmless (req : WaitStateRequest) :
    Traces BoardOp.emits (Permitted free)
      (waitForBoardState registry req).run base Harmless := by
  refine Traces.resultBind ?_ fun _ _ _ _ _ => inert_nil
  intro states _
  refine Traces.boardBind (fun e he => harmless_of_accepted he _) ?_
  intro profile _
  refine Traces.bindE (waitForStates_traces (lenient_permitted free)
    _ _ _ _) ?_ ?_
  · intro state t _
    exact Traces.silentBind (fun _ _ => rfl) fun timestamp =>
      Traces.done ((accepted_ok _).harmless _)
  · exact fun e t ht => harmless_of_accepted (accepted_error.mp ht.accepted) _

/-- What a console operation does is never rejected. -/
theorem ConsoleOperation.harmless {boardId : String}
    {r : Result OperationResult} {t : List Event}
    (h : ConsoleOperation registry boardId r t) : Harmless r t :=
  h.accepted.harmless t

theorem enterUbootFrom_harmless (hbase : pending base = false)
    (profile : BoardProfile) (boardId restart : String)
    (state : BoardState) :
    Traces BoardOp.emits (Permitted free)
      (enterUbootFrom registry profile boardId restart state).run base
      Harmless := by
  unfold enterUbootFrom
  split
  · split
    · exact Traces.mono (resetIntoUboot_traces hbase _)
        fun _ _ ht => ht.harmless
    · exact Traces.mono (simpleConsoleOperation_traces hbase _ _ _ _ _)
        fun _ _ ht => ht.harmless
  · split
    · exact Traces.mono (simpleConsoleOperation_traces hbase _ _ _ _ _)
        fun _ _ ht => ht.harmless
    · split
      · exact Traces.throwError (harmless_of_accepted rfl _)
      · split
        · exact Traces.mono (rebootIntoUboot_traces hbase _)
            fun _ _ ht => ht.harmless
        · exact Traces.throwError (harmless_of_accepted rfl _)

theorem enterBoardUboot_harmless (hbase : pending base = false)
    (req : EnterUbootRequest) :
    Traces BoardOp.emits (Permitted free)
      (enterBoardUboot registry req).run base Harmless := by
  refine Traces.boardBind (fun e he => harmless_of_accepted he _) ?_
  intro profile _
  have hobserve : IsQuiet (Permitted free) (observedState profile) :=
    .bind look_quiet fun _ => .pure _
  refine Traces.bindE (hobserve.quiet base) ?_ ?_
  · intro state t ht
    split
    · exact Traces.throwError fun _ _ _ => by simpa using ht.1.2.inert
    · have hpending : pending (base ++ t) = false := by
        rw [pending_append ht.1.2.neutral, hbase]
      refine Traces.mono (enterUbootFrom_harmless hpending _ _ _ _) ?_
      intro r t' ht' e he hreject
      exact inert_append.mpr ⟨ht.1.2.inert, ht' e he hreject⟩
  · exact fun e t ht => harmless_of_accepted (accepted_error.mp ht.1.1) _

theorem consoleCommand_harmless (hbase : pending base = false)
    (boardId name command : String) (linux : Bool) (timeoutMs : Nat) :
    Traces BoardOp.emits (Permitted free)
      (consoleCommand registry boardId name command linux timeoutMs).run base
      Harmless := by
  refine Traces.boardBind (fun e he => harmless_of_accepted he _) ?_
  intro profile _
  refine Traces.resultBind ?_ fun _ _ _ _ _ => inert_nil
  intro _ _
  have hoperation : Traces BoardOp.emits (Permitted free)
      (operation registry boardId name none fun profile operationId =>
        consoleCommandAction profile command linux timeoutMs operationId).run
      base (ConsoleOperation registry boardId) := by
    refine operation_traces (fun profile operationId _ => ?_) hbase
    exact (consoleCommandAction_console _ _ _ _).keepsLease
  refine Traces.bindE hoperation ?_ fun e t ht => ht.harmless
  exact fun _ _ _ => Traces.done ((accepted_ok _).harmless _)

theorem bootBoardLinux_harmless (hbase : pending base = false)
    (req : BootLinuxRequest) :
    Traces BoardOp.emits (Permitted free) (bootBoardLinux registry req).run
      base Harmless := by
  refine Traces.boardBind (fun e he => harmless_of_accepted he _) ?_
  exact fun _ _ => Traces.mono (simpleConsoleOperation_traces hbase _ _ _ _ _)
    fun _ _ ht => ht.harmless

theorem linuxBoardLogin_harmless (hbase : pending base = false)
    (req : LinuxLoginRequest) :
    Traces BoardOp.emits (Permitted free) (linuxBoardLogin registry req).run
      base Harmless := by
  refine Traces.boardBind (fun e he => harmless_of_accepted he _) ?_
  intro profile _
  split
  · exact Traces.throwError fun _ _ _ => inert_nil
  · split
    · exact Traces.throwError fun _ _ _ => inert_nil
    · exact Traces.mono (simpleConsoleOperation_traces hbase _ _ _ _ _)
        fun _ _ ht => ht.harmless

theorem rebootBoardLinux_harmless (hbase : pending base = false)
    (req : RebootLinuxRequest) :
    Traces BoardOp.emits (Permitted free) (rebootBoardLinux registry req).run
      base Harmless := by
  unfold rebootBoardLinux
  split
  · exact Traces.throwError fun _ _ _ => inert_nil
  · refine Traces.boardBind (fun e he => harmless_of_accepted he _) ?_
    exact fun _ _ => Traces.mono
      (simpleConsoleOperation_traces hbase _ _ _ _ _) fun _ _ ht => ht.harmless

/-- What the dispatcher does with a remote procedure call. -/
theorem handleRpc_traces (req : RpcRequest) (hbase : pending base = false) :
    Traces BoardOp.emits
      (Permitted (ClientRequest.isProbe (.rpc req)))
      (handleRpc registry req).run base (RpcTrace registry req) := by
  have hharmless : ∀ {allowed} {α : Type} {f : α → RpcResult}
      {action : Action α},
      Traces BoardOp.emits allowed action.run base Harmless →
      Traces BoardOp.emits allowed (f <$> action).run base
        (RpcTrace registry req) :=
    fun h => Traces.mapOk (Traces.mono h fun _ _ ht => .inl (harmless_map ht))
  cases req with
  | listBoards =>
      exact hharmless (listBoardSummaries_quiet.harmless trivial)
  | getBoardState req =>
      exact hharmless
        ((boardState_within registry req (probing_permitted _)).harmless
          trivial)
  | getPowerState req => exact hharmless (boardPowerState_harmless req base)
  | captureSerial req =>
      exact hharmless ((captureBoardSerial_quiet req).harmless trivial)
  | powerOn req =>
      refine Traces.mapOk (Traces.mono (powerOnBoard_traces hbase req) ?_)
      exact fun r t ht => ht.imp_left harmless_map
  | powerOnUboot req =>
      refine Traces.mapOk (Traces.mono (powerOnUbootBoard_traces hbase req) ?_)
      exact fun r t ht => (refused_of_uboot ht).imp_left harmless_map
  | powerOnLinux req =>
      refine Traces.mapOk (Traces.mono (powerOnLinuxBoard_traces hbase req) ?_)
      exact fun r t ht => (refused_of_linux ht).imp_left harmless_map
  | powerOff req =>
      refine Traces.mapOk (Traces.mono (powerOffBoard_traces hbase req) ?_)
      exact fun r t ht => ht.imp_left harmless_map
  | powerCycle req => exact hharmless (powerCycleBoard_harmless hbase req)
  | waitForState req => exact hharmless (waitForBoardState_harmless req)
  | enterUboot req => exact hharmless (enterBoardUboot_harmless hbase req)
  | runUbootCommand req =>
      exact hharmless (consoleCommand_harmless hbase _ _ _ _ _)
  | bootLinux req => exact hharmless (bootBoardLinux_harmless hbase req)
  | linuxLogin req => exact hharmless (linuxBoardLogin_harmless hbase req)
  | runLinuxCommand req =>
      exact hharmless (consoleCommand_harmless hbase _ _ _ _ _)
  | rebootLinux req => exact hharmless (rebootBoardLinux_harmless hbase req)

end Dispatch

end RpictlMcp
