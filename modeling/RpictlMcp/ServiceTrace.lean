import RpictlMcp.RequestTrace
import RpictlMcp.System

/-!
# rpictl-mcp: traces of the threads

What the threads of a request do: the main thread of every request but an active
probe keeps to what is permitted without the freedom to write, whichever way the
request has come in.  An active probe deals with the console of its board and
with nothing else.  The worker of `power_on_uboot` makes one call of
`set_power` and returns its result.
-/

namespace RpictlMcp

open Prog

section Service

variable {free : Bool} {registry : BoardRegistry} {base : List Event}

/-- The reply to an action whose trace is known. -/
theorem Traces.reply {α β : Type} {action : Action α} {f : Result α → β}
    {allowed : List Event → Event → Prop}
    {Φ : Result α → List Event → Prop}
    (h : Traces BoardOp.emits allowed action.run base Φ) :
    Traces BoardOp.emits allowed (f <$> action.run) base fun _ _ => True :=
  Traces.map (Traces.mono h fun _ _ _ => trivial)

theorem lookedUp_traces {α : Type} {boardId : String}
    {f : BoardProfile → Action α}
    (h : ∀ profile, Traces BoardOp.emits (Permitted free) (f profile).run base
      fun _ _ => True) :
    Traces BoardOp.emits (Permitted free)
      (ofResult (registry.board boardId) >>= f).run base fun _ _ => True :=
  Traces.resultBind (fun profile _ => h profile) fun _ _ => trivial

theorem powerCommand_traces (hbase : pending base = false)
    (action boardId : String) :
    Traces BoardOp.emits (Permitted free)
      (powerCommand registry action boardId) base fun _ _ => True := by
  unfold powerCommand
  split
  · exact Traces.reply (powerOn_traces hbase)
  · split
    · exact Traces.reply (gracefulPowerOff_traces hbase true)
    · split
      · exact Traces.reply (forcedPowerOff_traces hbase true)
      · split
        · exact Traces.reply (powerCycle_traces hbase true)
        · split
          · refine Traces.reply (lookedUp_traces fun profile => ?_)
            exact Traces.mono (powerState_traces (lenient_permitted _) base)
              fun _ _ _ => trivial
          · exact Traces.pure trivial

theorem forwardConsoleInput_traces (hbase : pending base = false)
    (boardId : String) (bytes : List UInt8) :
    Traces BoardOp.emits (Permitted free)
      (forwardConsoleInput registry boardId bytes) base fun _ _ => True := by
  unfold forwardConsoleInput
  split
  · exact Traces.pure trivial
  · refine Traces.askSilent (fun _ _ => rfl) fun uuid => Traces.askBind ?_
    intro heldBy es hes
    obtain ⟨c, c', -, rfl⟩ := hes
    cases heldBy with
    | some heldBy => exact ⟨trivial, Traces.pure trivial⟩
    | none =>
        refine ⟨⟨trivial, trivial⟩, ?_⟩
        have hheld : holds (base ++ [.acquired
            ⟨"console-" ++ uuid, "interactive_console_write"⟩]) = true := by
          simp [Event.lease]
        refine Traces.bind (writeConsole_traces (writable_held free) bytes
          hheld) fun written t ht => ?_
        refine Traces.askEvent (fun _ _ => rfl) ?_ fun _ => ?_
        · rw [Permitted, pending_append ht.console.neutral]
          simpa [BoardOp.events, Event.worker] using hbase
        · cases written <;> exact Traces.pure trivial

theorem handleConsoleCommand_traces (hbase : pending base = false)
    (boardId cmd : String) :
    Traces BoardOp.emits (Permitted free)
      (handleConsoleCommand registry boardId cmd) base fun _ _ => True := by
  unfold handleConsoleCommand
  simp only
  split
  · exact Traces.reply (powerOn_traces hbase)
  · split
    · exact Traces.reply (gracefulPowerOff_traces hbase true)
    · split
      · exact Traces.reply (forcedPowerOff_traces hbase true)
      · split
        · exact Traces.reply (powerCycle_traces hbase true)
        · split
          · refine Traces.reply (lookedUp_traces fun profile => ?_)
            exact Traces.mono (powerState_traces (lenient_permitted _) base)
              fun _ _ _ => trivial
          · split
            · refine Traces.reply (lookedUp_traces fun profile => ?_)
              have hobserve : IsQuiet (Permitted free) (observedState profile) :=
                .bind look_quiet fun _ => .pure _
              exact Traces.mono (hobserve base trivial) fun _ _ _ => trivial
            · split <;> exact Traces.pure trivial

/-- The main thread of a request keeps to what is permitted. -/
theorem serve_traces (req : ClientRequest) (hbase : pending base = false) :
    Traces BoardOp.emits (Permitted req.isProbe) (serve registry req) base
      fun _ _ => True := by
  cases req with
  | rpc req =>
      exact Traces.reply (handleRpc_traces req hbase)
  | power rest => exact Traces.map (powerCommand_traces hbase _ _)
  | consoleInput boardId byte =>
      exact Traces.map (forwardConsoleInput_traces hbase boardId [byte])
  | consoleCommand boardId cmd =>
      exact Traces.map (handleConsoleCommand_traces hbase boardId cmd)

/-- What an active probe may do: deal with the console of a configured board. -/
def ProbePermitted (board : Result BoardProfile) (_ : List Event)
    (e : Event) : Prop :=
  e.isConsole = true ∧ ∃ profile, board = .ok profile

theorem probing_configured {board : Result BoardProfile}
    {profile : BoardProfile} (hprofile : board = .ok profile) (write : Bool) :
    Probing (ProbePermitted board) write where
  look _ _ := ⟨rfl, profile, hprofile⟩
  sleep _ _ := ⟨rfl, profile, hprofile⟩
  write _ _ _ _ := ⟨rfl, profile, hprofile⟩

/-- An active probe does nothing but deal with the console of its board. -/
theorem serve_probes {req : ClientRequest} (hprobe : req.isProbe = true) :
    Traces BoardOp.emits (ProbePermitted (registry.board req.boardId))
      (serve registry req) base fun _ _ => True := by
  unfold ClientRequest.isProbe at hprobe
  split at hprobe
  · rename_i req
    refine Traces.reply (Φ := fun _ _ => True) (Traces.mapOk ?_)
    cases hboard : registry.board req.boardId with
    | error e =>
        rw [boardState, hboard]
        exact Traces.throwError trivial
    | ok profile =>
        have hwithin := boardState_within registry req
          (probing_configured hboard (req.activeProbe.getD false))
        exact Traces.mono (hwithin base trivial) fun _ _ _ => trivial
  · cases hprobe

/--
What the power worker of a board may do: it returns the result of the call of
`set_power` that it has made.
-/
def WorkerPermitted (board : Result BoardProfile) (log : List Event) :
    Event → Prop
  | .launched command => ∀ on, command.relay? = some on → VerifiedFor on log
  | .looked _ => True
  | .slept _ => True
  | .noted _ => True
  | .workerReturned r =>
      ∃ profile, board = .ok profile ∧ SetPowerTrace profile true r log
  | _ => False

theorem lenient_worker (board : Result BoardProfile) :
    Lenient (WorkerPermitted board) where
  passive := by
    intro log e he
    cases e <;> simp_all [WorkerPermitted, Event.isPassive]
  queried _ _ := trivial
  switched _ _ _ := trivial

theorem powerWorker_traces {board : Result BoardProfile}
    {profile : BoardProfile} (hprofile : board = .ok profile) :
    Traces BoardOp.emits (WorkerPermitted board) (powerWorker profile) []
      fun _ _ => True := by
  refine Traces.askSilent (fun _ _ => rfl) fun _ => ?_
  refine Traces.bind (setPower_traces (lenient_worker board) true trivial ?_) ?_
  · intro q before identity hq hverified on hon
    obtain rfl := Option.some.inj ((switchRelay_relay? identity true).symm.trans
      hon)
    exact ⟨[], q, before, rfl, hq, hverified⟩
  · intro r s hs
    refine Traces.perform ?_
    intro u es hes
    obtain ⟨c, c', -, rfl⟩ := hes
    exact ⟨⟨⟨profile, hprofile, hs⟩, trivial⟩, trivial⟩

/-- The worker of a request keeps to what is permitted to workers. -/
theorem workerOf_traces (req : ClientRequest) :
    Traces BoardOp.emits (WorkerPermitted (registry.board req.boardId))
      (workerOf registry req) [] fun _ _ => True := by
  unfold workerOf
  split
  · rename_i profile hprofile
    exact powerWorker_traces hprofile
  · exact Traces.pure trivial

end Service

end RpictlMcp
