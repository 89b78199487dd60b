import RpictlMcp.RequestProgress
import RpictlMcp.System

/-!
# rpictl-mcp: requests return what they take

What a request knows of the shared world is whether it holds the lease, whether
it holds the mutex of the serial writer and how its power worker stands; this is
`Holdings`.  `write_console` holds the mutex from its lock on until it returns,
which is after the flush or a byte that could not be written.  In the arena of
the main thread the lease can only be released by its holder, the writer only be
used by a thread that holds its mutex and only be locked by one that does not, a
worker only be started once, and only a worker that has been started be joined.

Every request lives in this arena: whatever the devices answer and whether it
gets the lease or not, it can perform each of its actions in its turn, and it
ends without the lease, without the mutex and without a worker to join.
-/

namespace RpictlMcp

open Prog Arena

/-- How the worker of a request stands, as its main thread knows it. -/
inductive Helper where
  | idle
  | unjoined
  | joined
deriving DecidableEq, Repr

/-- What a request holds: the lease, a worker to join, and the mutex of the
serial writer. -/
structure Holdings where
  lease : Option LeaseOwner
  helper : Helper
  writing : Bool
deriving DecidableEq, Repr

/-- A request that holds nothing and has not started a worker. -/
def Holdings.none : Holdings := ⟨.none, .idle, false⟩

/-- A request that is not inside `write_console`. -/
def Holdings.Quiet (v : Holdings) : Prop := v.writing = false

theorem Holdings.quiet_none : Holdings.none.Quiet := rfl

/-- A request that has returned what it took. -/
structure Holdings.Returned (v : Holdings) : Prop where
  lease : v.lease = .none
  helper : v.helper ≠ .unjoined
  quiet : v.Quiet

/-- When the main thread of a request can perform an action. -/
def BoardOp.possible (hasBoard : Prop) (o : BoardSig.Op) (v : Holdings) :
    Prop :=
  match o with
  | .releaseLease owner => v.lease = some owner
  | .spawnWorker => v.helper = .idle
  | .joinWorker => v.helper = .unjoined ∧ hasBoard
  | .finishWorker _ => False
  | .lockWriter => v.writing = false
  | .writeByte _ => v.writing = true
  | .flush => v.writing = true
  | _ => True

/-- What an action of the main thread does to the holdings of its request. -/
def BoardOp.onHoldings (o : BoardSig.Op) (v : Holdings) (r : BoardSig.Resp o)
    (v' : Holdings) : Prop :=
  match o, r with
  | .acquireLease owner _, .none =>
      v.lease = .none ∧ v' = { v with lease := some owner }
  | .releaseLease _, _ => v' = { v with lease := .none }
  | .spawnWorker, _ => v' = { v with helper := .unjoined }
  | .joinWorker, _ => v' = { v with helper := .joined }
  | .lockWriter, .opened => v' = { v with writing := true }
  | .writeByte _, some _ => v' = { v with writing := false }
  | .flush, _ => v' = { v with writing := false }
  | _, _ => v' = v

/-- The main thread of a request, for a board that may be configured or not. -/
def mainArena (hasBoard : Prop) : Arena BoardSig Holdings :=
  ⟨BoardOp.possible hasBoard, BoardOp.onHoldings, BoardOp.late⟩

/-- The worker of a request knows whether it has finished. -/
def workerArena : Arena BoardSig Bool where
  able o finished := finished = false ∧
    match o with
    | .finishWorker _ => True
    | _ => BoardOp.isFree o = true
  moves o finished _ finished' :=
    match o with
    | .finishWorker _ => finished' = true
    | _ => finished' = finished
  late := BoardOp.late

section Programs

variable {hasBoard : Prop}

theorem roomy_main : Roomy (mainArena hasBoard) Holdings.Quiet where
  able := by
    intro o v hfree _
    cases o <;> trivial
  stays := by
    intro o v r v' hfree _ hmoves
    cases o <;> first | exact hmoves | cases hfree
  late := rfl

/-- The byte loop keeps the mutex, and gives it up where it fails. -/
theorem writeBytes_lives (profile : BoardProfile) (bytes : List UInt8)
    {v : Holdings} (hwriting : v.writing = true) :
    (mainArena hasBoard).lives (writeBytes profile bytes).run
      (fun r v' => match r with
        | .ok _ => v' = v
        | .error _ => v' = { v with writing := false }) v := by
  induction bytes with
  | nil => rfl
  | cons byte bytes ih =>
      refine lives_act hwriting ?_
      rintro (_ | error) v' hmoves
      · obtain rfl : v' = v := hmoves
        dsimp only
        split
        · refine lives_act trivial fun _ v' hmoves => ?_
          obtain rfl : v' = _ := hmoves
          exact ih
        · exact ih
      · exact hmoves

/-- A request can write, and no longer holds the mutex when it has written. -/
theorem writeConsole_steady (profile : BoardProfile) (bytes : List UInt8) :
    Steady (mainArena hasBoard) Holdings.Quiet
      (writeConsole profile bytes).run := by
  intro v hquiet
  have hback : { v with writing := false } = v := by
    rw [← show v.writing = false from hquiet]
  refine lives_act hquiet ?_
  rintro (_ | _ | _) v' hmoves
  · exact hmoves
  · exact hmoves
  · obtain rfl : v' = _ := hmoves
    refine lives_bindE (writeBytes_lives profile bytes rfl) ?_ ?_
    · rintro _ _ rfl
      refine lives_act rfl ?_
      rintro (_ | error) v' hmoves
      · exact Eq.trans hmoves hback
      · exact Eq.trans hmoves hback
    · rintro e v' rfl
      exact hback

theorem spacious_main : Spacious (mainArena hasBoard) Holdings.Quiet where
  toRoomy := roomy_main
  writeConsole := writeConsole_steady

theorem roomy_worker : Roomy workerArena fun finished => finished = false where
  able := by
    intro o v hfree hv
    cases o <;> first | exact ⟨hv, hfree⟩ | cases hfree
  stays := by
    intro o v r v' hfree _ hmoves
    cases o <;> first | exact hmoves | cases hfree
  late := rfl

/-- The worker of a configured board finishes. -/
theorem powerWorker_lives (profile : BoardProfile) :
    workerArena.lives (powerWorker profile) (fun _ v => v = true) false := by
  refine (lives_bind _ _ _ _).mpr
    ((roomy_worker.ask rfl).lives rfl fun _ => ?_)
  refine (lives_bind _ _ _ _).mpr
    ((roomy_worker.setPower profile true).lives rfl fun result => ?_)
  exact ⟨⟨rfl, trivial⟩, fun _ _ hmoves => hmoves⟩

/-- The main thread keeps the lease and has nothing else to give back. -/
structure KeptLease (v v' : Holdings) : Prop where
  lease : v'.lease = v.lease
  helper : v'.helper ≠ .unjoined
  quiet : v'.Quiet

/-- What the operations need of what they do under the lease. -/
def Keeps {α : Type} (hasBoard : Prop) (action : Action α) : Prop :=
  ∀ v : Holdings, v.helper = .idle → v.Quiet →
    (mainArena hasBoard).lives action.run (fun _ v' => KeptLease v v') v

theorem KeptLease.of_idle {v : Holdings} (hidle : v.helper = .idle)
    (hquiet : v.Quiet) : KeptLease v v :=
  ⟨rfl, by rw [hidle]; decide, hquiet⟩

theorem Steady.keeps {α : Type} {action : Action α}
    (h : Steady (mainArena hasBoard) Holdings.Quiet action.run) :
    Keeps hasBoard action :=
  fun _ hidle hquiet => h.lives hquiet fun _ => .of_idle hidle hquiet

/-- A request, or a part of one, that returns what it takes. -/
def Tidy {α : Type} (hasBoard : Prop) (p : Prog BoardSig α) : Prop :=
  (mainArena hasBoard).lives p (fun _ v => v.Returned) .none

theorem Steady.tidy {α : Type} {p : Prog BoardSig α}
    (h : Steady (mainArena hasBoard) Holdings.Quiet p) : Tidy hasBoard p :=
  h.lives Holdings.quiet_none fun _ => ⟨rfl, by decide, rfl⟩

theorem Tidy.map {α β : Type} {p : Prog BoardSig α} (h : Tidy hasBoard p)
    (f : α → β) : Tidy hasBoard (f <$> p) := by
  rw [← bind_pure_comp]
  exact (lives_bind _ _ _ _).mpr (lives_mono h fun _ _ hv => hv)

theorem Tidy.mapE {α β : Type} {action : Action α}
    (h : Tidy hasBoard action.run) (f : α → β) :
    Tidy hasBoard (f <$> action).run := by
  rw [ExceptT.run_map]
  exact h.map _

/-- Something steady before a request. -/
theorem Tidy.after {α β : Type} {x : Action α} {f : α → Action β}
    (hx : Steady (mainArena hasBoard) Holdings.Quiet x.run)
    (hf : ∀ y, Tidy hasBoard (f y).run) : Tidy hasBoard (x >>= f).run := by
  refine lives_bindE (Φ := fun _ v => v = .none)
    (hx _ Holdings.quiet_none) ?_ ?_
  · rintro y _ rfl
    exact hf y
  · rintro e _ rfl
    exact ⟨rfl, by decide, rfl⟩

/-- Something steady after a request. -/
theorem Tidy.before {α β : Type} {x : Action α} {f : α → Action β}
    (hx : Tidy hasBoard x.run)
    (hf : ∀ y, Steady (mainArena hasBoard) Holdings.Quiet (f y).run) :
    Tidy hasBoard (x >>= f).run :=
  lives_bindE hx (fun y _ hv => (hf y).lives hv.quiet fun _ => hv)
    fun _ _ hv => hv

/-- What follows a lookup of the board may rely on it. -/
theorem Tidy.board {β : Type} {registry : BoardRegistry} {boardId : String}
    {f : BoardProfile → Action β}
    (hf : ∀ profile, registry.board boardId = .ok profile →
      Tidy hasBoard (f profile).run) :
    Tidy hasBoard (ofResult (registry.board boardId) >>= f).run := by
  cases hboard : registry.board boardId with
  | error e =>
      refine Steady.tidy ?_
      exact .throw e
  | ok profile => exact hf profile hboard

/-! ## Operations under the lease -/

theorem underLease_keeps {profile : BoardProfile} {owner : LeaseOwner}
    {expected : Option String} {startedMs : Nat} {action : Action Performed}
    (h : Keeps hasBoard action) :
    Keeps hasBoard
      (underLease profile owner expected startedMs action) := by
  intro v hidle hquiet
  refine lives_bindE (h v hidle hquiet) (fun performed v' hv => ?_)
    fun _ _ hv => hv
  refine (Steady.bindE (roomy_main.observedState profile) fun observed => ?_)
    |>.lives hv.quiet fun _ => hv
  exact .bindE (roomy_main.act rfl) fun _ => .pureE _

theorem withLease_tidy {α : Type} {owner : LeaseOwner} {timeoutMs : Nat}
    {action : Action α} (h : Keeps hasBoard action) :
    Tidy hasBoard (withLease owner timeoutMs action).run := by
  refine lives_act trivial ?_
  rintro (_ | heldBy) v hmoves
  · obtain ⟨-, rfl⟩ := hmoves
    refine lives_liftBind (h _ rfl rfl) ?_
    rintro result v ⟨hlease, hhelper, hquiet⟩
    refine lives_act hlease ?_
    rintro _ _ rfl
    exact ⟨rfl, hhelper, hquiet⟩
  · obtain rfl := hmoves
    exact ⟨rfl, by decide, rfl⟩

theorem operation_tidy {registry : BoardRegistry} {boardId name : String}
    {expected : Option String}
    {action : BoardProfile → String → Action Performed}
    (h : ∀ profile operationId, registry.board boardId = .ok profile →
      Keeps hasBoard (action profile operationId)) :
    Tidy hasBoard (operation registry boardId name expected action).run := by
  refine Tidy.board fun profile hprofile => ?_
  refine .after (roomy_main.act rfl) fun operationId => ?_
  refine .after (roomy_main.act rfl) fun startedMs => ?_
  exact withLease_tidy (underLease_keeps (h profile operationId hprofile))

/-- An operation that starts no worker. -/
theorem steadyOperation_tidy {registry : BoardRegistry}
    {boardId name : String} {expected : Option String}
    {action : BoardProfile → String → Action Performed}
    (h : ∀ profile operationId, Steady (mainArena hasBoard) Holdings.Quiet
      (action profile operationId).run) :
    Tidy hasBoard (operation registry boardId name expected action).run :=
  operation_tidy fun profile operationId _ => (h profile operationId).keeps

variable {registry : BoardRegistry}

theorem powerOn_tidy (boardId : String) :
    Tidy hasBoard (powerOn registry boardId).run :=
  steadyOperation_tidy fun profile _ => roomy_main.powerOnAction profile

theorem powerOnLinux_tidy (boardId : String) (login : Bool)
    (timeoutMs : Nat) :
    Tidy hasBoard (powerOnLinux registry boardId login timeoutMs).run :=
  steadyOperation_tidy fun profile _ =>
    spacious_main.powerOnLinuxAction profile login timeoutMs

/-- An operation that has to be confirmed. -/
theorem confirmed_tidy {α : Type} {confirmed : Bool} {e : Error}
    {action : Action α} (h : Tidy hasBoard action.run) :
    Tidy hasBoard (if !confirmed then throw e else action : Action α).run := by
  split
  · exact (Steady.throw e).tidy
  · exact h

theorem forcedPowerOff_tidy (boardId : String) (confirmed : Bool) :
    Tidy hasBoard (forcedPowerOff registry boardId confirmed).run :=
  confirmed_tidy (steadyOperation_tidy fun profile _ =>
    roomy_main.forcedPowerOffAction profile)

theorem powerCycle_tidy (boardId : String) (confirmed : Bool) :
    Tidy hasBoard (powerCycle registry boardId confirmed).run :=
  confirmed_tidy (steadyOperation_tidy fun profile _ =>
    roomy_main.powerCycleAction profile)

theorem gracefulPowerOff_tidy (boardId : String) (confirmed : Bool) :
    Tidy hasBoard (gracefulPowerOff registry boardId confirmed).run :=
  confirmed_tidy (steadyOperation_tidy fun profile _ =>
    spacious_main.gracefulPowerOffAction profile)

theorem simpleConsoleOperation_tidy (boardId name : String)
    (bytes : List UInt8) (expected : List BoardState) (timeoutMs : Nat)
    (newGeneration : Bool) :
    Tidy hasBoard (simpleConsoleOperation registry boardId name bytes expected
      timeoutMs newGeneration).run :=
  steadyOperation_tidy fun profile _ => spacious_main.simpleConsoleAction profile
    name bytes expected timeoutMs newGeneration

theorem rebootIntoUboot_tidy (boardId : String) (timeoutMs : Nat) :
    Tidy hasBoard (rebootIntoUboot registry boardId timeoutMs).run :=
  steadyOperation_tidy fun profile _ =>
    spacious_main.restartIntoUbootAction profile _ _ timeoutMs

theorem resetIntoUboot_tidy (boardId : String) (timeoutMs : Nat) :
    Tidy hasBoard (resetIntoUboot registry boardId timeoutMs).run :=
  steadyOperation_tidy fun profile _ =>
    spacious_main.restartIntoUbootAction profile _ _ timeoutMs

theorem consoleCommand_tidy (boardId name command : String) (linux : Bool)
    (timeoutMs : Nat) :
    Tidy hasBoard
      (consoleCommand registry boardId name command linux timeoutMs).run := by
  refine .after (.ofResult _) fun _ => .after (.ofResult _) fun _ => ?_
  refine .before (steadyOperation_tidy fun profile operationId => ?_)
    fun result => .pureE _
  exact spacious_main.consoleCommandAction profile command linux timeoutMs
    operationId

/-! ## The operation with a worker -/

/-- The lease is held, and the worker is to be joined if the handle is there. -/
def Holdings.scope (lease : Option LeaseOwner) (pending : Bool) : Holdings :=
  ⟨lease, if pending then .unjoined else .joined, false⟩

theorem Holdings.quiet_scope (lease : Option LeaseOwner) (pending : Bool) :
    (Holdings.scope lease pending).Quiet := rfl

section Scope

variable {lease : Option LeaseOwner} (hboard : hasBoard)
include hboard

theorem joinPower_lives :
    (mainArena hasBoard).lives joinPower
      (fun _ v => v = .scope lease false) (.scope lease true) := by
  refine lives_ask ⟨rfl, hboard⟩ ?_
  rintro outcome _ rfl
  split <;> rfl

theorem checkPower_lives (pending : Bool) :
    (mainArena hasBoard).lives (checkPower pending)
      (fun r v => v = .scope lease r.2) (.scope lease pending) := by
  unfold checkPower
  split
  · rename_i hpending
    subst hpending
    refine lives_ask trivial ?_
    rintro finished _ rfl
    split
    · refine (lives_bind _ _ _ _).mpr
        (lives_mono (joinPower_lives hboard) ?_)
      exact fun _ _ hv => hv
    · rfl
  · rename_i hpending
    rw [Bool.not_eq_true] at hpending
    subst hpending
    rfl

theorem bootWait_lives (profile : BoardProfile) (states : List BoardState)
    (timeoutMs cursor : Nat) (pending : Bool) :
    (mainArena hasBoard).lives
      (waitForStatesAfterChecked profile states timeoutMs cursor checkPower
        pending)
      (fun r v => v = .scope lease r.2) (.scope lease pending) := by
  refine roomy_main.waitForStatesAfterChecked
    (J := fun pending v => v = .scope lease pending) ?_
    profile states timeoutMs cursor ?_ rfl
  · rintro pending _ rfl
    rfl
  rintro pending _ rfl
  exact checkPower_lives hboard pending

theorem writeAndAwaitPrompt_lives (profile : BoardProfile)
    (bytes : List UInt8) (action : String) (pending : Bool) :
    (mainArena hasBoard).lives
      (writeAndAwaitPrompt profile bytes action pending)
      (fun r v => v = .scope lease r.2) (.scope lease pending) := by
  refine (lives_bind _ _ _ _).mpr
    ((roomy_main.ask rfl).lives (Holdings.quiet_scope _ _) fun ring => ?_)
  refine (lives_bind _ _ _ _).mpr
    ((writeConsole_steady profile bytes).lives (Holdings.quiet_scope _ _) ?_)
  rintro (error | _)
  · rfl
  · refine (lives_bind _ _ _ _).mpr
      (lives_mono (bootWait_lives hboard profile _ _ _ pending) ?_)
    exact fun _ _ hv => hv

theorem bootPhase_lives (profile : BoardProfile) (timeoutMs cursor : Nat) :
    (mainArena hasBoard).lives (bootPhase profile timeoutMs cursor)
      (fun r v => v = .scope lease r.2) (.scope lease true) := by
  refine (lives_bind _ _ _ _).mpr
    (lives_mono (bootWait_lives hboard profile _ _ _ true) ?_)
  rintro ⟨error | state, pending⟩ _ rfl
  · rfl
  · dsimp only
    split <;> exact writeAndAwaitPrompt_lives hboard profile _ _ pending

theorem joinPending_lives (pending : Bool) :
    (mainArena hasBoard).lives (joinPending pending).run
      (fun _ v => v = .scope lease false) (.scope lease pending) := by
  unfold joinPending
  cases pending with
  | false => rfl
  | true => exact joinPower_lives hboard

theorem ubootScope_keeps (profile : BoardProfile) (timeoutMs cursor : Nat) :
    Keeps hasBoard (ubootScope profile timeoutMs cursor) := by
  rintro ⟨lease, helper, writing⟩ hidle hquiet
  obtain rfl : writing = false := hquiet
  refine lives_act hidle ?_
  rintro _ _ rfl
  refine lives_liftBind (bootPhase_lives hboard profile timeoutMs cursor) ?_
  rintro ⟨boot, pending⟩ _ rfl
  refine lives_act trivial ?_
  rintro _ _ rfl
  refine lives_bindE (Φ := fun _ v => v = .scope lease false)
    (joinPending_lives hboard pending) ?_ ?_
  · rintro _ _ rfl
    cases boot <;> exact ⟨rfl, by simp [Holdings.scope], rfl⟩
  · rintro e _ rfl
    exact ⟨rfl, by simp [Holdings.scope], rfl⟩

theorem powerOnUbootAction_keeps (profile : BoardProfile)
    (timeoutMs : Nat) :
    Keeps hasBoard (powerOnUbootAction profile timeoutMs) := by
  intro v hidle hquiet
  have hkeeps : KeptLease v v := .of_idle hidle hquiet
  refine lives_bindE (Φ := fun _ v' => v' = v)
    (roomy_main.powerState profile v hquiet) ?_ fun _ _ hv => hv ▸ hkeeps
  rintro observation u hu
  subst hu
  split
  · exact hkeeps
  · refine lives_act trivial fun _ w hw => ?_
    obtain rfl : w = u := hw
    refine lives_bindE (Φ := fun _ v' => v' = w)
      (roomy_main.nextCursor w hquiet) ?_ fun _ _ hv => hv ▸ hkeeps
    rintro cursor _ rfl
    exact ubootScope_keeps hboard profile timeoutMs cursor _ hidle hquiet

end Scope

/-! ## The requests -/

theorem powerOnUboot_tidy {boardId : String}
    (hboard : ∀ profile, registry.board boardId = .ok profile → hasBoard)
    (timeoutMs : Nat) :
    Tidy hasBoard (powerOnUboot registry boardId timeoutMs).run :=
  operation_tidy fun profile _ hprofile =>
    powerOnUbootAction_keeps (hboard profile hprofile) profile timeoutMs

theorem powerOnBoard_tidy (req : PowerOnRequest) :
    Tidy hasBoard (powerOnBoard registry req).run := by
  refine .before (powerOn_tidy _) fun result => ?_
  refine .bindE (.ofResult _) fun profile => ?_
  exact .bindE (roomy_main.waitAfterPowerOn _ _) fun _ => .pureE _

theorem powerOffBoard_tidy (req : PowerOffRequest) :
    Tidy hasBoard (powerOffBoard registry req).run := by
  unfold powerOffBoard
  split
  · exact (Steady.throw _).tidy
  · split
    · exact gracefulPowerOff_tidy _ _
    · split
      · exact forcedPowerOff_tidy _ _
      · exact (Steady.throw _).tidy

theorem powerCycleBoard_tidy (req : PowerCycleRequest) :
    Tidy hasBoard (powerCycleBoard registry req).run := by
  unfold powerCycleBoard
  split
  · exact (Steady.throw _).tidy
  · split
    · exact (Steady.throw _).tidy
    · exact powerCycle_tidy _ _

theorem enterUbootFrom_tidy (profile : BoardProfile)
    (boardId restart : String) (state : BoardState) :
    Tidy hasBoard
      (enterUbootFrom registry profile boardId restart state).run := by
  unfold enterUbootFrom
  split
  · split
    · exact resetIntoUboot_tidy _ _
    · exact simpleConsoleOperation_tidy _ _ _ _ _ _
  · split
    · exact simpleConsoleOperation_tidy _ _ _ _ _ _
    · split
      · exact (Steady.throw _).tidy
      · split
        · exact rebootIntoUboot_tidy _ _
        · exact (Steady.throw _).tidy

theorem enterBoardUboot_tidy (req : EnterUbootRequest) :
    Tidy hasBoard (enterBoardUboot registry req).run := by
  refine .after (.ofResult _) fun profile => ?_
  refine .after (roomy_main.observedState _) fun state => ?_
  split
  · exact (Steady.throw _).tidy
  · exact enterUbootFrom_tidy _ _ _ _

theorem bootBoardLinux_tidy (req : BootLinuxRequest) :
    Tidy hasBoard (bootBoardLinux registry req).run :=
  .after (.ofResult _) fun _ => simpleConsoleOperation_tidy _ _ _ _ _ _

theorem linuxBoardLogin_tidy (req : LinuxLoginRequest) :
    Tidy hasBoard (linuxBoardLogin registry req).run := by
  refine .after (.ofResult _) fun profile => ?_
  split
  · exact (Steady.throw _).tidy
  · split
    · exact (Steady.throw _).tidy
    · exact simpleConsoleOperation_tidy _ _ _ _ _ _

theorem rebootBoardLinux_tidy (req : RebootLinuxRequest) :
    Tidy hasBoard (rebootBoardLinux registry req).run :=
  confirmed_tidy (.after (.ofResult _) fun _ =>
    simpleConsoleOperation_tidy _ _ _ _ _ _)

/-- The board that a request names is configured. -/
def Configured (registry : BoardRegistry) (req : ClientRequest) : Prop :=
  ∃ profile, registry.board req.boardId = .ok profile

theorem handleRpc_tidy (req : RpcRequest) :
    Tidy (Configured registry (.rpc req)) (handleRpc registry req).run := by
  cases req with
  | listBoards => exact (roomy_main.listBoardSummaries _).tidy.mapE _
  | getBoardState req => exact (spacious_main.boardState _ req).tidy.mapE _
  | getPowerState req => exact (roomy_main.boardPowerState _ req).tidy.mapE _
  | captureSerial req => exact (roomy_main.captureBoardSerial _ req).tidy.mapE _
  | powerOn req => exact (powerOnBoard_tidy req).mapE _
  | powerOnUboot req =>
      refine Tidy.mapE (.after (.ofResult _) fun profile => ?_) _
      exact powerOnUboot_tidy (fun profile hprofile => ⟨profile, hprofile⟩) _
  | powerOnLinux req =>
      exact Tidy.mapE (.after (.ofResult _) fun profile =>
        powerOnLinux_tidy _ _ _) _
  | powerOff req => exact (powerOffBoard_tidy req).mapE _
  | powerCycle req => exact (powerCycleBoard_tidy req).mapE _
  | waitForState req => exact (roomy_main.waitForBoardState _ req).tidy.mapE _
  | enterUboot req => exact (enterBoardUboot_tidy req).mapE _
  | runUbootCommand req => exact (consoleCommand_tidy _ _ _ _ _).mapE _
  | bootLinux req => exact (bootBoardLinux_tidy req).mapE _
  | linuxLogin req => exact (linuxBoardLogin_tidy req).mapE _
  | runLinuxCommand req => exact (consoleCommand_tidy _ _ _ _ _).mapE _
  | rebootLinux req => exact (rebootBoardLinux_tidy req).mapE _

/-- A query of the relay, from the socket or from a console. -/
theorem queryPower_tidy (boardId : String) :
    Tidy hasBoard (do powerState (← ofResult (registry.board boardId)) :
      Action PowerObservation).run :=
  Steady.tidy (.bindE (.ofResult _) fun _ => roomy_main.powerState _)

theorem powerCommand_tidy (action boardId : String) :
    Tidy hasBoard (powerCommand registry action boardId) := by
  unfold powerCommand
  split
  · exact (powerOn_tidy _).map _
  · split
    · exact (gracefulPowerOff_tidy _ _).map _
    · split
      · exact (forcedPowerOff_tidy _ _).map _
      · split
        · exact (powerCycle_tidy _ _).map _
        · split
          · exact (queryPower_tidy _).map _
          · exact (Steady.pure _).tidy

theorem handleConsoleCommand_tidy (boardId cmd : String) :
    Tidy hasBoard (handleConsoleCommand registry boardId cmd) := by
  unfold handleConsoleCommand
  simp only
  split
  · exact (powerOn_tidy _).map _
  · split
    · exact (gracefulPowerOff_tidy _ _).map _
    · split
      · exact (forcedPowerOff_tidy _ _).map _
      · split
        · exact (powerCycle_tidy _ _).map _
        · split
          · exact (queryPower_tidy _).map _
          · split
            · refine (Steady.tidy (.bindE (.ofResult _) fun _ => ?_)).map _
              exact roomy_main.observedState _
            · split <;> exact (Steady.pure _).tidy

theorem forwardConsoleInput_tidy (boardId : String) (bytes : List UInt8) :
    Tidy hasBoard (forwardConsoleInput registry boardId bytes) := by
  unfold forwardConsoleInput
  split
  · exact (Steady.pure _).tidy
  · rename_i profile hprofile
    refine lives_ask trivial fun uuid v hv => ?_
    obtain rfl : v = .none := hv
    refine lives_ask trivial ?_
    rintro (_ | heldBy) v hmoves
    · obtain ⟨-, rfl⟩ := hmoves
      refine (lives_bind _ _ _ _).mpr
        ((writeConsole_steady profile bytes).lives
          (v := ⟨_, .idle, false⟩) rfl ?_)
      intro written
      refine lives_ask rfl ?_
      rintro _ _ rfl
      cases written <;> exact ⟨rfl, by simp, rfl⟩
    · obtain rfl := hmoves
      exact ⟨rfl, by decide, rfl⟩

/-- Every request returns what it takes. -/
theorem serve_tidy (req : ClientRequest) :
    Tidy (Configured registry req) (serve registry req) := by
  cases req with
  | rpc req => exact (handleRpc_tidy req).map _
  | power rest => exact (powerCommand_tidy _ _).map _
  | consoleInput boardId byte => exact (forwardConsoleInput_tidy _ _).map _
  | consoleCommand boardId cmd => exact (handleConsoleCommand_tidy _ _).map _

end Programs

end RpictlMcp
