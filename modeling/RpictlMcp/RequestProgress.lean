import RpictlMcp.Requests
import RpictlMcp.Kernel.Completion

/-!
# rpictl-mcp: no function of the service hangs

Most functions of the service neither touch the lease nor a worker, and some
write to the console.  Whatever the devices answer, each of their actions is
possible, and each turn of each of their loops can be the last: the waits for a
state and the collection of a power command's output look at the clock in every
turn.

The functions are judged in any arena that has room for such actions, so that
the results serve the main thread of a request as well as its power worker,
which does not write.
-/

namespace RpictlMcp

open Prog Arena

/-- The actions that touch neither the lease, nor a worker, nor the serial
writer. -/
def BoardOp.isFree : BoardOp → Bool
  | .acquireLease _ _ => false
  | .releaseLease _ => false
  | .spawnWorker => false
  | .joinWorker => false
  | .finishWorker _ => false
  | .lockWriter => false
  | .writeByte _ => false
  | .flush => false
  | _ => true

/-- The clock that waits look at: a reading that is not earlier than `T`. -/
def BoardOp.late : (o : BoardSig.Op) → Nat → BoardSig.Resp o → Prop
  | .instantNow, T, now => T ≤ now
  | _, _, _ => True

section RequestProgress

variable {V : Type}

/-- An arena in which local actions are possible and change nothing. -/
structure Roomy (a : Arena BoardSig V) (ok : V → Prop) : Prop where
  able : ∀ {o : BoardOp} {v}, o.isFree = true → ok v → a.able o v
  stays : ∀ {o : BoardOp} {v r v'}, o.isFree = true → ok v →
    a.moves o v r v' → v' = v
  late : a.late = BoardOp.late

/-- The program can be finished and changes nothing of what is known. -/
def Steady {α : Type} (a : Arena BoardSig V) (ok : V → Prop)
    (p : Prog BoardSig α) : Prop :=
  ∀ v, ok v → a.lives p (fun _ v' => v' = v) v

/-- Some results of the program can be enforced. -/
def Exits {α : Type} (a : Arena BoardSig V) (ok : V → Prop)
    (p : Prog BoardSig α) (R : α → Prop) : Prop :=
  ∀ v, ok v → a.leaves p (fun r _ => R r) v

/-- An arena in which a thread can write to the console as well. -/
structure Spacious (a : Arena BoardSig V) (ok : V → Prop) : Prop
    extends Roomy a ok where
  writeConsole : ∀ profile bytes, Steady a ok (writeConsole profile bytes).run

variable {a : Arena BoardSig V} {ok : V → Prop} {α β σ : Type}

theorem Steady.lives {p : Prog BoardSig α} (h : Steady a ok p) {v : V}
    (hv : ok v) {Q : α → V → Prop} (hQ : ∀ x, Q x v) : a.lives p Q v := by
  refine lives_mono (h v hv) ?_
  rintro x _ rfl
  exact hQ x

/-- The rule for an action of a program that does not fail. -/
theorem lives_ask {o : BoardOp} {f : o.Resp → Prog BoardSig β}
    {Q : β → V → Prop} {v : V} (hable : a.able o v)
    (h : ∀ r v', a.moves o v r v' → a.lives (f r) Q v') :
    a.lives (ask o >>= f) Q v :=
  (lives_bind (ask o) f Q v).mpr ⟨hable, h⟩

/-- The rule for an action. -/
theorem lives_act {o : BoardOp} {f : o.Resp → Action β}
    {Q : Result β → V → Prop} {v : V} (hable : a.able o v)
    (h : ∀ r v', a.moves o v r v' → a.lives (f r).run Q v') :
    a.lives (act o >>= f).run Q v :=
  lives_ask (f := fun r => (f r).run) hable h

namespace Steady

theorem pure (x : α) : Steady a ok (Pure.pure x) :=
  fun _ _ => rfl

theorem bind {p : Prog BoardSig α} {f : α → Prog BoardSig β}
    (hp : Steady a ok p) (hf : ∀ x, Steady a ok (f x)) :
    Steady a ok (p >>= f) := by
  intro v hv
  rw [lives_bind]
  exact hp.lives hv fun x => hf x v hv

/-! ## Programs that may fail -/

theorem pureE (x : α) : Steady a ok (Pure.pure x : Action α).run :=
  fun _ _ => rfl

theorem throw (e : Error) : Steady a ok (throw e : Action α).run :=
  fun _ _ => rfl

theorem ofResult (r : Result α) : Steady a ok (ofResult r).run :=
  fun _ _ => rfl

theorem bindE {x : Action α} {f : α → Action β} (hx : Steady a ok x.run)
    (hf : ∀ y, Steady a ok (f y).run) : Steady a ok (x >>= f).run := by
  intro v hv
  refine lives_bindE (Φ := fun _ v' => v' = v) (hx v hv) ?_ ?_
  · rintro y _ rfl
    exact hf y _ hv
  · rintro e _ rfl
    rfl

theorem lift {p : Prog BoardSig α} (hp : Steady a ok p) :
    Steady a ok (ExceptT.lift p : Action α).run := by
  intro v hv
  rw [lives_lift]
  exact hp.lives hv fun _ => rfl

theorem attempt {action : Action α} (h : Steady a ok action.run) :
    Steady a ok (attempt action).run :=
  .lift h

theorem iterateE {body : σ → Action (σ ⊕ β)} {s : σ}
    (hturn : ∀ s, Steady a ok (body s).run)
    (hleave : ∀ s, Exits a ok (body s).run Stops) :
    Steady a ok (Prog.iterateE body s).run := by
  intro v hv
  refine lives_iterateE (fun _ v' => v' = v) rfl ?_ ?_
  · rintro s _ rfl
    refine (hturn s).lives hv ?_
    rintro (e | s' | b) <;> rfl
  · rintro s _ rfl
    exact hleave s _ hv

end Steady

namespace Exits

variable {R : α → Prop} {E : Result β → Prop}

theorem pure {x : α} (h : R x) : Exits a ok (Pure.pure x) R :=
  fun _ _ => h

theorem bind {γ : Type} {p : Prog BoardSig γ} {f : γ → Prog BoardSig α}
    (hp : Steady a ok p) (hf : ∀ y, Exits a ok (f y) R) :
    Exits a ok (p >>= f) R := by
  intro v hv
  rw [leaves_bind]
  refine leaves_mono (leaves_of_lives (hp v hv)) ?_
  rintro y _ rfl
  exact hf y _ hv

theorem throw {e : Error} (h : E (.error e)) :
    Exits a ok (throw e : Action β).run E :=
  fun _ _ => h

theorem pureE {x : β} (h : E (.ok x)) :
    Exits a ok (Pure.pure x : Action β).run E :=
  fun _ _ => h

theorem bindE {x : Action α} {f : α → Action β} (hx : Steady a ok x.run)
    (hf : ∀ y, Exits a ok (f y).run E) (herror : ∀ e, E (.error e)) :
    Exits a ok (x >>= f).run E := by
  intro v hv
  refine leaves_bindE (Φ := fun _ v' => v' = v) (leaves_of_lives (hx v hv))
    ?_ fun e _ _ => herror e
  rintro y _ rfl
  exact hf y _ hv

end Exits

namespace Roomy

variable (hroom : Roomy a ok)
include hroom

theorem ask {o : BoardOp} (h : o.isFree = true) :
    Steady a ok (ask o) :=
  fun _ hv => ⟨hroom.able h hv, fun _ _ hmoves => hroom.stays h hv hmoves⟩

theorem act {o : BoardOp} (h : o.isFree = true) :
    Steady a ok (act o).run :=
  .lift (hroom.ask h)

/-- The clock becomes late enough. -/
theorem askNow {f : Nat → Prog BoardSig α} {R : α → Prop} (T : Nat)
    (h : ∀ now, T ≤ now → Exits a ok (f now) R) :
    Exits a ok (RpictlMcp.ask .instantNow >>= f) R := by
  intro v hv
  refine ⟨hroom.able rfl hv, T, fun now v' hlate hmoves => ?_⟩
  rw [hroom.late] at hlate
  obtain rfl := hroom.stays (o := .instantNow) rfl hv hmoves
  exact h now hlate _ hv

theorem actNow {f : Nat → Action α} {R : Result α → Prop} (T : Nat)
    (h : ∀ now, T ≤ now → Exits a ok (f now).run R) :
    Exits a ok (RpictlMcp.act .instantNow >>= f).run R :=
  hroom.askNow (f := fun now => (f now).run) T h

/-! ## Power commands -/

theorem collectPowerOutput (pipe : Pipe) (bytes : List UInt8)
    (remaining : Nat) (phase : String) :
    Steady a ok (collectPowerOutput pipe bytes remaining phase).run := by
  refine .bindE (hroom.act rfl) ?_
  rintro (_ | chunk | _ | _ | error)
  · exact .pureE _
  · dsimp only
    split
    · exact .throw _
    · exact .pureE _
  · exact .pureE _
  · exact .pureE _
  · exact .throw _

theorem collectUnlessEof (eof : Bool) (pipe : Pipe) (bytes : List UInt8)
    (remaining : Nat) (phase : String) :
    Steady a ok (collectUnlessEof eof pipe bytes remaining phase).run := by
  unfold RpictlMcp.collectUnlessEof
  split
  · exact .pureE _
  · exact hroom.collectPowerOutput _ _ _ _

theorem tryWaitIf (bothEof : Bool) : Steady a ok (tryWaitIf bothEof).run := by
  unfold RpictlMcp.tryWaitIf
  split
  · exact hroom.act rfl
  · exact .pureE _

theorem collectTurn (deadline : Nat) (phase : String) (s : Collected) :
    Steady a ok (collectTurn deadline phase s).run := by
  refine .bindE (hroom.act rfl) fun now => ?_
  split
  · exact .throw _
  · refine .bindE (hroom.collectUnlessEof _ _ _ _ _) fun stdout => ?_
    refine .bindE (hroom.collectUnlessEof _ _ _ _ _) fun stderr => ?_
    refine .bindE (hroom.tryWaitIf _) ?_
    rintro (error | _ | success)
    · exact .throw _
    · dsimp only
      split
      · exact .bindE (hroom.act rfl) fun _ => .pureE _
      · exact .pureE _
    · exact .pureE _

/-- The collection stops in the turn that finds the deadline passed. -/
theorem collectTurn_exits (deadline : Nat) (phase : String) (s : Collected) :
    Exits a ok (RpictlMcp.collectTurn deadline phase s).run Stops := by
  refine hroom.actNow deadline fun now hnow => ?_
  rw [if_pos hnow]
  exact .throw fun _ h => by cases h

theorem collectOutput (deadline : Nat) (phase : String) :
    Steady a ok (collectOutput deadline phase).run := by
  refine .bindE (hroom.act rfl) ?_
  rintro (_ | error)
  · refine .bindE (hroom.act rfl) ?_
    rintro (_ | error)
    · exact .iterateE (hroom.collectTurn deadline phase)
        (hroom.collectTurn_exits deadline phase)
    · exact .throw _
  · exact .throw _

theorem reapFailed (phase : String) (result : Result Output) :
    Steady a ok (reapFailed phase result).run := by
  cases result with
  | ok output => exact .pureE _
  | error error =>
      refine .bindE (hroom.act rfl) fun _ => ?_
      refine .bindE (hroom.act rfl) fun _ => ?_
      refine .bindE (hroom.act rfl) ?_
      rintro (_ | failure) <;> exact .throw _

theorem runPowerCommand (command : Command) (deadline : Nat)
    (phase : String) :
    Steady a ok (runPowerCommand command deadline phase).run := by
  refine .bindE (hroom.act rfl) fun now => ?_
  split
  · exact .throw _
  · refine .bindE (hroom.act rfl) ?_
    rintro (_ | error)
    · exact .bindE (.attempt (hroom.collectOutput deadline phase))
        fun result => hroom.reapFailed phase result
    · exact .throw _

theorem verifyIdentity (identity : Identity) (deadline : Nat) :
    Steady a ok (verifyIdentity identity deadline).run := by
  unfold RpictlMcp.verifyIdentity
  split
  · exact .pureE _
  · exact .bindE (hroom.runPowerCommand _ _ _) fun _ => .pureE _

theorem powerStateUntil (profile : BoardProfile) (deadline : Nat) :
    Steady a ok (powerStateUntil profile deadline).run := by
  unfold RpictlMcp.powerStateUntil
  split
  · exact .throw _
  · refine .bindE (.ofResult _) fun identity => ?_
    refine .bindE (hroom.runPowerCommand _ _ _) fun output => ?_
    split
    · exact .throw _
    · refine .bindE (hroom.verifyIdentity _ _) fun verified => ?_
      exact .bindE (hroom.act rfl) fun _ => .pureE _

theorem powerState (profile : BoardProfile) :
    Steady a ok (powerState profile).run :=
  .bindE (hroom.act rfl) fun _ => hroom.powerStateUntil _ _

theorem switchPower (profile : BoardProfile) (on : Bool) (deadline : Nat) :
    Steady a ok (switchPower profile on deadline).run := by
  refine .bindE (.ofResult _) fun identity => ?_
  refine .bindE (hroom.runPowerCommand _ _ _) fun output => ?_
  refine .bindE (hroom.act rfl) fun _ => ?_
  split
  · exact .throw _
  · exact .pureE _

theorem setPower (profile : BoardProfile) (on : Bool) :
    Steady a ok (setPower profile on).run := by
  refine .bindE (hroom.act rfl) fun _ => ?_
  refine .bindE (hroom.act rfl) fun now => ?_
  refine .bindE (hroom.powerStateUntil _ _) fun before => ?_
  split
  · exact .throw _
  · refine .bindE (hroom.switchPower _ _ _) fun _ => ?_
    refine .bindE (hroom.powerStateUntil _ _) fun after => ?_
    split
    · exact .throw _
    · exact .pureE _

/-! ## The console -/

theorem observedState (profile : BoardProfile) :
    Steady a ok (observedState profile).run :=
  .bindE (hroom.act rfl) fun _ => .pureE _

theorem nextCursor : Steady a ok nextCursor.run :=
  .bindE (hroom.act rfl) fun _ => .pureE _

theorem markIf (newGeneration : Bool) :
    Steady a ok (markIf newGeneration).run := by
  unfold RpictlMcp.markIf
  split
  · exact .bindE (hroom.act rfl) fun _ => .pureE _
  · exact .pureE _

/-- A wait can stop in the turn that finds its time run out. -/
theorem waitForStates (profile : BoardProfile) (states : List BoardState)
    (timeoutMs : Nat) (generation : Option Nat) :
    Steady a ok (waitForStates profile states timeoutMs generation).run := by
  refine .bindE (hroom.act rfl) fun started => ?_
  refine .iterateE (fun _ => ?_) fun _ => ?_
  · refine .bindE (hroom.act rfl) fun ring => ?_
    split
    · exact .pureE _
    · refine .bindE (hroom.act rfl) fun now => ?_
      split
      · exact .throw _
      · exact .bindE (hroom.act rfl) fun _ => .pureE _
  · refine .bindE (hroom.act rfl) (fun ring => ?_) fun _ _ h => by cases h
    split
    · exact .pureE fun _ h => by cases h
    · refine hroom.actNow (started + timeoutMs) fun now hnow => ?_
      rw [if_pos hnow]
      exact .throw fun _ h => by cases h

/-- The part of a turn that follows the check. -/
theorem waitTurn_exits (profile : BoardProfile) (states : List BoardState)
    (cursor deadline : Nat) (s : σ) :
    Exits a ok (do
      let ring ← RpictlMcp.ask .lockSerial
      match pollAfter profile states cursor ring with
      | some state => return .inr (.ok state, s)
      | none =>
          let now ← RpictlMcp.ask .instantNow
          if deadline ≤ now then
            return .inr (.error (stateTimeout
              "fresh requested state was not observed before timeout"), s)
          else
            RpictlMcp.ask (.sleep 100)
            return .inl s : Prog BoardSig (σ ⊕ Result BoardState × σ))
      fun r => r.isRight = true := by
  refine .bind (hroom.ask rfl) fun ring => ?_
  split
  · exact .pure rfl
  · refine hroom.askNow deadline fun now hnow => ?_
    rw [if_pos hnow]
    exact .pure rfl

/-- A wait keeps what its check keeps. -/
theorem waitForStatesAfterChecked {J : σ → V → Prop}
    (hok : ∀ s v, J s v → ok v) (profile : BoardProfile)
    (states : List BoardState) (timeoutMs cursor : Nat)
    {check : σ → Prog BoardSig (Result Unit × σ)}
    (hcheck : ∀ s v, J s v → a.lives (check s) (fun r v' => J r.2 v') v)
    {s : σ} {v : V} (hinit : J s v) :
    a.lives (RpictlMcp.waitForStatesAfterChecked profile states timeoutMs
      cursor check s) (fun r v' => J r.2 v') v := by
  refine (lives_bind _ _ _ _).mpr ?_
  refine (hroom.ask rfl).lives (hok s v hinit) fun started => ?_
  refine lives_iterate J hinit (fun s v hJ => ?_) fun s v hJ => ?_
  · rw [lives_bind]
    refine lives_mono (hcheck s v hJ) ?_
    rintro ⟨error | _, s'⟩ v' hJ'
    · exact hJ'
    · have hv := hok s' v' hJ'
      refine (lives_bind _ _ _ _).mpr ((hroom.ask rfl).lives hv fun ring => ?_)
      split
      · exact hJ'
      · refine (lives_bind _ _ _ _).mpr ((hroom.ask rfl).lives hv fun now => ?_)
        split
        · exact hJ'
        · exact (lives_bind _ _ _ _).mpr
            ((hroom.ask rfl).lives hv fun _ => hJ')
  · rw [leaves_bind]
    refine leaves_mono (leaves_of_lives (hcheck s v hJ)) ?_
    rintro ⟨error | _, s'⟩ v' hJ'
    · rfl
    · exact hroom.waitTurn_exits profile states cursor _ s' v' (hok s' v' hJ')

theorem waitForStatesAfter (profile : BoardProfile)
    (states : List BoardState) (timeoutMs cursor : Nat) :
    Steady a ok
      (waitForStatesAfter profile states timeoutMs cursor).run := by
  intro v hv
  refine (lives_bind _ _ _ _).mpr ?_
  refine lives_mono (hroom.waitForStatesAfterChecked
    (J := fun _ v' => v' = v) ?_ profile states timeoutMs cursor ?_ rfl) ?_
  · rintro _ _ rfl
    exact hv
  · rintro _ _ rfl
    rfl
  · exact fun _ _ h => h

/-! ## The closures of the operations -/

theorem powerOnAction (profile : BoardProfile) :
    Steady a ok (powerOnAction profile).run :=
  .bindE (hroom.setPower _ _) fun _ => .bindE (hroom.act rfl) fun _ => .pureE _

theorem forcedPowerOffAction (profile : BoardProfile) :
    Steady a ok (forcedPowerOffAction profile).run :=
  .bindE (hroom.setPower _ _) fun _ => .pureE _

theorem powerCycleAction (profile : BoardProfile) :
    Steady a ok (powerCycleAction profile).run := by
  refine .bindE (hroom.setPower _ _) fun _ => ?_
  refine .bindE (hroom.act rfl) fun _ => ?_
  refine .bindE (.attempt (hroom.setPower _ _)) ?_
  rintro (error | observation)
  · exact .bindE (.attempt (hroom.setPower _ _)) fun _ => .throw _
  · exact .bindE (hroom.act rfl) fun _ => .pureE _

/-! ## The requests without an operation -/

theorem listBoardSummaries (registry : BoardRegistry) :
    Steady a ok (listBoardSummaries registry).run := by
  unfold RpictlMcp.listBoardSummaries
  induction registry.list with
  | nil => exact .pureE _
  | cons profile profiles ih =>
      rw [List.mapM_cons]
      refine .bindE (.bindE (hroom.act rfl) fun _ => .pureE _) fun _ => ?_
      exact .bindE ih fun _ => .pureE _

theorem boardPowerState (registry : BoardRegistry) (req : BoardRequest) :
    Steady a ok (boardPowerState registry req).run := by
  refine .bindE (.ofResult _) fun profile => ?_
  exact .bindE (hroom.powerState _) fun _ => .pureE _

theorem captureBoardSerial (registry : BoardRegistry)
    (req : CaptureSerialRequest) :
    Steady a ok (captureBoardSerial registry req).run := by
  refine .bindE (.ofResult _) fun profile => ?_
  exact .bindE (hroom.act rfl) fun _ => .pureE _

theorem waitAfterPowerOn (profile : BoardProfile)
    (waitFor : Option String) :
    Steady a ok (waitAfterPowerOn profile waitFor).run := by
  unfold RpictlMcp.waitAfterPowerOn
  split
  · exact .pureE _
  · refine .bindE (.ofResult _) fun states => ?_
    exact .bindE (hroom.waitForStates _ _ _ _) fun _ => .pureE _

theorem waitForBoardState (registry : BoardRegistry)
    (req : WaitStateRequest) :
    Steady a ok (waitForBoardState registry req).run := by
  refine .bindE (.ofResult _) fun states => ?_
  refine .bindE (.ofResult _) fun profile => ?_
  refine .bindE (hroom.waitForStates _ _ _ _) fun state => ?_
  exact .bindE (hroom.act rfl) fun _ => .pureE _

end Roomy

/-! ## The functions that write -/

namespace Spacious

variable (hroom : Spacious a ok)
include hroom

theorem loginAfterBoot (profile : BoardProfile) (timeoutMs : Nat) :
    Steady a ok (loginAfterBoot profile timeoutMs).run := by
  unfold RpictlMcp.loginAfterBoot
  split
  · exact .throw _
  · refine .bindE hroom.nextCursor fun _ => ?_
    refine .bindE (hroom.writeConsole _ _) fun _ => ?_
    exact .bindE (hroom.waitForStatesAfter _ _ _ _) fun _ => .pureE _

theorem powerOnLinuxAction (profile : BoardProfile) (login : Bool)
    (timeoutMs : Nat) :
    Steady a ok (powerOnLinuxAction profile login timeoutMs).run := by
  refine .bindE (hroom.powerState _) fun observation => ?_
  split
  · exact .throw _
  · refine .bindE (hroom.setPower _ _) fun _ => ?_
    refine .bindE (hroom.act rfl) fun _ => ?_
    refine .bindE hroom.nextCursor fun _ => ?_
    refine .bindE (hroom.waitForStatesAfter _ _ _ _) fun state => ?_
    split
    · exact .pureE _
    · exact hroom.loginAfterBoot _ _

theorem gracefulPowerOffAction (profile : BoardProfile) :
    Steady a ok (gracefulPowerOffAction profile).run := by
  refine .bindE (hroom.observedState _) fun state => ?_
  split
  · exact .throw _
  · split
    · exact .throw _
    · refine .bindE (hroom.writeConsole _ _) fun _ => ?_
      refine .bindE (hroom.act rfl) fun _ => ?_
      refine .bindE (hroom.writeConsole _ _) fun _ => ?_
      refine .bindE (hroom.waitForStates _ _ _ _) fun _ => ?_
      exact .bindE (hroom.setPower _ _) fun _ => .pureE _

theorem simpleConsoleAction (profile : BoardProfile) (name : String)
    (bytes : List UInt8) (expected : List BoardState) (timeoutMs : Nat)
    (newGeneration : Bool) :
    Steady a ok (simpleConsoleAction profile name bytes expected timeoutMs
      newGeneration).run := by
  refine .bindE (hroom.markIf _) fun _ => ?_
  refine .bindE hroom.nextCursor fun _ => ?_
  refine .bindE (hroom.writeConsole _ _) fun _ => ?_
  exact .bindE (hroom.waitForStatesAfter _ _ _ _) fun _ => .pureE _

theorem restartIntoUbootAction (profile : BoardProfile)
    (command : List UInt8) (action : String) (timeoutMs : Nat) :
    Steady a ok
      (restartIntoUbootAction profile command action timeoutMs).run := by
  refine .bindE (hroom.act rfl) fun _ => ?_
  refine .bindE hroom.nextCursor fun _ => ?_
  refine .bindE (hroom.writeConsole _ _) fun _ => ?_
  refine .bindE (hroom.waitForStatesAfter _ _ _ _) fun _ => ?_
  refine .bindE hroom.nextCursor fun _ => ?_
  refine .bindE (hroom.writeConsole _ _) fun _ => ?_
  exact .bindE (hroom.waitForStatesAfter _ _ _ _) fun _ => .pureE _

theorem consoleCommandAction (profile : BoardProfile) (command : String)
    (linux : Bool) (timeoutMs : Nat) (operationId : String) :
    Steady a ok (consoleCommandAction profile command linux timeoutMs
      operationId).run := by
  refine .bindE hroom.nextCursor fun _ => ?_
  refine .bindE (hroom.writeConsole _ _) fun _ => ?_
  refine .bindE (hroom.waitForStatesAfter _ _ _ _) fun _ => ?_
  refine .bindE (hroom.act rfl) fun _ => ?_
  exact .bindE (.ofResult _) fun _ => .pureE _

theorem boardState (registry : BoardRegistry) (req : BoardStateRequest) :
    Steady a ok (boardState registry req).run := by
  refine .bindE (.ofResult _) fun profile => ?_
  refine .bindE hroom.nextCursor fun _ => ?_
  refine .bindE ?_ fun _ => ?_
  · unfold probeIf
    split
    · exact hroom.writeConsole _ _
    · exact .pureE _
  · refine .bindE (hroom.act rfl) fun _ => ?_
    refine .bindE (hroom.act rfl) fun _ => ?_
    exact .bindE (hroom.act rfl) fun _ => .pureE _

end Spacious

end RequestProgress

end RpictlMcp
