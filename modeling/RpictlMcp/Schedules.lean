import RpictlMcp.OperationTrace
import RpictlMcp.System

/-!
# rpictl-mcp: schedules

Runs of the system can be built step by step: `Acts` says that one thread can
perform an action, with the board sending in between.  Most actions are noticed
by their own thread alone; they leave the world as it is, apart from the log.

The rules are put together to runs of power commands, power queries and
`set_power` in which every subprocess does what it should, and to waits that are
over at their first poll.
-/

namespace RpictlMcp

open Prog

section Schedules

variable {ι : Type}

/-- The world after some events of a thread that change nothing else. -/
def World.emit (w : World ι) (t : Thread ι) (events : List Event) :
    World ι :=
  { w with log := w.log ++ events.map (Entry.mk t w.holder) }

variable {w : World ι} {t : Thread ι} {events : List Event}

@[simp] theorem emit_nil : w.emit t [] = w := by
  simp [World.emit]

@[simp] theorem emit_emit (later : List Event) :
    (w.emit t events).emit t later = w.emit t (events ++ later) := by
  simp [World.emit, World.holder]

@[simp] theorem emit_console : (w.emit t events).console = w.console := rfl

@[simp] theorem emit_lease : (w.emit t events).lease = w.lease := rfl

@[simp] theorem emit_holder : (w.emit t events).holder = w.holder := rfl

@[simp] theorem emit_worker : (w.emit t events).worker = w.worker := rfl

/-- A thread that can take steps. -/
def World.Alive (w : World ι) (t : Thread ι) : Prop :=
  t.2 = .worker → w.worker t.1 = .running

@[simp] theorem alive_main (i : ι) : w.Alive (i, .main) :=
  fun h => nomatch h

@[simp] theorem alive_emit {u : Thread ι} :
    (w.emit t events).Alive u ↔ w.Alive u := Iff.rfl

/-- Actions that change nothing but the log. -/
def BoardOp.isLocal : BoardOp → Bool
  | .acquireLease _ _ => false
  | .releaseLease _ => false
  | .leaseOwner => false
  | .lockSerial => false
  | .markGeneration => false
  | .spawnWorker => false
  | .workerFinished => false
  | .joinWorker => false
  | .finishWorker _ => false
  | _ => true

variable [DecidableEq ι]

@[simp] theorem threadLog_emit :
    (w.emit t events).threadLog t = w.threadLog t ++ events := by
  have hlog : (w.emit t events).log =
      w.log ++ events.map (Entry.mk t w.holder) := rfl
  rw [threadLog_append hlog t, if_pos rfl]

/-- A local action may respond in any way. -/
theorem boardSem_local {o : BoardOp} (hlocal : o.isLocal = true)
    (ht : w.Alive t) (r : o.Resp) :
    boardSem t o w r (w.emit t (BoardOp.events o r w.console)) := by
  refine ⟨?_, ?_, ⟨w.worker t.1, ?_, by simp⟩, rfl⟩
  · cases o <;> first | rfl | simp [BoardOp.isLocal] at hlocal
  · cases o <;> first | rfl | simp [BoardOp.isLocal] at hlocal
  · obtain ⟨i, role⟩ := t
    cases role with
    | main =>
        cases o <;> first | rfl | simp [BoardOp.isLocal] at hlocal
    | worker =>
        cases o <;> first
          | exact ⟨ht rfl, rfl⟩
          | simp [BoardOp.isLocal] at hlocal

/-- The same without an event. -/
theorem boardSem_quiet {o : BoardOp} {r : o.Resp} (hlocal : o.isLocal = true)
    (ht : w.Alive t) (hevents : BoardOp.events o r w.console = []) :
    boardSem t o w r w := by
  have hstep := boardSem_local hlocal ht r
  rwa [hevents, emit_nil] at hstep

/-- One thread performs an action, with the environment in between. -/
abbrev Acts {α : Type} (t : Thread ι) (action : Action α) (w : World ι)
    (r : Result α) (w' : World ι) : Prop :=
  Returns (afterEnv boardSem BoardEnv t) action.run w r w'

/-- The same for a program that does not fail. -/
abbrev Performs {α : Type} (t : Thread ι) (p : Prog BoardSig α)
    (w : World ι) (a : α) (w' : World ι) : Prop :=
  Returns (afterEnv boardSem BoardEnv t) p w a w'

/-- The environment causes no events of a thread. -/
theorem threadLog_of_envs {v : World ι}
    (h : Relation.ReflTransGen BoardEnv w v) (u : Thread ι) :
    v.threadLog u = w.threadLog u := by
  induction h with
  | refl => rfl
  | tail _ hstep ih => rw [threadLog_of_env hstep, ih]

/-- What a thread performs, it performs against any surroundings. -/
theorem Performs.exec {α : Type} {p : Prog BoardSig α} {a : α}
    {w' : World ι} (h : Performs t p w a w') :
    Exec (logSem BoardOp.emits) (p, w.threadLog t)
      (.pure a, w'.threadLog t) := by
  refine Exec.log (fun w : World ι => w.threadLog t) ?_ h
  intro o w r w' hsem
  obtain ⟨v, henv, hsem⟩ := hsem
  refine ⟨BoardOp.events o r w'.console,
    ⟨v.console, w'.console, hsem.1, rfl⟩, ?_⟩
  rw [threadLog_of_boardSem hsem, if_pos rfl, threadLog_of_envs henv]

/-- A complete run of an action that others interrupt. -/
abbrev ActsAround {α : Type} (t : Thread ι) (action : Action α)
    (w v v' : World ι) (r : Result α) (w' : World ι) : Prop :=
  Prog.Resumes (afterEnv boardSem BoardEnv t) action.run w v v' r w'

section Rules

variable {α β : Type} {v w' : World ι}

theorem Acts.pure (a : α) : Acts t (Pure.pure a : Action α) w (.ok a) w :=
  Returns.pure _ _

theorem Acts.throw (e : Error) :
    Acts t (throw e : Action α) w (.error e) w :=
  Returns.pure _ _

theorem Acts.ofResult (r : Result α) : Acts t (ofResult r) w r w :=
  Returns.pure _ _

/-- The lookup of a board that is configured. -/
theorem lookup_acts {registry : BoardRegistry} {boardId : String}
    {profile : BoardProfile} (hprofile : registry.board boardId = .ok profile)
    (w : World ι) :
    Acts t (ofResult (registry.board boardId)) w (.ok profile) w := by
  rw [hprofile]
  exact Acts.ofResult _

theorem Acts.bind {x : Action α} {f : α → Action β} {a : α} {r : Result β}
    (hx : Acts t x w (.ok a) v) (hf : Acts t (f a) v r w') :
    Acts t (x >>= f) w r w' :=
  Returns.bind hx hf

/-- The same run, with its last world written in another way. -/
theorem Acts.world {x : Action α} {r : Result α} (hv : v = w')
    (hx : Acts t x w r v) : Acts t x w r w' :=
  hv ▸ hx

theorem Acts.fail {x : Action α} {f : α → Action β} {e : Error}
    (hx : Acts t x w (.error e) v) : Acts t (x >>= f) w (.error e) v :=
  Returns.bind hx (Returns.pure _ _)

theorem Acts.lift {p : Prog BoardSig α} {a : α} (h : Performs t p w a v) :
    Acts t (ExceptT.lift p : Action α) w (.ok a) v :=
  Returns.bind h (Returns.pure _ _)

theorem Acts.attempt {x : Action α} {r : Result α} (h : Acts t x w r v) :
    Acts t (attempt x) w (.ok r) v :=
  Acts.lift h

theorem Performs.of_sem {o : BoardOp} {r : o.Resp}
    (h : boardSem t o w r v) : Performs t (ask o) w r v :=
  Returns.perform ⟨w, .refl, h⟩

/-- One action, and then the rest. -/
theorem Acts.step {o : BoardOp} {f : o.Resp → Action β} {r : o.Resp}
    {result : Result β} (h : boardSem t o w r v)
    (hrest : Acts t (f r) v result w') :
    Acts t (act o >>= f) w result w' :=
  Acts.bind (Acts.lift (Performs.of_sem h)) hrest

/-- An action, and then the rest, which others interrupt. -/
theorem Acts.bindAround {x : Action α} {f : α → Action β} {a : α}
    {r : Result β} {u v' : World ι} (hx : Acts t x w (.ok a) u)
    (hf : ActsAround t (f a) u v v' r w') :
    ActsAround t (x >>= f) w v v' r w' :=
  Returns.bind_resumes hx hf

theorem Acts.stepAround {o : BoardOp} {f : o.Resp → Action β} {r : o.Resp}
    {result : Result β} {u v' : World ι} (h : boardSem t o w r u)
    (hrest : ActsAround t (f r) u v v' result w') :
    ActsAround t (act o >>= f) w v v' result w' :=
  Acts.bindAround (Acts.lift (Performs.of_sem h)) hrest

/-- An action that others interrupt, and then the rest. -/
theorem ActsAround.bind {x : Action α} {f : α → Action β} {a : α}
    {r : Result β} {u v' : World ι} (hx : ActsAround t x w v v' (.ok a) u)
    (hf : Acts t (f a) u r w') : ActsAround t (x >>= f) w v v' r w' :=
  Resumes.bind hx hf

theorem ActsAround.attempt {x : Action α} {r : Result α} {u v' : World ι}
    (h : ActsAround t x w v v' r u) :
    ActsAround t (RpictlMcp.attempt x) w v v' (.ok r) u :=
  Resumes.bind h (Returns.pure _ _)

/-- A complete run of an action, split at one of its operations. -/
abbrev ActsSplit {α : Type} (t : Thread ι) (action : Action α) (w : World ι)
    (o : BoardOp) (v : World ι) (r : o.Resp) (v' : World ι)
    (result : Result α) (w' : World ι) : Prop :=
  Prog.Around (afterEnv boardSem BoardEnv t) action.run w o v r v' result w'

/-- An action that begins with the operation at which it is split. -/
theorem ActsSplit.act {o : BoardOp} {f : o.Resp → Action β} {r : o.Resp}
    {result : Result β} {v' : World ι} (hrest : Acts t (f r) v' result w') :
    ActsSplit t (RpictlMcp.act o >>= f) w o w r v' result w' :=
  Around.bind (Returns.around (Returns.pure _ _)) hrest

/-- A local action, and then the rest. -/
theorem Acts.log {o : BoardOp} {f : o.Resp → Action β} (r : o.Resp)
    {result : Result β} (hlocal : o.isLocal = true) (ht : w.Alive t)
    (hrest : Acts t (f r) (w.emit t (BoardOp.events o r w.console)) result
      w') :
    Acts t (act o >>= f) w result w' :=
  Acts.step (boardSem_local hlocal ht r) hrest

/-- A local action without events, and then the rest. -/
theorem Acts.silent {o : BoardOp} {f : o.Resp → Action β} (r : o.Resp)
    {result : Result β} (hlocal : o.isLocal = true) (ht : w.Alive t)
    (hevents : BoardOp.events o r w.console = [])
    (hrest : Acts t (f r) w result w') :
    Acts t (act o >>= f) w result w' := by
  exact Acts.step (boardSem_quiet hlocal ht hevents) hrest

theorem Performs.step {o : BoardOp} {f : o.Resp → Prog BoardSig β}
    {r : o.Resp} {b : β} (h : boardSem t o w r v)
    (hrest : Performs t (f r) v b w') :
    Performs t (ask o >>= f) w b w' :=
  Returns.bind (Performs.of_sem h) hrest

theorem Performs.silent {o : BoardOp} {f : o.Resp → Prog BoardSig β}
    (r : o.Resp) {b : β} (hlocal : o.isLocal = true) (ht : w.Alive t)
    (hevents : BoardOp.events o r w.console = [])
    (hrest : Performs t (f r) w b w') :
    Performs t (ask o >>= f) w b w' := by
  exact Performs.step (boardSem_quiet hlocal ht hevents) hrest

/-- A loop whose first turn goes on. -/
theorem Acts.iterate_next {σ : Type} {body : σ → Action (σ ⊕ β)} {s s' : σ}
    {r : Result β} (h : Acts t (body s) w (.ok (.inl s')) v)
    (hrest : Acts t (Prog.iterateE body s') v r w') :
    Acts t (Prog.iterateE body s) w r w' :=
  Returns.iterate_next (Returns.bind h (Returns.pure _ _)) hrest

/-- A loop whose first turn is its last. -/
theorem Acts.iterate_done {σ : Type} {body : σ → Action (σ ⊕ β)} {s : σ}
    {b : β} (h : Acts t (body s) w (.ok (.inr b)) v) :
    Acts t (Prog.iterateE body s) w (.ok b) v :=
  Returns.iterate_done (Returns.bind h (Returns.pure _ _))

end Rules

section PowerCommand

variable {deadline : Nat} {phase : String}

/-- One byte is read from the pipe for the output. -/
theorem collectTurn_next (ht : w.Alive t) (hdeadline : 0 < deadline)
    (acc : List UInt8) (byte : UInt8) (remaining : Nat) :
    Acts t (collectTurn deadline phase
        ⟨acc, [], false, false, remaining + 1⟩) w
      (.ok (.inl ⟨acc ++ [byte], [], false, false, remaining⟩)) w := by
  refine Acts.silent (0 : Nat) rfl ht rfl ?_
  rw [if_neg (by omega)]
  refine Acts.bind (v := w) (a := ⟨false, acc ++ [byte], remaining⟩) ?_ ?_
  · refine Acts.silent (ReadResult.data ⟨[byte], by simp⟩) rfl ht rfl ?_
    simp only
    rw [if_neg (by simp)]
    exact Acts.pure _
  · refine Acts.bind (v := w) (a := ⟨false, [], remaining⟩) ?_ ?_
    · exact Acts.silent ReadResult.wouldBlock rfl ht rfl (Acts.pure _)
    · refine Acts.bind (v := w) (a := .ok none) (Acts.pure _) ?_
      simp only
      rw [if_neg (by omega)]
      exact Acts.pure _

/-- Both pipes end and so does the child. -/
theorem collectTurn_done (ht : w.Alive t) (hdeadline : 0 < deadline)
    (acc : List UInt8) (remaining : Nat) (success : Bool) :
    Acts t (collectTurn deadline phase ⟨acc, [], false, false, remaining⟩) w
      (.ok (.inr ⟨success, acc, []⟩)) w := by
  refine Acts.silent (0 : Nat) rfl ht rfl ?_
  rw [if_neg (by omega)]
  refine Acts.bind (v := w) (a := ⟨true, acc, remaining⟩) ?_ ?_
  · exact Acts.silent ReadResult.eof rfl ht rfl (Acts.pure _)
  · refine Acts.bind (v := w) (a := ⟨true, [], remaining⟩) ?_ ?_
    · exact Acts.silent ReadResult.eof rfl ht rfl (Acts.pure _)
    · refine Acts.bind (v := w) (a := .ok (some success)) ?_ (Acts.pure _)
      have hwait := boardSem_local (o := .tryWait) rfl ht (.ok (some success))
      rw [show BoardOp.events .tryWait _ w.console = [] from rfl,
        emit_nil] at hwait
      exact Acts.lift (Performs.of_sem hwait)

/-- The output of a child is collected byte by byte. -/
theorem collectTurns_acts (ht : w.Alive t) (hdeadline : 0 < deadline)
    (success : Bool) (rest acc : List UInt8) (remaining : Nat)
    (hfits : rest.length ≤ remaining) :
    Acts t (Prog.iterateE (collectTurn deadline phase)
        ⟨acc, [], false, false, remaining⟩) w
      (.ok ⟨success, acc ++ rest, []⟩) w := by
  induction rest generalizing acc remaining with
  | nil =>
      rw [List.append_nil]
      exact Acts.iterate_done
        (collectTurn_done ht hdeadline acc remaining success)
  | cons byte rest ih =>
      cases remaining with
      | zero => simp at hfits
      | succ remaining =>
          have hrest := ih (acc ++ [byte]) remaining (by simpa using hfits)
          rw [List.append_assoc, List.singleton_append] at hrest
          exact Acts.iterate_next
            (collectTurn_next ht hdeadline acc byte remaining) hrest

/-- A power command that ends and has written nothing to its error output. -/
theorem runPowerCommand_acts (ht : w.Alive t) (hdeadline : 0 < deadline)
    (command : Command) (success : Bool) {stdout : List UInt8}
    (hbounded : stdout.length ≤ maxPowerOutputBytes) :
    Acts t (runPowerCommand command deadline phase) w
      (.ok ⟨success, stdout, []⟩) (w.emit t [.launched command]) := by
  refine Acts.silent (0 : Nat) rfl ht rfl ?_
  rw [if_neg (by omega)]
  refine Acts.log none rfl ht ?_
  refine Acts.bind (Acts.attempt (r := .ok ⟨success, stdout, []⟩)
    (v := w.emit t [.launched command]) ?_) (Acts.pure _)
  refine Acts.silent (none : Option Text) rfl ht rfl ?_
  refine Acts.silent (none : Option Text) rfl ht rfl ?_
  have ht' : (w.emit t [.launched command]).Alive t := ht
  exact collectTurns_acts ht' hdeadline success stdout [] _ hbounded

/-- The same, split where the subprocess is launched. -/
theorem runPowerCommand_split {v' : World ι} (ht : w.Alive t)
    (ht' : v'.Alive t) (hdeadline : 0 < deadline) (command : Command)
    (success : Bool) {stdout : List UInt8}
    (hbounded : stdout.length ≤ maxPowerOutputBytes) :
    ActsSplit t (runPowerCommand command deadline phase) w (.spawn command) w
      (none : Option Text) v' (.ok ⟨success, stdout, []⟩) v' := by
  refine Returns.bind_around (Acts.lift (Performs.of_sem
    (boardSem_quiet (o := .instantNow) (r := (0 : Nat)) rfl ht rfl))) ?_
  simp only [ExceptT.bindCont]
  rw [if_neg (by omega)]
  refine ActsSplit.act (o := .spawn command) (r := (none : Option Text)) ?_
  refine Acts.bind (Acts.attempt (r := .ok ⟨success, stdout, []⟩)
    (v := v') ?_) (Acts.pure _)
  refine Acts.silent (none : Option Text) rfl ht' rfl ?_
  refine Acts.silent (none : Option Text) rfl ht' rfl ?_
  exact collectTurns_acts ht' hdeadline success stdout [] _ hbounded

end PowerCommand

section SetPower

variable {profile : BoardProfile} {identity : Identity} {deadline : Nat}

/-- What the identity check of a relay launches. -/
def identityEvents (identity : Identity) : List Event :=
  match identity.mac with
  | none => []
  | some _ => [.launched listNeighbors]

/-- The identity check of a relay that some table of neighbours confirms. -/
theorem verifyIdentity_acts (ht : w.Alive t) (hdeadline : 0 < deadline)
    (hverifiable : Verifiable identity) :
    Acts t (verifyIdentity identity deadline) w (.ok true)
      (w.emit t (identityEvents identity)) := by
  unfold verifyIdentity identityEvents
  cases hmac : identity.mac with
  | none => simpa using Acts.pure true
  | some mac =>
      obtain ⟨neighbors, hbounded, hnames⟩ := hverifiable mac hmac
      have hsuccess : neighbors.success = true := by
        simp only [namesMac, Bool.and_eq_true] at hnames
        exact hnames.1
      have hstdout : neighbors.stdout.length ≤ maxPowerOutputBytes := by
        have := hbounded
        unfold Output.Bounded at this
        omega
      refine Acts.bind (runPowerCommand_acts ht hdeadline listNeighbors true
        hstdout) ?_
      have hnames' : namesMac ⟨true, neighbors.stdout, []⟩ mac = true := by
        simpa [namesMac, hsuccess] using hnames
      simp only [hnames']
      exact Acts.pure true

/-- What `chip-tool` prints when it has read a relay. -/
def relayReading (on : Bool) : List UInt8 :=
  if on then utf8 "OnOff: TRUE" else utf8 "OnOff: FALSE"

/-- The output of a query. -/
def readingOutput (on : Bool) : Output :=
  ⟨true, relayReading on, []⟩

/-- What a query makes of a reading. -/
def relayObservation (on : Bool) : PowerObservation :=
  ⟨queriedState (readingOutput on).raw, true,
    takeChars 4096 (readingOutput on).raw⟩

@[simp] theorem relayObservation_state (on : Bool) :
    (relayObservation on).state = relayState on := by
  cases on <;> decide

theorem relayReading_bounded (on : Bool) :
    (relayReading on).length ≤ maxPowerOutputBytes := by
  cases on <;> decide

/-- The events of a query that reads the relay and confirms its identity. -/
def queryEvents (identity : Identity) (on : Bool) : List Event :=
  .launched (readRelay identity) :: identityEvents identity ++
    [.noted (.queried (relayObservation on))]

/-- A power query that reads the relay and confirms its identity. -/
theorem powerStateUntil_acts (ht : w.Alive t) (hdeadline : 0 < deadline)
    (hrelay : HasRelay profile identity) (hverifiable : Verifiable identity)
    (on : Bool) :
    Acts t (powerStateUntil profile deadline) w (.ok (relayObservation on))
      (w.emit t (queryEvents identity on)) := by
  unfold powerStateUntil
  rw [if_neg (by simpa using hrelay.backend), hrelay.parsed]
  refine Acts.bind (Acts.ofResult _) ?_
  refine Acts.bind (runPowerCommand_acts ht hdeadline (readRelay identity)
    true (relayReading_bounded on)) ?_
  refine Acts.bind (verifyIdentity_acts ht hdeadline hverifiable) ?_
  refine Acts.world ?_ (Acts.log () rfl ht (Acts.pure _))
  simp [queryEvents, relayObservation, readingOutput, BoardOp.events]

/-- What is left behind by a relay command that has reported success. -/
def switchOutput : Output :=
  ⟨true, utf8 "SUCCESS", []⟩

/-- A relay command that reports success. -/
theorem switchPower_acts (ht : w.Alive t) (hdeadline : 0 < deadline)
    (hrelay : HasRelay profile identity) (on : Bool) :
    Acts t (switchPower profile on deadline) w (.ok ())
      (w.emit t [.launched (switchRelay identity on),
        .noted (.switched on switchOutput)]) := by
  unfold switchPower
  rw [hrelay.parsed]
  refine Acts.bind (Acts.ofResult _) ?_
  have hbounded : (utf8 "SUCCESS").length ≤ maxPowerOutputBytes := by decide
  refine Acts.bind (runPowerCommand_acts ht hdeadline
    (switchRelay identity on) true hbounded) ?_
  have hreported : contains switchOutput.raw (utf8 "SUCCESS") = true := by
    decide
  refine Acts.world (v := (w.emit t [.launched
    (switchRelay identity on)]).emit t [.noted (.switched on switchOutput)])
    ?_ (Acts.log () rfl ht ?_)
  · simp
  · rw [if_neg (by simpa [switchOutput] using hreported)]
    exact Acts.pure ()

/-- What is left behind by a relay command that has failed without a word. -/
def failedOutput : Output :=
  ⟨false, [], []⟩

/-- The error of a relay command that has failed. -/
def switchFailed : Error :=
  Error.new .powerBackendFailed "power_change" failedOutput.raw

/-- A relay command that exits without success. -/
theorem switchPower_fails (ht : w.Alive t) (hdeadline : 0 < deadline)
    (hrelay : HasRelay profile identity) (on : Bool) :
    Acts t (switchPower profile on deadline) w (.error switchFailed)
      (w.emit t [.launched (switchRelay identity on),
        .noted (.switched on failedOutput)]) := by
  unfold switchPower
  rw [hrelay.parsed]
  refine Acts.bind (Acts.ofResult _) ?_
  have hbounded : ([] : List UInt8).length ≤ maxPowerOutputBytes :=
    Nat.zero_le _
  refine Acts.bind (runPowerCommand_acts ht hdeadline
    (switchRelay identity on) false hbounded) ?_
  refine Acts.world (v := (w.emit t [.launched
    (switchRelay identity on)]).emit t [.noted (.switched on failedOutput)])
    ?_ (Acts.log () rfl ht ?_)
  · simp
  · exact Acts.throw switchFailed

/-- The events of a call of `set_power` that succeeds. -/
def setPowerEvents (identity : Identity) (on : Bool) : List Event :=
  .noted (.setPower on) :: queryEvents identity (!on) ++
    [.launched (switchRelay identity on),
      .noted (.switched on switchOutput)] ++ queryEvents identity on

/-- A call of `set_power` that succeeds. -/
theorem setPower_acts (ht : w.Alive t)
    (htimeout : 0 < profile.timing.operationTimeoutMs)
    (hrelay : HasRelay profile identity) (hverifiable : Verifiable identity)
    (on : Bool) :
    Acts t (setPower profile on) w (.ok (relayObservation on))
      (w.emit t (setPowerEvents identity on)) := by
  have hdeadline : 0 < 0 + profile.timing.operationTimeoutMs := by omega
  refine Acts.log () rfl ht (Acts.silent (0 : Nat) rfl ht rfl ?_)
  refine Acts.bind (powerStateUntil_acts (w := w.emit t _) ht hdeadline
    hrelay hverifiable (!on)) ?_
  rw [if_neg (by simp [relayObservation])]
  refine Acts.bind (switchPower_acts (w := (w.emit t _).emit t _) ht
    hdeadline hrelay on) ?_
  refine Acts.bind (powerStateUntil_acts
    (w := ((w.emit t _).emit t _).emit t _) ht hdeadline hrelay hverifiable
    on) ?_
  rw [if_neg (by simp)]
  refine Acts.world ?_ (Acts.pure _)
  simp [setPowerEvents, BoardOp.events]

/-- A relay command that reports success, split where it is launched. -/
theorem switchPower_split {v' : World ι} (ht : w.Alive t) (ht' : v'.Alive t)
    (hdeadline : 0 < deadline) (hrelay : HasRelay profile identity)
    (on : Bool) :
    ActsSplit t (switchPower profile on deadline) w
      (.spawn (switchRelay identity on)) w (none : Option Text) v' (.ok ())
      (v'.emit t [.noted (.switched on switchOutput)]) := by
  unfold switchPower
  rw [hrelay.parsed]
  refine Returns.bind_around (Acts.ofResult _) ?_
  have hbounded : (utf8 "SUCCESS").length ≤ maxPowerOutputBytes := by decide
  refine Around.bind (runPowerCommand_split ht ht' hdeadline
    (switchRelay identity on) true hbounded) ?_
  have hreported : contains switchOutput.raw (utf8 "SUCCESS") = true := by
    decide
  refine Acts.log () rfl ht' ?_
  rw [if_neg (by simpa [switchOutput] using hreported)]
  exact Acts.pure ()

/-- A call of `set_power` that succeeds, split where it switches the relay. -/
theorem setPower_split {v' : World ι} (ht : w.Alive t) (ht' : v'.Alive t)
    (htimeout : 0 < profile.timing.operationTimeoutMs)
    (hrelay : HasRelay profile identity) (hverifiable : Verifiable identity)
    (on : Bool) :
    ActsSplit t (setPower profile on) w (.spawn (switchRelay identity on))
      (w.emit t (.noted (.setPower on) :: queryEvents identity (!on)))
      (none : Option Text) v' (.ok (relayObservation on))
      (v'.emit t (.noted (.switched on switchOutput) ::
        queryEvents identity on)) := by
  have hdeadline : 0 < 0 + profile.timing.operationTimeoutMs := by omega
  have hbefore : Acts t (powerStateUntil profile
      (0 + profile.timing.operationTimeoutMs))
      (w.emit t [.noted (.setPower on)]) (.ok (relayObservation (!on)))
      (w.emit t (.noted (.setPower on) :: queryEvents identity (!on))) := by
    refine Acts.world ?_ (powerStateUntil_acts (w := w.emit t _) ht hdeadline
      hrelay hverifiable (!on))
    simp
  refine Returns.bind_around (Acts.lift (Performs.of_sem
    (boardSem_local (o := .note (.setPower on)) rfl ht ()))) ?_
  refine Returns.bind_around (Acts.lift (Performs.of_sem
    (boardSem_quiet (o := .instantNow) (r := (0 : Nat)) rfl ht rfl))) ?_
  refine Returns.bind_around hbefore ?_
  simp only [ExceptT.bindCont]
  rw [if_neg (by simp [relayObservation])]
  refine Around.bind (switchPower_split (w := w.emit t _) ht ht' hdeadline
    hrelay on) ?_
  refine Acts.bind (powerStateUntil_acts (w := v'.emit t _) ht' hdeadline
    hrelay hverifiable on) ?_
  rw [if_neg (by simp)]
  refine Acts.world ?_ (Acts.pure _)
  simp

/-- The events of a call of `set_power` whose command fails. -/
def setPowerFailure (identity : Identity) (on : Bool) : List Event :=
  .noted (.setPower on) :: queryEvents identity (!on) ++
    [.launched (switchRelay identity on),
      .noted (.switched on failedOutput)]

/-- A call of `set_power` whose command fails. -/
theorem setPower_fails (ht : w.Alive t)
    (htimeout : 0 < profile.timing.operationTimeoutMs)
    (hrelay : HasRelay profile identity) (hverifiable : Verifiable identity)
    (on : Bool) :
    Acts t (setPower profile on) w (.error switchFailed)
      (w.emit t (setPowerFailure identity on)) := by
  have hdeadline : 0 < 0 + profile.timing.operationTimeoutMs := by omega
  refine Acts.log () rfl ht (Acts.silent (0 : Nat) rfl ht rfl ?_)
  refine Acts.bind (powerStateUntil_acts (w := w.emit t _) ht hdeadline
    hrelay hverifiable (!on)) ?_
  rw [if_neg (by simp [relayObservation])]
  refine Acts.world ?_ (Acts.fail (switchPower_fails
    (w := (w.emit t _).emit t _) ht hdeadline hrelay on))
  simp [setPowerFailure, BoardOp.events]

/-- The console of the simulated board before it has sent anything. -/
def simulatedConsole : Console :=
  .new simulatedRegistry.config.serialRingBytes simulatedRegistry.ring_pos

/-- The relay of the simulated board. -/
def simulatedIdentity : Identity :=
  ⟨"991", "1", none⟩

theorem simulated_hasRelay : HasRelay simulated simulatedIdentity :=
  ⟨rfl, by decide⟩

theorem simulated_verifiable : Verifiable simulatedIdentity := by
  intro mac hmac
  cases hmac

end SetPower

section Console

/-- A world in which the board has sent more. -/
def World.hear (w : World ι) (console : Console) : World ι :=
  { w with console := console }

/-- The world after a look at the ring. -/
def World.look (w : World ι) (t : Thread ι) : World ι :=
  w.emit t [.looked w.console]

/-- The world after a generation boundary. -/
def World.markBy (w : World ι) (t : Thread ι) : World ι :=
  { w.emit t [.marked w.console.mark] with console := w.console.mark }

/-- The world after the lease has been acquired. -/
def World.acquireBy (w : World ι) (t : Thread ι) (owner : LeaseOwner) :
    World ι :=
  { w.emit t [.acquired owner] with lease := some (t, owner) }

/-- The world after the lease has been given back. -/
def World.releaseBy (w : World ι) (t : Thread ι) (owner : LeaseOwner) :
    World ι :=
  { w.emit t [.released owner] with lease := none }

/-- The world after a request has started its worker. -/
def World.spawnBy (w : World ι) (i : ι) : World ι :=
  { w.emit (i, .main) [.workerSpawned] with
    worker := Function.update w.worker i .running }

/-- The world after a worker has returned a result. -/
def World.finishBy (w : World ι) (i : ι)
    (result : Result PowerObservation) : World ι :=
  { w.emit (i, .worker) [.workerReturned result] with
    worker := Function.update w.worker i (.finished (.returned result)) }

/-- The world after a request has joined its worker. -/
def World.joinBy (w : World ι) (i : ι) (outcome : WorkerOutcome) :
    World ι :=
  { w.emit (i, .main) [.workerJoined outcome] with
    worker := Function.update w.worker i .joined }

@[simp] theorem threadLog_hear (console : Console) :
    (w.hear console).threadLog t = w.threadLog t := rfl

@[simp] theorem threadLog_look :
    (w.look t).threadLog t = w.threadLog t ++ [.looked w.console] :=
  threadLog_emit

@[simp] theorem threadLog_markBy :
    (w.markBy t).threadLog t = w.threadLog t ++ [.marked w.console.mark] :=
  threadLog_emit

@[simp] theorem threadLog_acquireBy (owner : LeaseOwner) :
    (w.acquireBy t owner).threadLog t = w.threadLog t ++ [.acquired owner] :=
  threadLog_emit

@[simp] theorem threadLog_releaseBy (owner : LeaseOwner) :
    (w.releaseBy t owner).threadLog t = w.threadLog t ++ [.released owner] :=
  threadLog_emit

omit [DecidableEq ι] in
theorem onWorker_keep {o : BoardOp} (ht : w.Alive t)
    (hkeep : o.isLocal = true ∨ o = .lockSerial ∨ o = .markGeneration)
    (r : o.Resp) : BoardOp.OnWorker o t.2 (w.worker t.1) r (w.worker t.1) := by
  obtain ⟨i, role⟩ := t
  cases role with
  | main =>
      cases o <;> first | rfl | simp [BoardOp.isLocal] at hkeep
  | worker =>
      cases o <;> first
        | exact ⟨ht rfl, rfl⟩
        | simp [BoardOp.isLocal] at hkeep

theorem boardSem_look (ht : w.Alive t) :
    boardSem t .lockSerial w w.console.ring (w.look t) :=
  ⟨⟨rfl, rfl⟩, rfl, ⟨_, onWorker_keep ht (.inr (.inl rfl)) _,
    by simp [World.look]⟩, rfl⟩

theorem boardSem_mark (ht : w.Alive t) :
    boardSem t .markGeneration w w.console.mark.ring.generation
      (w.markBy t) :=
  ⟨⟨rfl, rfl⟩, rfl, ⟨_, onWorker_keep ht (.inr (.inr rfl)) _,
    by simp [World.markBy]⟩, rfl⟩

theorem boardSem_acquire (i : ι) (owner : LeaseOwner) (timeoutMs : Nat)
    (hfree : w.lease = none) :
    boardSem (i, .main) (.acquireLease owner timeoutMs) w
      (none : Option String) (w.acquireBy (i, .main) owner) := by
  refine ⟨rfl, ?_, ⟨w.worker i, rfl, by simp [World.acquireBy]⟩, rfl⟩
  rw [hfree]
  exact .acquired _ _

theorem boardSem_release (i : ι) (owner : LeaseOwner)
    (hheld : w.lease = some ((i, .main), owner)) :
    boardSem (i, .main) (.releaseLease owner) w ()
      (w.releaseBy (i, .main) owner) := by
  refine ⟨rfl, ?_, ⟨w.worker i, rfl, by simp [World.releaseBy]⟩, rfl⟩
  rw [hheld]
  exact .drop _ _

theorem boardSem_spawn {i : ι} (hidle : w.worker i = .idle) :
    boardSem (i, .main) .spawnWorker w () (w.spawnBy i) :=
  ⟨rfl, rfl, ⟨.running, ⟨hidle, rfl⟩, rfl⟩, rfl⟩

theorem boardSem_finish {i : ι} (hrunning : w.worker i = .running)
    (result : Result PowerObservation) :
    boardSem (i, .worker) (.finishWorker result) w () (w.finishBy i result) :=
  ⟨rfl, rfl, ⟨_, ⟨hrunning, rfl⟩, rfl⟩, rfl⟩

theorem boardSem_finished {i : ι} {outcome : WorkerOutcome}
    (hfinished : w.worker i = .finished outcome) :
    boardSem (i, .main) .workerFinished w true w :=
  ⟨rfl, rfl, ⟨_, ⟨fun _ => ⟨outcome, hfinished⟩, rfl⟩, by simp⟩, by
    simp [BoardOp.events]⟩

theorem boardSem_join {i : ι} {outcome : WorkerOutcome}
    (hfinished : w.worker i = .finished outcome) :
    boardSem (i, .main) .joinWorker w outcome (w.joinBy i outcome) :=
  ⟨rfl, rfl, ⟨.joined, ⟨hfinished, rfl⟩, rfl⟩, rfl⟩

/-- A check that finds the worker finished with success. -/
theorem checkPower_joins {i : ι} {observation : PowerObservation}
    (hfinished : w.worker i = .finished (.returned (.ok observation))) :
    Performs (i, .main) (checkPower true) w (.ok (), false)
      (w.joinBy i (.returned (.ok observation))) := by
  refine Performs.step (boardSem_finished hfinished) ?_
  exact Returns.bind (Performs.step (boardSem_join hfinished)
    (Returns.pure _ _)) (Returns.pure _ _)

/-- A worker that succeeds. -/
theorem powerWorker_performs {i : ι} {profile : BoardProfile}
    {identity : Identity} (hrunning : w.worker i = .running)
    (htimeout : 0 < profile.timing.operationTimeoutMs)
    (hrelay : HasRelay profile identity) (hverifiable : Verifiable identity) :
    Performs (i, .worker) (powerWorker profile) w ()
      ((w.emit (i, .worker) (setPowerEvents identity true)).finishBy i
        (.ok (relayObservation true))) := by
  have halive : w.Alive (i, .worker) := fun _ => hrunning
  refine Performs.silent () rfl halive rfl ?_
  refine Returns.bind (setPower_acts halive htimeout hrelay hverifiable
    true) ?_
  exact Performs.of_sem (boardSem_finish (w := w.emit _ _) hrunning _)

/-- A console after one read of the serial port. -/
def Console.Sends (c d : Console) (input : List UInt8) : Prop :=
  d.capacity = c.capacity ∧
    ∃ timestamp, d.history = c.history ++ [.append timestamp input]

theorem Console.Sends.stream {c d : Console} {input : List UInt8}
    (h : c.Sends d input) : d.stream = c.stream ++ input := by
  obtain ⟨-, timestamp, hhistory⟩ := h
  simp [Console.stream, hhistory, RingOp.input]

/-- The board may send any bytes below the range of the cursor. -/
theorem Console.exists_sends (c : Console) {input : List UInt8}
    (hcapacity : 0 < c.capacity)
    (hlength : (c.stream ++ input).length < 2 ^ 64) :
    ∃ d : Console, c.Sends d input := by
  obtain ⟨d, hd, hhistory⟩ := Console.exists_console hcapacity
    (c.history ++ [.append 0 input]) (by
      simpa [Console.stream, RingOp.input] using hlength)
  exact ⟨d, hd, 0, hhistory⟩

theorem boardEnv_hear {d : Console} {input : List UInt8}
    (h : w.console.Sends d input) : BoardEnv w (w.hear d) := by
  obtain ⟨hcapacity, timestamp, hhistory⟩ := h
  exact .receive timestamp input hcapacity hhistory

/-- A look at the ring after the board has sent something. -/
theorem afterEnv_look {d : Console} {input : List UInt8} (ht : w.Alive t)
    (h : w.console.Sends d input) :
    afterEnv boardSem BoardEnv t .lockSerial w d.ring ((w.hear d).look t) :=
  ⟨w.hear d, .single (boardEnv_hear h), boardSem_look ht⟩

variable {profile : BoardProfile}

theorem writeBytes_acts (ht : w.Alive t) (bytes : List UInt8) :
    Acts t (writeBytes profile bytes) w (.ok ())
      (w.emit t (writeEvents profile bytes)) := by
  induction bytes generalizing w with
  | nil => exact Acts.world (by simp [writeEvents]) (Acts.pure ())
  | cons byte bytes ih =>
      refine Acts.log (none : Option Text) rfl ht ?_
      simp only
      split
      · rename_i hpacing
        refine Acts.log () rfl ht (Acts.world ?_ (ih ht))
        simp [writeEvents, hpacing, BoardOp.events]
      · rename_i hpacing
        refine Acts.world ?_ (ih ht)
        simp [writeEvents, hpacing, BoardOp.events]

/-- A look at the ring, after the board may have sent something. -/
theorem Acts.hear {β : Type} {f : SerialRing → Action β} {d : Console}
    {input : List UInt8} {r : Result β} {w' : World ι} (ht : w.Alive t)
    (h : w.console.Sends d input)
    (hrest : Acts t (f d.ring) ((w.hear d).look t) r w') :
    Acts t (act .lockSerial >>= f) w r w' :=
  Acts.bind (Acts.lift (Returns.perform (afterEnv_look ht h))) hrest

theorem Acts.look {β : Type} {f : SerialRing → Action β} {r : Result β}
    {w' : World ι} (ht : w.Alive t)
    (hrest : Acts t (f w.console.ring) (w.look t) r w') :
    Acts t (act .lockSerial >>= f) w r w' :=
  Acts.step (boardSem_look ht) hrest

theorem Acts.mark {β : Type} {f : Nat → Action β} {r : Result β}
    {w' : World ι} (ht : w.Alive t)
    (hrest : Acts t (f w.console.mark.ring.generation) (w.markBy t) r w') :
    Acts t (act .markGeneration >>= f) w r w' :=
  Acts.step (boardSem_mark ht) hrest

theorem nextCursor_acts (ht : w.Alive t) :
    Acts t nextCursor w (.ok w.console.ring.nextCursor) (w.look t) :=
  Acts.look ht (Acts.pure _)

theorem observedState_acts (ht : w.Alive t) :
    Acts t (observedState profile) w
      (.ok (generationState profile w.console.ring)) (w.look t) :=
  Acts.look ht (Acts.pure _)

/-- A wait that is over at its first poll. -/
theorem waitForStatesAfterChecked_performs {σ : Type} {d : Console}
    {input : List UInt8} {states : List BoardState} {timeoutMs cursor : Nat}
    {check : σ → Prog BoardSig (Result Unit × σ)} {s s' : σ} {v : World ι}
    {state : BoardState} (ht : w.Alive t) (htv : v.Alive t)
    (hcheck : Performs t (check s) w (.ok (), s') v)
    (hsends : v.console.Sends d input)
    (hpoll : pollAfter profile states cursor d.ring = some state) :
    Performs t (waitForStatesAfterChecked profile states timeoutMs cursor
      check s) w (.ok state, s') ((v.hear d).look t) := by
  refine Performs.silent (0 : Nat) rfl ht rfl (Returns.iterate_done ?_)
  refine Returns.bind hcheck ?_
  refine Returns.bind (Returns.perform (afterEnv_look htv hsends)) ?_
  simp only [hpoll]
  exact Returns.pure _ _

theorem waitForStatesAfter_acts {d : Console} {input : List UInt8}
    {states : List BoardState} {timeoutMs cursor : Nat} {state : BoardState}
    (ht : w.Alive t) (hsends : w.console.Sends d input)
    (hpoll : pollAfter profile states cursor d.ring = some state) :
    Acts t (waitForStatesAfter profile states timeoutMs cursor) w (.ok state)
      ((w.hear d).look t) :=
  Returns.bind (waitForStatesAfterChecked_performs (s := ()) ht ht
    (Returns.pure _ _) hsends hpoll) (Returns.pure _ _)

theorem waitForStates_acts {d : Console} {input : List UInt8}
    {states : List BoardState} {timeoutMs : Nat} {state : BoardState}
    (ht : w.Alive t) (hsends : w.console.Sends d input)
    (hpoll : pollGeneration profile states none d.ring = some state) :
    Acts t (waitForStates profile states timeoutMs none) w (.ok state)
      ((w.hear d).look t) := by
  refine Acts.silent (0 : Nat) rfl ht rfl (Acts.iterate_done ?_)
  refine Acts.hear ht hsends ?_
  simp only [hpoll]
  exact Acts.pure _

/-- A write to the console that succeeds. -/
theorem writeConsole_acts (ht : w.Alive t) (bytes : List UInt8) :
    Acts t (writeConsole profile bytes) w (.ok ())
      (w.emit t (writeEvents profile bytes)) := by
  refine Acts.silent WriterLock.opened rfl ht rfl ?_
  refine Acts.bind (writeBytes_acts ht bytes) ?_
  exact Acts.silent (none : Option Text) rfl ht rfl (Acts.pure _)

end Console

section Operation

variable {registry : BoardRegistry} {boardId name : String} {i : ι}
variable {profile : BoardProfile} {expected : Option String}
variable {action : BoardProfile → String → Action Performed} {v : World ι}

/-- The owner that an operation enters for its lease. -/
def operationOwner (name : String) : LeaseOwner :=
  ⟨"", name⟩

/-- What an operation passes that reaches for its lease. -/
theorem operation_passes {o : BoardOp} {r : o.Resp} {u v' w' : World ι}
    (hprofile : registry.board boardId = .ok profile)
    (h : Passes (afterEnv boardSem BoardEnv (i, .main))
      (withLease (operationOwner name) profile.timing.operationTimeoutMs
        (underLease profile (operationOwner name) expected 0
          (action profile ""))).run w o u r v' w') :
    Passes (afterEnv boardSem BoardEnv (i, .main))
      (operation registry boardId name expected action).run w o u r v' w' := by
  refine Returns.bind_passes (lookup_acts hprofile _) ?_
  refine Returns.bind_passes (Acts.lift (Performs.of_sem
    (boardSem_quiet (o := .newUuid) (r := "") rfl (alive_main i) rfl))) ?_
  exact Returns.bind_passes (Acts.lift (Performs.of_sem
    (boardSem_quiet (o := .nowMs) (r := (0 : Nat)) rfl (alive_main i) rfl))) h

/-- An operation whose closure succeeds, interrupted in its closure. -/
theorem operation_resumes_as {performed : Performed} {u v' : World ι}
    (operationId : String) (hprofile : registry.board boardId = .ok profile)
    (hfree : w.lease = none)
    (haction : ActsAround (i, .main) (action profile operationId)
      (w.acquireBy (i, .main) ⟨operationId, name⟩) v v' (.ok performed) u)
    (hheld : u.lease = some ((i, .main), ⟨operationId, name⟩)) :
    ∃ result : OperationResult,
      ActsAround (i, .main) (operation registry boardId name expected action)
        w v v' (.ok result) ((u.look (i, .main)).releaseBy (i, .main)
          ⟨operationId, name⟩) := by
  obtain ⟨result, hunder⟩ : ∃ result, ActsAround (i, .main)
      (underLease profile ⟨operationId, name⟩ expected 0
        (action profile operationId))
      (w.acquireBy (i, .main) ⟨operationId, name⟩) v v' (.ok result)
      (u.look (i, .main)) :=
    ⟨_, haction.bind <| Acts.bind (observedState_acts (alive_main i)) <|
      Acts.silent (0 : Nat) rfl (alive_main i) rfl (Acts.pure _)⟩
  refine ⟨result, Acts.bindAround (lookup_acts hprofile _) ?_⟩
  refine Acts.stepAround
    (boardSem_quiet (r := operationId) rfl (alive_main i) rfl) ?_
  refine Acts.stepAround
    (boardSem_quiet (r := (0 : Nat)) rfl (alive_main i) rfl) ?_
  refine Acts.stepAround (boardSem_acquire i _ _ hfree) ?_
  refine ActsAround.bind hunder.attempt ?_
  exact Acts.step (boardSem_release i _ hheld) (Acts.ofResult _)

theorem operation_resumes {performed : Performed} {u v' : World ι}
    (hprofile : registry.board boardId = .ok profile)
    (hfree : w.lease = none)
    (haction : ActsAround (i, .main) (action profile "")
      (w.acquireBy (i, .main) (operationOwner name)) v v' (.ok performed) u)
    (hheld : u.lease = some ((i, .main), operationOwner name)) :
    ∃ result : OperationResult,
      ActsAround (i, .main) (operation registry boardId name expected action)
        w v v' (.ok result) ((u.look (i, .main)).releaseBy (i, .main)
          (operationOwner name)) :=
  operation_resumes_as "" hprofile hfree haction hheld

/-- An operation whose closure succeeds. -/
theorem operation_acts_as {performed : Performed} (operationId : String)
    (hprofile : registry.board boardId = .ok profile)
    (hfree : w.lease = none)
    (haction : Acts (i, .main) (action profile operationId)
      (w.acquireBy (i, .main) ⟨operationId, name⟩) (.ok performed) v)
    (hheld : v.lease = some ((i, .main), ⟨operationId, name⟩)) :
    ∃ result : OperationResult,
      Acts (i, .main) (operation registry boardId name expected action) w
        (.ok result) ((v.look (i, .main)).releaseBy (i, .main)
          ⟨operationId, name⟩) := by
  obtain ⟨result, h⟩ := operation_resumes_as operationId hprofile hfree
    (Returns.resumes haction) hheld
  exact ⟨result, h.returns⟩

theorem operation_acts {performed : Performed}
    (hprofile : registry.board boardId = .ok profile)
    (hfree : w.lease = none)
    (haction : Acts (i, .main) (action profile "")
      (w.acquireBy (i, .main) (operationOwner name)) (.ok performed) v)
    (hheld : v.lease = some ((i, .main), operationOwner name)) :
    ∃ result : OperationResult,
      Acts (i, .main) (operation registry boardId name expected action) w
        (.ok result) ((v.look (i, .main)).releaseBy (i, .main)
          (operationOwner name)) :=
  operation_acts_as "" hprofile hfree haction hheld

/-- An operation whose closure fails. -/
theorem operation_fails_as {e : Error} (operationId : String)
    (hprofile : registry.board boardId = .ok profile)
    (hfree : w.lease = none)
    (haction : Acts (i, .main) (action profile operationId)
      (w.acquireBy (i, .main) ⟨operationId, name⟩) (.error e) v)
    (hheld : v.lease = some ((i, .main), ⟨operationId, name⟩)) :
    Acts (i, .main) (operation registry boardId name expected action) w
      (.error e) (v.releaseBy (i, .main) ⟨operationId, name⟩) := by
  refine Acts.bind (lookup_acts hprofile _) ?_
  refine Acts.silent operationId rfl (alive_main i) rfl ?_
  refine Acts.silent (0 : Nat) rfl (alive_main i) rfl ?_
  refine Acts.step (boardSem_acquire i _ _ hfree) ?_
  refine Acts.bind (Acts.attempt (Acts.fail haction)) ?_
  exact Acts.step (boardSem_release i _ hheld) (Acts.ofResult _)

theorem operation_fails {e : Error}
    (hprofile : registry.board boardId = .ok profile)
    (hfree : w.lease = none)
    (haction : Acts (i, .main) (action profile "")
      (w.acquireBy (i, .main) (operationOwner name)) (.error e) v)
    (hheld : v.lease = some ((i, .main), operationOwner name)) :
    Acts (i, .main) (operation registry boardId name expected action) w
      (.error e) (v.releaseBy (i, .main) (operationOwner name)) :=
  operation_fails_as "" hprofile hfree haction hheld

end Operation

end Schedules

end RpictlMcp
