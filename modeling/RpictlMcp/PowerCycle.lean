import RpictlMcp.RequestTrace
import RpictlMcp.Schedules

/-!
# rpictl-mcp: what `power_cycle` restores

The operation switches the relay off, waits, and switches it on again; a failure
of the second step is answered with one more attempt.  A failure of the first
step is passed on at once.  Whether the relay is restored depends therefore on
the first call alone: it is when the command that opened the relay has reported
success and a query after it has observed the relay off.
-/

namespace RpictlMcp

open Prog

/-- A command that switches the relay has been launched. -/
def RelayLaunched (on : Bool) (t : List Event) : Prop :=
  ∃ e ∈ t, e.relay? = some on

/-- A call of `set_power` has been made. -/
def PowerAttempted (on : Bool) (t : List Event) : Prop :=
  .noted (.setPower on) ∈ t

/--
The command that opened the relay was successful and reported so, and the query
after it ended and observed the relay off.
-/
def OffConfirmed (t : List Event) : Prop :=
  ∃ before after points,
    notes t = .setPower false :: .queried before :: points ∧
      Confirmed false after points

section PowerCycle

variable {profile : BoardProfile} {on : Bool} {s t : List Event}

@[simp] theorem relayLaunched_nil : ¬RelayLaunched on [] := by
  simp [RelayLaunched]

@[simp] theorem relayLaunched_cons {e : Event} :
    RelayLaunched on (e :: t) ↔ e.relay? = some on ∨ RelayLaunched on t := by
  simp [RelayLaunched]

@[simp] theorem relayLaunched_append :
    RelayLaunched on (s ++ t) ↔ RelayLaunched on s ∨ RelayLaunched on t := by
  simp [RelayLaunched, or_and_right, exists_or]

@[simp] theorem powerAttempted_cons {e : Event} :
    PowerAttempted on (e :: t) ↔
      e = .noted (.setPower on) ∨ PowerAttempted on t := by
  simp [PowerAttempted, eq_comm]

@[simp] theorem powerAttempted_append :
    PowerAttempted on (s ++ t) ↔ PowerAttempted on s ∨ PowerAttempted on t :=
  List.mem_append

theorem Calm.not_launched (h : Calm t) : ¬RelayLaunched on t := by
  intro hlaunched
  obtain ⟨e, hmem, hon⟩ := hlaunched
  have := h e hmem
  cases e with
  | launched command =>
      simp only [Event.relay?] at hon
      simp [Event.isCalm, Event.isPassive, hon] at this
  | _ => cases hon

theorem Calm.not_attempted (h : Calm t) : ¬PowerAttempted on t := by
  intro hmem
  have := h _ hmem
  simp [Event.isCalm, Event.isPassive] at this

/-- The first event of a call of `set_power` says that it is one. -/
theorem SetPowerTrace.attempted {r : Result PowerObservation}
    (h : SetPowerTrace profile on r t) : PowerAttempted on t := by
  cases h <;> simp

/-- A call that has launched its command tells by its notes how it ended. -/
theorem SetPowerTrace.confirmed_iff {r : Result PowerObservation}
    (h : SetPowerTrace profile on r t) (hlaunched : RelayLaunched on t) :
    ∃ before points, notes t = .setPower on :: .queried before :: points ∧
      ∀ after, r = .ok after ↔ Confirmed on after points := by
  cases h with
  | refused hq hreject =>
      simp [Event.relay?, hq.not_launched] at hlaunched
  | @launched r q rest before identity hq hverified hrelay hverifiable
      haccepted hrest =>
      refine ⟨before, notes rest, ?_, hrest.confirmed⟩
      simp only [List.cons_append, notes_cons_noted, notes_append,
        List.append_assoc, hq.notes, List.nil_append]
      rfl

theorem Confirmed.append {after : PowerObservation} {points : List Note}
    (h : Confirmed on after points) (more : List Note) :
    Confirmed on after (points ++ more) := by
  obtain ⟨output, rest, rfl, hsuccess⟩ := h
  exact ⟨output, rest ++ more, by simp, hsuccess⟩

/-- A call that succeeds has launched its command. -/
theorem SetPowerTrace.relayLaunched {observation : PowerObservation}
    (h : SetPowerTrace profile on (.ok observation) t) :
    RelayLaunched on t := by
  cases h with
  | launched hq hverified hrelay hverifiable haccepted hrest =>
      simp [Event.relay?]

/-- A first call that succeeds has its command confirmed. -/
theorem SetPowerTrace.offConfirmed {off : PowerObservation}
    (h : SetPowerTrace profile false (.ok off) s) :
    OffConfirmed (s ++ t) := by
  obtain ⟨before, points, hnotes, hiff⟩ := h.confirmed_iff h.relayLaunched
  refine ⟨before, off, points ++ notes t, by simp [hnotes], ?_⟩
  exact ((hiff off).mp rfl).append _

/-- A first call that fails launches no other call, and its command, if it was
launched, has not been confirmed. -/
theorem SetPowerTrace.not_restored {e : Error}
    (h : SetPowerTrace profile false (.error e) t) :
    ¬PowerAttempted true t ∧ (RelayLaunched false t → ¬OffConfirmed t) := by
  constructor
  · cases h with
    | @refused _ q hq hreject =>
        have hq' : ¬PowerAttempted true q := hq.not_attempted
        simpa using hq'
    | @launched _ q rest before identity hq hverified hrelay hverifiable
        haccepted hrest =>
        have hq' : ¬PowerAttempted true q := hq.calm.not_attempted
        have hrest' : ¬PowerAttempted true rest := hrest.calm.not_attempted
        simpa using ⟨hq', hrest'⟩
  · intro hlaunched hconfirmed
    obtain ⟨before, points, hnotes, hiff⟩ := h.confirmed_iff hlaunched
    obtain ⟨before', after, points', hnotes', hafter⟩ := hconfirmed
    rw [hnotes] at hnotes'
    obtain rfl : points = points' := by simpa using (List.cons.inj
      (List.cons.inj hnotes').2).2
    simpa using (hiff after).mpr hafter

/-- The relay is restored exactly when the first call was confirmed. -/
theorem PowerCycleTrace.restores_iff {r : Result Performed}
    (h : PowerCycleTrace profile r t) :
    (RelayLaunched false t → PowerAttempted true t) ↔
      (RelayLaunched false t → OffConfirmed t) := by
  cases h with
  | notOff hoff =>
      obtain ⟨hattempted, hconfirmed⟩ := hoff.not_restored
      constructor
      · intro h hlaunched
        exact absurd (h hlaunched) hattempted
      · intro h hlaunched
        exact absurd (h hlaunched) (hconfirmed hlaunched)
  | restored hoff hon =>
      have hattempted := hon.attempted
      simp only [List.append_assoc]
      refine iff_of_true (fun _ => ?_) fun _ => hoff.offConfirmed
      simp [hattempted]
  | retried hoff hon hretry =>
      have hattempted := hon.attempted
      simp only [List.append_assoc]
      refine iff_of_true (fun _ => ?_) fun _ => hoff.offConfirmed
      simp [hattempted]

/-- Events that are no power events. -/
def Powerless (t : List Event) : Prop :=
  ∀ e ∈ t, e.relay? = none ∧ e.note? = none

/-- What happens around the closure of an operation is of no account here. -/
theorem relayLaunched_frame (owner : LeaseOwner) (t : List Event)
    (hs : Powerless s) :
    RelayLaunched on (.acquired owner :: (t ++ s)) ↔ RelayLaunched on t := by
  have hlaunched : ¬RelayLaunched on s := by
    intro h
    obtain ⟨e, he, hon⟩ := h
    simp [(hs e he).1] at hon
  simp [Event.relay?, hlaunched]

theorem powerAttempted_frame (owner : LeaseOwner) (t : List Event)
    (hs : Powerless s) :
    PowerAttempted on (.acquired owner :: (t ++ s)) ↔
      PowerAttempted on t := by
  have hattempted : .noted (.setPower on) ∉ s := by
    intro h
    cases (hs _ h).2
  simp [PowerAttempted, hattempted]

theorem offConfirmed_frame (owner : LeaseOwner) (t : List Event)
    (hs : Powerless s) :
    OffConfirmed (.acquired owner :: (t ++ s)) ↔ OffConfirmed t := by
  have hnotes : notes s = [] :=
    List.filterMap_eq_nil_iff.mpr fun e he => (hs e he).2
  have hacquired : notes (.acquired owner :: (t ++ s)) = notes t := by
    rw [← List.singleton_append, notes_append, notes_append, hnotes,
      List.append_nil]
    rfl
  rw [OffConfirmed, OffConfirmed, hacquired]

/--
After the relay-off command of `power_cycle` has been launched, an attempt to
switch the relay on again is made exactly when that command was confirmed.
-/
theorem powerCycle_restores_iff {registry : BoardRegistry} {boardId : String}
    {confirmed : Bool} {r : Result OperationResult} {log : List Event}
    (hrun : Exec (logSem BoardOp.emits)
      ((powerCycle registry boardId confirmed).run, []) (.pure r, log)) :
    (RelayLaunched false log → PowerAttempted true log) ↔
      (RelayLaunched false log → OffConfirmed log) := by
  have htraces : Traces BoardOp.emits (Permitted false)
      (powerCycle registry boardId confirmed).run [] _ :=
    powerCycle_traces rfl confirmed
  rcases htraces.result hrun with ⟨-, rfl, -⟩ | ⟨-, ⟨rfl, -⟩ |
    ⟨profile, owner, s, -, rfl, hs⟩⟩
  · simp
  · simp
  · cases r with
    | error e =>
        have hframe : Powerless [.released owner] := by
          simp [Powerless, Event.relay?, Event.note?]
        rw [relayLaunched_frame owner s hframe,
          powerAttempted_frame owner s hframe, offConfirmed_frame owner s hframe]
        exact PowerCycleTrace.restores_iff hs
    | ok result =>
        obtain ⟨performed, s', c, rfl, hs', -⟩ := hs
        have hframe : Powerless [.looked c, .released owner] := by
          simp [Powerless, Event.relay?, Event.note?]
        simp only [List.append_assoc, List.cons_append, List.nil_append]
        rw [relayLaunched_frame owner s' hframe,
          powerAttempted_frame owner s' hframe,
          offConfirmed_frame owner s' hframe]
        exact hs'.restores_iff

/-- The world in which the simulated board is power cycled. -/
def cycledWorld : World Unit :=
  (World.initial simulatedConsole).acquireBy ((), .main)
    (operationOwner "power_cycle")

/--
The command that opens the relay fails after it has been launched, and the
operation ends without an attempt to restore the relay.
-/
theorem powerCycle_leaves_off :
    ∃ e log, Exec (logSem BoardOp.emits)
        ((powerCycle simulatedRegistry "simulated" true).run, [])
        (.pure (.error e), log) ∧
      RelayLaunched false log ∧ ¬PowerAttempted true log := by
  have haction : Acts ((), .main) (powerCycleAction simulated) cycledWorld
      (.error switchFailed)
      (cycledWorld.emit ((), .main)
        (setPowerFailure simulatedIdentity false)) :=
    Acts.fail (setPower_fails (alive_main ()) (by decide) simulated_hasRelay
      simulated_verifiable false)
  have hrun : Acts ((), .main)
      (powerCycle simulatedRegistry "simulated" true)
      (World.initial simulatedConsole) (.error switchFailed) _ :=
    operation_fails simulatedRegistry_board rfl haction rfl
  refine ⟨_, _, Performs.exec hrun, ?_, ?_⟩
  · simp [cycledWorld, setPowerFailure, Event.relay?]
  · simp [cycledWorld, setPowerFailure, PowerAttempted, queryEvents,
      identityEvents, simulatedIdentity]

/-- The power events of a cycle in which every command does what it should. -/
def cycledEvents : List Event :=
  setPowerEvents simulatedIdentity false ++ .slept 5000 ::
    setPowerEvents simulatedIdentity true

/-- A power cycle in which every command does what it should. -/
theorem powerCycle_restores_iff_simulated :
    ∃ r log, Exec (logSem BoardOp.emits)
        ((powerCycle simulatedRegistry "simulated" true).run, [])
        (.pure r, log) ∧
      RelayLaunched false log ∧ PowerAttempted true log ∧
      ((RelayLaunched false log → PowerAttempted true log) ↔
        (RelayLaunched false log → OffConfirmed log)) := by
  have hset : ∀ (w : World Unit) on, Acts ((), .main)
      (setPower simulated on) w (.ok (relayObservation on))
      (w.emit ((), .main) (setPowerEvents simulatedIdentity on)) :=
    fun w on => setPower_acts (alive_main ()) (by decide) simulated_hasRelay
      simulated_verifiable on
  have haction : Acts ((), .main) (powerCycleAction simulated) cycledWorld
      (.ok ((relayObservation true).raw,
        ["verified relay off", "verified relay restored on"]))
      ((cycledWorld.emit ((), .main) cycledEvents).markBy ((), .main)) := by
    refine Acts.bind (hset _ false) ?_
    refine Acts.log () rfl (alive_main ()) ?_
    refine Acts.bind (Acts.attempt (hset _ true)) ?_
    refine Acts.world ?_ (Acts.mark (alive_main ()) (Acts.pure _))
    simp [cycledEvents, BoardOp.events, simulated]
  have hrun : ∃ result, Acts ((), .main)
      (powerCycle simulatedRegistry "simulated" true)
      (World.initial simulatedConsole) (.ok result)
      ((((cycledWorld.emit ((), .main) cycledEvents).markBy
        ((), .main)).look ((), .main)).releaseBy ((), .main)
          (operationOwner "power_cycle")) :=
    operation_acts simulatedRegistry_board rfl haction rfl
  obtain ⟨result, hrun⟩ := hrun
  have hexec := Performs.exec hrun
  refine ⟨_, _, hexec, ?_, ?_, powerCycle_restores_iff hexec⟩
  · simp [cycledWorld, cycledEvents, setPowerEvents, Event.relay?]
  · simp [cycledWorld, cycledEvents, setPowerEvents, PowerAttempted]

end PowerCycle

end RpictlMcp
