import RpictlMcp.PowerCycle
import RpictlMcp.PowerOnFreshness

/-!
# rpictl-mcp: verified switching

A relay command is launched only inside a call of `set_power` whose own query
has just verified the identity of the relay, and no other relay command of any
thread comes in between.  This rests on the lease: a thread inside such a call
is in charge of the board, and only a thread in charge launches relay commands.

An operation that succeeds has launched a command that was successful and has
reported so, and the last thing that was learnt about the relay is that it is in
the requested position.  For `power_on_uboot` the command is its worker's, so
the events of both threads of the request are looked at together.
-/

namespace RpictlMcp

open Prog

/-- Events that deal with the relay: a call of `set_power`, the launch of a
command, how it ended and what a query has observed. -/
def Event.isPower : Event → Bool
  | .launched command => command.relay?.isSome
  | .noted (.setPower _) => true
  | .noted (.queried _) => true
  | .noted (.switched _ _) => true
  | _ => false

/-- The events of a trace that deal with the relay. -/
def powerEvents (t : List Event) : List Event :=
  t.filter Event.isPower

/--
A relay command was launched, it was successful and has reported so, and after
it the relay was queried once and was in the requested position.
-/
def Accomplished (on : Bool) (t : List Event) : Prop :=
  ∃ front command rest output after,
    t = front ++ .launched command :: rest ∧ command.relay? = some on ∧
    powerEvents rest =
      [.noted (.switched on output), .noted (.queried after)] ∧
    output.success = true ∧ contains output.raw (utf8 "SUCCESS") = true ∧
    after.state = relayState on

/--
The relay was switched off and observed off; then the time that the board stays
off has passed, and only then the relay was switched on and observed on.
-/
def Cycled (profile : BoardProfile) (t : List Event) : Prop :=
  ∃ s s', t = s ++ .slept profile.timing.powerCycleOffMs :: s' ∧
    Accomplished false s ∧ ¬RelayLaunched true s ∧ Accomplished true s'

/-- Every run of an action that succeeds has switched the relay. -/
def Accomplishes {α : Type} (on : Bool) (action : Action α) : Prop :=
  ∀ a log, Exec (logSem BoardOp.emits) (action.run, []) (.pure (.ok a), log) →
    Accomplished on log

section PowerEvents

variable {profile : BoardProfile} {on : Bool} {s t : List Event}

@[simp] theorem powerEvents_nil : powerEvents [] = [] := rfl

@[simp] theorem powerEvents_append (s t : List Event) :
    powerEvents (s ++ t) = powerEvents s ++ powerEvents t :=
  List.filter_append ..

theorem powerEvents_cons (e : Event) (t : List Event) :
    powerEvents (e :: t) =
      if e.isPower then e :: powerEvents t else powerEvents t :=
  List.filter_cons

theorem powerEvents_eq_nil (h : ∀ e ∈ t, e.isPower = false) :
    powerEvents t = [] := by
  rw [powerEvents, List.filter_eq_nil_iff]
  intro e he
  simp [h e he]

theorem ConsoleOnly.powerEvents (h : ConsoleOnly t) :
    powerEvents t = [] := by
  refine powerEvents_eq_nil fun e he => ?_
  have hconsole := h e he
  cases e <;> first | rfl | simp [Event.isConsole] at hconsole

/-- In calm events the ones that deal with the relay are the points marked. -/
theorem Calm.powerEvents (h : Calm t) :
    powerEvents t = (notes t).map .noted := by
  induction t with
  | nil => rfl
  | cons e t ih =>
      rw [calm_cons] at h
      have hcalm := h.1
      rw [powerEvents_cons, ih h.2]
      cases e with
      | noted point =>
          cases point <;>
            first | rfl | simp [Event.isCalm, Event.isPassive] at hcalm
      | launched command =>
          have hpassive : command.relay? = none := by
            simpa [Event.isCalm, Event.isPassive] using hcalm
          have hnot : (Event.launched command).isPower = false := by
            simp [Event.isPower, hpassive]
          rw [hnot]
          rfl
      | _ => rfl

/-- More events around it take nothing from what was accomplished. -/
theorem Accomplished.append (h : Accomplished on t) (front : List Event)
    {back : List Event} (hback : powerEvents back = []) :
    Accomplished on (front ++ t ++ back) := by
  obtain ⟨before, command, rest, output, after, rfl, hon, hrest, hsuccess⟩ := h
  refine ⟨front ++ before, command, rest ++ back, output, after, by simp, hon,
    ?_, hsuccess⟩
  rw [powerEvents_append, hrest, hback, List.append_nil]

/-- A successful call of `set_power` has accomplished its switch. -/
theorem SetPowerTrace.accomplished {observation : PowerObservation}
    (h : SetPowerTrace profile on (.ok observation) t) :
    Accomplished on t := by
  cases h with
  | @launched _ q rest before identity hq hverified hrelay hverifiable
      haccepted hrest =>
      obtain ⟨output, more, hnotes, hsuccess, hreported, hstate⟩ :=
        (hrest.confirmed observation).mp rfl
      obtain ⟨output', hlast⟩ := hrest.last observation rfl
      have hpoints := hnotes.symm.trans hlast
      obtain ⟨rfl, rfl⟩ : output = output' ∧ more = [] := by
        simpa using hpoints
      refine ⟨_, switchRelay identity on, rest, output, observation, rfl,
        switchRelay_relay? identity on, ?_, hsuccess, hreported, hstate⟩
      rw [hrest.calm.powerEvents, hnotes]
      rfl

theorem Achieved.accomplished (h : Achieved profile on t) :
    Accomplished on t := by
  obtain ⟨front, s, observation, rest, rfl, hs, hrest⟩ := h
  exact hs.accomplished.append front hrest.powerEvents

/-- A call of `set_power` launches no command but the one it is asked for. -/
theorem SetPowerTrace.relayLaunched_eq {r : Result PowerObservation}
    {on' : Bool} (h : SetPowerTrace profile on r t)
    (hlaunched : RelayLaunched on' t) : on' = on := by
  cases h with
  | refused hq hreject =>
      simp [Event.relay?, hq.not_launched] at hlaunched
  | launched hq hverified hrelay hverifiable haccepted hrest =>
      simpa [Event.relay?, hq.calm.not_launched, hrest.calm.not_launched,
        eq_comm] using hlaunched

end PowerEvents

section Operations

variable {registry : BoardRegistry} {boardId : String}

/-- An operation that succeeds ends its closure with a success. -/
theorem OperationTrace.succeeded
    {Φ : BoardProfile → Result Performed → List Event → Prop}
    {result : OperationResult} {t : List Event}
    (h : OperationTrace registry boardId Φ (.ok result) t) :
    ∃ profile owner performed s c, registry.board boardId = .ok profile ∧
      t = [.acquired owner] ++ s ++ [.looked c, .released owner] ∧
      Φ profile (.ok performed) s := by
  rcases h with ⟨-, e, ⟨⟩, -⟩ | ⟨profile, owner, s, hprofile, rfl, hs⟩
  obtain ⟨performed, s, c, rfl, hs, -⟩ := hs
  exact ⟨profile, owner, performed, s, c, hprofile, by simp, hs⟩

/-- An operation accomplishes what its closure accomplishes. -/
theorem OperationTrace.accomplished {on : Bool}
    {Φ : BoardProfile → Result Performed → List Event → Prop}
    {result : OperationResult} {t : List Event}
    (h : OperationTrace registry boardId Φ (.ok result) t)
    (hΦ : ∀ profile performed s, Φ profile (.ok performed) s →
      Accomplished on s) : Accomplished on t := by
  obtain ⟨profile, owner, performed, s, c, -, rfl, hs⟩ := h.succeeded
  exact (hΦ profile performed s hs).append [.acquired owner] rfl

/-- The operations that switch the relay with one thread accomplish it. -/
structure Switches (registry : BoardRegistry) (boardId : String) : Prop where
  powerOn : Accomplishes true (powerOn registry boardId)
  powerOnLinux : ∀ login timeoutMs,
    Accomplishes true (powerOnLinux registry boardId login timeoutMs)
  forcedPowerOff : ∀ confirmed,
    Accomplishes false (forcedPowerOff registry boardId confirmed)
  gracefulPowerOff : ∀ confirmed,
    Accomplishes false (gracefulPowerOff registry boardId confirmed)
  powerCycle : ∀ confirmed,
    Accomplishes true (powerCycle registry boardId confirmed)
  cycled : ∀ confirmed result log, Exec (logSem BoardOp.emits)
      ((RpictlMcp.powerCycle registry boardId confirmed).run, [])
      (.pure (.ok result), log) →
    ∃ profile, registry.board boardId = .ok profile ∧ Cycled profile log

theorem accomplishes_powerOn : Accomplishes true (powerOn registry boardId) := by
  intro result log hrun
  have htraces : Traces BoardOp.emits (Permitted false)
      (powerOn registry boardId).run [] _ := powerOn_traces rfl
  refine (htraces.result hrun).accomplished fun profile performed s hs => ?_
  exact (hs.achieved performed rfl).accomplished

theorem accomplishes_powerOnLinux (login : Bool) (timeoutMs : Nat) :
    Accomplishes true (powerOnLinux registry boardId login timeoutMs) := by
  intro result log hrun
  have htraces : Traces BoardOp.emits (Permitted false)
      (powerOnLinux registry boardId login timeoutMs).run [] _ :=
    powerOnLinux_traces rfl login timeoutMs
  refine (htraces.result hrun).accomplished fun profile performed s hs => ?_
  exact (hs.1 performed rfl).accomplished

theorem accomplishes_forcedPowerOff (confirmed : Bool) :
    Accomplishes false (forcedPowerOff registry boardId confirmed) := by
  intro result log hrun
  have htraces : Traces BoardOp.emits (Permitted false)
      (forcedPowerOff registry boardId confirmed).run [] _ :=
    forcedPowerOff_traces rfl confirmed
  rcases htraces.result hrun with ⟨-, -, e, ⟨⟩⟩ | ⟨-, hoff⟩
  refine hoff.accomplished fun profile performed s hs => ?_
  exact (hs.achieved performed rfl).accomplished

theorem accomplishes_gracefulPowerOff (confirmed : Bool) :
    Accomplishes false (gracefulPowerOff registry boardId confirmed) := by
  intro result log hrun
  have htraces : Traces BoardOp.emits (Permitted false)
      (gracefulPowerOff registry boardId confirmed).run [] _ :=
    gracefulPowerOff_traces rfl confirmed
  rcases htraces.result hrun with ⟨-, -, e, ⟨⟩⟩ | ⟨-, hoff⟩
  refine hoff.accomplished fun profile performed s hs => ?_
  exact (hs.1 performed rfl).accomplished

/-- A power cycle that succeeds has seen both calls of `set_power` succeed. -/
theorem PowerCycleTrace.cycled {profile : BoardProfile}
    {performed : Performed} {t : List Event} (owner : LeaseOwner)
    (c : Console) (h : PowerCycleTrace profile (.ok performed) t) :
    Cycled profile ([.acquired owner] ++ t ++ [.looked c, .released owner]) := by
  cases h with
  | @restored off on _ s s' d hoff hon =>
      refine ⟨[.acquired owner] ++ s, s' ++ [.marked d, .looked c,
        .released owner], by simp, ?_, ?_, ?_⟩
      · simpa using hoff.accomplished.append [.acquired owner] powerEvents_nil
      · intro hlaunched
        have hs : RelayLaunched true s := by
          simpa [Event.relay?] using hlaunched
        cases hoff.relayLaunched_eq hs
      · exact hon.accomplished.append [] rfl

/-- The second half of a power cycle accomplishes the switch. -/
theorem Cycled.accomplished {profile : BoardProfile} {t : List Event}
    (h : Cycled profile t) : Accomplished true t := by
  obtain ⟨s, s', rfl, -, -, hon⟩ := h
  have hwhole := hon.append (s ++ [.slept profile.timing.powerCycleOffMs])
    powerEvents_nil
  rwa [List.append_nil, ← List.append_cons] at hwhole

theorem cycled_powerCycle (confirmed : Bool) (result : OperationResult)
    (log : List Event) (hrun : Exec (logSem BoardOp.emits)
      ((powerCycle registry boardId confirmed).run, [])
      (.pure (.ok result), log)) :
    ∃ profile, registry.board boardId = .ok profile ∧ Cycled profile log := by
  have htraces : Traces BoardOp.emits (Permitted false)
      (powerCycle registry boardId confirmed).run [] _ :=
    powerCycle_traces rfl confirmed
  rcases htraces.result hrun with ⟨-, -, e, ⟨⟩⟩ | ⟨-, hcycle⟩
  obtain ⟨profile, owner, performed, s, c, hprofile, rfl, hs⟩ :=
    OperationTrace.succeeded hcycle
  exact ⟨profile, hprofile, hs.cycled owner c⟩

theorem switches (registry : BoardRegistry) (boardId : String) :
    Switches registry boardId where
  powerOn := accomplishes_powerOn
  powerOnLinux := accomplishes_powerOnLinux
  forcedPowerOff := accomplishes_forcedPowerOff
  gracefulPowerOff := accomplishes_gracefulPowerOff
  powerCycle := by
    intro confirmed result log hrun
    obtain ⟨profile, -, hcycled⟩ := cycled_powerCycle confirmed result log hrun
    exact hcycled.accomplished
  cycled := cycled_powerCycle

end Operations

section Interleaving

variable {ι : Type} [DecidableEq ι] {registry : BoardRegistry}
variable {reqs : ι → ClientRequest} {t u : Thread ι} {w w' : World ι}
variable {on : Bool}

/--
A call of `set_power` is going on in which nothing was launched yet, by no
thread, and whose query has just verified the identity of the relay.
-/
def VerifiedCall (on : Bool) (t : Thread ι) (log : List (Entry ι)) : Prop :=
  ∃ front call rest q before, log = front ++ call :: rest ∧
    call.thread = t ∧ call.event = .noted (.setPower on) ∧
    (∀ entry ∈ rest, entry.event.relay? = none) ∧
    ownLog rest t = q ++ [.noted (.queried before)] ∧ Passive q ∧
    before.identityVerified = true

/-- The launch of a relay command belongs to a verified call. -/
def LaunchVerified (log : List (Entry ι)) (entry : Entry ι) : Prop :=
  ∀ on, entry.event.relay? = some on → VerifiedCall on entry.thread log

/-- While a thread is inside a call of `set_power` and has launched nothing in
it, no other thread launches a relay command. -/
def World.Undisturbed (w : World ι) : Prop :=
  ∀ t on front call rest, w.Alive t → w.log = front ++ call :: rest →
    call.thread = t → call.event = .noted (.setPower on) →
    Calm (ownLog rest t) → ∀ entry ∈ rest, entry.event.relay? = none

/-- An event of a thread, found in the log of all threads. -/
theorem ownLog_split {log : List (Entry ι)} {front rest : List Event}
    {e : Event} (h : ownLog log t = front ++ e :: rest) :
    ∃ before entry after, log = before ++ entry :: after ∧
      entry.thread = t ∧ entry.event = e ∧ ownLog before t = front ∧
      ownLog after t = rest := by
  obtain ⟨l, l', hl, hfront, hback⟩ := List.map_eq_append_iff.mp h
  obtain ⟨entry, l', rfl, hevent, hrest⟩ := List.map_eq_cons_iff.mp hback
  obtain ⟨before, back, rfl, hbefore, hback⟩ :=
    List.filter_eq_append_iff.mp hl
  obtain ⟨skipped, after, rfl, hskipped, hthread, hafter⟩ :=
    List.filter_eq_cons_iff.mp hback
  refine ⟨before ++ skipped, entry, after, by simp, by simpa using hthread,
    hevent, ?_, ?_⟩
  · have hnone : skipped.filter (fun entry => entry.thread = t) = [] :=
      List.filter_eq_nil_iff.mpr hskipped
    rw [ownLog_append, ← hfront, ← hbefore]
    simp [ownLog, hnone]
  · rw [← hrest, ← hafter]
    rfl

/-- The log of a thread that is inside a call of `set_power`. -/
theorem threadLog_of_call {front rest : List (Entry ι)} {call : Entry ι}
    (hlog : w.log = front ++ call :: rest) (hthread : call.thread = t) :
    w.threadLog t = ownLog front t ++ call.event :: ownLog rest t := by
  subst hthread
  rw [World.threadLog, hlog]
  exact (ownLog_append front _ _).trans (congrArg _ (ownLog_cons_self _ rest))

/-- A thread that is inside a call of `set_power` is in charge. -/
theorem inCharge_of_call {front rest : List (Entry ι)} {call : Entry ι}
    (hw : w.Disciplined registry reqs) (halive : w.Alive t)
    (hlog : w.log = front ++ call :: rest) (hthread : call.thread = t)
    (hcall : call.event = .noted (.setPower on))
    (hcalm : Calm (ownLog rest t)) : w.InCharge t := by
  obtain ⟨i, role⟩ := t
  cases role with
  | worker => exact halive rfl
  | main =>
      have hown := threadLog_of_call hlog hthread
      rw [hcall] at hown
      have hleased : Leased (ownLog front (i, .main)) :=
        hw.main i _ _ _ hown
      have hnow := hleased.append (t := .noted (.setPower on) ::
        ownLog rest (i, .main)) (by simp [hcalm.neutral, Event.isNeutral])
      rw [← hown] at hnow
      exact inCharge_main hw hnow.1 hnow.2

/-- A thread that has done something and can act could act before. -/
theorem alive_before {o : BoardOp} {r : o.Resp}
    (hw : w.Disciplined registry reqs) (h : boardSem u o w r w')
    (halive : w'.Alive t) (hdone : w.threadLog t ≠ []) : w.Alive t := by
  obtain ⟨i, role⟩ := t
  cases role with
  | main => exact alive_main i
  | worker =>
      intro _
      have hnow : w'.worker i = .running := halive rfl
      obtain ⟨s, hs, hworker⟩ := h.2.2.1
      obtain ⟨j, role⟩ := u
      by_cases hij : i = j
      · subst hij
        rw [hworker, Function.update_self] at hnow
        cases role with
        | worker => exact running_of_onWorker hs
        | main =>
            rcases hs.main_cases with hsame | ⟨hidle, -⟩ | ⟨outcome, -, hjoined⟩
            · exact hsame ▸ hnow
            · exact absurd ((hw.logged.outcomes i).idle hidle) hdone
            · rw [hjoined] at hnow
              cases hnow
      · rwa [hworker, Function.update_of_ne hij] at hnow

theorem undisturbed_of_boardSem {o : BoardOp} {r : o.Resp}
    (hw : w.Disciplined registry reqs) (hw' : w'.Disciplined registry reqs)
    (hinv : w.Undisturbed) (h : boardSem u o w r w') : w'.Undisturbed := by
  intro t on front call rest halive hlog hthread hcall hcalm
  have hnew := h.2.2.2
  rcases BoardOp.events_cases o r w'.console with hnone | ⟨e, he⟩
  · rw [hnone, List.map_nil, List.append_nil] at hnew
    rw [hnew] at hlog
    have hdone := threadLog_of_call hlog hthread
    refine hinv t on front call rest (alive_before hw h halive ?_) hlog hthread
      hcall hcalm
    simp [hdone]
  · rw [he, List.map_singleton] at hnew
    rw [hnew] at hlog
    rcases split_concat hlog with ⟨rfl, -, -⟩ | ⟨rest, rfl, hold⟩
    · simp
    · have hdone := threadLog_of_call hold hthread
      have halive := alive_before hw h halive (by simp [hdone])
      rw [ownLog_append, calm_append] at hcalm
      have hquiet := hinv t on front call rest halive hold hthread hcall hcalm.1
      intro entry hentry
      rcases List.mem_append.mp hentry with hbefore | hlast
      · exact hquiet entry hbefore
      · obtain rfl := List.mem_singleton.mp hlast
        by_contra hlaunched
        obtain ⟨on', hon'⟩ := Option.ne_none_iff_exists'.mp hlaunched
        -- Only a thread in charge launches, and that is the calling thread.
        have hcharge := inCharge_of_call hw halive hold hthread hcall hcalm.1
        cases e with
        | launched command =>
            have hmem : .launched command ∈ BoardOp.events o r w'.console := by
              simp [he]
            have hlauncher := inCharge_of_launch hw hw' h hmem hon'
            obtain rfl := hcharge.unique hw hlauncher
            have hself : RelayLaunched on' (ownLog
                [⟨t, w.holder, .launched command⟩] t) := by
              simpa [ownLog] using hon'
            exact hcalm.2.not_launched hself
        | _ => cases hon'

theorem undisturbed_of_env (hinv : w.Undisturbed) (h : BoardEnv w w') :
    w'.Undisturbed := by
  intro t on front call rest halive
  cases h with
  | receive => exact hinv t on front call rest halive
  | panic i hrunning =>
      refine hinv t on front call rest fun hworker => ?_
      -- A worker that has just panicked does not act any more.
      have hnow : Function.update w.worker i (.finished .panicked) t.1 =
          .running := halive hworker
      by_cases hit : t.1 = i
      · simp [hit] at hnow
      · rwa [Function.update_of_ne hit] at hnow

/-- What a thread may launch, it launches in a verified call. -/
theorem verifiedCall_of_verifiedFor (hinv : w.Undisturbed)
    (halive : w.Alive t) (h : VerifiedFor on (w.threadLog t)) :
    VerifiedCall on t w.log := by
  obtain ⟨front, q, before, hlog, hq, hverified⟩ := h
  obtain ⟨earlier, call, rest, hsplit, hthread, hcall, -, hrest⟩ :=
    ownLog_split hlog
  refine ⟨earlier, call, rest, q, before, hsplit, hthread, hcall, ?_, hrest, hq,
    hverified⟩
  refine hinv t on earlier call rest halive hsplit hthread hcall ?_
  rw [hrest]
  simp [hq.calm, Event.isCalm]

theorem launchVerified_of_boardSem {o : BoardOp} {r : o.Resp} {e : Event}
    (hw' : w'.Disciplined registry reqs) (hinv : w.Undisturbed)
    (h : boardSem t o w r w')
    (he : e ∈ BoardOp.events o r w'.console) :
    LaunchVerified w.log ⟨t, w.holder, e⟩ := by
  intro on hon
  cases e with
  | launched command =>
      obtain ⟨i, role⟩ := t
      cases role with
      | main =>
          obtain ⟨hverified, -⟩ := permitted_of_boardSem hw' h he on hon
          exact verifiedCall_of_verifiedFor hinv (alive_main i) hverified
      | worker =>
          obtain ⟨s, hs, -⟩ := h.2.2.1
          have hrunning : w.Alive (i, .worker) := fun _ => running_of_onWorker hs
          exact verifiedCall_of_verifiedFor hinv hrunning
            (workerPermitted_of_boardSem hw' h he on hon)
  | _ => cases hon

/-- In every reachable world all launches of relay commands were verified. -/
theorem BoardReaches.launchesVerified {console : Console}
    {c : Pool BoardSig (Answer (ι := ι)) (World ι)}
    (h : BoardReaches (start registry console reqs) c) :
    Lawful LaunchVerified c.world.log := by
  refine And.right (h.invariant_of (World.Disciplined · registry reqs)
    (fun w => w.Undisturbed ∧ Lawful LaunchVerified w.log)
    (fun _ hd => BoardReaches.disciplined hd) ?_ ?_ ⟨?_, lawful_nil⟩)
  · rintro t o w r w' hw hw' ⟨hundisturbed, hlawful⟩ hsem
    refine ⟨undisturbed_of_boardSem hw hw' hundisturbed hsem, ?_⟩
    rw [hsem.2.2.2]
    refine hlawful.append ?_
    rcases BoardOp.events_cases o r w'.console with hnone | ⟨e, he⟩
    · rw [hnone]
      exact trivial
    · have hmem : e ∈ BoardOp.events o r w'.console := by simp [he]
      rw [he]
      exact ⟨launchVerified_of_boardSem hw' hundisturbed hsem hmem, trivial⟩
  · rintro w w' _ _ ⟨hundisturbed, hlawful⟩ henv
    refine ⟨undisturbed_of_env hundisturbed henv, ?_⟩
    cases henv <;> exact hlawful
  · intro t on front call rest _ hlog
    simp [start, World.initial] at hlog

end Interleaving

section FirstQuery

variable {profile : BoardProfile} {on : Bool}

/-- The query with which a call of `set_power` begins. -/
def FirstQuery (profile : BoardProfile) (on : Bool) (log : List Event)
    (q : Result PowerObservation) (t : List Event) : Prop :=
  ∃ now, Returns (logSem BoardOp.emits)
    (powerStateUntil profile (now + profile.timing.operationTimeoutMs)).run
    (log ++ [.noted (.setPower on)]) q
    (log ++ .noted (.setPower on) :: t)

/-- An action of the board has its events and does not fail. -/
theorem returns_act {o : BoardOp} {r : Result o.Resp} {log log' : List Event}
    (h : Returns (logSem BoardOp.emits) (act o).run log r log') :
    ∃ a c, r = .ok a ∧ log' = log ++ BoardOp.events o a c := by
  have htraces : Traces BoardOp.emits (fun _ _ => True) (act o).run log
      fun r t => ∃ a c, r = .ok a ∧ t = BoardOp.events o a c := by
    refine Traces.lift (Traces.perform ?_)
    rintro a es ⟨c, c', -, rfl⟩
    exact ⟨allowedAfter_of fun _ _ => trivial, a, c', rfl, rfl⟩
  obtain ⟨t, rfl, a, c, rfl, rfl⟩ := Traces.returns htraces h
  exact ⟨a, c, rfl, rfl⟩

/-- A query launches no relay command. -/
theorem QueryTrace.not_launched {r : Result PowerObservation}
    {t : List Event} (h : QueryTrace profile r t) : ¬RelayLaunched on t := by
  cases r with
  | error e => exact h.1.calm.not_launched
  | ok observation =>
      obtain ⟨q, identity, rfl, hq, -⟩ := h
      simp [hq.calm.not_launched, Event.relay?]

/--
A call of `set_power` begins with a query; if that fails or does not verify the
identity, the call fails and has launched no relay command.
-/
theorem setPower_queries {r : Result PowerObservation}
    {log log' : List Event}
    (hrun : Returns (logSem BoardOp.emits) (setPower profile on).run log r
      log') :
    ∃ q t, FirstQuery profile on log q t ∧
      ((∀ observation, q = .ok observation →
          observation.identityVerified = false) →
        (∃ e, r = .error e) ∧ log' = log ++ .noted (.setPower on) :: t ∧
          ∀ on', ¬RelayLaunched on' t) := by
  rw [setPower] at hrun
  rcases Returns.of_bindE hrun with ⟨e, hnote, -⟩ | ⟨_, u, hnote, hrun⟩
  · obtain ⟨a, c, ⟨⟩, -⟩ := returns_act hnote
  obtain ⟨_, _, -, rfl⟩ := returns_act hnote
  rcases Returns.of_bindE hrun with ⟨e, hnow, -⟩ | ⟨now, u, hnow, hrun⟩
  · obtain ⟨a, c, ⟨⟩, -⟩ := returns_act hnow
  obtain ⟨_, _, -, rfl⟩ := returns_act hnow
  simp only [BoardOp.events, List.append_nil] at hrun
  rcases Returns.of_bindE hrun with ⟨e, hquery, rfl⟩ |
    ⟨observation, u, hquery, hrun⟩
  · obtain ⟨t, ht, hfailed⟩ := Traces.returns
      (powerStateUntil_traces lenient_true _ _) hquery
    rw [← List.append_cons] at ht
    subst ht
    refine ⟨.error e, t, ⟨now, hquery⟩, fun _ => ⟨⟨e, rfl⟩, rfl, ?_⟩⟩
    exact fun on' => QueryTrace.not_launched hfailed
  · obtain ⟨t, ht, hobserved⟩ := Traces.returns
      (powerStateUntil_traces lenient_true _ _) hquery
    rw [← List.append_cons] at ht
    subst ht
    refine ⟨.ok observation, t, ⟨now, hquery⟩, fun hunverified => ?_⟩
    have hmismatch := hunverified observation rfl
    simp only [hmismatch] at hrun
    obtain ⟨rfl, rfl⟩ := Returns.of_pure hrun
    exact ⟨⟨_, rfl⟩, rfl, fun on' => QueryTrace.not_launched hobserved⟩

end FirstQuery

section Uboot

variable {ι : Type} [DecidableEq ι] {registry : BoardRegistry}
variable {console : Console} {reqs : ι → ClientRequest} {i : ι}
variable {w : World ι} {c : Pool BoardSig (Answer (ι := ι)) (World ι)}

/-- The events of the two threads of a request, in the order of their steps. -/
def requestEvents (log : List (Entry ι)) (i : ι) : List Event :=
  (log.filter fun entry => entry.thread.1 = i).map Entry.event

/-- A worker does nothing before its main thread has started it. -/
def StartedFirst (log : List (Entry ι)) (entry : Entry ι) : Prop :=
  entry.thread.2 = .worker →
    .workerSpawned ∈ ownLog log (entry.thread.1, .main)

theorem BoardReaches.startedFirst
    (h : BoardReaches (start registry console reqs) c) :
    Lawful StartedFirst c.world.log := by
  refine h.invariant_of (World.Disciplined · registry reqs)
    (fun w => Lawful StartedFirst w.log)
    (fun _ hd => BoardReaches.disciplined hd) ?_ ?_ lawful_nil
  · intro t o w r w' hw _ hlawful hsem
    have hstarted : ∀ e, StartedFirst w.log ⟨t, w.holder, e⟩ := by
      intro e hworker
      obtain ⟨s, hs, -⟩ := hsem.2.2.1
      rw [hworker] at hs
      have hpending : pending (w.threadLog (t.1, .main)) = true := by
        rw [hw.logged.workers t.1, running_of_onWorker hs]
        rfl
      exact spawned_of_pending hpending
    rw [hsem.2.2.2]
    refine hlawful.append ?_
    rcases BoardOp.events_cases o r w'.console with hnone | ⟨e, he⟩
    · rw [hnone]
      exact trivial
    · rw [he]
      exact ⟨hstarted e, trivial⟩
  · intro w w' _ _ hlawful henv
    cases henv <;> exact hlawful

theorem requestEvents_append (before after : List (Entry ι)) :
    requestEvents (before ++ after) i =
      requestEvents before i ++ requestEvents after i := by
  simp [requestEvents]

/-- If the main thread has nothing to do with the relay, the request's power
events are those of the worker. -/
theorem powerEvents_requestEvents {log : List (Entry ι)}
    (h : ∀ e ∈ ownLog log (i, .main), e.isPower = false) :
    powerEvents (requestEvents log i) =
      powerEvents (ownLog log (i, .worker)) := by
  induction log with
  | nil => rfl
  | cons entry log ih =>
      obtain ⟨⟨j, role⟩, holder, e⟩ := entry
      by_cases hij : j = i
      · subst hij
        cases role with
        | main =>
            have hmain : ∀ x ∈ e :: ownLog log (j, .main),
                x.isPower = false := by
              simpa [ownLog] using h
            have hrest := ih fun x hx => hmain x (List.mem_cons_of_mem e hx)
            simpa [requestEvents, ownLog, powerEvents_cons,
              hmain e List.mem_cons_self] using hrest
        | worker =>
            have hmain : ∀ x ∈ ownLog log (j, .main), x.isPower = false := by
              simpa [ownLog] using h
            have hrest := congrArg
              (fun events => if e.isPower then e :: events else events)
              (ih hmain)
            simpa [requestEvents, ownLog, powerEvents_cons] using hrest
      · have hmain : ∀ x ∈ ownLog log (i, .main), x.isPower = false := by
          simpa [ownLog, hij] using h
        simpa [requestEvents, ownLog, hij] using ih hmain

omit [DecidableEq ι] in
/-- What follows the first occurrence of an element. -/
theorem mem_of_occurred {α : Type} {before after front rest : List α} {x : α}
    (h : before ++ after = front ++ x :: rest) (hbefore : x ∈ before)
    (hfront : x ∉ front) : ∀ e ∈ after, e ∈ rest := by
  rcases List.append_eq_append_iff.mp h with ⟨gap, rfl, -⟩ | ⟨gap, rfl, hrest⟩
  · exact absurd (List.mem_append_left gap hbefore) hfront
  · cases gap with
    | nil => simp [hfront] at hbefore
    | cons y gap =>
        obtain ⟨-, rfl⟩ := List.cons.inj hrest
        exact fun e he => List.mem_append_right gap he

/-- Once its worker has been started, the main thread of `power_on_uboot` has
nothing to do with the relay. -/
theorem ScopeTrace.powerless {profile : BoardProfile} {cursor : Nat}
    {outcome : WorkerOutcome} {boot : Result Booted} {u v tail : List Event}
    (h : ScopeTrace profile cursor outcome boot u v)
    (htail : ConsoleOnly tail) (owner : LeaseOwner) :
    ∀ e ∈ u ++ .noted (.booted (boot.map Prod.fst)) :: (v ++ tail) ++
      [.released owner], e.isPower = false := by
  have hboot : ∀ e ∈ u, e.isPower = false := by
    intro e he
    have hthread := h.thread e he
    cases e <;> first
      | rfl
      | simp [Event.isBoot, Event.isConsole, Event.joined?] at hthread
  have hlast : ∀ e ∈ tail, e.isPower = false := by
    intro e he
    have hconsole := htail e he
    cases e <;> first | rfl | simp [Event.isConsole] at hconsole
  have hlate : ∀ e ∈ v, e.isPower = false := by
    rcases h.late with rfl | rfl <;> simp [Event.isPower]
  intro e he
  simp only [List.mem_append, List.mem_cons, List.not_mem_nil, or_false] at he
  rcases he with (he | rfl | he | he) | rfl
  · exact hboot e he
  · rfl
  · exact hlate e he
  · exact hlast e he
  · rfl

/-- What the worker has accomplished, the request has accomplished. -/
theorem accomplished_of_worker {front rest : List Event} {on : Bool}
    (hstarted : Lawful StartedFirst w.log)
    (hmain : w.threadLog (i, .main) = front ++ .workerSpawned :: rest)
    (hfront : .workerSpawned ∉ front) (hrest : ∀ e ∈ rest, e.isPower = false)
    (hworker : Accomplished on (w.threadLog (i, .worker))) :
    Accomplished on (requestEvents w.log i) := by
  obtain ⟨earlier, command, later, output, after, hlog, hon, hpower, hsuccess⟩ :=
    hworker
  obtain ⟨before, entry, since, hsplit, hthread, hevent, -, hlater⟩ :=
    ownLog_split hlog
  obtain ⟨t, holder, e⟩ := entry
  obtain rfl : t = (i, .worker) := hthread
  obtain rfl : e = .launched command := hevent
  have hspawned := hstarted before _ since hsplit rfl
  have hown : ownLog before (i, .main) ++ ownLog since (i, .main) =
      front ++ .workerSpawned :: rest := by
    rw [← hmain, World.threadLog, hsplit]
    simp [ownLog]
  have hidle : ∀ e ∈ ownLog since (i, .main), e.isPower = false :=
    fun e he => hrest e (mem_of_occurred hown hspawned hfront e he)
  refine ⟨requestEvents before i, command, requestEvents since i, output, after,
    ?_, hon, ?_, hsuccess⟩
  · rw [hsplit, requestEvents_append]
    simp [requestEvents]
  · rw [powerEvents_requestEvents hidle, hlater, hpower]

/-- A call of `power_on_uboot` that succeeds has switched the relay on. -/
theorem powerOnUboot_accomplished {req : PowerOnUbootRequest}
    {result : RpcResult} (hreq : reqs i = .rpc (.powerOnUboot req))
    (hreaches : BoardReaches (start registry console reqs) c)
    (hdone : c.prog (i, .main) = .pure (.rpc (.ok result))) :
    Accomplished true (requestEvents c.world.log i) := by
  obtain ⟨r, hreply, htrace⟩ := powerOnUboot_operation hreq hreaches hdone
  cases r with
  | error e => cases hreply
  | ok performed =>
      have hspawned : .workerSpawned ∈ c.world.threadLog (i, .main) := by
        obtain ⟨profile, owner, performed, s, d, -, hlog, hs⟩ :=
          htrace.succeeded
        rcases hs with ⟨-, -, e, ⟨⟩⟩ | ⟨front, armed, s, rfl, -, hscoped⟩
        obtain ⟨outcome, boot, u, v, rfl, -⟩ := hscoped
        rw [hlog]
        simp
      obtain ⟨profile, owner, front, armed, outcome, boot, u, v, tail,
        hprofile, hlog, htail, -, harmed, hscope, hr⟩ :=
        htrace.spawned hspawned
      obtain ⟨⟨observation, rfl⟩, -⟩ := scope_succeeded hr
      have hdisciplined := hreaches.disciplined
      obtain ⟨hjoins, -⟩ := hscope.joinedOnce harmed htail owner armed
      have hreturned : c.world.WorkerReturned i (.ok observation) := by
        refine ((hdisciplined.logged.outcomes i).joined _ ?_).2
        rw [hlog]
        refine List.mem_append_left _ (mem_of_mem_joins ?_)
        rw [hjoins]
        exact List.mem_singleton_self _
      obtain ⟨s, hs⟩ := List.getLast?_eq_some_iff.mp hreturned
      obtain ⟨profile', -, hpower⟩ := hdisciplined.worker i s _ [] hs
      have hmain : c.world.threadLog (i, .main) =
          .acquired owner :: (front ++ [.looked armed]) ++ .workerSpawned ::
            (u ++ .noted (.booted (boot.map Prod.fst)) :: (v ++ tail) ++
              [.released owner]) := by
        rw [hlog]
        simp
      have hfront : Event.workerSpawned ∉
          .acquired owner :: (front ++ [.looked armed]) := by
        simpa using harmed.neutral.not_spawned
      refine accomplished_of_worker hreaches.startedFirst hmain hfront
        (hscope.powerless htail owner) ?_
      rw [hs]
      exact hpower.accomplished.append [] rfl

/--
Whatever the subprocesses do: every relay command is launched in a call of
`set_power` whose query has just verified the identity, with no other relay
command in between, and a call whose query fails or finds another identity
launches none.  An operation that succeeds has switched the relay and has
observed it in the requested position at the end.
-/
theorem switching_verified
    (hreaches : BoardReaches (start registry console reqs) c) :
    Lawful LaunchVerified c.world.log ∧
    (∀ profile on r log log', Returns (logSem BoardOp.emits)
        (setPower profile on).run log r log' →
      ∃ q t, FirstQuery profile on log q t ∧
        ((∀ observation, q = .ok observation →
            observation.identityVerified = false) →
          (∃ e, r = .error e) ∧ log' = log ++ .noted (.setPower on) :: t ∧
            ∀ on', ¬RelayLaunched on' t)) ∧
    (∀ i req result, reqs i = .rpc (.powerOnUboot req) →
      c.prog (i, .main) = .pure (.rpc (.ok result)) →
        Accomplished true (requestEvents c.world.log i)) ∧
    ∀ boardId, Switches registry boardId := by
  refine ⟨hreaches.launchesVerified, ?_, ?_, switches registry⟩
  · intro profile on r log log' hrun
    exact setPower_queries hrun
  · intro i req result hreq hdone
    exact powerOnUboot_accomplished hreq hreaches hdone

/-- The run of `power_on_uboot` in which its worker switches the relay on. -/
theorem switching_verified_uboot :
    ∃ c, BoardReaches
        (start simulatedRegistry simulatedConsole ubootRequest) c ∧
      Lawful LaunchVerified c.world.log ∧
      Accomplished true (requestEvents c.world.log ()) ∧
      Switches simulatedRegistry "simulated" := by
  obtain ⟨c, result, hreaches, hdone, -⟩ := powerOnUboot_runs
  obtain ⟨hlaunches, -, huboot, hswitches⟩ := switching_verified hreaches
  exact ⟨c, hreaches, hlaunches, huboot () _ _ rfl hdone, hswitches _⟩

end Uboot

end RpictlMcp
