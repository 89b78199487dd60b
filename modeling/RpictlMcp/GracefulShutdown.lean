import RpictlMcp.LeaseTenure

/-!
# rpictl-mcp: when `graceful_power_off` cuts the power

The operation waits for the shutdown message in the current generation and takes
no cursor, so nothing in it compares the message with what was on the console
before.  That an old message does not count follows from three facts: the
detector reports the pattern that begins last, the window it looks at only moves
forward, and nobody begins a generation while the lease is held.  Had the
message been complete when the shell was observed, the detector would have
preferred the shell prompt then as it would now.
-/

namespace RpictlMcp

open Prog

/-- Only relay commands are restricted, each by the events before it. -/
def Switching (P : List Event → Bool → Prop) (log : List Event) (e : Event) :
    Prop :=
  ∀ on, e.relay? = some on → P log on

section Switching

variable {P : List Event → Bool → Prop}

theorem Switching.of_none {log : List Event} {e : Event}
    (h : e.relay? = none) : Switching P log e := by
  intro on hon
  rw [h] at hon
  cases hon

theorem lenient_switching : Lenient (Switching P) where
  passive log e he := by
    refine .of_none ?_
    cases e with
    | launched command => simpa [Event.isPassive, Event.relay?] using he
    | _ => rfl
  queried _ _ := .of_none rfl
  switched _ _ _ := .of_none rfl

theorem writable_switching : Writable (Switching P) fun _ => True where
  keep _ _ _ _ := trivial
  write _ _ _ _ := .of_none rfl
  sleep _ _ _ := .of_none rfl

/-- An operation launches relay commands in its closure alone. -/
theorem operation_switching {registry : BoardRegistry} {boardId name : String}
    {expected : Option String}
    {action : BoardProfile → String → Action Performed}
    (haction : ∀ profile operationId owner,
      registry.board boardId = .ok profile →
        Traces BoardOp.emits (Switching P) (action profile operationId).run
          [.acquired owner] fun _ _ => True) :
    Traces BoardOp.emits (Switching P)
      (operation registry boardId name expected action).run []
      fun _ _ => True :=
  operation_allowed (fun _ => .of_none rfl) (fun _ _ => .of_none rfl)
    (fun _ _ => .of_none rfl) haction

end Switching

/--
What a graceful shutdown has done before it switches the relay: it has observed
the shell, typed both commands, observed the shutdown, and verified the relay.
-/
structure ShutDown (profile : BoardProfile) (shell shown : Console)
    (log : List Event) : Prop where
  run : ∃ owner shutdown waiting query observation,
    profile.linux.shutdownCommand = some shutdown ∧
    log = .acquired owner :: .looked shell ::
      ((writeEvents profile (utf8 "sync\r") ++ .slept 1000 ::
        (writeEvents profile (utf8 shutdown ++ utf8 "\r") ++ waiting)) ++
          .looked shown :: .noted (.setPower false) :: query ++
            [.noted (.queried observation)]) ∧
    Passive waiting ∧ ConsoleOnly waiting ∧ Passive query ∧
    observation.identityVerified = true
  shell : generationState profile shell.ring = .linuxShell
  shutdown : generationState profile shown.ring = .shutdownInProgress

section GracefulTrace

variable {registry : BoardRegistry} {boardId : String}

/-- What `graceful_power_off` demands of itself before a relay command. -/
def GracefulPermitted (registry : BoardRegistry) (boardId : String) :
    List Event → Event → Prop :=
  Switching fun log on => on = false ∧ ∃ profile shell shown,
    registry.board boardId = .ok profile ∧ ShutDown profile shell shown log

theorem gracefulPowerOffAction_switching {profile : BoardProfile}
    (hprofile : registry.board boardId = .ok profile) (owner : LeaseOwner) :
    Traces BoardOp.emits (GracefulPermitted registry boardId)
      (gracefulPowerOffAction profile).run [.acquired owner]
      fun _ _ => True := by
  have hwrite : ∀ bytes base, Traces BoardOp.emits
      (GracefulPermitted registry boardId) (writeConsole profile bytes).run
      base (WriteTrace profile bytes) := fun bytes _ =>
    writeConsole_traces writable_switching bytes trivial
  refine Traces.bindE (observedState_traces fun _ => .of_none rfl) ?_
    fun _ _ _ => trivial
  rintro _ _ ⟨shell, ⟨⟩, rfl⟩
  split
  · exact Traces.throwError trivial
  · rename_i hshell
    have hshell := Decidable.not_not.mp hshell
    split
    · exact Traces.throwError trivial
    · rename_i shutdown hshutdown
      refine Traces.bindE (hwrite _ _) ?_ fun _ _ _ => trivial
      rintro ⟨⟩ t₁ h₁
      obtain rfl := h₁.all rfl
      refine Traces.eventBind (fun _ _ => rfl) (.of_none rfl) fun _ => ?_
      refine Traces.bindE (hwrite _ _) ?_ fun _ _ _ => trivial
      rintro ⟨⟩ t₂ h₂
      obtain rfl := h₂.all rfl
      refine Traces.bindE (waitForStates_traces lenient_switching _ _ _ _)
        ?_ fun _ _ _ => trivial
      intro state t₃ h₃
      obtain ⟨waiting, shown, rfl, hpoll⟩ := h₃.last state rfl
      have hpassive := (passive_append.mp h₃.passive).1
      have hconsole := (consoleOnly_append.mp h₃.console).1
      have hshown : generationState profile shown.ring =
          .shutdownInProgress := by
        obtain ⟨hstate, hmem⟩ := mem_of_requested hpoll
        rw [hstate]
        simpa using hmem
      refine Traces.bindE (setPower_traces lenient_switching false
        (.of_none rfl) ?_) ?_ fun _ _ _ => trivial
      · intro q before identity hq hverified on hon
        obtain rfl := Option.some.inj
          ((switchRelay_relay? identity false).symm.trans hon)
        exact ⟨rfl, profile, shell, shown, hprofile, ⟨owner, shutdown,
          waiting, q, before, hshutdown, by simp, hpassive, hconsole, hq,
          hverified⟩, hshell, hshown⟩
      · exact fun _ _ _ => Traces.done trivial

theorem gracefulPowerOff_switching (confirmed : Bool) :
    Traces BoardOp.emits (GracefulPermitted registry boardId)
      (gracefulPowerOff registry boardId confirmed).run []
      fun _ _ => True := by
  unfold gracefulPowerOff
  split
  · exact Traces.throwError trivial
  · exact operation_switching fun profile _ owner hprofile =>
      gracefulPowerOffAction_switching hprofile owner

end GracefulTrace

/-- The bytes that `observed_state` looks at. -/
def Console.window (console : Console) : List UInt8 :=
  StampedLog.window (min observationBytes console.capacity)
    (sinceMark console.history)

/--
The detector decides for a state by the occurrence of its nonempty pattern that
begins at an index of the stream.
-/
structure FoundAt (profile : BoardProfile) (state : BoardState)
    (console : Console) (index : Nat) : Prop where
  pattern : profile.patterns.patternOf state ≠ []
  latest : ∃ offset,
    index = console.stream.length - console.window.length + offset ∧
      profile.patterns.latest (fromUtf8Lossy console.window) =
        some (offset, state, profile.patterns.patternOf state)
  occurs : profile.patterns.patternOf state <+: console.stream.drop index

section Freshness

variable {profile : BoardProfile} {state : BoardState}
variable {shell shown : Console} {index : Nat}

/-- The window is an end of the stream. -/
theorem Console.window_suffix (console : Console) :
    console.window <:+ console.stream :=
  (StampedLog.window_suffix _ _).trans (sinceMark_suffix console.history)

/-- On ASCII output every observed state is decided by an occurrence. -/
theorem foundAt_of_generationState (hascii : IsAscii shown.stream)
    (hstate : generationState profile shown.ring = state)
    (hne : state ≠ .unknown) : ∃ index, FoundAt profile state shown index := by
  have hwindow : IsAscii shown.window :=
    hascii.subset shown.window_suffix.subset
  rw [generationState_eq, ← Console.window, StatePatterns.observed] at hstate
  split at hstate
  · rename_i offset found pattern hlatest
    subst hstate
    obtain ⟨hmem, hpattern, hfind⟩ :=
      StatePatterns.mem_occurrences.mp (mem_of_maxByKey hlatest)
    obtain ⟨rfl, -⟩ := StatePatterns.candidates_eq_patternOf hmem
    obtain ⟨front, hfront⟩ := shown.window_suffix
    refine ⟨_, hpattern, ⟨offset, rfl, hlatest⟩, ?_⟩
    have hlength : shown.stream.length - shown.window.length =
        front.length := by
      rw [← hfront, List.length_append, Nat.add_sub_cancel]
    rw [hlength, ← hfront, ← List.drop_drop, List.drop_left]
    rw [fromUtf8Lossy_ascii hwindow] at hfind
    exact isPrefix_drop_of_rfind hfind
  · exact absurd hstate.symm hne

/-- A pattern that begins last in a window, and ends before the bytes that have
come last, begins last in the window without them. -/
theorem StatePatterns.latest_window_of_append {patterns : StatePatterns}
    {capacity offset : Nat} {bytes more : List UInt8} {pattern : Text}
    (hlatest : patterns.latest (StampedLog.window capacity (bytes ++ more)) =
      some (offset, state, pattern))
    (hfits : (bytes ++ more).length - capacity + (offset + pattern.length) ≤
      bytes.length) :
    ∃ start, patterns.latest (StampedLog.window capacity bytes) =
      some (start, state, pattern) := by
  have hbegins : (bytes ++ more).length - capacity ≤ bytes.length := by omega
  obtain ⟨front, hfront⟩ :=
    StampedLog.drop_suffix_window capacity bytes more
  have hkept : offset + pattern.length ≤
      (bytes.drop ((bytes ++ more).length - capacity)).length := by
    rw [List.length_drop]
    omega
  rw [StampedLog.window_append_of_le hbegins] at hlatest
  refine ⟨front.length + offset, ?_⟩
  rw [← hfront]
  exact StatePatterns.latest_append front
    (StatePatterns.latest_of_append hlatest hkept)

/--
An occurrence that decides for a state after the console has grown was not
complete before, unless the same state was observed then.
-/
theorem FoundAt.fresh (h : FoundAt profile state shown index)
    (hgrows : shell.Grows shown) (hascii : IsAscii shown.stream)
    (hother : generationState profile shell.ring ≠ state) :
    shell.stream.length <
      index + (profile.patterns.patternOf state).length := by
  by_contra hcomplete
  have hcomplete := Nat.le_of_not_lt hcomplete
  obtain ⟨more, hstream, hsince⟩ := hgrows.received
  obtain ⟨offset, rfl, hlatest⟩ := h.latest
  have hshown : IsAscii shown.window :=
    hascii.subset shown.window_suffix.subset
  have hbefore : IsAscii shell.stream := by
    refine hascii.subset ?_
    rw [hstream]
    exact List.subset_append_left _ _
  have hshell : IsAscii shell.window :=
    hbefore.subset shell.window_suffix.subset
  obtain ⟨old, hold⟩ : ∃ old, shell.stream = old ++ sinceMark shell.history :=
    let ⟨old, hold⟩ := sinceMark_suffix shell.history
    ⟨old, hold.symm⟩
  have hwindow : shown.window = StampedLog.window
      (min observationBytes shell.capacity)
        (sinceMark shell.history ++ more) := by
    rw [Console.window, hsince, hgrows.1]
  have hlength := StampedLog.length_window
    (min observationBytes shell.capacity) (sinceMark shell.history ++ more)
  have hshort := congrArg List.length hold
  have hlong := congrArg List.length hstream
  rw [List.length_append] at hshort hlong
  rw [fromUtf8Lossy_ascii hshown, hwindow] at hlatest
  rw [hwindow, hlength] at hcomplete
  -- A complete occurrence has begun last in the old window, too.
  obtain ⟨start, hthen⟩ := StatePatterns.latest_window_of_append hlatest (by
    rw [List.length_append] at hcomplete ⊢
    omega)
  have hwon : profile.patterns.latest (fromUtf8Lossy shell.window) =
      some (start, state, profile.patterns.patternOf state) := by
    rw [fromUtf8Lossy_ascii hshell]
    exact hthen
  apply hother
  rw [generationState_eq, ← Console.window]
  exact StatePatterns.observed_of_latest hwon

end Freshness

/-- A request that is served by `graceful_power_off`. -/
def ClientRequest.ShutsDown (registry : BoardRegistry) (boardId : String)
    (req : ClientRequest) : Prop :=
  ∃ confirmed f, serve registry req =
    f <$> (gracefulPowerOff registry boardId confirmed).run

section ShutsDown

variable {registry : BoardRegistry}

/-- The tool `power_off` with the mode `graceful`. -/
theorem shutsDown_powerOff {req : PowerOffRequest}
    (hreason : (trim req.reason.toList).isEmpty = false)
    (hmode : req.mode = "graceful") :
    ClientRequest.ShutsDown registry req.boardId (.rpc (.powerOff req)) := by
  refine ⟨req.confirmation,
    fun r => ClientResponse.rpc (r.map RpcResult.operation), ?_⟩
  rw [serve, handleRpc, ExceptT.run_map, powerOffBoard, hreason, hmode]
  simp

/-- The line `POWER off` of the socket. -/
theorem shutsDown_power {rest : String}
    (hoff : ((splitWhitespace rest.toList).map String.ofList)[0]? =
      some "off") :
    ClientRequest.ShutsDown registry
      (ClientRequest.boardId (.power rest)) (.power rest) := by
  refine ⟨true, fun r => ClientResponse.text (powerReply (fun _ =>
    utf8 "graceful power off succeeded") "power off" r), ?_⟩
  simp only [serve, powerLine, powerCommand, hoff, Option.getD_some,
    ClientRequest.boardId]
  simp

/-- The command `poweroff` of a console. -/
theorem shutsDown_consoleCommand {boardId cmd : String}
    (hcmd : (splitWhitespace cmd.toList).map String.ofList = ["poweroff"]) :
    ClientRequest.ShutsDown registry boardId (.consoleCommand boardId cmd) := by
  refine ⟨true, fun r => ClientResponse.text (consoleReply (fun _ =>
    utf8 "Graceful power off succeeded") "Power off failed" r), ?_⟩
  simp only [serve, handleConsoleCommand, hcmd]
  simp

/-- The board that a request asks to shut down gracefully. -/
def ClientRequest.shutsDown? : ClientRequest → Option String
  | .rpc (.powerOff req) =>
      if (trim req.reason.toList).isEmpty = false ∧ req.mode = "graceful" then
        some req.boardId
      else none
  | .power rest =>
      if ((splitWhitespace rest.toList).map String.ofList)[0]? = some "off" then
        some (ClientRequest.boardId (.power rest))
      else none
  | .consoleCommand boardId cmd =>
      if (splitWhitespace cmd.toList).map String.ofList = ["poweroff"] then
        some boardId
      else none
  | _ => none

/-- Such a request is served by `graceful_power_off`, whichever way it has come
in. -/
theorem shutsDown_of_asked {req : ClientRequest} {boardId : String}
    (h : req.shutsDown? = some boardId) : req.ShutsDown registry boardId := by
  unfold ClientRequest.shutsDown? at h
  split at h
  · split at h
    · rename_i hasks
      obtain rfl := Option.some.inj h
      exact shutsDown_powerOff hasks.1 hasks.2
    · cases h
  · split at h
    · rename_i hoff
      obtain rfl := Option.some.inj h
      exact shutsDown_power hoff
    · cases h
  · split at h
    · rename_i hcmd
      obtain rfl := Option.some.inj h
      exact shutsDown_consoleCommand hcmd
    · cases h
  · cases h

end ShutsDown

section Interleaving

variable {ι : Type} [DecidableEq ι] {registry : BoardRegistry}
variable {reqs : ι → ClientRequest} {boardId : String} {i : ι}
variable {profile : BoardProfile} {shell shown : Console}

theorem tenured_writeEvents (bytes : List UInt8) :
    Tenured (writeEvents profile bytes) := by
  intro e he
  obtain ⟨byte, -, hmem⟩ := List.mem_flatMap.mp he
  rcases List.mem_cons.mp hmem with rfl | hslept
  · rfl
  · split at hslept
    · rw [List.mem_singleton.mp hslept]
      rfl
    · cases hslept

theorem Passive.tenured {t : List Event} (h : Passive t) : Tenured t := by
  intro e he
  have := h e he
  cases e <;> first | rfl | cases this

/-- Nothing in a graceful shutdown moves the lease after it was acquired. -/
theorem ShutDown.neutral {log : List Event}
    (h : ShutDown profile shell shown log) :
    ∃ owner rest, log = .acquired owner :: rest ∧ Neutral rest := by
  obtain ⟨owner, shutdown, waiting, query, observation, -, rfl, hwaiting, -,
    hquery, -⟩ := h.run
  have hwrites : ∀ bytes, Neutral (writeEvents profile bytes) :=
    fun bytes => (tenured_writeEvents bytes).neutral
  refine ⟨owner, _, rfl, ?_⟩
  simp [hwrites, Event.isNeutral, hwaiting.neutral, hquery.neutral]

/-- A log that begins with the lease is one of a holder, event by event. -/
theorem holds_of_neutral {owner : LeaseOwner} {front rest back : List Event}
    {e : Event} (h : front ++ e :: back = .acquired owner :: rest)
    (hrest : Neutral rest) : e = .acquired owner ∨ holds front = true := by
  cases front with
  | nil => exact .inl (List.cons.inj h).1
  | cons x front =>
      obtain ⟨rfl, hback⟩ := List.cons.inj h
      have hback : front ++ e :: back = rest := hback
      rw [← hback, neutral_append] at hrest
      right
      rw [← List.singleton_append, holds_append hrest.1]
      rfl

/-- What a thread does after its first event, which takes the lease, it does
under the lease. -/
theorem held_of_neutral {log before after rest : List (Entry ι)}
    {entry : Entry ι} {owner : LeaseOwner} {events : List Event}
    {t : Thread ι} (hholders : HolderLogged log)
    (hlog : log = before ++ entry :: after) (hentry : entry.thread = t)
    (hown : ownLog (before ++ entry :: rest) t = .acquired owner :: events)
    (hevents : Neutral events) :
    entry.event = .acquired owner ∨ entry.holder = some t := by
  obtain ⟨_, holder, e⟩ := entry
  subst hentry
  rw [ownLog_append, ownLog_cons_self] at hown
  refine (holds_of_neutral hown hevents).imp_right fun hheld => ?_
  exact (hholders before _ after hlog _).mp hheld

/-- The shutdown was observed in output that has grown since the shell. -/
theorem ShutDown.grows {w : World ι} {log rest : List Event}
    (h : ShutDown profile shell shown log) (hw : w.Tenure)
    (hlog : w.threadLog (i, .main) = log ++ rest) : shell.Grows shown := by
  obtain ⟨owner, shutdown, waiting, query, observation, -, rfl, hwaiting, -⟩ :=
    h.run
  refine hw.earlier i [.acquired owner] shell
    (writeEvents profile (utf8 "sync\r") ++ .slept 1000 ::
      (writeEvents profile (utf8 shutdown ++ utf8 "\r") ++ waiting)) shown
    (.noted (.setPower false) :: query ++
      [.noted (.queried observation)] ++ rest) ?_ rfl ?_
  · rw [hlog]
    simp
  · simp only [tenured_append, tenured_cons, tenured_writeEvents, true_and]
    exact ⟨rfl, hwaiting.tenured⟩

/--
For every interleaving, on ASCII output: a request that is served by
`graceful_power_off` switches the relay only off, and only under the lease,
which it has held since it began; it has then observed the shell, typed both
commands, and found the shutdown pattern at a place of the stream where it was
not yet complete when the shell was observed.
-/
theorem gracefulPowerOff_fresh {console : Console}
    {c : Pool BoardSig (Answer (ι := ι)) (World ι)}
    {before after : List (Entry ι)} {holder : Option (Thread ι)}
    {command : Command} {on : Bool}
    (hreq : (reqs i).ShutsDown registry boardId)
    (hreaches : BoardReaches (start registry console reqs) c)
    (hascii : IsAscii c.world.console.stream)
    (hlog : c.world.log =
      before ++ ⟨(i, .main), holder, .launched command⟩ :: after)
    (hrelay : command.relay? = some on) :
    on = false ∧ holder = some (i, .main) ∧
      (∀ entry ∈ before, entry.thread = (i, .main) →
        entry.holder = some (i, .main) ∨
          ∃ owner, entry.event = .acquired owner) ∧
      ∃ profile shell shown index, registry.board boardId = .ok profile ∧
        ShutDown profile shell shown (ownLog before (i, .main)) ∧
        FoundAt profile .shutdownInProgress shown index ∧
        shell.stream.length < index +
          (profile.patterns.patternOf .shutdownInProgress).length := by
  obtain ⟨confirmed, f, hserve⟩ := hreq
  have hown : c.world.threadLog (i, .main) = ownLog before (i, .main) ++
      .launched command :: ownLog after (i, .main) := by
    rw [World.threadLog, hlog]
    exact (ownLog_append before _ (i, .main)).trans
      (congrArg _ (ownLog_cons_self _ after))
  have htraces : Traces BoardOp.emits (GracefulPermitted registry boardId)
      (serve registry (reqs i)) [] fun _ _ => True := by
    rw [hserve]
    exact Traces.map (gracefulPowerOff_switching confirmed)
  obtain ⟨hoff, profile, shell, shown, hprofile, hshut⟩ :=
    htraces.lawful (hreaches.exec (i, .main)) _ _ _ hown on hrelay
  obtain ⟨owner, rest, hacquired, hneutral⟩ := hshut.neutral
  have hholders := hreaches.holderLogged
  refine ⟨hoff, ?_, ?_, profile, shell, shown, ?_⟩
  · refine (hholders before _ after hlog (i, .main)).mp ?_
    rw [hacquired, ← List.singleton_append, holds_append hneutral]
    rfl
  · intro entry hentry hthread
    obtain ⟨front, back, rfl⟩ := List.append_of_mem hentry
    have hsplit : c.world.log = front ++ entry :: (back ++
        ⟨(i, .main), holder, .launched command⟩ :: after) := by
      rw [hlog, List.append_assoc, List.cons_append]
    have hheld := held_of_neutral hholders hsplit hthread hacquired hneutral
    exact hheld.symm.imp_right fun he => ⟨owner, he⟩
  · have hgrows := hshut.grows hreaches.tenure hown
    have hseen : shown.Extends c.world.console := by
      obtain ⟨_, _, _, _, _, -, hrun, -⟩ := hshut.run
      have hmem : Event.looked shown ∈ c.world.threadLog (i, .main) := by
        rw [hown, hrun]
        simp
      exact hreaches.disciplined.logged.ascending.extends_of_mem hmem
    have hshown := hascii.subset hseen.stream.subset
    obtain ⟨index, hfound⟩ :=
      foundAt_of_generationState hshown hshut.shutdown (by simp)
    refine ⟨index, hprofile, hshut, hfound, ?_⟩
    exact hfound.fresh hgrows hshown (by simp [hshut.shell])

end Interleaving

section Schedule

/-- The simulated board with a shutdown command and its message. -/
def haltable : BoardProfile :=
  { simulated with
    patterns := { simulated.patterns with shutdown := some "System halted" }
    linux := { shutdownCommand := some "poweroff" } }

/-- The registry of that one board. -/
def haltableRegistry : BoardRegistry :=
  ⟨{ boards := [haltable] }, by decide⟩

theorem haltable_hasRelay : HasRelay haltable simulatedIdentity :=
  ⟨rfl, by decide⟩

/-- A client types `poweroff` at its console. -/
def typedPoweroff : Unit → ClientRequest :=
  fun _ => .consoleCommand "simulated" "poweroff"

theorem typedPoweroff_shutsDown :
    (typedPoweroff ()).ShutsDown haltableRegistry "simulated" :=
  shutsDown_of_asked (by decide)

/-- A world in which a graceful shutdown has begun. -/
def haltingWorld : World Unit :=
  (World.initial simulatedConsole).acquireBy ((), .main)
    (operationOwner "power_off")

/-- The world of a shell prompt, two commands and the shutdown message. -/
def haltedWorld (d e : Console) : World Unit :=
  ((((((haltingWorld.hear d).look ((), .main)).emit ((), .main)
    (writeEvents haltable (utf8 "sync\r"))).emit ((), .main)
      [.slept 1000]).emit ((), .main)
        (writeEvents haltable (utf8 "poweroff" ++ utf8 "\r"))).hear e).look
          ((), .main)

/-- What such a shutdown reports. -/
def haltedReport : Performed :=
  ((relayObservation false).raw, ["sent sync",
    "sent configured shutdown command", "verified relay off after shutdown"])

/-- A graceful shutdown in which the board does what it should. -/
theorem gracefulPowerOffAction_acts {d e : Console}
    (hd : simulatedConsole.Sends d (utf8 "root@fake:#"))
    (he : d.Sends e (utf8 "System halted"))
    (hshell : generationState haltable d.ring = .linuxShell)
    (hhalted : generationState haltable e.ring = .shutdownInProgress) :
    Acts ((), .main) (gracefulPowerOffAction haltable) haltingWorld
      (.ok haltedReport)
      ((haltedWorld d e).emit ((), .main)
        (setPowerEvents simulatedIdentity false)) := by
  have hmain : ∀ w : World Unit, w.Alive ((), .main) := fun _ => alive_main ()
  have hpoll : pollGeneration haltable [.shutdownInProgress] none e.ring =
      some .shutdownInProgress := by
    simp [pollGeneration, requested, hhalted]
  have hobserve : Acts ((), .main) (observedState haltable) haltingWorld
      (.ok .linuxShell) ((haltingWorld.hear d).look ((), .main)) :=
    hshell ▸ Acts.hear (hmain _) hd (Acts.pure _)
  refine Acts.bind hobserve ?_
  refine Acts.bind (writeConsole_acts (hmain _) _) ?_
  refine Acts.log () rfl (hmain _) ?_
  refine Acts.bind (writeConsole_acts (hmain _) _) ?_
  refine Acts.bind (waitForStates_acts (hmain _) he hpoll) ?_
  refine Acts.bind (setPower_acts (hmain _) (by decide) haltable_hasRelay
    simulated_verifiable false) ?_
  exact Acts.pure _

theorem serve_typedPoweroff :
    serve haltableRegistry (typedPoweroff ()) =
      ClientResponse.text <$> consoleReply (fun _ =>
        utf8 "Graceful power off succeeded") "Power off failed" <$>
          (gracefulPowerOff haltableRegistry "simulated" true).run := by
  have hcmd : (splitWhitespace "poweroff".toList).map String.ofList =
      ["poweroff"] := by decide
  simp only [typedPoweroff, serve, handleConsoleCommand, hcmd]
  simp

/-- The run of a typed `poweroff` launches the command that switches off. -/
theorem typedPoweroff_runs :
    ∃ c before after,
      BoardReaches (start haltableRegistry simulatedConsole typedPoweroff) c ∧
      IsAscii c.world.console.stream ∧
      c.world.log = before ++ ⟨((), .main), some ((), .main),
        .launched (switchRelay simulatedIdentity false)⟩ :: after := by
  obtain ⟨d, hd⟩ : ∃ d, simulatedConsole.Sends d (utf8 "root@fake:#") :=
    simulatedConsole.exists_sends haltableRegistry.ring_pos (by decide)
  have hcapacity : d.capacity = 262144 := hd.1
  obtain ⟨e, he⟩ : ∃ e, d.Sends e (utf8 "System halted") := by
    refine d.exists_sends (by omega) ?_
    rw [hd.stream]
    decide
  have hshell : generationState haltable d.ring = .linuxShell := by
    obtain ⟨-, timestamp, hhistory⟩ := hd
    rw [generationState_eq, hcapacity, hhistory, sinceMark_append]
    decide
  have hhalted : generationState haltable e.ring = .shutdownInProgress := by
    obtain ⟨-, timestamp, hhistory⟩ := hd
    obtain ⟨hsame, timestamp', hhistory'⟩ := he
    rw [generationState_eq, hsame, hcapacity, hhistory', sinceMark_append,
      hhistory, sinceMark_append]
    decide
  obtain ⟨result, hrun⟩ : ∃ result, Acts ((), .main)
      (gracefulPowerOff haltableRegistry "simulated" true)
      (World.initial simulatedConsole) (.ok result)
      ((((haltedWorld d e).emit ((), .main)
        (setPowerEvents simulatedIdentity false)).look ((), .main)).releaseBy
          ((), .main) (operationOwner "power_off")) :=
    operation_acts (i := ()) (by decide) rfl
      (gracefulPowerOffAction_acts hd he hshell hhalted) rfl
  obtain ⟨p, hexec⟩ : Visits (afterEnv boardSem BoardEnv ((), .main))
      (serve haltableRegistry (typedPoweroff ()))
      (World.initial simulatedConsole) _ := by
    rw [serve_typedPoweroff]
    exact (hrun.visits.map _).map _
  have hreaches := Pool.reaches_of_exec
    (c := start haltableRegistry simulatedConsole typedPoweroff) hexec
  have hmem : (⟨((), .main), some ((), .main),
      .launched (switchRelay simulatedIdentity false)⟩ : Entry Unit) ∈
        ((((haltedWorld d e).emit ((), .main)
          (setPowerEvents simulatedIdentity false)).look
            ((), .main)).releaseBy ((), .main)
              (operationOwner "power_off")).log := by
    simp [World.releaseBy, World.look, World.emit, setPowerEvents,
      World.holder, haltedWorld, haltingWorld, World.acquireBy, World.hear]
  obtain ⟨before, after, hlog⟩ := List.append_of_mem hmem
  refine ⟨_, before, after, hreaches, ?_, hlog⟩
  have hascii : IsAscii e.stream := by
    rw [he.stream, hd.stream]
    exact isAscii_of_all (by decide)
  exact hascii

/-- The run of a typed `poweroff` cuts the power after the message. -/
theorem gracefulPowerOff_fresh_halted :
    ∃ c before after holder command,
      BoardReaches (start haltableRegistry simulatedConsole typedPoweroff) c ∧
      c.world.log =
        before ++ ⟨((), .main), holder, .launched command⟩ :: after ∧
      command.relay? = some false ∧ holder = some ((), .main) ∧
      ∃ profile shell shown index,
        ShutDown profile shell shown (ownLog before ((), .main)) ∧
        FoundAt profile .shutdownInProgress shown index ∧
        shell.stream.length < index +
          (profile.patterns.patternOf .shutdownInProgress).length := by
  obtain ⟨c, before, after, hreaches, hascii, hlog⟩ := typedPoweroff_runs
  have hrelay := switchRelay_relay? simulatedIdentity false
  obtain ⟨-, hholder, -, profile, shell, shown, index, -, hfresh⟩ :=
    gracefulPowerOff_fresh typedPoweroff_shutsDown hreaches hascii hlog hrelay
  exact ⟨c, before, after, _, _, hreaches, hlog, hrelay, hholder, profile,
    shell, shown, index, hfresh⟩

end Schedule

end RpictlMcp
