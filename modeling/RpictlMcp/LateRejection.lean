import RpictlMcp.VerifiedSwitching

/-!
# rpictl-mcp: rejections that come late

A call is rejected for its arguments or for the configuration of its board.
Most methods check what they need before they do anything.  Three do not: the
state that `power_on` shall wait for is parsed when the relay is on already, the
account that `power_on_linux` logs in with is looked up when the login prompt
has been reached, and a graceful `power_off` parses the identity of the relay
when it has shut the system down.  `Halfway` says of a request and a
configuration that this can happen, and no other rejection has an effect on the
board.
-/

namespace RpictlMcp

open Prog

section Halfway

variable (registry : BoardRegistry)

/-- A state that the detector finds in some bytes that fit into its window. -/
def Showable (profile : BoardProfile) (state : BoardState) : Prop :=
  ∃ text : List UInt8,
    text.length ≤ min observationBytes registry.config.serialRingBytes ∧
      profile.patterns.observed text = state

/-- A request that can be rejected when it has been carried out in part. -/
def Halfway : RpcRequest → Prop
  | .powerOn req => ∃ profile wait e,
      registry.board req.boardId = .ok profile ∧ Switchable profile ∧
      req.waitFor = some wait ∧ wait ≠ "none" ∧ parseState wait = .error e
  | .powerOnLinux req => ∃ profile,
      registry.board req.boardId = .ok profile ∧ Switchable profile ∧
      req.login.getD false = true ∧ profile.linux.account = none ∧
      Showable registry profile .linuxLogin
  | .powerOff req => ∃ profile,
      registry.board req.boardId = .ok profile ∧
      (trim req.reason.toList).isEmpty = false ∧ req.mode = "graceful" ∧
      req.confirmation = true ∧ profile.linux.shutdownCommand ≠ none ∧
      (∃ e, BadIdentity profile e) ∧ Showable registry profile .linuxShell ∧
      Showable registry profile .shutdownInProgress
  | _ => False

/--
Whenever a call is rejected for its arguments or its configuration, it has
launched no relay command, has written nothing and has marked no generation.
-/
def RejectsUntouched (req : RpcRequest) : Prop :=
  ∀ (ι : Type) [DecidableEq ι] (console : Console)
    (reqs : ι → ClientRequest) (i : ι)
    (c : Pool BoardSig (Answer (ι := ι)) (World ι)) (e : Error),
    console.capacity = registry.config.serialRingBytes →
    reqs i = .rpc req → BoardReaches (start registry console reqs) c →
    c.prog (i, .main) = .pure (.rpc (.error e)) →
    e.code.isRejection = true → Inert (requestEvents c.world.log i)

end Halfway

section Rejections

variable {ι : Type} [DecidableEq ι] {registry : BoardRegistry}
variable {console : Console} {reqs : ι → ClientRequest} {i : ι}
variable {req : RpcRequest} {t : Thread ι} {profile : BoardProfile}
variable {c : Pool BoardSig (Answer (ι := ι)) (World ι)}

/-- What a remote procedure call that has ended did in its main thread. -/
theorem rpc_ended {reply : Result RpcResult} (hreq : reqs i = .rpc req)
    (hreaches : BoardReaches (start registry console reqs) c)
    (hdone : c.prog (i, .main) = .pure (.rpc reply)) :
    RpcTrace registry req reply (c.world.threadLog (i, .main)) := by
  have hexec := hreaches.exec (i, .main)
  rw [hdone] at hexec
  have hserve : (start registry console reqs).prog (i, .main) =
      serve registry (.rpc req) := congrArg (serve registry) hreq
  rw [hserve] at hexec
  have htraces : Traces BoardOp.emits
      (Permitted (ClientRequest.isProbe (.rpc req)))
      (serve registry (.rpc req)) [] fun response t =>
        ∃ r, response = .rpc r ∧ RpcTrace registry req r t := by
    refine Traces.map (Traces.mono (handleRpc_traces req rfl) ?_)
    exact fun r t ht => ⟨r, rfl, ht⟩
  obtain ⟨r, hreply, htrace⟩ := htraces.result hexec
  injection hreply with hreply
  exact hreply ▸ htrace

/-- Every console that a thread sees has the room of the first one. -/
theorem capacity_of_looked
    (hreaches : BoardReaches (start registry console reqs) c) {seen : Console}
    (hseen : .looked seen ∈ c.world.threadLog t) :
    seen.capacity = console.capacity := by
  have hlater := hreaches.disciplined.logged.ascending.extends_of_mem hseen
  obtain ⟨hfirst, -⟩ := hreaches.looked_since t
  exact hlater.capacity.symm.trans hfirst.capacity

theorem showable_of_stateAfter {cursor : Nat} {state : BoardState}
    {seen : Console} (hcapacity : seen.capacity =
      registry.config.serialRingBytes)
    (h : stateAfter profile seen.ring cursor = state) :
    Showable registry profile state := by
  rw [stateAfter_eq] at h
  refine ⟨_, ?_, h⟩
  rw [List.length_take, Console.retainedAfter, List.length_drop, ← hcapacity]
  omega

theorem showable_of_generationState {state : BoardState} {seen : Console}
    (hcapacity : seen.capacity = registry.config.serialRingBytes)
    (h : generationState profile seen.ring = state) :
    Showable registry profile state := by
  rw [generationState_eq] at h
  refine ⟨_, ?_, h⟩
  rw [StampedLog.length_window, ← hcapacity]
  omega

/-- The worker of `power_on_uboot` is never rejected: its board has a relay
with a good identity, or it had not been started. -/
theorem joined_accepted {req : PowerOnUbootRequest} {identity : Identity}
    {e : Error} (hreq : reqs i = .rpc (.powerOnUboot req))
    (hreaches : BoardReaches (start registry console reqs) c)
    (hprofile : registry.board req.boardId = .ok profile)
    (hrelay : HasRelay profile identity)
    (hjoined : .workerJoined (.returned (.error e)) ∈
      c.world.threadLog (i, .main)) : e.code.isRejection = false := by
  have hdisciplined := hreaches.disciplined
  have hreturned :=
    ((hdisciplined.logged.outcomes i).joined _ hjoined).2
  obtain ⟨s, hs⟩ := List.getLast?_eq_some_iff.mp hreturned
  obtain ⟨found, hfound, hpower⟩ := hdisciplined.worker i s _ [] hs
  rw [hreq] at hfound
  obtain rfl : profile = found := Except.ok.inj (hprofile.symm.trans hfound)
  exact accepted_error.mp (hpower.accepted hrelay)

/-- The ways in which a call is rejected late are those listed. -/
theorem halfway_of_refused (hreq : reqs i = .rpc req)
    (hcapacity : console.capacity = registry.config.serialRingBytes)
    (hreaches : BoardReaches (start registry console reqs) c)
    (h : Refused registry req (c.world.threadLog (i, .main))) :
    Halfway registry req := by
  cases req with
  | powerOn req => exact h
  | powerOnUboot req =>
      obtain ⟨profile, identity, e, hprofile, hrelay, hreject, hjoined⟩ := h
      have haccepted := joined_accepted hreq hreaches hprofile hrelay hjoined
      rw [hreject] at haccepted
      cases haccepted
  | powerOnLinux req =>
      obtain ⟨profile, hprofile, hrefused⟩ := h
      obtain ⟨cursor, seen, hseen, hshown⟩ := hrefused.shown
      have hroom := (capacity_of_looked hreaches hseen).trans hcapacity
      exact ⟨profile, hprofile, hrefused.switchable, hrefused.login,
        hrefused.account, showable_of_stateAfter hroom hshown⟩
  | powerOff req =>
      obtain ⟨profile, hprofile, hreason, hmode, hconfirmed, hrefused⟩ := h
      obtain ⟨shell, hshell, hshellShown⟩ := hrefused.shell
      obtain ⟨halted, hhalted, hhaltedShown⟩ := hrefused.shutdown
      have hroom := (capacity_of_looked hreaches hshell).trans hcapacity
      have hroom' := (capacity_of_looked hreaches hhalted).trans hcapacity
      exact ⟨profile, hprofile, hreason, hmode, hconfirmed, hrefused.command,
        hrefused.bad, showable_of_generationState hroom hshellShown,
        showable_of_generationState hroom' hhaltedShown⟩
  | _ => exact h

/-- A main thread without an effect on the board has started no worker. -/
theorem inert_requestEvents
    (hreaches : BoardReaches (start registry console reqs) c)
    (hmain : Inert (c.world.threadLog (i, .main))) :
    Inert (requestEvents c.world.log i) := by
  intro e he
  obtain ⟨⟨⟨j, role⟩, holder, e⟩, hkept, rfl⟩ := List.mem_map.mp he
  obtain ⟨hentry, hthread⟩ := List.mem_filter.mp hkept
  obtain rfl : j = i := by simpa using hthread
  cases role with
  | main =>
      refine hmain e (List.mem_map_of_mem (f := Entry.event)
        (List.mem_filter.mpr ⟨hentry, ?_⟩))
      simp
  | worker =>
      obtain ⟨before, after, hlog⟩ := List.append_of_mem hentry
      have hspawned := hreaches.startedFirst before _ after hlog rfl
      have hin : .workerSpawned ∈ c.world.threadLog (j, .main) := by
        rw [World.threadLog, hlog, List.filter_append, List.map_append]
        exact List.mem_append_left _ hspawned
      obtain ⟨front, rest, hsplit⟩ := List.append_of_mem hin
      obtain ⟨-, -, seen, hmarked⟩ :=
        hreaches.disciplined.main j front _ rest hsplit
      have heffect := hmain (.marked seen) (by
        rw [hsplit]
        exact List.mem_append_left _ hmarked)
      cases heffect

/-- A request that is not carried out in part is rejected untouched. -/
theorem rejectsUntouched_of_not_halfway (h : ¬Halfway registry req) :
    RejectsUntouched registry req := by
  intro ι _ console reqs i c e hcapacity hreq hreaches hdone hreject
  rcases rpc_ended hreq hreaches hdone with hharmless | hrefused
  · exact inert_requestEvents hreaches (hharmless e rfl hreject)
  · exact absurd (halfway_of_refused hreq hcapacity hreaches hrefused) h

end Rejections

section Runs

variable {registry : BoardRegistry} {profile : BoardProfile}
variable {console : Console} {req : RpcRequest} {w v : World Unit}

/-- One client that makes one call. -/
def calling (req : RpcRequest) : Unit → ClientRequest :=
  fun _ => .rpc req

/-- The main thread of that client. -/
abbrev caller : Thread Unit := ((), .main)

/-- A call that ends with an error, as a run of the system. -/
theorem calling_runs {e : Error}
    (h : Acts caller (handleRpc registry req) (World.initial console)
      (.error e) v) :
    ∃ c, BoardReaches (start registry console (calling req)) c ∧
      c.prog caller = .pure (.rpc (.error e)) ∧ c.world = v := by
  have hserve : Performs caller (serve registry (calling req ()))
      (World.initial console) (.rpc (.error e)) v :=
    Returns.bind h (Returns.pure _ _)
  have hreaches := Pool.reaches_of_exec
    (c := start registry console (calling req)) hserve
  exact ⟨_, hreaches, Pool.move_prog_self _ _ _ _, rfl⟩

/-- An error of an action is the error of its call. -/
theorem Acts.mapError {α β : Type} {action : Action α} {f : α → β} {e : Error}
    (h : Acts caller action w (.error e) v) :
    Acts caller (f <$> action) w (.error e) v := by
  rw [Acts, ExceptT.run_map]
  exact Returns.bind h (Returns.pure _ _)

/-- An effect of the main thread is one of the request. -/
theorem not_inert_of_mem {log : List (Entry Unit)} {e : Event}
    (hmem : e ∈ ownLog log caller) (heffect : e.isEffect = true) :
    ¬Inert (requestEvents log ()) := by
  intro hinert
  obtain ⟨entry, hkept, rfl⟩ := List.mem_map.mp hmem
  have hentry := List.mem_of_mem_filter hkept
  have hin := hinert entry.event (List.mem_map_of_mem (f := Entry.event)
    (List.mem_filter.mpr ⟨hentry, by simp⟩))
  rw [heffect] at hin
  cases hin

/-! ## `power_on` -/

/-- The world in which the caller holds the lease for an operation. -/
def callingWorld (console : Console) (name : String) : World Unit :=
  (World.initial console).acquireBy caller (operationOwner name)

/-- The world in which `power_on` has switched the relay on. -/
def poweredOnWorld (console : Console) (identity : Identity) : World Unit :=
  ((callingWorld console "power_on").emit caller
    (setPowerEvents identity true)).markBy caller

/-- A state that is not known is rejected when the relay is on. -/
theorem powerOnBoard_rejects {req : PowerOnRequest} {identity : Identity}
    {wait : String} {e : Error}
    (hprofile : registry.board req.boardId = .ok profile)
    (hrelay : HasRelay profile identity) (hverifiable : Verifiable identity)
    (hwait : req.waitFor = some wait) (hnone : wait ≠ "none")
    (hparse : parseState wait = .error e) :
    Acts caller (powerOnBoard registry req) (World.initial console) (.error e)
      (((poweredOnWorld console identity).look caller).releaseBy caller
        (operationOwner "power_on")) := by
  have haction : Acts caller (powerOnAction profile)
      (callingWorld console "power_on")
      (.ok ((relayObservation true).raw, ["verified relay on"]))
      (poweredOnWorld console identity) := by
    refine Acts.bind (setPower_acts (alive_main ())
      (registry.timeout_pos hprofile) hrelay hverifiable true) ?_
    exact Acts.mark (alive_main ()) (Acts.pure _)
  obtain ⟨result, hpower⟩ : ∃ result, Acts caller
      (powerOn registry req.boardId) (World.initial console) (.ok result)
      (((poweredOnWorld console identity).look caller).releaseBy caller
        (operationOwner "power_on")) :=
    operation_acts hprofile rfl haction rfl
  have hrejected : ∀ w : World Unit,
      Acts caller (waitAfterPowerOn profile req.waitFor) w (.error e) w := by
    intro w
    have hfilter : req.waitFor.filter (· ≠ "none") = some wait := by
      rw [hwait]
      simp [Option.filter, hnone]
    have hstates : parseStates [wait] = .error e := by
      rw [parseStates_singleton, hparse]
      rfl
    rw [waitAfterPowerOn, hfilter]
    refine Acts.fail ?_
    rw [hstates]
    exact Acts.ofResult _
  refine Acts.bind hpower (Acts.bind (lookup_acts hprofile _) ?_)
  exact Acts.fail (hrejected _)

theorem parseState_rejected {value : String} {e : Error}
    (h : parseState value = .error e) : e.code.isRejection = true := by
  unfold parseState at h
  repeat' split at h
  all_goals cases h
  rfl

/-! ## `power_on_linux` -/

/-- The world in which `power_on_linux` listens to the board. -/
def bootingWorld (console : Console) (identity : Identity) : World Unit :=
  ((((callingWorld console "power_on_linux").emit caller
    (queryEvents identity false)).emit caller
      (setPowerEvents identity true)).markBy caller).look caller

/-- A missing account is noticed when the login prompt has been reached. -/
theorem powerOnLinuxBoard_rejects {req : PowerOnLinuxRequest}
    {identity : Identity} {text : List UInt8} {d : Console}
    (hprofile : registry.board req.boardId = .ok profile)
    (hrelay : HasRelay profile identity) (hverifiable : Verifiable identity)
    (hlogin : req.login.getD false = true)
    (haccount : profile.linux.account = none)
    (hsends : console.mark.Sends d text)
    (hfits : text.length ≤ min observationBytes console.capacity)
    (hshown : profile.patterns.observed text = .linuxLogin) :
    Acts caller (powerOnLinuxBoard registry req) (World.initial console)
      (.error accountMissing)
      ((((bootingWorld console identity).hear d).look caller).releaseBy caller
        (operationOwner "power_on_linux")) := by
  have htimeout := registry.timeout_pos hprofile
  have hpoll : pollAfter profile [.linuxLogin, .linuxShell]
      console.mark.ring.nextCursor d.ring = some .linuxLogin := by
    have hroom : text.length ≤ console.mark.capacity :=
      hfits.trans (Nat.min_le_right _ _)
    rw [pollAfter, stateAfter_eq, hsends.retainedAfter hroom,
      List.take_of_length_le (hfits.trans (Nat.min_le_left _ _)), hshown]
    simp [requested]
  have hoff : ¬(relayObservation false).state = "on" := by decide
  have haction : Acts caller (powerOnLinuxAction profile true
      (req.timeoutMs.getD profile.timing.operationTimeoutMs))
      (callingWorld console "power_on_linux") (.error accountMissing)
      (((bootingWorld console identity).hear d).look caller) := by
    refine Acts.bind (Acts.silent (0 : Nat) rfl (alive_main ()) rfl
      (powerStateUntil_acts (alive_main ()) (by omega) hrelay hverifiable
        false)) ?_
    rw [if_neg hoff]
    refine Acts.bind (setPower_acts (alive_main ()) htimeout hrelay
      hverifiable true) ?_
    refine Acts.mark (alive_main ()) ?_
    refine Acts.bind (nextCursor_acts (alive_main ())) ?_
    refine Acts.bind (waitForStatesAfter_acts (alive_main ()) hsends hpoll) ?_
    rw [if_neg (by simp), loginAfterBoot, haccount]
    exact Acts.throw _
  refine Acts.bind (lookup_acts hprofile _) ?_
  rw [powerOnLinux, hlogin]
  exact operation_fails hprofile rfl haction rfl

/-! ## A graceful `power_off` -/

/-- ASCII bytes in front of a state that is shown do not hide it. -/
theorem observed_padded {patterns : StatePatterns} {bytes : List UInt8}
    (h : patterns.observed bytes ≠ .unknown) (n : Nat) :
    patterns.observed (List.replicate n 0x20 ++ bytes) =
      patterns.observed bytes := by
  cases n with
  | zero => rfl
  | succ n =>
      rw [List.replicate_succ', List.append_assoc, List.singleton_append]
      exact StatePatterns.observed_append _ (by decide) h

/-- The state of the current generation when more of it has been sent. -/
theorem generationState_sent {d : Console} {input : List UInt8}
    (h : console.Sends d input) :
    generationState profile d.ring = profile.patterns.observed
      (StampedLog.window (min observationBytes console.capacity)
        (sinceMark console.history ++ input)) := by
  obtain ⟨hcapacity, timestamp, hhistory⟩ := h
  rw [generationState_eq, hcapacity, hhistory, sinceMark_append]

/-- A board that has shown one state can show any other that can be shown. -/
theorem exists_shows {state : BoardState} (hstate : state ≠ .unknown)
    (hshowable : Showable registry profile state)
    (hcapacity : console.capacity = registry.config.serialRingBytes)
    (hstream : console.stream.length ≤ observationBytes) :
    ∃ d input, console.Sends d input ∧ input.length ≤ observationBytes ∧
      generationState profile d.ring = state := by
  obtain ⟨text, hfits, hshown⟩ := hshowable
  rw [← hcapacity] at hfits
  let room := min observationBytes console.capacity
  let input := List.replicate (room - text.length) 0x20 ++ text
  have hinput : input.length = room := by
    simp only [input, List.length_append, List.length_replicate]
    omega
  have hroom : room ≤ observationBytes := Nat.min_le_left _ _
  have hpositive : 0 < console.capacity := hcapacity ▸ registry.ring_pos
  have hlength : (console.stream ++ input).length < 2 ^ 64 := by
    rw [List.length_append, hinput]
    simp only [observationBytes] at hstream hroom
    omega
  obtain ⟨d, hd⟩ := console.exists_sends hpositive hlength
  refine ⟨d, input, hd, hinput ▸ hroom, ?_⟩
  -- The padding fills the window, so nothing older is seen.
  have hwindow : StampedLog.window room (sinceMark console.history ++ input) =
      input := by
    rw [StampedLog.window, List.length_append, hinput, Nat.add_sub_cancel,
      List.drop_left]
  rw [generationState_sent hd, hwindow, observed_padded (hshown ▸ hstate),
    hshown]

/-- A call of `set_power` on a board whose identity is not well formed. -/
theorem setPower_rejects {e : Error} (hbad : BadIdentity profile e)
    (on : Bool) (w : World Unit) :
    Acts caller (setPower profile on) w (.error e)
      (w.emit caller [.noted (.setPower on)]) := by
  refine Acts.log () rfl (alive_main ()) ?_
  refine Acts.silent (0 : Nat) rfl (alive_main ()) rfl ?_
  refine Acts.fail ?_
  rw [powerStateUntil, if_neg (by simpa using hbad.backend), hbad.parsed]
  exact Acts.fail (Acts.ofResult _)

/-- The world in which the system has been shut down. -/
def shutDownWorld (profile : BoardProfile) (shutdown : String)
    (console d : Console) : World Unit :=
  (((((((callingWorld console "power_off").look caller).emit caller
    (writeEvents profile (utf8 "sync\r"))).emit caller [.slept 1000]).emit caller
      (writeEvents profile (utf8 shutdown ++ utf8 "\r"))).hear d).look
        caller).emit caller [.noted (.setPower false)]

/-- An identity that is not well formed is noticed when the system has been
shut down. -/
theorem powerOffBoard_rejects {req : PowerOffRequest} {e : Error}
    {shutdown : String} {input : List UInt8} {d : Console}
    (hprofile : registry.board req.boardId = .ok profile)
    (hreason : (trim req.reason.toList).isEmpty = false)
    (hmode : req.mode = "graceful") (hconfirmed : req.confirmation = true)
    (hcommand : profile.linux.shutdownCommand = some shutdown)
    (hbad : BadIdentity profile e)
    (hshell : generationState profile console.ring = .linuxShell)
    (hsends : console.Sends d input)
    (hhalted : generationState profile d.ring = .shutdownInProgress) :
    Acts caller (powerOffBoard registry req) (World.initial console)
      (.error e) ((shutDownWorld profile shutdown console d).releaseBy caller
        (operationOwner "power_off")) := by
  have hpoll : pollGeneration profile [.shutdownInProgress] none d.ring =
      some .shutdownInProgress := by
    simp [pollGeneration, requested, hhalted]
  have hobserve : Acts caller (observedState profile)
      (callingWorld console "power_off") (.ok .linuxShell)
      ((callingWorld console "power_off").look caller) :=
    hshell ▸ observedState_acts (alive_main ())
  have haction : Acts caller (gracefulPowerOffAction profile)
      (callingWorld console "power_off") (.error e)
      (shutDownWorld profile shutdown console d) := by
    refine Acts.bind hobserve ?_
    rw [if_neg (by simp), hcommand]
    refine Acts.bind (writeConsole_acts (alive_main ()) _) ?_
    refine Acts.log () rfl (alive_main ()) ?_
    refine Acts.bind (writeConsole_acts (alive_main ()) _) ?_
    refine Acts.bind (waitForStates_acts (alive_main ()) hsends hpoll) ?_
    exact Acts.fail (setPower_rejects hbad false _)
  rw [powerOffBoard, if_neg (by simp [hreason]), if_pos hmode,
    gracefulPowerOff, hconfirmed]
  exact operation_fails hprofile rfl haction rfl

/-! ## The exact condition -/

/-- A call that is rejected after an effect on the board. -/
theorem not_untouched_of_acts {e : Error} {x : Event}
    (hcapacity : console.capacity = registry.config.serialRingBytes)
    (h : Acts caller (handleRpc registry req) (World.initial console)
      (.error e) v) (hreject : e.code.isRejection = true)
    (hmem : x ∈ v.threadLog caller) (heffect : x.isEffect = true) :
    ¬RejectsUntouched registry req := by
  intro huntouched
  obtain ⟨c, hreaches, hdone, rfl⟩ := calling_runs h
  exact not_inert_of_mem hmem heffect
    (huntouched Unit console (calling req) () c e hcapacity rfl hreaches hdone
      hreject)

/-- The console of a registry before the board has sent anything. -/
def BoardRegistry.quietConsole (registry : BoardRegistry) : Console :=
  .new registry.config.serialRingBytes registry.ring_pos

theorem not_untouched_of_powerOn {req : PowerOnRequest}
    (h : Halfway registry (.powerOn req)) :
    ¬RejectsUntouched registry (.powerOn req) := by
  obtain ⟨profile, wait, e, hprofile, ⟨identity, hrelay, hverifiable⟩, hwait,
    hnone, hparse⟩ := h
  have hrejected : Acts caller (handleRpc registry (.powerOn req))
      (World.initial registry.quietConsole) (.error e) _ :=
    Acts.mapError (powerOnBoard_rejects hprofile hrelay hverifiable hwait
      hnone hparse)
  refine not_untouched_of_acts rfl hrejected (parseState_rejected hparse)
    (x := .launched (switchRelay identity true)) ?_ ?_
  · simp [poweredOnWorld, setPowerEvents]
  · simp [Event.isEffect]

theorem not_untouched_of_powerOnLinux {req : PowerOnLinuxRequest}
    (h : Halfway registry (.powerOnLinux req)) :
    ¬RejectsUntouched registry (.powerOnLinux req) := by
  obtain ⟨profile, hprofile, ⟨identity, hrelay, hverifiable⟩, hlogin,
    haccount, text, hfits, hshown⟩ := h
  obtain ⟨d, hd⟩ : ∃ d, registry.quietConsole.mark.Sends d text := by
    refine Console.exists_sends _ registry.ring_pos ?_
    have hstream : registry.quietConsole.mark.stream = [] := rfl
    have hbound : text.length ≤ 65536 := hfits.trans (Nat.min_le_left _ _)
    rw [hstream, List.nil_append]
    omega
  have hrejected : Acts caller (handleRpc registry (.powerOnLinux req))
      (World.initial registry.quietConsole) (.error accountMissing) _ :=
    Acts.mapError (powerOnLinuxBoard_rejects hprofile hrelay hverifiable
      hlogin haccount hd hfits hshown)
  refine not_untouched_of_acts rfl hrejected rfl
    (x := .launched (switchRelay identity true)) ?_ ?_
  · simp [bootingWorld, setPowerEvents]
  · simp [Event.isEffect]

theorem not_untouched_of_powerOff {req : PowerOffRequest}
    (h : Halfway registry (.powerOff req)) :
    ¬RejectsUntouched registry (.powerOff req) := by
  obtain ⟨profile, hprofile, hreason, hmode, hconfirmed, hcommand, ⟨e, hbad⟩,
    hshell, hshutdown⟩ := h
  obtain ⟨shutdown, hcommand⟩ := Option.ne_none_iff_exists'.mp hcommand
  obtain ⟨s, first, hs, hfirst, hshell⟩ : ∃ s first,
      registry.quietConsole.Sends s first ∧ first.length ≤ observationBytes ∧
        generationState profile s.ring = .linuxShell :=
    exists_shows (by decide) hshell rfl (Nat.zero_le _)
  have hstream : s.stream.length ≤ observationBytes := by
    rw [hs.stream]
    exact hfirst
  obtain ⟨d, second, hd, -, hhalted⟩ :=
    exists_shows (by decide) hshutdown hs.1 hstream
  have hrejected : Acts caller (handleRpc registry (.powerOff req))
      (World.initial s) (.error e) _ :=
    Acts.mapError (powerOffBoard_rejects hprofile hreason hmode hconfirmed
      hcommand hbad hshell hd hhalted)
  have hreject : e.code.isRejection = true := by
    rw [code_of_parseIdentity hbad.parsed]
    rfl
  refine not_untouched_of_acts hs.1 hrejected hreject (x := .wrote 13 none)
    ?_ rfl
  have hreturn : (13 : UInt8) ∈ utf8 "sync\r" := by decide
  have hwrote : Event.wrote 13 none ∈ writeEvents profile (utf8 "sync\r") :=
    List.mem_flatMap.mpr ⟨13, hreturn, List.mem_cons_self⟩
  simp [shutDownWorld, hwrote]

/--
For every configuration and every request: the rejections of the request have
no effect on the board, in whatever run, if and only if the request cannot be
rejected halfway.
-/
theorem rejectsUntouched_iff (registry : BoardRegistry) (req : RpcRequest) :
    RejectsUntouched registry req ↔ ¬Halfway registry req := by
  constructor
  · intro huntouched hhalfway
    cases req with
    | powerOn req => exact not_untouched_of_powerOn hhalfway huntouched
    | powerOnLinux req =>
        exact not_untouched_of_powerOnLinux hhalfway huntouched
    | powerOff req => exact not_untouched_of_powerOff hhalfway huntouched
    | _ => exact hhalfway
  · exact rejectsUntouched_of_not_halfway

/-- The state to wait for is no state, which is noticed with the relay on. -/
theorem powerOn_rejected_late :
    ∃ c e, BoardReaches (start simulatedRegistry simulatedConsole
        (calling (.powerOn ⟨"simulated", some "bogus"⟩))) c ∧
      c.prog caller = .pure (.rpc (.error e)) ∧
      e.code = .invalidConfiguration ∧
      RelayLaunched true (requestEvents c.world.log ()) := by
  obtain ⟨e, hparse, hcode⟩ : ∃ e, parseState "bogus" = .error e ∧
      e.code = .invalidConfiguration :=
    ⟨_, rfl, rfl⟩
  have hrejected : Acts caller (handleRpc simulatedRegistry
      (.powerOn ⟨"simulated", some "bogus"⟩))
      (World.initial simulatedConsole) (.error e) _ :=
    Acts.mapError (powerOnBoard_rejects simulatedRegistry_board
      simulated_hasRelay simulated_verifiable rfl (by decide) hparse)
  obtain ⟨c, hreaches, hdone, hworld⟩ := calling_runs hrejected
  refine ⟨c, e, hreaches, hdone, hcode,
    .launched (switchRelay simulatedIdentity true), ?_, rfl⟩
  rw [hworld]
  simp [poweredOnWorld, callingWorld, setPowerEvents, requestEvents,
    World.releaseBy, World.look, World.markBy, World.emit, World.acquireBy]

end Runs

end RpictlMcp
