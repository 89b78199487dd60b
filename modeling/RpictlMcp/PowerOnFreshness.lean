import RpictlMcp.EnterUboot
import RpictlMcp.PowerOnUboot

/-!
# rpictl-mcp: which bytes are fresh for the wait after powering on

Three operations power a board on and wait for what it sends then.
`power_on_uboot` takes its cursor before the worker that switches the relay is
started.  `power_on_linux` marks a generation and takes its cursor after the
relay has been verified, and `power_on` marks its generation then, too; what the
board sends while the relay is being verified is old for their waits.
-/

namespace RpictlMcp

open Prog

/-- `power_on_linux` up to its first wait, whose cursor it returns. -/
def linuxArm (profile : BoardProfile) : Action Nat := do
  let observation ← powerState profile
  if observation.state = "on" then
    throw (alreadyOn "power_on_linux"
      "board is already powered on; use boot_linux or linux_login instead")
  else
    let _ ← setPower profile true
    let _ ← act .markGeneration
    nextCursor

/-- `power_on_linux` from its first wait on. -/
def linuxBoot (profile : BoardProfile) (login : Bool)
    (timeoutMs cursor : Nat) : Action Performed := do
  let state ← waitForStatesAfter profile [.linuxLogin, .linuxShell]
    timeoutMs cursor
  if !login || state = .linuxShell then
    return (observedOutput state, ["verified relay on"])
  else
    loginAfterBoot profile timeoutMs

/-- `power_on_uboot` up to the scope of its worker: the cursor of its wait. -/
def ubootArm (profile : BoardProfile) : Action Nat := do
  let observation ← powerState profile
  if observation.state = "on" then
    throw (alreadyOn "power_on_uboot"
      "board is already powered on; use enter_uboot instead")
  else
    let _ ← act .markGeneration
    nextCursor

section Arms

variable (profile : BoardProfile) (timeoutMs : Nat)

theorem powerOnLinuxAction_eq (login : Bool) :
    powerOnLinuxAction profile login timeoutMs =
      linuxArm profile >>= linuxBoot profile login timeoutMs := by
  unfold powerOnLinuxAction linuxArm
  rw [LawfulMonad.bind_assoc]
  congr 1
  funext observation
  split
  · rfl
  · simp only [LawfulMonad.bind_assoc]
    rfl

theorem powerOnUbootAction_eq :
    powerOnUbootAction profile timeoutMs =
      ubootArm profile >>= ubootScope profile timeoutMs := by
  unfold powerOnUbootAction ubootArm
  rw [LawfulMonad.bind_assoc]
  congr 1
  funext observation
  split
  · rfl
  · simp only [LawfulMonad.bind_assoc]

end Arms

/-- What has been received since a console has an index from `first` on. -/
def FreshFrom (first : Nat) (earlier later : Console) : Prop :=
  ∀ n, earlier.stream.length ≤ n → n < later.stream.length → first ≤ n

/-- The index of the first byte of the current generation. -/
def Console.generationStart (console : Console) : Nat :=
  console.stream.length - (sinceMark console.history).length

/--
Nothing was received between a console and the last generation boundary before
a later one.
-/
def QuietUntilMark (earlier later : Console) : Prop :=
  ∃ quiet since, later.history = earlier.history ++ quiet ++ since ∧
    quiet.flatMap RingOp.input = [] ∧ .markGeneration ∉ since

section Fresh

variable {c d l p : Console}

/-- A cursor misses nothing if nothing has come before it was taken. -/
theorem freshFrom_cursor_iff (hd : d.Extends c) (hl : l.Extends c) :
    FreshFrom l.ring.nextCursor d c ↔ l.stream <+: d.stream := by
  rw [l.nextCursor_ring]
  have hlength := hl.stream.length_le
  constructor
  · intro hfresh
    refine List.prefix_of_prefix_length_le hl.stream hd.stream ?_
    by_contra hlate
    have hmissed := hfresh d.stream.length le_rfl (by omega)
    omega
  · intro hprefix n hn _
    exact hprefix.length_le.trans hn

/-- Where the generation begins, by the last boundary. -/
theorem generationStart_of_mark {before since : List RingOp}
    (hhistory : p.history = before ++ .markGeneration :: since)
    (hsince : .markGeneration ∉ since) :
    p.generationStart = (before.flatMap RingOp.input).length := by
  have hfresh : sinceMark p.history = since.flatMap RingOp.input := by
    rw [hhistory, List.append_cons, sinceMark_append_unmarked _ _ hsince,
      sinceMark_markGeneration, List.nil_append]
  rw [Console.generationStart, hfresh, Console.stream, hhistory]
  simp [RingOp.input]

/-- A generation misses nothing if nothing has come before it began. -/
theorem freshFrom_generation_iff (h : d.Extends p) :
    FreshFrom p.generationStart d p ↔ QuietUntilMark d p := by
  obtain ⟨more, hmore⟩ := h.history
  constructor
  · intro hfresh
    by_cases hmark : RingOp.markGeneration ∈ more
    · -- The last boundary is the first one from the other end.
      obtain ⟨back, front, hback, hnone⟩ :=
        List.eq_append_cons_of_mem (List.mem_reverse.mpr hmark)
      have hsplit : more =
          front.reverse ++ .markGeneration :: back.reverse := by
        rw [← List.reverse_reverse more, hback]
        simp
      have hsince : .markGeneration ∉ back.reverse := by simpa using hnone
      have hhistory : p.history = (d.history ++ front.reverse) ++
          .markGeneration :: back.reverse := by
        rw [← hmore, hsplit, List.append_assoc]
      refine ⟨front.reverse ++ [.markGeneration], back.reverse, ?_, ?_,
        hsince⟩
      · rw [hhistory]
        simp
      · have hstart := generationStart_of_mark hhistory hsince
        have hlength : p.stream.length = d.stream.length +
            (front.reverse.flatMap RingOp.input).length +
              (back.reverse.flatMap RingOp.input).length := by
          simp only [Console.stream, hhistory, List.flatMap_append,
            List.flatMap_cons, List.length_append, RingOp.input,
            List.length_nil]
          omega
        rw [List.flatMap_append, List.length_append] at hstart
        by_contra hheard
        have hpos : 0 < (front.reverse.flatMap RingOp.input).length := by
          refine List.length_pos_iff.mpr fun hnil => hheard ?_
          rw [List.flatMap_append, hnil]
          rfl
        have hmissed := hfresh d.stream.length le_rfl (by omega)
        rw [hstart] at hmissed
        simp only [Console.stream] at hmissed
        omega
    · exact ⟨[], more, by rw [List.append_nil, hmore], rfl, hmark⟩
  · rintro ⟨quiet, since, hhistory, hquiet, hsince⟩ n hn -
    have hfresh := sinceMark_append_unmarked (d.history ++ quiet) since hsince
    rw [← hhistory] at hfresh
    have hlength : p.stream.length =
        d.stream.length + (since.flatMap RingOp.input).length := by
      simp [Console.stream, hhistory, hquiet]
    have hlong := congrArg List.length hfresh
    rw [List.length_append] at hlong
    rw [Console.generationStart]
    omega

end Fresh

/--
What a thread has done since it acquired the lease begins with a complete run
of an arming action; the cursor it has returned is of the last look.
-/
def ArmedBy (arm : Action Nat) (cursor : Nat) (look : Console)
    (log : List Event) : Prop :=
  ∃ owner front, Returns (logSem BoardOp.emits) arm.run [.acquired owner]
      (.ok cursor) (front ++ [.looked look]) ∧
    front ++ [.looked look] <+: log

section ArmTrace

variable {profile : BoardProfile} {arm : Action Nat} {cursor : Nat}
variable {look : Console} {log : List Event}
variable {allowed : List Event → Event → Prop}

theorem lenient_true : Lenient fun _ _ => True where
  passive _ _ _ := trivial
  queried _ _ := trivial
  switched _ _ _ := trivial

/-- What an arming action does: its cursor comes from its last look. -/
def ArmTrace (r : Result Nat) (t : List Event) : Prop :=
  ∀ cursor, r = .ok cursor →
    ∃ front look, t = front ++ [.looked look] ∧ cursor = look.ring.nextCursor

theorem markedCursor_traces (hlenient : Lenient allowed)
    (hmark : ∀ log c, allowed log (.marked c)) (base : List Event) :
    Traces BoardOp.emits allowed
      (do
        let _ ← act .markGeneration
        nextCursor : Action Nat).run base fun r t =>
          ArmTrace r t ∧ .workerSpawned ∉ t := by
  refine Traces.actBind ?_
  rintro generation es ⟨c, c', -, rfl⟩
  refine ⟨⟨hmark _ _, trivial⟩, ?_⟩
  refine Traces.mono (nextCursor_traces fun _ => hlenient.passive _ _ rfl) ?_
  rintro _ _ ⟨look, rfl, rfl⟩
  refine ⟨?_, by simp [BoardOp.events]⟩
  rintro _ ⟨⟩
  exact ⟨[.marked c'], look, rfl, rfl⟩

theorem ArmTrace.prepend {r : Result Nat} {t : List Event}
    (h : ArmTrace r t) (front : List Event) : ArmTrace r (front ++ t) := by
  intro cursor hr
  obtain ⟨rest, look, rfl, hcursor⟩ := h cursor hr
  exact ⟨front ++ rest, look, (List.append_assoc _ _ _).symm, hcursor⟩

theorem linuxArm_traces (base : List Event) :
    Traces BoardOp.emits (fun _ _ => True) (linuxArm profile).run base
      ArmTrace := by
  refine Traces.bindE (Traces.anything _ _) ?_ (by simp [ArmTrace])
  intro observation t₁ _
  split
  · exact Traces.throwError (by simp [ArmTrace])
  · refine Traces.bindE (Traces.anything _ _) ?_ (by simp [ArmTrace])
    intro _ t₂ _
    refine Traces.mono (markedCursor_traces lenient_true
      (fun _ _ => trivial) _) fun r t ht => ?_
    exact (ht.1.prepend t₂).prepend t₁

theorem ubootArm_traces (hlenient : Lenient allowed)
    (hmark : ∀ log c, allowed log (.marked c)) (base : List Event) :
    Traces BoardOp.emits allowed (ubootArm profile).run base
      fun r t => ArmTrace r t ∧ .workerSpawned ∉ t := by
  refine Traces.bindE (powerState_traces hlenient base) ?_ ?_
  · rintro observation _ ⟨q, identity, rfl, hq, -⟩
    have hquery : Event.workerSpawned ∉
        q ++ [.noted (.queried observation)] := by
      simpa using hq.neutral.not_spawned
    split
    · refine Traces.throwError ⟨by simp [ArmTrace], ?_⟩
      rwa [List.append_nil]
    · refine Traces.mono (markedCursor_traces hlenient hmark _)
        fun r t ht => ?_
      refine ⟨ht.1.prepend _, ?_⟩
      rw [List.mem_append, not_or]
      exact ⟨hquery, ht.2⟩
  · intro e t ht
    exact ⟨by simp [ArmTrace], ht.1.neutral.not_spawned⟩

theorem ArmTrace.cursor_eq {base front : List Event}
    (h : Traces BoardOp.emits (fun _ _ => True) arm.run base ArmTrace)
    (hreturns : Returns (logSem BoardOp.emits) arm.run base (.ok cursor)
      (front ++ [.looked look])) : cursor = look.ring.nextCursor := by
  obtain ⟨t, ht, harm⟩ := Traces.returns h hreturns
  obtain ⟨front', look', rfl, rfl⟩ := harm cursor rfl
  rw [← List.append_assoc] at ht
  cases (List.append_inj' ht rfl).2
  rfl

theorem ArmedBy.linux_cursor (h : ArmedBy (linuxArm profile) cursor look log) :
    cursor = look.ring.nextCursor := by
  obtain ⟨owner, front, hreturns, -⟩ := h
  exact ArmTrace.cursor_eq (linuxArm_traces _) hreturns

theorem ArmedBy.uboot_cursor (h : ArmedBy (ubootArm profile) cursor look log) :
    cursor = look.ring.nextCursor := by
  obtain ⟨owner, front, hreturns, -⟩ := h
  exact ArmTrace.cursor_eq (Traces.mono (ubootArm_traces lenient_true
    (fun _ _ => trivial) _) fun _ _ ht => ht.1) hreturns

theorem ArmedBy.mono (h : ArmedBy arm cursor look log) {log' : List Event}
    (hlog : log <+: log') : ArmedBy arm cursor look log' := by
  obtain ⟨owner, front, hreturns, hprefix⟩ := h
  exact ⟨owner, front, hreturns, hprefix.trans hlog⟩

theorem ArmedBy.mem (h : ArmedBy arm cursor look log) :
    .looked look ∈ log := by
  obtain ⟨owner, front, -, hprefix⟩ := h
  exact hprefix.subset (by simp)

/-- Once the worker has been spawned, `power_on_uboot` has its cursor. -/
theorem ArmedBy.mem_of_prefix
    (h : ArmedBy (ubootArm profile) cursor look log)
    {before : List Event} (hbefore : before <+: log)
    (hspawned : .workerSpawned ∈ before) : .looked look ∈ before := by
  obtain ⟨owner, front, hreturns, hprefix⟩ := h
  obtain ⟨t, ht, -, hnone⟩ := Traces.returns
    (ubootArm_traces lenient_true (fun _ _ => trivial) _) hreturns
  rcases List.prefix_or_prefix_of_prefix hprefix hbefore with hin | hout
  · exact hin.subset (by simp)
  · have hmem := hout.subset hspawned
    rw [ht] at hmem
    exact absurd (by simpa using hmem) hnone

/-- The worker of `power_on_uboot` is spawned once the request is armed. -/
def SpawnArmed (board : Result BoardProfile) (log : List Event) (e : Event) :
    Prop :=
  e = .workerSpawned → ∃ profile cursor look, board = .ok profile ∧
    ArmedBy (ubootArm profile) cursor look log

theorem SpawnArmed.of_ne {board : Result BoardProfile} {e : Event}
    (he : e ≠ .workerSpawned) : SpawnArmed board log e :=
  fun hspawned => absurd hspawned he

theorem lenient_spawnArmed (board : Result BoardProfile) :
    Lenient (SpawnArmed board) where
  passive _ e he := by
    rintro rfl
    cases he
  queried _ _ := .of_ne (by simp)
  switched _ _ _ := .of_ne (by simp)

theorem powerOnUbootAction_armed {board : Result BoardProfile}
    (hprofile : board = .ok profile) (timeoutMs : Nat) (owner : LeaseOwner) :
    Traces BoardOp.emits (SpawnArmed board)
      (powerOnUbootAction profile timeoutMs).run [.acquired owner]
      fun _ _ => True := by
  rw [powerOnUbootAction_eq]
  refine Traces.bindE (Traces.withRun (ubootArm_traces
    (lenient_spawnArmed board) (fun _ _ => .of_ne (by simp)) _)) ?_
    fun _ _ _ => trivial
  rintro cursor t ⟨⟨harm, -⟩, hreturns⟩
  obtain ⟨front, look, rfl, -⟩ := harm cursor rfl
  rw [← List.append_assoc] at hreturns ⊢
  have harmed : ArmedBy (ubootArm profile) cursor look
      ([.acquired owner] ++ front ++ [.looked look]) :=
    ⟨owner, _, hreturns, List.prefix_rfl⟩
  exact Traces.always _ fun u e _ => ⟨profile, cursor, look, hprofile,
    harmed.mono (List.prefix_append _ u)⟩

/-- Serving `power_on_uboot`: its worker is spawned once it is armed. -/
theorem serve_armed {registry : BoardRegistry} (req : PowerOnUbootRequest) :
    Traces BoardOp.emits (SpawnArmed (registry.board req.boardId))
      (serve registry (.rpc (.powerOnUboot req))) [] fun _ _ => True := by
  refine Traces.map ?_
  rw [handleRpc]
  refine Traces.mapOk (Traces.resultBind ?_ fun _ _ => trivial)
  intro found _
  refine operation_allowed (fun _ => .of_ne (by simp))
    (fun _ _ => .of_ne (by simp)) (fun _ _ => .of_ne (by simp)) ?_
  exact fun profile _ owner hprofile =>
    powerOnUbootAction_armed hprofile _ owner

end ArmTrace

section Interleaving

variable {ι : Type} [DecidableEq ι] {registry : BoardRegistry}
variable {reqs : ι → ClientRequest} {i : ι} {t : Thread ι}
variable {w w' : World ι} {cursor : Nat} {look : Console}

/-- A thread launches a relay command that switches the board on. -/
def LaunchesOn (t : Thread ι) (w w' : World ι) : Prop :=
  ∃ command, command.relay? = some true ∧
    w'.threadLog t = w.threadLog t ++ [.launched command]

/-- What a thread sees after some moment is no older than that moment. -/
theorem BoardReaches.looked_since {A : Thread ι → Type}
    {d c : Pool BoardSig A (World ι)} (h : BoardReaches d c)
    (t : Thread ι) :
    d.world.console.Extends c.world.console ∧
      ∃ more, c.world.threadLog t = d.world.threadLog t ++ more ∧
        ∀ p, .looked p ∈ more → d.world.console.Extends p := by
  refine h.invariant (fun w => d.world.console.Extends w.console ∧
    ∃ more, w.threadLog t = d.world.threadLog t ++ more ∧
      ∀ p, .looked p ∈ more → d.world.console.Extends p) ?_ ?_
    ⟨.refl _, [], by simp, by simp⟩
  · rintro u o w r w' ⟨hextends, more, hmore, hlooks⟩ hsem
    have hnow := hextends.trans hsem.1.extends
    have hlog := threadLog_of_boardSem hsem t
    refine ⟨hnow, _, by rw [hlog, hmore, List.append_assoc], ?_⟩
    intro p hp
    rcases List.mem_append.mp hp with hold | hnew
    · exact hlooks p hold
    · split at hnew
      · rw [BoardOp.console_of_mem_events hnew rfl]
        exact hnow
      · cases hnew
  · rintro w w' ⟨hextends, more, hmore, hlooks⟩ henv
    refine ⟨?_, more, by rw [threadLog_of_env henv, hmore], hlooks⟩
    cases henv with
    | receive timestamp input hcapacity hhistory =>
        refine hextends.trans ⟨hcapacity, ?_⟩
        rw [hhistory]
        exact List.prefix_append _ _
    | panic => exact hextends

/-- A worker that is not joined yet has been spawned. -/
theorem spawned_of_pending {log : List Event} (h : pending log = true) :
    .workerSpawned ∈ log := by
  induction log using List.reverseRecOn with
  | nil => simp [pending] at h
  | append_singleton log e ih =>
      rw [pending_append_singleton] at h
      rw [List.mem_append]
      cases e with
      | workerSpawned => exact .inr (by simp)
      | workerJoined outcome => simp [Event.worker] at h
      | _ => exact .inl (ih h)

/-- The worker of a request that launches something has been spawned. -/
theorem spawned_of_launchesOn {A : Thread ι → Type}
    {b d : Pool BoardSig A (World ι)} (hb : b.world.Logged)
    (hstep : Pool.Step boardSem BoardEnv b d)
    (h : LaunchesOn (i, .worker) b.world d.world) :
    .workerSpawned ∈ b.world.threadLog (i, .main) := by
  obtain ⟨command, -, hlog⟩ := h
  rcases hstep.world_cases with hsame | ⟨t, o, r, hsem⟩ | henv
  · rw [hsame] at hlog
    simp at hlog
  · rw [threadLog_of_boardSem hsem] at hlog
    have hevents := List.append_cancel_left hlog
    split at hevents
    · rename_i ht
      subst ht
      obtain ⟨s, hs, -⟩ := hsem.2.2.1
      refine spawned_of_pending ?_
      rw [hb.workers i, running_of_onWorker hs]
      rfl
    · cases hevents
  · rw [threadLog_of_env henv] at hlog
    simp at hlog

/-- Once its worker launches something, `power_on_uboot` is armed. -/
theorem armed_of_launchesOn {console : Console} {req : PowerOnUbootRequest}
    {b d c : Pool BoardSig (Answer (ι := ι)) (World ι)}
    (hreq : reqs i = .rpc (.powerOnUboot req))
    (hb : BoardReaches (start registry console reqs) b)
    (hstep : Pool.Step boardSem BoardEnv b d) (hc : BoardReaches d c)
    (hlaunch : LaunchesOn (i, .worker) b.world d.world) :
    ∃ profile cursor look, registry.board req.boardId = .ok profile ∧
      ArmedBy (ubootArm profile) cursor look
        (c.world.threadLog (i, .main)) := by
  have htraces : Traces BoardOp.emits
      (SpawnArmed (registry.board req.boardId)) (serve registry (reqs i)) []
      fun _ _ => True := by
    rw [hreq]
    exact serve_armed req
  have hlawful := htraces.lawful (BoardReaches.exec hb (i, .main))
  obtain ⟨before, after, hlog⟩ := List.append_of_mem (spawned_of_launchesOn
    (BoardReaches.disciplined hb).logged hstep hlaunch)
  obtain ⟨profile, cursor, look, hprofile, harmed⟩ :=
    hlawful before .workerSpawned after hlog rfl
  have hbefore : before <+: b.world.threadLog (i, .main) := ⟨_, hlog.symm⟩
  exact ⟨profile, cursor, look, hprofile, harmed.mono (hbefore.trans
    (BoardReaches.threadLog_prefix (.head hstep hc) (i, .main)))⟩

/--
For every schedule: `power_on_linux` and the wait of `power_on_board` miss
nothing of what the board has sent since the relay command was launched if and
only if nothing has come before they began to listen, which they do after the
relay has been verified.  `power_on_uboot` has begun to listen when its worker
launches the relay command, and never misses anything.
-/
theorem powerOn_fresh {console : Console}
    {b d c : Pool BoardSig (Answer (ι := ι)) (World ι)}
    (hb : BoardReaches (start registry console reqs) b)
    (hstep : Pool.Step boardSem BoardEnv b d) (hc : BoardReaches d c) :
    (∀ req profile, reqs i = .rpc (.powerOnLinux req) →
      LaunchesOn (i, .main) b.world d.world →
      ArmedBy (linuxArm profile) cursor look (c.world.threadLog (i, .main)) →
      (FreshFrom cursor d.world.console c.world.console ↔
        look.stream <+: d.world.console.stream)) ∧
    (∀ req owner mid rest, reqs i = .rpc (.powerOn req) →
      LaunchesOn (i, .main) b.world d.world →
      c.world.threadLog (i, .main) =
        d.world.threadLog (i, .main) ++ (mid ++ .looked look :: rest) →
      .released owner ∈ mid →
      (FreshFrom look.generationStart d.world.console look ↔
        QuietUntilMark d.world.console look)) ∧
    (∀ req profile, reqs i = .rpc (.powerOnUboot req) →
      LaunchesOn (i, .worker) b.world d.world →
      ArmedBy (ubootArm profile) cursor look (c.world.threadLog (i, .main)) →
      FreshFrom cursor d.world.console c.world.console) ∧
    ∀ req, reqs i = .rpc (.powerOnUboot req) →
      LaunchesOn (i, .worker) b.world d.world →
      ∃ profile cursor look, registry.board req.boardId = .ok profile ∧
        ArmedBy (ubootArm profile) cursor look
          (c.world.threadLog (i, .main)) ∧
        FreshFrom cursor d.world.console c.world.console := by
  have hd := hb.tail hstep
  obtain ⟨hextends, more, hmore, hlooks⟩ := hc.looked_since (i, .main)
  have hlogged := (BoardReaches.disciplined (hd.trans hc)).logged
  have huboot : ∀ {profile cursor look}, LaunchesOn (i, .worker) b.world
      d.world → ArmedBy (ubootArm profile) cursor look
        (c.world.threadLog (i, .main)) →
          FreshFrom cursor d.world.console c.world.console := by
    intro profile cursor look hlaunch harmed
    have hspawned := spawned_of_launchesOn
      (BoardReaches.disciplined hb).logged hstep hlaunch
    rw [harmed.uboot_cursor]
    refine (freshFrom_cursor_iff hextends
      (hlogged.ascending.extends_of_mem harmed.mem)).mpr ?_
    -- The cursor was taken before the worker was spawned.
    have hlooked := harmed.mem_of_prefix
      (BoardReaches.threadLog_prefix (.head hstep hc) (i, .main)) hspawned
    have hseen := (BoardReaches.disciplined
      hb).logged.ascending.extends_of_mem hlooked
    exact (hseen.trans (BoardReaches.looked_since (.single hstep)
      (i, .main)).1).stream
  refine ⟨?_, ?_, fun req profile _ => huboot, ?_⟩
  · intro req profile _ _ harmed
    rw [harmed.linux_cursor]
    exact freshFrom_cursor_iff hextends
      (hlogged.ascending.extends_of_mem harmed.mem)
  · intro req owner mid rest _ _ hlog _
    obtain rfl := List.append_cancel_left (hmore.symm.trans hlog)
    exact freshFrom_generation_iff (hlooks look (by simp))
  · intro req hreq hlaunch
    obtain ⟨profile, cursor, look, hprofile, harmed⟩ :=
      armed_of_launchesOn hreq hb hstep hc hlaunch
    exact ⟨profile, cursor, look, hprofile, harmed, huboot hlaunch harmed⟩

end Interleaving

section Schedule

/-- One client powers the simulated board on and waits for Linux. -/
def poweringOnLinux : Unit → ClientRequest :=
  fun _ => .rpc (.powerOnLinux ⟨"simulated", none, none⟩)

/-- The world in which that request holds the lease. -/
def leasedWorld : World Unit :=
  (World.initial simulatedConsole).acquireBy ((), .main)
    (operationOwner "power_on_linux")

/-- The world in which the relay is about to be switched on. -/
def switchingWorld : World Unit :=
  (leasedWorld.emit ((), .main)
    (queryEvents simulatedIdentity false)).emit ((), .main)
      (.noted (.setPower true) :: queryEvents simulatedIdentity false)

/-- The world in which it has been switched on. -/
def switchedWorld : World Unit :=
  switchingWorld.emit ((), .main)
    [.launched (switchRelay simulatedIdentity true)]

/-- The world in which the relay has been verified. -/
def verifiedWorld : World Unit :=
  switchedWorld.emit ((), .main) (.noted (.switched true switchOutput) ::
    queryEvents simulatedIdentity true)

/-- The world in which the cursor of the wait has been taken. -/
def listeningWorld (e : Console) : World Unit :=
  ((verifiedWorld.hear e).markBy ((), .main)).look ((), .main)

/-- The board may have sent something when `power_on_linux` takes its cursor. -/
theorem linuxArm_split {e : Console}
    (henv : Relation.ReflTransGen BoardEnv verifiedWorld
      (verifiedWorld.hear e)) :
    ActsSplit ((), .main) (linuxArm simulated) leasedWorld
      (.spawn (switchRelay simulatedIdentity true)) switchingWorld
      (none : Option Text) switchedWorld
      (.ok e.mark.ring.nextCursor) (listeningWorld e) := by
  have hmain : ∀ w : World Unit, w.Alive ((), .main) := fun _ => alive_main ()
  have hquery : Acts ((), .main) (powerState simulated) leasedWorld
      (.ok (relayObservation false)) (leasedWorld.emit ((), .main)
        (queryEvents simulatedIdentity false)) :=
    Acts.silent (0 : Nat) rfl (hmain _) rfl (powerStateUntil_acts (hmain _)
      (by decide) simulated_hasRelay simulated_verifiable false)
  have hoff : ¬(relayObservation false).state = "on" := by decide
  refine Returns.bind_around hquery ?_
  simp only [ExceptT.bindCont, if_neg hoff]
  refine Around.bind (setPower_split (hmain _) (hmain _) (by decide)
    simulated_hasRelay simulated_verifiable true) ?_
  refine Acts.bind (Acts.lift (Returns.perform
    ⟨_, henv, boardSem_mark (hmain _)⟩)) ?_
  exact nextCursor_acts (hmain _)

theorem poweringOnLinux_passes {e : Console}
    (henv : Relation.ReflTransGen BoardEnv verifiedWorld
      (verifiedWorld.hear e)) :
    Passes (afterEnv boardSem BoardEnv ((), .main))
      (serve simulatedRegistry (poweringOnLinux ()))
      (World.initial simulatedConsole)
      (.spawn (switchRelay simulatedIdentity true)) switchingWorld
      (none : Option Text) switchedWorld (listeningWorld e) := by
  refine Passes.map ?_ _
  rw [handleRpc, ExceptT.run_map]
  refine Passes.map ?_ _
  refine Returns.bind_passes (lookup_acts simulatedRegistry_board _) ?_
  refine operation_passes simulatedRegistry_board ?_
  refine Returns.bind_passes (Acts.lift (Performs.of_sem
    (boardSem_acquire () _ _ rfl))) ?_
  refine Passes.bind ?_ _
  refine Passes.bind ?_ _
  refine Passes.bind ?_ _
  rw [powerOnLinuxAction_eq]
  exact Around.passes (linuxArm_split henv) ⟨_, .refl⟩

theorem switchingWorld_launches : boardSem ((), .main)
    (.spawn (switchRelay simulatedIdentity true)) switchingWorld
    (none : Option Text) switchedWorld :=
  boardSem_local (o := .spawn _) rfl (alive_main ()) (none : Option Text)

/-- What has been done then begins with a complete run of the arming action. -/
theorem listeningWorld_armed {e : Console}
    (henv : Relation.ReflTransGen BoardEnv verifiedWorld
      (verifiedWorld.hear e)) :
    ArmedBy (linuxArm simulated) e.mark.ring.nextCursor e.mark
      ((listeningWorld e).threadLog ((), .main)) := by
  have hacts : Acts ((), .main) (linuxArm simulated) leasedWorld
      (.ok e.mark.ring.nextCursor) (listeningWorld e) :=
    (linuxArm_split henv).returns ⟨_, .refl, switchingWorld_launches⟩
  have hlog : (listeningWorld e).threadLog ((), .main) =
      ((verifiedWorld.hear e).markBy ((), .main)).threadLog ((), .main) ++
        [.looked e.mark] := threadLog_look
  have hexec := Performs.exec hacts
  rw [hlog] at hexec ⊢
  exact ⟨operationOwner "power_on_linux", _, hexec, List.prefix_rfl⟩

/-- The run in which the console shows `e` when the relay has been verified. -/
theorem poweringOnLinux_runs {e : Console}
    (henv : Relation.ReflTransGen BoardEnv verifiedWorld
      (verifiedWorld.hear e)) :
    ∃ b d c, BoardReaches
        (start simulatedRegistry simulatedConsole poweringOnLinux) b ∧
      Pool.Step boardSem BoardEnv b d ∧ BoardReaches d c ∧
      LaunchesOn ((), .main) b.world d.world ∧
      ArmedBy (linuxArm simulated) e.mark.ring.nextCursor e.mark
        (c.world.threadLog ((), .main)) ∧
      d.world.console = simulatedConsole ∧ c.world.console = e.mark := by
  obtain ⟨b, d, c, hb, hstep, hc, hbworld, hdworld, hcworld⟩ :=
    Pool.reaches_of_passes
      (c := start simulatedRegistry simulatedConsole poweringOnLinux)
      (poweringOnLinux_passes henv) .refl switchingWorld_launches
  refine ⟨b, d, c, hb, hstep, hc, ?_, ?_, ?_, ?_⟩
  · rw [hbworld, hdworld]
    exact ⟨_, switchRelay_relay? simulatedIdentity true, threadLog_emit⟩
  · rw [hcworld]
    exact listeningWorld_armed henv
  · rw [hdworld]
    rfl
  · rw [hcworld]
    rfl

/--
The login prompt that the board has sent while its relay was being verified is
in front of the cursor of the wait.
-/
theorem powerOnLinux_discards_evidence :
    ∃ b d c cursor look, BoardReaches
        (start simulatedRegistry simulatedConsole poweringOnLinux) b ∧
      Pool.Step boardSem BoardEnv b d ∧ BoardReaches d c ∧
      LaunchesOn ((), .main) b.world d.world ∧
      ArmedBy (linuxArm simulated) cursor look
        (c.world.threadLog ((), .main)) ∧
      d.world.console.stream = [] ∧
      c.world.console.stream = utf8 "login:" ∧
      ¬ FreshFrom cursor d.world.console c.world.console := by
  obtain ⟨e, he⟩ : ∃ e, simulatedConsole.Sends e (utf8 "login:") :=
    simulatedConsole.exists_sends simulatedRegistry.ring_pos (by decide)
  have hstream : e.mark.stream = utf8 "login:" := by
    have hmark : e.mark.stream = e.stream := by
      simp [Console.stream, Console.mark, RingOp.input]
    rw [hmark, he.stream]
    rfl
  obtain ⟨b, d, c, hb, hstep, hc, hlaunch, harmed, hbefore, hafter⟩ :=
    poweringOnLinux_runs (.single (boardEnv_hear (w := verifiedWorld) he))
  refine ⟨b, d, c, _, _, hb, hstep, hc, hlaunch, harmed, ?_, ?_, ?_⟩
  · rw [hbefore]
    rfl
  · rw [hafter, hstream]
  · intro hfresh
    have hlength : (utf8 "login:").length = 6 := by decide
    have hfirst := hfresh 0
    rw [hbefore, hafter, Console.nextCursor_ring, hstream, hlength] at hfirst
    exact absurd (hfirst le_rfl (by omega)) (by omega)

/-- If the board is quiet until then, nothing that it sends is missed. -/
theorem powerOn_fresh_quiet :
    ∃ b d c cursor, BoardReaches
        (start simulatedRegistry simulatedConsole poweringOnLinux) b ∧
      Pool.Step boardSem BoardEnv b d ∧ BoardReaches d c ∧
      LaunchesOn ((), .main) b.world d.world ∧
      FreshFrom cursor d.world.console c.world.console := by
  obtain ⟨b, d, c, hb, hstep, hc, hlaunch, harmed, hbefore, hafter⟩ :=
    poweringOnLinux_runs (e := simulatedConsole) .refl
  have hrequest : poweringOnLinux () =
      .rpc (.powerOnLinux ⟨"simulated", none, none⟩) := rfl
  obtain ⟨hlinux, -⟩ := @powerOn_fresh Unit _ simulatedRegistry
    poweringOnLinux () simulatedConsole.mark.ring.nextCursor
    simulatedConsole.mark _ b d c hb hstep hc
  refine ⟨b, d, c, _, hb, hstep, hc, hlaunch,
    (hlinux _ simulated hrequest hlaunch harmed).mpr ?_⟩
  exact List.nil_prefix

end Schedule

end RpictlMcp
