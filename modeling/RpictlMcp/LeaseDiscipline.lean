import RpictlMcp.ServiceTrace
import RpictlMcp.Schedules

/-!
# rpictl-mcp: effects under the lease

A thread is in charge of the board when it is the main thread of a request that
holds the lease and has no worker left to join, or a running worker.  Only a
thread in charge switches the relay, at most one thread is in charge at a time,
and the request of a thread in charge holds the lease.

The writes to the console are not all made by a thread in charge: an active
probe of `get_board_state` writes without a lease.  Every other effect on the
board happens on behalf of the holder of the lease, so the law holds of a run
until a probe of a configured board has written its first byte, and no longer.
-/

namespace RpictlMcp

open Prog

/-- Events that write to the serial port or launch a relay command. -/
def Event.isActuation : Event → Bool
  | .wrote _ _ => true
  | .launched command => command.relay?.isSome
  | _ => false

section LeaseDiscipline

variable {ι : Type}

/-- Every effect on the board was on behalf of the holder of the lease. -/
def World.UnderLease (w : World ι) : Prop :=
  ∀ entry ∈ w.log, entry.event.isActuation = true →
    entry.holder = some (entry.thread.1, .main)

/-- A thread that may switch the relay. -/
def World.InCharge (w : World ι) : Thread ι → Prop
  | (i, .main) => w.holder = some (i, .main) ∧ (w.worker i).unjoined = false
  | (i, .worker) => w.worker i = .running

variable [DecidableEq ι]

/-- A world whose logs are lawful and tell its shared state. -/
structure World.Disciplined (w : World ι) (registry : BoardRegistry)
    (reqs : ι → ClientRequest) : Prop where
  logged : w.Logged
  main : ∀ i, Lawful (Permitted (reqs i).isProbe) (w.threadLog (i, .main))
  worker : ∀ i, Lawful (WorkerPermitted (registry.board (reqs i).boardId))
    (w.threadLog (i, .worker))
  probe : ∀ i, (reqs i).isProbe = true →
    Lawful (ProbePermitted (registry.board (reqs i).boardId))
      (w.threadLog (i, .main))

/-- Every reachable world of the service is disciplined. -/
theorem BoardReaches.disciplined {registry : BoardRegistry}
    {console : Console} {reqs : ι → ClientRequest}
    {c : Pool BoardSig (Answer (ι := ι)) (World ι)}
    (h : BoardReaches (start registry console reqs) c) :
    c.world.Disciplined registry reqs where
  logged := h.logged (logged_initial console)
  main i := (serve_traces (reqs i) rfl).lawful (h.exec (i, .main))
  worker i := (workerOf_traces (reqs i)).lawful (h.exec (i, .worker))
  probe i hprobe := (serve_probes hprobe).lawful (h.exec (i, .main))

/-- A thread that has a worker left to join holds the lease. -/
theorem holds_of_pending {free : Bool} {log : List Event}
    (h : Lawful (Permitted free) log) (hpending : pending log = true) :
    holds log = true := by
  induction log using List.reverseRecOn with
  | nil => simp [pending] at hpending
  | append_singleton log e ih =>
      have hlog : Lawful (Permitted free) log := by
        intro before x after hx
        exact h before x (after ++ [e]) (by simp [hx])
      have he : Permitted free log e := h log e [] rfl
      rw [pending_append_singleton] at hpending
      rw [holds_append_singleton]
      cases e with
      | acquired owner => rfl
      | released owner =>
          rw [Permitted] at he
          simp [Event.worker, he] at hpending
      | workerSpawned => exact he.1
      | workerJoined outcome => simp [Event.worker] at hpending
      | _ => exact ih hlog hpending

variable {w w' : World ι} {registry : BoardRegistry}
variable {reqs : ι → ClientRequest} {t u : Thread ι}

/-- The request of a thread in charge holds the lease. -/
theorem World.InCharge.holder (hw : w.Disciplined registry reqs)
    (h : w.InCharge t) : w.holder = some (t.1, .main) := by
  obtain ⟨i, role⟩ := t
  cases role with
  | main => exact h.1
  | worker =>
      have hrunning : w.worker i = .running := h
      have hpending := hw.logged.workers i
      rw [hrunning] at hpending
      exact (hw.logged.lease (i, .main)).mp
        (holds_of_pending (hw.main i) hpending)

/-- At most one thread is in charge. -/
theorem World.InCharge.unique (hw : w.Disciplined registry reqs)
    (ht : w.InCharge t) (hu : w.InCharge u) : t = u := by
  have hsame : t.1 = u.1 := by
    have hholder := (ht.holder hw).symm.trans (hu.holder hw)
    simpa using hholder
  obtain ⟨i, role⟩ := t
  obtain ⟨j, role'⟩ := u
  obtain rfl : i = j := hsame
  cases role <;> cases role'
  · rfl
  · have hrunning : w.worker i = .running := hu
    have hidle := ht.2
    simp [hrunning, WorkerState.unjoined] at hidle
  · have hrunning : w.worker i = .running := ht
    have hidle := hu.2
    simp [hrunning, WorkerState.unjoined] at hidle
  · rfl

/-- The events of an action extend the acting thread's log. -/
theorem threadLog_self {o : BoardOp} {r : o.Resp}
    (h : boardSem t o w r w') :
    w'.threadLog t = w.threadLog t ++ BoardOp.events o r w'.console := by
  rw [threadLog_of_boardSem h, if_pos rfl]

/-- An action causes at most one event. -/
theorem BoardOp.events_eq {o : BoardOp} {r : o.Resp} {console : Console}
    {e : Event} (h : e ∈ BoardOp.events o r console) :
    BoardOp.events o r console = [e] := by
  cases o with
  | acquireLease owner timeoutMs =>
      cases r with
      | none => rw [List.mem_singleton.mp h]; rfl
      | some heldBy => cases h
  | spawn command =>
      cases r with
      | none => rw [List.mem_singleton.mp h]; rfl
      | some error => cases h
  | _ => first
      | (rw [List.mem_singleton.mp h]; rfl)
      | cases h

/-- What a thread does is permitted to it. -/
theorem permitted_of_boardSem {i : ι} {o : BoardOp} {r : o.Resp} {e : Event}
    (hw' : w'.Disciplined registry reqs) (h : boardSem (i, .main) o w r w')
    (he : e ∈ BoardOp.events o r w'.console) :
    Permitted (reqs i).isProbe (w.threadLog (i, .main)) e := by
  refine hw'.main i _ e [] ?_
  rw [threadLog_self h, BoardOp.events_eq he]

theorem workerPermitted_of_boardSem {i : ι} {o : BoardOp} {r : o.Resp}
    {e : Event} (hw' : w'.Disciplined registry reqs)
    (h : boardSem (i, .worker) o w r w')
    (he : e ∈ BoardOp.events o r w'.console) :
    WorkerPermitted (registry.board (reqs i).boardId)
      (w.threadLog (i, .worker)) e := by
  refine hw'.worker i _ e [] ?_
  rw [threadLog_self h, BoardOp.events_eq he]

/-- A thread that holds the lease and has no worker is in charge. -/
theorem inCharge_main {i : ι} (hw : w.Disciplined registry reqs)
    (hholds : holds (w.threadLog (i, .main)) = true)
    (hpending : pending (w.threadLog (i, .main)) = false) :
    w.InCharge (i, .main) :=
  ⟨(hw.logged.lease (i, .main)).mp hholds,
    (hw.logged.workers i).symm.trans hpending⟩

/-- Only a thread in charge launches a relay command. -/
theorem inCharge_of_launch {o : BoardOp} {r : o.Resp} {command : Command}
    {on : Bool} (hw : w.Disciplined registry reqs)
    (hw' : w'.Disciplined registry reqs) (h : boardSem t o w r w')
    (he : .launched command ∈ BoardOp.events o r w'.console)
    (hon : command.relay? = some on) : w.InCharge t := by
  obtain ⟨i, role⟩ := t
  cases role with
  | main =>
      obtain ⟨-, hholds, hpending⟩ := permitted_of_boardSem hw' h he on hon
      exact inCharge_main hw hholds hpending
  | worker =>
      obtain ⟨-, -, ⟨s, hs, -⟩, -⟩ := h
      exact running_of_onWorker hs

/-- What an active probe has done is permitted to it. -/
theorem World.Disciplined.probe_mem {i : ι} {e : Event}
    (hw : w.Disciplined registry reqs) (hprobe : (reqs i).isProbe = true)
    (he : e ∈ w.threadLog (i, .main)) :
    ProbePermitted (registry.board (reqs i).boardId)
      (w.threadLog (i, .main)) e := by
  obtain ⟨before, after, hlog⟩ := List.append_of_mem he
  exact hw.probe i hprobe before e after hlog

/-- An active probe never holds the lease. -/
theorem World.Disciplined.probe_holder {i : ι}
    (hw : w.Disciplined registry reqs) (hprobe : (reqs i).isProbe = true) :
    w.holder ≠ some (i, .main) := by
  have hconsole : ConsoleOnly (w.threadLog (i, .main)) :=
    fun e he => (hw.probe_mem hprobe he).1
  have hholds : holds (w.threadLog (i, .main)) = false :=
    holds_append hconsole.neutral []
  intro hholder
  have hheld := (hw.logged.lease (i, .main)).mpr hholder
  simp [hholds] at hheld

/-- A write of an active probe. -/
def ProbeWrite (reqs : ι → ClientRequest) (t : Thread ι) (e : Event) : Prop :=
  (reqs t.1).isProbe = true ∧ t.2 = .main ∧ ∃ byte error, e = .wrote byte error

/-- The holder of the lease at the moment of an effect on the board. -/
theorem holder_of_actuation {o : BoardOp} {r : o.Resp} {e : Event}
    (hw : w.Disciplined registry reqs)
    (hw' : w'.Disciplined registry reqs) (h : boardSem t o w r w')
    (he : e ∈ BoardOp.events o r w'.console)
    (heffect : e.isActuation = true) :
    w.holder = some (t.1, .main) ∨ ProbeWrite reqs t e := by
  cases e with
  | wrote byte error =>
      obtain ⟨i, role⟩ := t
      cases role with
      | main =>
          rcases permitted_of_boardSem hw' h he with hprobe | hholds
          · exact .inr ⟨hprobe, rfl, byte, error, rfl⟩
          · exact .inl ((hw.logged.lease (i, .main)).mp hholds)
      | worker => exact (workerPermitted_of_boardSem hw' h he).elim
  | launched command =>
      obtain ⟨on, hon⟩ := Option.isSome_iff_exists.mp heffect
      exact .inl ((inCharge_of_launch hw hw' h he hon).holder hw)
  | _ => simp [Event.isActuation] at heffect

/--
An effect on the board that the lease accounts for, or a write of a probe, which
never has the lease.
-/
structure Entry.Accounted (reqs : ι → ClientRequest) (entry : Entry ι) :
    Prop where
  effect : entry.event.isActuation = true →
    entry.holder = some (entry.thread.1, .main) ∨
      ProbeWrite reqs entry.thread entry.event
  probe : (reqs entry.thread.1).isProbe = true →
    entry.holder ≠ some (entry.thread.1, .main)

/-- Every entry of the log is accounted for. -/
theorem BoardReaches.accounted {registry : BoardRegistry}
    {console : Console} {reqs : ι → ClientRequest}
    {c : Pool BoardSig (Answer (ι := ι)) (World ι)}
    (hreaches : BoardReaches (start registry console reqs) c) :
    ∀ entry ∈ c.world.log, entry.Accounted reqs := by
  refine hreaches.invariant_of
    (World.Disciplined · registry reqs)
    (fun w => ∀ entry ∈ w.log, entry.Accounted reqs)
    (fun _ h => BoardReaches.disciplined h) ?_ ?_ ?_
  · intro t o w r w' hw hw' hinv hsem entry hentry
    rw [hsem.2.2.2] at hentry
    rcases List.mem_append.mp hentry with hold | hnew
    · exact hinv entry hold
    · obtain ⟨e, he, rfl⟩ := List.mem_map.mp hnew
      exact ⟨holder_of_actuation hw hw' hsem he, hw.probe_holder⟩
  · intro w w' _ _ hinv henv
    cases henv with
    | receive => exact hinv
    | panic => exact hinv
  · simp [start, World.initial]

/-- The law holds of a run as long as no probe has written. -/
theorem BoardReaches.underLease_iff {registry : BoardRegistry}
    {console : Console} {reqs : ι → ClientRequest}
    {c : Pool BoardSig (Answer (ι := ι)) (World ι)}
    (hreaches : BoardReaches (start registry console reqs) c) :
    c.world.UnderLease ↔ ∀ i, (reqs i).isProbe = true → ∀ byte error,
      .wrote byte error ∉ c.world.threadLog (i, .main) := by
  have haccounted := hreaches.accounted
  constructor
  · intro hlaw i hprobe byte error hwrote
    obtain ⟨entry, hentry, hevent⟩ := List.mem_map.mp hwrote
    obtain ⟨hmem, hthread⟩ := List.mem_filter.mp hentry
    obtain rfl : i = entry.thread.1 := by simp [of_decide_eq_true hthread]
    refine (haccounted entry hmem).probe hprobe (hlaw entry hmem ?_)
    rw [hevent]
    rfl
  · intro hnone entry hentry heffect
    rcases (haccounted entry hentry).effect heffect with hheld | hprobe
    · exact hheld
    · obtain ⟨hprobe, hmain, byte, error, hevent⟩ := hprobe
      refine absurd ?_ (hnone entry.thread.1 hprobe byte error)
      refine List.mem_map.mpr ⟨entry, List.mem_filter.mpr ⟨hentry, ?_⟩, hevent⟩
      simp [Prod.ext_iff, hmain]

/--
Without active probes of a configured board every byte is written and every
relay command is launched on behalf of a request that holds the lease at that
moment; and a probe breaks this law as soon as it has written one byte.
-/
theorem actuations_under_lease {registry : BoardRegistry}
    {console : Console} {reqs : ι → ClientRequest}
    {c : Pool BoardSig (Answer (ι := ι)) (World ι)}
    (hreaches : BoardReaches (start registry console reqs) c) :
    ((∀ i, (reqs i).isProbe = true → ∀ profile,
        registry.board (reqs i).boardId ≠ .ok profile) →
      c.world.UnderLease) ∧
    (c.world.UnderLease ↔ ∀ i, (reqs i).isProbe = true → ∀ byte error,
      .wrote byte error ∉ c.world.threadLog (i, .main)) := by
  refine ⟨fun hunconfigured => ?_, hreaches.underLease_iff⟩
  refine hreaches.underLease_iff.mpr fun i hprobe byte error hwrote => ?_
  obtain ⟨-, profile, hprofile⟩ :=
    hreaches.disciplined.probe_mem hprobe hwrote
  exact hunconfigured i hprobe profile hprofile

end LeaseDiscipline

section Schedule

/-- An interactive user types while another client probes the board. -/
def probedWhileTyping : Bool → ClientRequest
  | false => .consoleInput "simulated" 0x61
  | true => .rpc (.getBoardState ⟨"simulated", none, some true⟩)

/-- The owner that the console session enters for its lease. -/
def typingOwner : LeaseOwner :=
  ⟨"console-", "interactive_console_write"⟩

variable {ι : Type} [DecidableEq ι]

/-- A console session can take a free lease. -/
theorem typing_acquires (i : ι) {w : World ι} (hfree : w.lease = none) :
    Performs (i, .main) (ask (.acquireLease typingOwner 0)) w
      (none : Option String) (w.acquireBy (i, .main) typingOwner) :=
  Performs.of_sem (boardSem_acquire i typingOwner 0 hfree)

theorem typing_begins (i : ι) (w : World ι) :
    Performs (i, .main) (ask .newUuid) w "" w := by
  simpa [BoardOp.events] using
    Performs.of_sem (boardSem_local (o := .newUuid) rfl (alive_main i) "")

/-- A console session comes to hold the lease. -/
theorem consoleInput_acquires (i : ι) (byte : UInt8) {w : World ι}
    (hfree : w.lease = none) :
    Visits (afterEnv boardSem BoardEnv (i, .main))
      (serve simulatedRegistry (.consoleInput "simulated" byte)) w
      (w.acquireBy (i, .main) typingOwner) := by
  refine Visits.map ?_ _
  simp only [forwardConsoleInput, simulatedRegistry_board]
  refine Returns.bind_visits (typing_begins i w) ?_
  exact Visits.bind (typing_acquires i hfree).visits _

/-- A console session writes its byte under its lease. -/
theorem consoleInput_writes (i : ι) (byte : UInt8) {w : World ι}
    (hfree : w.lease = none) :
    Visits (afterEnv boardSem BoardEnv (i, .main))
      (serve simulatedRegistry (.consoleInput "simulated" byte)) w
      ((w.acquireBy (i, .main) typingOwner).emit (i, .main)
        (writeEvents simulated [byte])) := by
  refine Visits.map ?_ _
  simp only [forwardConsoleInput, simulatedRegistry_board]
  refine Returns.bind_visits (typing_begins i w) ?_
  refine Returns.bind_visits (typing_acquires i hfree) ?_
  exact Visits.bind (writeConsole_acts (alive_main i) [byte]).visits _

/-- A probe writes a carriage return, whoever holds the lease. -/
theorem probe_visits (i : ι) (w : World ι) :
    Visits (afterEnv boardSem BoardEnv (i, .main))
      (serve simulatedRegistry
        (.rpc (.getBoardState ⟨"simulated", none, some true⟩))) w
      ((w.look (i, .main)).emit (i, .main)
        (writeEvents simulated (utf8 "\r"))) := by
  refine Visits.map ?_ _
  rw [handleRpc, ExceptT.run_map]
  refine Visits.map ?_ _
  refine Returns.bind_visits (lookup_acts simulatedRegistry_board _) ?_
  refine Returns.bind_visits (nextCursor_acts (alive_main i)) ?_
  exact Visits.bind (Returns.visits
    (writeConsole_acts (alive_main i) (utf8 "\r"))) _

/--
A byte is written to the serial port for one client while another one holds the
lease.
-/
theorem probe_writes_without_lease :
    ∃ c, BoardReaches
      (start simulatedRegistry simulatedConsole probedWhileTyping) c ∧
        ∃ entry ∈ c.world.log, entry.thread = (true, .main) ∧
          entry.event = .wrote 13 none ∧
          entry.holder = some (false, .main) := by
  obtain ⟨p, htyping⟩ := consoleInput_acquires false 0x61
    (w := World.initial simulatedConsole) rfl
  obtain ⟨q, hprobe⟩ := probe_visits true
    ((World.initial simulatedConsole).acquireBy (false, .main) typingOwner)
  have hfirst := Pool.reaches_of_exec
    (c := start simulatedRegistry simulatedConsole probedWhileTyping) htyping
  have hsecond := Pool.reaches_of_exec
    (c := (start simulatedRegistry simulatedConsole probedWhileTyping).move
      (false, .main) p _) hprobe
  refine ⟨_, hfirst.trans hsecond, ⟨(true, .main), some (false, .main),
    .wrote 13 none⟩, ?_, rfl, rfl, rfl⟩
  have hreturn : (13 : UInt8) ∈ utf8 "\r" := by decide
  simpa [World.look, World.emit, World.acquireBy, World.initial, writeEvents,
    World.holder, simulated] using hreturn

/-- A byte is typed under the lease of its own request. -/
theorem actuations_under_lease_typing :
    ∃ c, BoardReaches (start simulatedRegistry simulatedConsole
        fun _ : Unit => .consoleInput "simulated" 0x61) c ∧
      (∃ entry ∈ c.world.log, entry.event = .wrote 0x61 none) ∧
      c.world.UnderLease := by
  obtain ⟨p, htyping⟩ := consoleInput_writes () 0x61
    (w := World.initial simulatedConsole) rfl
  have hreaches := Pool.reaches_of_exec
    (c := start simulatedRegistry simulatedConsole
      fun _ : Unit => .consoleInput "simulated" 0x61) htyping
  refine ⟨_, hreaches, ⟨⟨((), .main), some ((), .main), .wrote 0x61 none⟩, ?_,
    rfl⟩, (actuations_under_lease hreaches).1 nofun⟩
  simp [World.emit, World.acquireBy, World.initial, writeEvents,
    World.holder, simulated]

end Schedule

end RpictlMcp
