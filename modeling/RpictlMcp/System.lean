import RpictlMcp.Requests
import RpictlMcp.BoardTrace
import RpictlMcp.Kernel.ThreadPool

/-!
# rpictl-mcp: the running system

Any number of clients make requests of one board.  A client stands for one
request; the requests of a connection that come one after the other are requests
of different clients.  Each request is served by a thread of its own, and the
thread of `power_on_uboot` may start a second one, its power worker.  The
environment is the serial reader, which appends what the board sends, and the
possibility that a worker panics.

The lease is the cell of `LeaseSpec`, to which the protocol of `acquire` and
`drop` has been reduced: a failed attempt names the holder, and a thread that is
blocked takes no step.  Every event of a run is logged with the thread that
caused it and with the thread that held the lease at that moment.
-/

namespace RpictlMcp

open Prog

/-- The threads of a request. -/
inductive Role where
  | main
  | worker
deriving DecidableEq, Repr

/-- The thread of a client in one role. -/
abbrev Thread (ι : Type) : Type := ι × Role

/-- The power worker of a request. -/
inductive WorkerState where
  | idle
  | running
  | finished (outcome : WorkerOutcome)
  | joined

/-- A worker that has been spawned and not joined yet. -/
def WorkerState.unjoined : WorkerState → Bool
  | .running => true
  | .finished _ => true
  | _ => false

/-- An event of a run, who caused it and who held the lease. -/
structure Entry (ι : Type) where
  thread : Thread ι
  holder : Option (Thread ι)
  event : Event

/-- The state that the threads share. -/
structure World (ι : Type) where
  console : Console
  lease : Option (Thread ι × LeaseOwner)
  worker : ι → WorkerState
  log : List (Entry ι)

section System

variable {ι : Type}

/-- A system that has not done anything yet. -/
def World.initial (console : Console) : World ι :=
  ⟨console, none, fun _ => .idle, []⟩

/-- The thread that holds the lease. -/
def World.holder (w : World ι) : Option (Thread ι) :=
  w.lease.map Prod.fst

/-- What an action does to the lease. -/
def BoardOp.OnLease (o : BoardOp) (t : Thread ι)
    (cell : Option (Thread ι × LeaseOwner)) (r : o.Resp)
    (cell' : Option (Thread ι × LeaseOwner)) : Prop :=
  match o, r with
  | .acquireLease owner _, none => LeaseSpec cell (.acquired t owner) cell'
  | .acquireLease _ _, some heldBy =>
      LeaseSpec cell (.failed t (leaseBusy heldBy)) cell'
  | .releaseLease owner, _ => LeaseSpec cell (.drop t owner) cell'
  | .leaseOwner, value => LeaseSpec cell (.readOwner value) cell'
  | _, _ => cell' = cell

/-- What an action does to the worker of its request. -/
def BoardOp.OnWorker (o : BoardOp) (role : Role) (s : WorkerState)
    (r : o.Resp) (s' : WorkerState) : Prop :=
  match role, o, r with
  | .main, .spawnWorker, _ => s = .idle ∧ s' = .running
  | .main, .workerFinished, finished =>
      (finished = true → ∃ outcome, s = .finished outcome) ∧ s' = s
  | .main, .joinWorker, outcome => s = .finished outcome ∧ s' = .joined
  | .main, _, _ => s' = s
  | .worker, .finishWorker result, _ =>
      s = .running ∧ s' = .finished (.returned result)
  | .worker, _, _ => s = .running ∧ s' = s

variable [DecidableEq ι]

/-- One action of a thread. -/
def boardSem (t : Thread ι) (o : BoardSig.Op) (w : World ι)
    (r : BoardSig.Resp o) (w' : World ι) : Prop :=
  BoardOp.OnConsole o w.console r w'.console ∧
    BoardOp.OnLease o t w.lease r w'.lease ∧
    (∃ s, BoardOp.OnWorker o t.2 (w.worker t.1) r s ∧
      w'.worker = Function.update w.worker t.1 s) ∧
    w'.log = w.log ++
      (BoardOp.events o r w'.console).map (Entry.mk t w.holder)

/-- What happens without a thread: the board sends, or a worker panics. -/
inductive BoardEnv : World ι → World ι → Prop
  | receive {w : World ι} {console : Console} (timestamp : SystemTime)
      (input : List UInt8) (hcapacity : console.capacity = w.console.capacity)
      (hhistory : console.history =
        w.console.history ++ [.append timestamp input]) :
      BoardEnv w { w with console := console }
  | panic {w : World ι} (i : ι) (hrunning : w.worker i = .running) :
      BoardEnv w { w with
        worker := Function.update w.worker i (.finished .panicked) }

/-- What a thread answers. -/
abbrev Answer : Thread ι → Type
  | (_, .main) => ClientResponse
  | (_, .worker) => Unit

/-- The board that a request names. -/
def ClientRequest.boardId : ClientRequest → String
  | .rpc .listBoards => ""
  | .rpc (.getBoardState req) => req.boardId
  | .rpc (.getPowerState req) => req.boardId
  | .rpc (.captureSerial req) => req.boardId
  | .rpc (.powerOn req) => req.boardId
  | .rpc (.powerOnUboot req) => req.boardId
  | .rpc (.powerOnLinux req) => req.boardId
  | .rpc (.powerOff req) => req.boardId
  | .rpc (.powerCycle req) => req.boardId
  | .rpc (.waitForState req) => req.boardId
  | .rpc (.enterUboot req) => req.boardId
  | .rpc (.runUbootCommand req) => req.boardId
  | .rpc (.bootLinux req) => req.boardId
  | .rpc (.linuxLogin req) => req.boardId
  | .rpc (.runLinuxCommand req) => req.boardId
  | .rpc (.rebootLinux req) => req.boardId
  | .power rest =>
      ((splitWhitespace rest.toList).map String.ofList)[1]?.getD ""
  | .consoleInput boardId _ => boardId
  | .consoleCommand boardId _ => boardId

/-- The worker that a request may start. -/
def workerOf (registry : BoardRegistry) (req : ClientRequest) :
    Prog BoardSig Unit :=
  match registry.board req.boardId with
  | .ok profile => powerWorker profile
  | .error _ => return ()

/-- The program of a thread. -/
def threadOf (registry : BoardRegistry) (reqs : ι → ClientRequest) :
    (t : Thread ι) → Prog BoardSig (Answer t)
  | (i, .main) => serve registry (reqs i)
  | (i, .worker) => workerOf registry (reqs i)

/-- The system before the first request is served. -/
def start (registry : BoardRegistry) (console : Console)
    (reqs : ι → ClientRequest) : Pool BoardSig (Answer (ι := ι)) (World ι) :=
  ⟨threadOf registry reqs, .initial console⟩

/-- The runs of a pool of threads around a board. -/
abbrev BoardReaches {A : Thread ι → Type} :
    Pool BoardSig A (World ι) → Pool BoardSig A (World ι) → Prop :=
  Pool.Reaches boardSem BoardEnv

/-- The events that a thread has caused. -/
def World.threadLog (w : World ι) (t : Thread ι) : List Event :=
  (w.log.filter fun entry => entry.thread = t).map Entry.event

@[simp] theorem threadLog_initial (console : Console) (t : Thread ι) :
    (World.initial console).threadLog t = [] := rfl

theorem threadLog_append {w w' : World ι} {t : Thread ι}
    {holder : Option (Thread ι)} {events : List Event}
    (h : w'.log = w.log ++ events.map (Entry.mk t holder)) (u : Thread ι) :
    w'.threadLog u =
      w.threadLog u ++ if t = u then events else [] := by
  rw [World.threadLog, h, List.filter_append, List.map_append]
  congr 1
  by_cases htu : t = u <;> simp [htu, List.filter_map, Function.comp_def]

/-- The logs after an action: only the acting thread's has grown. -/
theorem threadLog_of_boardSem {t : Thread ι} {o : BoardOp} {w w' : World ι}
    {r : o.Resp} (h : boardSem t o w r w') (u : Thread ι) :
    w'.threadLog u =
      w.threadLog u ++ if t = u then BoardOp.events o r w'.console else [] :=
  threadLog_append h.2.2.2 u

theorem threadLog_of_env {w w' : World ι} (h : BoardEnv w w')
    (t : Thread ι) : w'.threadLog t = w.threadLog t := by
  cases h <;> rfl

/-- In a run of the system every thread performs a run of its own. -/
theorem BoardReaches.exec {A : Thread ι → Type}
    {c c' : Pool BoardSig A (World ι)} (h : BoardReaches c c')
    (t : Thread ι) :
    Exec (logSem BoardOp.emits) (c.prog t, c.world.threadLog t)
      (c'.prog t, c'.world.threadLog t) := by
  have hown : ∀ o log (w : World ι) r w', w.threadLog t = log →
      boardSem t o w r w' →
      ∃ log', logSem BoardOp.emits o log r log' ∧ w'.threadLog t = log' := by
    rintro o _ w r w' rfl hsem
    refine ⟨w'.threadLog t, ⟨BoardOp.events o r w'.console,
      ⟨w.console, w'.console, hsem.1, rfl⟩, ?_⟩, rfl⟩
    rw [threadLog_of_boardSem hsem, if_pos rfl]
  have hother : ∀ u o log (w : World ι) r w', u ≠ t → w.threadLog t = log →
      boardSem u o w r w' → w'.threadLog t = log := by
    rintro u o _ w r w' hu rfl hsem
    rw [threadLog_of_boardSem hsem, if_neg hu, List.append_nil]
  have henv : ∀ log (w w' : World ι), w.threadLog t = log →
      BoardEnv w w' → w'.threadLog t = log := by
    rintro _ w w' rfl henv
    exact threadLog_of_env henv t
  obtain ⟨log, hexec, rfl⟩ := Pool.Reaches.project h t hown hother henv rfl
  exact hexec

/-- The log of a thread only grows. -/
theorem BoardReaches.threadLog_prefix {A : Thread ι → Type}
    {c c' : Pool BoardSig A (World ι)} (h : BoardReaches c c')
    (t : Thread ι) : c.world.threadLog t <+: c'.world.threadLog t := by
  refine h.invariant (fun w => c.world.threadLog t <+: w.threadLog t) ?_ ?_
    List.prefix_rfl
  · intro u o w r w' hprefix hsem
    rw [threadLog_of_boardSem hsem]
    exact hprefix.trans (List.prefix_append _ _)
  · intro w w' hprefix henv
    rwa [threadLog_of_env henv]

/-- The console that an event shows. -/
def Event.console? : Event → Option Console
  | .looked console => some console
  | .marked console => some console
  | _ => none

/-! ## What the logs say about the shared state -/

omit [DecidableEq ι] in
/-- The lease moves as the events of the acting thread say. -/
theorem BoardOp.OnLease.cases {o : BoardOp} {t : Thread ι}
    {cell cell' : Option (Thread ι × LeaseOwner)} {r : o.Resp}
    (h : BoardOp.OnLease o t cell r cell') (console : Console) :
    (cell' = cell ∧ ∀ held,
        (BoardOp.events o r console).foldl Event.lease held = held) ∨
      (∃ owner, cell = none ∧ cell' = some (t, owner) ∧
        BoardOp.events o r console = [.acquired owner]) ∨
      ∃ owner, cell = some (t, owner) ∧ cell' = none ∧
        BoardOp.events o r console = [.released owner] := by
  cases o with
  | acquireLease owner timeoutMs =>
      cases r with
      | none =>
          cases h
          exact .inr (.inl ⟨owner, rfl, rfl, rfl⟩)
      | some heldBy =>
          refine .inl ⟨?_, fun _ => rfl⟩
          simp only [BoardOp.OnLease] at h
          generalize leaseBusy heldBy = error at h
          cases h
          rfl
  | releaseLease owner =>
      cases h
      exact .inr (.inr ⟨owner, rfl, rfl, rfl⟩)
  | leaseOwner =>
      cases h
      exact .inl ⟨rfl, fun _ => rfl⟩
  | spawn command => cases r <;> exact .inl ⟨h, fun _ => rfl⟩
  | _ => exact .inl ⟨h, fun _ => rfl⟩

/-- The logs tell which thread holds the lease. -/
def World.LeaseLogged (w : World ι) : Prop :=
  ∀ t, holds (w.threadLog t) = true ↔ w.holder = some t

theorem leaseLogged_of_boardSem {t : Thread ι} {o : BoardOp}
    {w w' : World ι} {r : o.Resp} (hw : w.LeaseLogged)
    (hsem : boardSem t o w r w') : w'.LeaseLogged := by
  intro u
  have hu := hw u
  rw [threadLog_of_boardSem hsem, holds, List.foldl_append, ← holds]
  rcases hsem.2.1.cases w'.console with ⟨hcell, hsame⟩ |
    ⟨owner, hfree, hheld, hevents⟩ | ⟨owner, hheld, hfree, hevents⟩
  · rw [World.holder, hcell]
    by_cases htu : t = u
    · rw [if_pos htu, hsame]
      exact hu
    · rw [if_neg htu]
      exact hu
  · have hnone : holds (w.threadLog u) = false := by
      simpa [World.holder, hfree] using hu
    by_cases htu : t = u
    · simp [htu, hevents, World.holder, hheld, Event.lease]
    · simp [htu, hnone, World.holder, hheld]
  · by_cases htu : t = u
    · simp [htu, hevents, World.holder, hfree, Event.lease]
    · have hnone : holds (w.threadLog u) = false := by
        simpa [World.holder, hheld, htu] using hu
      simp [htu, hnone, World.holder, hfree]

/-- The logs of the main threads tell which workers are not joined yet. -/
def World.WorkersLogged (w : World ι) : Prop :=
  ∀ i, pending (w.threadLog (i, .main)) = (w.worker i).unjoined

omit [DecidableEq ι] in
/-- The worker of a request moves as the events of its main thread say. -/
theorem BoardOp.OnWorker.unjoined {o : BoardOp} {role : Role}
    {s s' : WorkerState} {r : o.Resp} (h : BoardOp.OnWorker o role s r s')
    (console : Console) :
    s'.unjoined = (if role = .main then BoardOp.events o r console
      else []).foldl Event.worker s.unjoined := by
  cases role with
  | main =>
      cases o with
      | acquireLease owner timeoutMs => cases r <;> cases h <;> rfl
      | spawn command => cases r <;> cases h <;> rfl
      | workerFinished => rw [h.2]; rfl
      | spawnWorker => rw [h.2]; rfl
      | joinWorker => rw [h.2]; rfl
      | _ => cases h; rfl
  | worker =>
      cases o with
      | finishWorker result =>
          obtain ⟨rfl, rfl⟩ := h
          rfl
      | _ =>
          obtain ⟨rfl, rfl⟩ := h
          rfl

theorem workersLogged_of_boardSem {t : Thread ι} {o : BoardOp}
    {w w' : World ι} {r : o.Resp} (hw : w.WorkersLogged)
    (hsem : boardSem t o w r w') : w'.WorkersLogged := by
  intro i
  rw [threadLog_of_boardSem hsem, pending, List.foldl_append, ← pending,
    hw i]
  obtain ⟨-, -, ⟨s, hs, hworker⟩, -⟩ := hsem
  obtain ⟨j, role⟩ := t
  by_cases hij : j = i
  · subst hij
    rw [hworker, Function.update_self, hs.unjoined w'.console]
    cases role <;> simp
  · rw [hworker, Function.update_of_ne (Ne.symm hij)]
    simp [hij]

theorem leaseLogged_of_env {w w' : World ι} (hw : w.LeaseLogged)
    (h : BoardEnv w w') : w'.LeaseLogged := by
  intro t
  rw [threadLog_of_env h]
  cases h <;> exact hw t

theorem workersLogged_of_env {w w' : World ι} (hw : w.WorkersLogged)
    (h : BoardEnv w w') : w'.WorkersLogged := by
  intro i
  rw [threadLog_of_env h, hw i]
  cases h with
  | receive => rfl
  | panic j hrunning =>
      by_cases hij : i = j
      · subst hij
        simp [hrunning, WorkerState.unjoined]
      · simp [hij]

/-- The consoles of a log, and those still to come, extend one another. -/
structure World.Ascending (w : World ι) : Prop where
  pairwise : w.log.Pairwise fun entry later =>
    ∀ c d, entry.event.console? = some c → later.event.console? = some d →
      c.Extends d
  current : ∀ entry ∈ w.log, ∀ c, entry.event.console? = some c →
    c.Extends w.console

omit [DecidableEq ι] in
/-- A step whose new events show the new console, which extends the old one. -/
theorem World.Ascending.append {w w' : World ι} (h : w.Ascending)
    (events : List (Entry ι)) (hlog : w'.log = w.log ++ events)
    (hextends : w.console.Extends w'.console)
    (hevents : ∀ entry ∈ events, ∀ c, entry.event.console? = some c →
      c = w'.console) : w'.Ascending where
  pairwise := by
    rw [hlog, List.pairwise_append]
    refine ⟨h.pairwise, ?_, ?_⟩
    · refine List.pairwise_of_forall_mem_list ?_
      intro entry hentry later hlater c d hc hd
      rw [hevents entry hentry c hc, hevents later hlater d hd]
      exact .refl _
    · intro entry hentry later hlater c d hc hd
      rw [hevents later hlater d hd]
      exact (h.current entry hentry c hc).trans hextends
  current := by
    rw [hlog]
    intro entry hentry c hc
    rcases List.mem_append.mp hentry with hold | hnew
    · exact (h.current entry hold c hc).trans hextends
    · rw [hevents entry hnew c hc]
      exact .refl _

omit [DecidableEq ι] in
theorem BoardOp.OnConsole.extends {o : BoardOp} {c c' : Console} {r : o.Resp}
    (h : BoardOp.OnConsole o c r c') : c.Extends c' := by
  cases o with
  | lockSerial => exact h.2 ▸ .refl c
  | markGeneration => exact h.2 ▸ c.extends_mark
  | _ => exact h ▸ .refl c

omit [DecidableEq ι] in
theorem BoardOp.console_of_mem_events {o : BoardOp} {r : o.Resp}
    {console c : Console} {e : Event}
    (he : e ∈ BoardOp.events o r console) (hc : e.console? = some c) :
    c = console := by
  cases o with
  | lockSerial =>
      obtain rfl := List.mem_singleton.mp he
      exact (Option.some.inj hc).symm
  | markGeneration =>
      obtain rfl := List.mem_singleton.mp he
      exact (Option.some.inj hc).symm
  | acquireLease owner timeoutMs =>
      cases r with
      | none =>
          obtain rfl := List.mem_singleton.mp he
          cases hc
      | some heldBy => cases he
  | spawn command =>
      cases r with
      | none =>
          obtain rfl := List.mem_singleton.mp he
          cases hc
      | some error => cases he
  | _ =>
      first
        | (obtain rfl := List.mem_singleton.mp he; cases hc)
        | cases he

theorem ascending_of_boardSem {t : Thread ι} {o : BoardOp} {w w' : World ι}
    {r : o.Resp} (hw : w.Ascending) (hsem : boardSem t o w r w') :
    w'.Ascending := by
  refine hw.append _ hsem.2.2.2 hsem.1.extends ?_
  intro entry hentry c hc
  obtain ⟨e, he, rfl⟩ := List.mem_map.mp hentry
  exact BoardOp.console_of_mem_events he hc

theorem ascending_of_env {w w' : World ι} (hw : w.Ascending)
    (h : BoardEnv w w') : w'.Ascending := by
  cases h with
  | receive timestamp input hcapacity hhistory =>
      refine hw.append [] (by simp) ⟨hcapacity, ?_⟩ (by simp)
      rw [hhistory]
      exact List.prefix_append _ _
  | panic i hrunning =>
      exact hw.append [] (by simp) (.refl _) (by simp)

/-- The last thing a worker has done was to return a result. -/
def World.WorkerReturned (w : World ι) (i : ι)
    (result : Result PowerObservation) : Prop :=
  (w.threadLog (i, .worker)).getLast? = some (.workerReturned result)

/--
A worker that has not been started has done nothing; a worker that has finished
with a result has returned it, and so has one that was joined with a result.
-/
structure World.OutcomeLogged (w : World ι) (i : ι) : Prop where
  idle : w.worker i = .idle → w.threadLog (i, .worker) = []
  finished : ∀ result, w.worker i = .finished (.returned result) →
    w.WorkerReturned i result
  joined : ∀ result,
    .workerJoined (.returned result) ∈ w.threadLog (i, .main) →
      w.worker i = .joined ∧ w.WorkerReturned i result

omit [DecidableEq ι] in
/-- Only an action that joins the worker logs its outcome. -/
theorem BoardOp.joined_of_mem_events {o : BoardOp} {r : o.Resp}
    {console : Console} {outcome : WorkerOutcome}
    (h : .workerJoined outcome ∈ BoardOp.events o r console)
    {s s' : WorkerState} (hs : BoardOp.OnWorker o .main s r s') :
    s = .finished outcome ∧ s' = .joined := by
  cases o with
  | joinWorker =>
      cases List.mem_singleton.mp h
      exact hs
  | acquireLease owner timeoutMs => cases r <;> simp [BoardOp.events] at h
  | spawn command => cases r <;> simp [BoardOp.events] at h
  | _ => simp [BoardOp.events] at h

omit [DecidableEq ι] in
/-- The main thread of a request leaves a worker with its outcome. -/
theorem BoardOp.OnWorker.main_cases {o : BoardOp} {s s' : WorkerState}
    {r : o.Resp} (h : BoardOp.OnWorker o .main s r s') :
    s' = s ∨ (s = .idle ∧ s' = .running) ∨
      ∃ outcome, s = .finished outcome ∧ s' = .joined := by
  cases o with
  | spawnWorker => exact .inr (.inl h)
  | workerFinished => exact .inl h.2
  | joinWorker => exact .inr (.inr ⟨_, h⟩)
  | acquireLease owner timeoutMs => cases r <;> exact .inl h
  | spawn command => cases r <;> exact .inl h
  | _ => exact .inl h

omit [DecidableEq ι] in
/-- A worker acts only while it is running. -/
theorem running_of_onWorker {o : BoardOp} {s s' : WorkerState} {r : o.Resp}
    (h : BoardOp.OnWorker o .worker s r s') : s = .running := by
  cases o <;> exact h.1

theorem outcomeLogged_of_main {i : ι} {o : BoardOp} {w w' : World ι}
    {r : o.Resp} (hw : w.OutcomeLogged i)
    (hsem : boardSem (i, .main) o w r w') : w'.OutcomeLogged i := by
  have hlog : w'.threadLog (i, .worker) = w.threadLog (i, .worker) := by
    rw [threadLog_of_boardSem hsem, if_neg (by simp), List.append_nil]
  have hreturned : ∀ result, w'.WorkerReturned i result ↔
      w.WorkerReturned i result := by
    intro result
    rw [World.WorkerReturned, hlog, World.WorkerReturned]
  obtain ⟨s, hs, hworker⟩ := hsem.2.2.1
  have hself : w'.worker i = s := by rw [hworker, Function.update_self]
  refine ⟨?_, ?_, ?_⟩
  · intro hidle
    rw [hlog]
    rw [hself] at hidle
    rcases hs.main_cases with hsame | ⟨-, hrunning⟩ | ⟨outcome, -, hjoined⟩
    · exact hw.idle (hsame ▸ hidle)
    · simp [hrunning] at hidle
    · simp [hjoined] at hidle
  · intro result hfinished
    rw [hself] at hfinished
    rcases hs.main_cases with hsame | ⟨-, hrunning⟩ | ⟨outcome, -, hjoined⟩
    · exact (hreturned result).mpr (hw.finished result (hsame ▸ hfinished))
    · simp [hrunning] at hfinished
    · simp [hjoined] at hfinished
  · intro result hmem
    rw [threadLog_of_boardSem hsem, if_pos rfl] at hmem
    rw [hself, hreturned]
    rcases List.mem_append.mp hmem with hold | hnew
    · obtain ⟨hjoined, hlast⟩ := hw.joined result hold
      rcases hs.main_cases with hsame | ⟨hidle, -⟩ | ⟨outcome, hfinished, -⟩
      · exact ⟨hsame.trans hjoined, hlast⟩
      · simp [hidle] at hjoined
      · simp [hfinished] at hjoined
    · obtain ⟨hfinished, hjoined⟩ := BoardOp.joined_of_mem_events hnew hs
      exact ⟨hjoined, hw.finished result hfinished⟩

theorem outcomeLogged_of_worker {i : ι} {o : BoardOp} {w w' : World ι}
    {r : o.Resp} (hw : w.OutcomeLogged i)
    (hsem : boardSem (i, .worker) o w r w') : w'.OutcomeLogged i := by
  obtain ⟨s, hs, hworker⟩ := hsem.2.2.1
  have hself : w'.worker i = s := by rw [hworker, Function.update_self]
  have hrunning : w.worker i = .running := running_of_onWorker hs
  refine ⟨?_, ?_, ?_⟩
  · intro hidle
    rw [hself] at hidle
    cases o <;> simp [hs.2, hrunning] at hidle
  · intro result hfinished
    rw [hself] at hfinished
    rw [World.WorkerReturned, threadLog_of_boardSem hsem, if_pos rfl]
    cases o with
    | finishWorker returned =>
        rw [hs.2] at hfinished
        cases hfinished
        simp [BoardOp.events]
    | _ =>
        rw [hs.2, hrunning] at hfinished
        cases hfinished
  · intro result hmem
    rw [threadLog_of_boardSem hsem, if_neg (by simp),
      List.append_nil] at hmem
    have hjoined := (hw.joined result hmem).1
    simp [hrunning] at hjoined

theorem outcomeLogged_of_boardSem {t : Thread ι} {o : BoardOp}
    {w w' : World ι} {r : o.Resp} (hw : ∀ i, w.OutcomeLogged i)
    (hsem : boardSem t o w r w') (i : ι) : w'.OutcomeLogged i := by
  obtain ⟨j, role⟩ := t
  by_cases hij : j = i
  · subst hij
    cases role with
    | main => exact outcomeLogged_of_main (hw j) hsem
    | worker => exact outcomeLogged_of_worker (hw j) hsem
  · have hlog : ∀ role', w'.threadLog (i, role') = w.threadLog (i, role') := by
      intro role'
      rw [threadLog_of_boardSem hsem, if_neg (by simp [hij]), List.append_nil]
    have hworker : w'.worker i = w.worker i := by
      obtain ⟨s, -, hworker⟩ := hsem.2.2.1
      rw [hworker, Function.update_of_ne (Ne.symm hij)]
    refine ⟨?_, ?_, ?_⟩
    · rw [hworker, hlog]
      exact (hw i).idle
    · intro result
      rw [hworker, World.WorkerReturned, hlog]
      exact (hw i).finished result
    · intro result
      rw [hworker, World.WorkerReturned, hlog, hlog]
      exact (hw i).joined result

theorem outcomeLogged_of_env {w w' : World ι} (hw : ∀ i, w.OutcomeLogged i)
    (h : BoardEnv w w') (i : ι) : w'.OutcomeLogged i := by
  cases h with
  | receive => exact ⟨(hw i).idle, (hw i).finished, (hw i).joined⟩
  | panic j hrunning =>
      by_cases hij : i = j
      · subst hij
        refine ⟨by simp, by simp, fun result hmem => ?_⟩
        have hjoined := ((hw i).joined result hmem).1
        simp [hrunning] at hjoined
      · have hworker : Function.update w.worker j (.finished .panicked) i =
            w.worker i := Function.update_of_ne hij _ _
        refine ⟨fun hidle => (hw i).idle (hworker ▸ hidle), ?_, ?_⟩
        · exact fun result hfinished =>
            (hw i).finished result (hworker ▸ hfinished)
        · intro result hmem
          obtain ⟨hjoined, hreturned⟩ := (hw i).joined result hmem
          exact ⟨hworker.trans hjoined, hreturned⟩

/-- What the logs of a run say about the shared state. -/
structure World.Logged (w : World ι) : Prop where
  lease : w.LeaseLogged
  workers : w.WorkersLogged
  outcomes : ∀ i, w.OutcomeLogged i
  ascending : w.Ascending

theorem logged_initial (console : Console) :
    (World.initial (ι := ι) console).Logged where
  lease := by
    intro t
    rw [threadLog_initial]
    simp [World.holder, World.initial, holds]
  workers := by
    intro i
    rfl
  outcomes i := ⟨fun _ => rfl, by simp [World.initial], by simp⟩
  ascending := ⟨.nil, by simp [World.initial]⟩

/-- Every reachable world is one whose logs tell its shared state. -/
theorem BoardReaches.logged {A : Thread ι → Type}
    {c c' : Pool BoardSig A (World ι)} (h : BoardReaches c c')
    (hinit : c.world.Logged) : c'.world.Logged := by
  refine Pool.Reaches.invariant h World.Logged ?_ ?_ hinit
  · intro t o w r w' hw hsem
    exact ⟨leaseLogged_of_boardSem hw.lease hsem,
      workersLogged_of_boardSem hw.workers hsem,
      outcomeLogged_of_boardSem hw.outcomes hsem,
      ascending_of_boardSem hw.ascending hsem⟩
  · intro w w' hw henv
    exact ⟨leaseLogged_of_env hw.lease henv,
      workersLogged_of_env hw.workers henv,
      outcomeLogged_of_env hw.outcomes henv,
      ascending_of_env hw.ascending henv⟩

/-- The consoles that one thread sees extend one another. -/
theorem World.Ascending.threadLog {w : World ι} (h : w.Ascending)
    (t : Thread ι) :
    (w.threadLog t).Pairwise fun e later =>
      ∀ c d, e.console? = some c → later.console? = some d →
        c.Extends d :=
  List.pairwise_map.mpr (h.pairwise.filter _)

/-- Every console that a thread has seen is an earlier one. -/
theorem World.Ascending.extends_of_mem {w : World ι} (h : w.Ascending)
    {t : Thread ι} {c : Console} (hmem : .looked c ∈ w.threadLog t) :
    c.Extends w.console := by
  obtain ⟨entry, hentry, hevent⟩ := List.mem_map.mp hmem
  refine h.current entry (List.mem_of_mem_filter hentry) c ?_
  rw [hevent]
  rfl

end System

end RpictlMcp
