import RpictlMcp.LeaseDiscipline
import RpictlMcp.StateWait

/-!
# rpictl-mcp: `power_on_uboot` and its worker

The boot thread of `power_on_uboot` and its power worker run at the same time.
Whatever the order of their steps, the worker is joined once, before the lease
is given back; its failure is the failure of the operation, and otherwise the
operation ends as its boot thread has ended.  The log of the worker and the
outcome that is joined belong together, so a success means that the worker has
verified the relay.
-/

namespace RpictlMcp

open Prog

/--
A cursor is taken, some bytes are written at once, and then a prompt is detected
in what the board has sent since the cursor.
-/
def PromptAfter (profile : BoardProfile) (bytes : List UInt8)
    (t : List Event) : Prop :=
  ∃ cursor gap seen after,
    t = .looked cursor :: (writeEvents profile bytes ++
      (gap ++ .looked seen :: after)) ∧
    written gap = [] ∧ written after = [] ∧ cursor.Extends seen ∧
    Detected profile .ubootPrompt (seen.stream.drop cursor.stream.length)

/--
The first fresh state is detected in what the board has sent since the capture
was armed, and the one write that answers it leads to a prompt.
-/
def PromptReached (profile : BoardProfile) (t : List Event) : Prop :=
  ∃ before armed u first fresh s,
    t = before ++ .looked armed :: .workerSpawned :: (u ++
      .looked fresh :: s) ∧
    written before = [] ∧ written u = [] ∧
    (first = .ubootCountdown ∨ first = .ubootPrompt) ∧
    armed.Extends fresh ∧
    Detected profile first (fresh.stream.drop armed.stream.length) ∧
    PromptAfter profile (bootBytes profile first) s

/-- How `power_on_uboot` ends when it has started its worker. -/
structure UbootRun (profile : BoardProfile) (outcome : WorkerOutcome)
    (boot : Result BoardState) (r : Result OperationResult)
    (main worker : List Event) : Prop where
  joinedOnce : ∃ s owner, main = s ++ [.released owner] ∧
    joins s = [outcome] ∧ ∀ other, .released other ∉ s
  booted : .noted (.booted boot) ∈ main
  returned : ∀ result, outcome = .returned result →
    worker.getLast? = some (.workerReturned result)
  failed : ∀ e, outcome.joinResult = .error e → r = .error e
  passed : outcome.joinResult = .ok () →
    r.map OperationResult.output = boot.map observedOutput
  powered : ∀ result, r = .ok result → Settled true worker
  prompt : ∀ result, r = .ok result → PromptReached profile main

section UbootRun

variable {profile : BoardProfile} {t u v : List Event}

theorem BootTrace.not_released (h : ∀ e ∈ t, e.isBoot = true)
    (owner : LeaseOwner) : .released owner ∉ t := by
  intro hmem
  cases h _ hmem

theorem Neutral.not_released (h : Neutral t) (owner : LeaseOwner) :
    .released owner ∉ t := by
  intro hmem
  cases h _ hmem

theorem Neutral.not_spawned (h : Neutral t) : .workerSpawned ∉ t := by
  intro hmem
  cases h _ hmem

theorem Neutral.joins (h : Neutral t) : joins t = [] := by
  rw [RpictlMcp.joins, List.filterMap_eq_nil_iff]
  intro e he
  have hneutral := h e he
  cases e <;> first | rfl | simp [Event.isNeutral] at hneutral

/-- A trace of `power_on_uboot` in which the worker has been started. -/
theorem OperationTrace.spawned {registry : BoardRegistry} {boardId : String}
    {r : Result OperationResult}
    (h : OperationTrace registry boardId UbootTrace r t)
    (hspawned : .workerSpawned ∈ t) :
    ∃ profile owner front armed outcome boot u v tail,
      registry.board boardId = .ok profile ∧
      t = .acquired owner :: (front ++ .looked armed :: .workerSpawned ::
        (u ++ .noted (.booted (boot.map Prod.fst)) :: (v ++ tail))) ++
          [.released owner] ∧
      ConsoleOnly tail ∧ written tail = [] ∧ Armed profile front ∧
      ScopeTrace profile armed.ring.nextCursor outcome boot u v ∧
      r.map OperationResult.output =
        (scopeResult outcome boot).map Prod.fst := by
  rcases h with ⟨rfl, -⟩ | ⟨profile, owner, s, hprofile, rfl, hs⟩
  · cases hspawned
  · cases r with
    | error e =>
        rcases hs with ⟨hneutral, -, -⟩ | ⟨front, armed, s, rfl, harmed, hscoped⟩
        · exact absurd (by simpa using hspawned) hneutral.not_spawned
        · obtain ⟨outcome, boot, u, v, rfl, hr, hscope⟩ := hscoped
          exact ⟨profile, owner, front, armed, outcome, boot, u, v, [],
            hprofile, by simp, consoleOnly_nil, rfl, harmed, hscope,
            by rw [← hr]; rfl⟩
    | ok result =>
        obtain ⟨performed, s, c, rfl, hs, houtput⟩ := hs
        rcases hs with ⟨-, -, e, he⟩ | ⟨front, armed, s, rfl, harmed, hscoped⟩
        · cases he
        · obtain ⟨outcome, boot, u, v, rfl, hr, hscope⟩ := hscoped
          refine ⟨profile, owner, front, armed, outcome, boot, u, v,
            [.looked c], hprofile, by simp, by simp [Event.isConsole], rfl,
            harmed, hscope, ?_⟩
          rw [← hr, Except.map, Except.map, houtput]

/-- The worker is joined once while the lease is held. -/
theorem ScopeTrace.joinedOnce {cursor : Nat} {outcome : WorkerOutcome}
    {boot : Result Booted} {front tail : List Event}
    (h : ScopeTrace profile cursor outcome boot u v)
    (harmed : Armed profile front) (htail : ConsoleOnly tail)
    (owner : LeaseOwner) (armed : Console) :
    let s := .acquired owner :: (front ++ .looked armed :: .workerSpawned ::
      (u ++ .noted (.booted (boot.map Prod.fst)) :: (v ++ tail)))
    RpictlMcp.joins s = [outcome] ∧ ∀ other, .released other ∉ s := by
  refine ⟨?_, fun other => ?_⟩
  · simp [Event.joined?, harmed.neutral.joins, htail.joins, h.joins]
  · have hboot := BootTrace.not_released h.thread other
    have hfront := harmed.neutral.not_released other
    have hrest := htail.neutral.not_released other
    rcases h.late with rfl | rfl <;> simp [hboot, hfront, hrest]

/-- The report of a scope whose worker has succeeded. -/
theorem scopeResult_of_joinedOk {outcome : WorkerOutcome}
    {boot : Result Booted} (h : outcome.joinResult = .ok ()) :
    (scopeResult outcome boot).map Prod.fst =
      (boot.map Prod.fst).map observedOutput := by
  rw [scopeResult, h]
  cases boot <;> rfl

/-- A success of the scope is one of its worker and of its boot thread. -/
theorem scopeResult_ok {outcome : WorkerOutcome} {boot : Result Booted}
    {performed : Performed} (h : scopeResult outcome boot = .ok performed) :
    (∃ observation, outcome = .returned (.ok observation)) ∧
      ∃ booted, boot = .ok booted := by
  match outcome, boot with
  | .panicked, _ => cases h
  | .returned (.error e), _ => cases h
  | .returned (.ok observation), .error e => cases h
  | .returned (.ok observation), .ok booted =>
      exact ⟨⟨observation, rfl⟩, booted, rfl⟩

/-- The same of an operation whose report is the scope's. -/
theorem scope_succeeded {outcome : WorkerOutcome} {boot : Result Booted}
    {result : OperationResult}
    (h : (.ok result : Result OperationResult).map OperationResult.output =
      (scopeResult outcome boot).map Prod.fst) :
    (∃ observation, outcome = .returned (.ok observation)) ∧
      ∃ booted, boot = .ok booted := by
  cases hscoped : scopeResult outcome boot with
  | error e => simp [hscoped, Except.map] at h
  | ok performed => exact scopeResult_ok hscoped

end UbootRun

section Interleaving

variable {ι : Type} [DecidableEq ι] {w : World ι} {t : Thread ι}

/-- Of two looks of a thread the later one has seen no less. -/
theorem World.Ascending.looked (h : w.Ascending) {c d : Console}
    (a b rest : List Event)
    (hlog : w.threadLog t = a ++ .looked c :: (b ++ .looked d :: rest)) :
    c.Extends d := by
  have hpairs := h.threadLog t
  rw [hlog] at hpairs
  have hlater := (List.pairwise_cons.mp
    (List.pairwise_append.mp hpairs).2.1).1 (.looked d) (by simp)
  exact hlater c d rfl rfl

variable {profile : BoardProfile} {bytes : List UInt8}

/-- The answer of the boot thread, seen in the log of its run. -/
theorem Synchronized.promptAfter (h : w.Ascending)
    (before after : List Event) {s : List Event}
    (hsync : Synchronized profile bytes s)
    (hlog : w.threadLog t = before ++ (s ++ after))
    (hafter : written after = []) :
    PromptAfter profile bytes (s ++ after) := by
  obtain ⟨cursor, gap, seen, rfl, hgap, hpoll⟩ := hsync
  have hextends : cursor.Extends seen := by
    refine h.looked (t := t) before (writeEvents profile bytes ++ gap) after ?_
    rw [hlog]
    simp
  obtain ⟨-, hdetected⟩ := detected_of_pollAfter (by decide) hpoll
  rw [cursor.nextCursor_ring] at hdetected
  exact ⟨cursor, gap, seen, after, by simp, hgap, hafter, hextends,
    hdetected⟩

/-- The success of the boot thread, seen in the log of its run. -/
theorem BootSucceeded.promptReached (h : w.Ascending)
    (before after : List Event) {u : List Event} {armed : Console}
    (hboot : BootSucceeded profile armed.ring.nextCursor u)
    (hlog : w.threadLog t =
      before ++ .looked armed :: .workerSpawned :: (u ++ after))
    (hbefore : written before = []) (hafter : written after = []) :
    PromptReached profile (w.threadLog t) := by
  obtain ⟨first, front, fresh, s, rfl, hfront, hpoll, hsync⟩ := hboot
  have hextends : armed.Extends fresh := by
    refine h.looked (t := t) before (.workerSpawned :: front) (s ++ after) ?_
    rw [hlog]
    simp
  obtain ⟨hmem, hdetected⟩ := detected_of_pollAfter (by decide) hpoll
  rw [armed.nextCursor_ring] at hdetected
  have hprompt := hsync.promptAfter h
    (before ++ .looked armed :: .workerSpawned :: (front ++ [.looked fresh]))
    after (by rw [hlog]; simp) hafter
  refine ⟨before, armed, front, first, fresh, s ++ after, ?_, hbefore, hfront,
    by simpa using hmem, hextends, hdetected, hprompt⟩
  rw [hlog]
  simp

theorem servePowerOnUboot_traces {registry : BoardRegistry}
    (req : PowerOnUbootRequest) :
    Traces BoardOp.emits (Permitted false)
      (serve registry (.rpc (.powerOnUboot req))) [] fun reply t =>
        ∃ r, reply = .rpc (r.map .operation) ∧
          OperationTrace registry req.boardId UbootTrace r t := by
  refine Traces.map (Traces.mapOk (Traces.mono
    (powerOnUbootBoard_traces rfl req) ?_))
  exact fun r t ht => ⟨r, rfl, ht⟩

/-- What a call of `power_on_uboot` that has ended did in its main thread. -/
theorem powerOnUboot_operation {registry : BoardRegistry}
    {console : Console} {reqs : ι → ClientRequest} {i : ι}
    {req : PowerOnUbootRequest} {reply : Result RpcResult}
    {c : Pool BoardSig (Answer (ι := ι)) (World ι)}
    (hreq : reqs i = .rpc (.powerOnUboot req))
    (hreaches : BoardReaches (start registry console reqs) c)
    (hdone : c.prog (i, .main) = .pure (.rpc reply)) :
    ∃ r, reply = r.map .operation ∧
      OperationTrace registry req.boardId UbootTrace r
        (c.world.threadLog (i, .main)) := by
  have hexec := hreaches.exec (i, .main)
  rw [hdone] at hexec
  have hserve : (start registry console reqs).prog (i, .main) =
      serve registry (.rpc (.powerOnUboot req)) :=
    congrArg (serve registry) hreq
  rw [hserve] at hexec
  obtain ⟨r, hreply, htrace⟩ :=
    (servePowerOnUboot_traces req).result hexec
  injection hreply with hreply
  exact ⟨r, hreply, htrace⟩

/-- A worker that has returned success has settled the relay. -/
theorem World.Disciplined.settled {registry : BoardRegistry}
    {reqs : ι → ClientRequest} {i : ι} {observation : PowerObservation}
    (h : w.Disciplined registry reqs)
    (hreturned : w.WorkerReturned i (.ok observation)) :
    Settled true (w.threadLog (i, .worker)) := by
  obtain ⟨s, hs⟩ := List.getLast?_eq_some_iff.mp hreturned
  obtain ⟨profile, -, hpower⟩ := h.worker i s _ [] hs
  have hsettled := hpower.settled [] [.workerReturned (.ok observation)] rfl
  rw [hs]
  simpa using hsettled

/--
Whatever the order of the steps, a call of `power_on_uboot` that has started its
worker joins it once before it gives the lease back.  It fails with the worker's
failure, and otherwise ends as its boot thread has ended; and it succeeds only
with a verified relay and a fresh prompt.
-/
theorem powerOnUboot_joins_worker {registry : BoardRegistry}
    {console : Console} {reqs : ι → ClientRequest} {i : ι}
    {req : PowerOnUbootRequest} {reply : Result RpcResult}
    {c : Pool BoardSig (Answer (ι := ι)) (World ι)}
    (hreq : reqs i = .rpc (.powerOnUboot req))
    (hreaches : BoardReaches (start registry console reqs) c)
    (hdone : c.prog (i, .main) = .pure (.rpc reply))
    (hspawned : .workerSpawned ∈ c.world.threadLog (i, .main)) :
    ∃ profile outcome boot r,
      registry.board req.boardId = .ok profile ∧
      reply = r.map .operation ∧
      UbootRun profile outcome boot r (c.world.threadLog (i, .main))
        (c.world.threadLog (i, .worker)) := by
  obtain ⟨r, hreply, htrace⟩ := powerOnUboot_operation hreq hreaches hdone
  obtain ⟨profile, owner, front, armed, outcome, boot, u, v, tail, hprofile,
    hlog, htail, hsilent, harmed, hscope, hr⟩ := htrace.spawned hspawned
  have hdisciplined := hreaches.disciplined
  obtain ⟨hjoins, hkept⟩ := hscope.joinedOnce harmed htail owner armed
  have hreturned : ∀ result, outcome = .returned result →
      c.world.WorkerReturned i result := by
    rintro result rfl
    refine ((hdisciplined.logged.outcomes i).joined result ?_).2
    rw [hlog]
    refine List.mem_append_left _ (mem_of_mem_joins ?_)
    rw [hjoins]
    exact List.mem_singleton_self _
  have hsuccess : ∀ result, r = .ok result →
      (∃ observation, outcome = .returned (.ok observation)) ∧
        ∃ booted, boot = .ok booted := by
    rintro result rfl
    exact scope_succeeded hr
  refine ⟨profile, outcome, boot.map Prod.fst, r, hprofile, ?_, ?_, ?_, ?_, ?_,
    ?_, ?_, ?_⟩
  · exact hreply
  · exact ⟨_, owner, hlog, hjoins, hkept⟩
  · rw [hlog]
    simp
  · exact hreturned
  · intro e he
    rw [scopeResult, he] at hr
    cases r with
    | error e' => simpa [Except.map] using hr
    | ok result => simp [Except.map] at hr
  · intro hok
    rw [hr, scopeResult_of_joinedOk hok]
  · intro result hresult
    obtain ⟨⟨observation, houtcome⟩, -⟩ := hsuccess result hresult
    exact hdisciplined.settled (hreturned _ houtcome)
  · intro result hresult
    obtain ⟨-, booted, hbooted⟩ := hsuccess result hresult
    obtain ⟨-, hsucceeded⟩ := hscope.succeeded booted hbooted
    refine hsucceeded.promptReached hdisciplined.logged.ascending
      (.acquired owner :: front)
      (.noted (.booted (boot.map Prod.fst)) :: (v ++ tail) ++
        [.released owner]) (by rw [hlog]; simp) ?_ ?_
    · exact harmed.silent
    · rcases hscope.late with rfl | rfl <;>
        simp [Event.written?, hsilent]

end Interleaving

section Schedule

/-- The simulated board as `power_on_uboot` leaves it for its worker. -/
def armedWorld : World Unit :=
  ((((((World.initial simulatedConsole).acquireBy ((), .main)
    (operationOwner "power_on_uboot")).emit ((), .main)
      (queryEvents simulatedIdentity false)).markBy ((), .main)).look
        ((), .main)).spawnBy ())

/-- The same board after the worker has succeeded. -/
def poweredWorld : World Unit :=
  (armedWorld.emit ((), .worker)
    (setPowerEvents simulatedIdentity true)).finishBy ()
      (.ok (relayObservation true))

/-- A poll for a state that the board has just shown. -/
theorem simulated_poll {c d : Console} {states : List BoardState}
    (hsends : c.Sends d (utf8 "U-Boot>")) (hroom : 7 ≤ c.capacity)
    (hstates : .ubootPrompt ∈ states) :
    pollAfter simulated states c.ring.nextCursor d.ring =
      some .ubootPrompt := by
  have hlength : (utf8 "U-Boot>").length = 7 := by decide
  have hprompt : simulated.patterns.observed ((utf8 "U-Boot>").take
      observationBytes) = .ubootPrompt := by decide
  rw [pollAfter, stateAfter_eq,
    hsends.retainedAfter (by rw [hlength]; exact hroom), hprompt, requested,
    if_pos hstates]

/-- The world after a boot thread has joined its worker and has answered the
prompt that it found. -/
def bootedWorld (w : World Unit) (observation : PowerObservation)
    (d e : Console) : World Unit :=
  ((((((w.joinBy () (.returned (.ok observation))).hear d).look
    ((), .main)).look ((), .main)).emit ((), .main)
      (writeEvents simulated (utf8 "\r"))).hear e).look ((), .main)

/-- A boot thread that finds its worker finished and the prompt reached. -/
theorem bootPhase_performs {w : World Unit} {d e : Console}
    {observation : PowerObservation}
    (hfinished : w.worker () = .finished (.returned (.ok observation)))
    (hd : w.console.Sends d (utf8 "U-Boot>"))
    (he : d.Sends e (utf8 "U-Boot>")) (hroom : 7 ≤ w.console.capacity)
    (timeoutMs : Nat) :
    Performs ((), .main)
      (bootPhase simulated timeoutMs w.console.ring.nextCursor) w
      (.ok (.ubootPrompt,
        "fresh U-Boot prompt already reached; sent Enter to synchronize"),
        false) (bootedWorld w observation d e) := by
  have hmain : ∀ v : World Unit, v.Alive ((), .main) := fun _ => alive_main ()
  have hroom' : 7 ≤ d.capacity := by
    rw [hd.1]
    exact hroom
  refine Returns.bind (waitForStatesAfterChecked_performs (hmain w) (hmain _)
    (checkPower_joins hfinished) hd (simulated_poll hd hroom (by simp))) ?_
  refine Performs.step (boardSem_look (hmain _)) ?_
  refine Returns.bind (writeConsole_acts (hmain _) (utf8 "\r")) ?_
  refine Returns.bind (waitForStatesAfterChecked_performs (hmain _) (hmain _)
    (Returns.pure _ _) he (simulated_poll he hroom' (by simp))) ?_
  exact Returns.pure _ _

/-- What the thread scope returns when the boot has been at the prompt. -/
def enteredPrompt : Performed :=
  (observedOutput .ubootPrompt,
    ["fresh U-Boot prompt already reached; sent Enter to synchronize",
      "verified relay on"])

/-- A thread scope that is interrupted when it has started its worker. -/
theorem ubootScope_resumes {w v : World Unit} {d e : Console}
    {observation : PowerObservation} {cursor : Nat}
    (hidle : w.worker () = .idle)
    (hfinished : v.worker () = .finished (.returned (.ok observation)))
    (hd : v.console.Sends d (utf8 "U-Boot>"))
    (he : d.Sends e (utf8 "U-Boot>")) (hroom : 7 ≤ v.console.capacity)
    (hcursor : v.console.ring.nextCursor = cursor) (timeoutMs : Nat) :
    ActsAround ((), .main) (ubootScope simulated timeoutMs cursor)
      w (w.spawnBy ()) v (.ok enteredPrompt)
      ((bootedWorld v observation d e).emit ((), .main)
        [.noted (.booted (.ok .ubootPrompt))]) := by
  subst hcursor
  have hspawn := Acts.lift (Performs.of_sem (boardSem_spawn hidle))
  refine Returns.bind_resumes hspawn (Returns.resumes ?_)
  refine Acts.bind (Acts.lift (bootPhase_performs hfinished hd he hroom _)) ?_
  refine Acts.log () rfl (alive_main ()) ?_
  refine Acts.bind (Acts.pure ()) ?_
  exact Acts.bind (Acts.ofResult _) (Acts.pure _)

/-- The closure of `power_on_uboot`, interrupted there. -/
theorem powerOnUbootAction_resumes {v : World Unit} {d e : Console}
    {observation : PowerObservation}
    (hfinished : v.worker () = .finished (.returned (.ok observation)))
    (hconsole : v.console = armedWorld.console)
    (hd : v.console.Sends d (utf8 "U-Boot>"))
    (he : d.Sends e (utf8 "U-Boot>")) (timeoutMs : Nat) :
    ActsAround ((), .main) (powerOnUbootAction simulated timeoutMs)
      ((World.initial simulatedConsole).acquireBy ((), .main)
        (operationOwner "power_on_uboot")) armedWorld v (.ok enteredPrompt)
      ((bootedWorld v observation d e).emit ((), .main)
        [.noted (.booted (.ok .ubootPrompt))]) := by
  have hroom : 7 ≤ v.console.capacity := by
    rw [hconsole]
    decide
  refine Returns.bind_resumes (Acts.silent (0 : Nat) rfl (alive_main ()) rfl
    (powerStateUntil_acts (alive_main ()) (by decide) simulated_hasRelay
      simulated_verifiable false)) ?_
  have hoff : ¬(relayObservation false).state = "on" := by decide
  simp only [ExceptT.bindCont, if_neg hoff]
  refine Returns.bind_resumes (Acts.lift (Performs.of_sem
    (boardSem_mark (alive_main ())))) ?_
  refine Returns.bind_resumes (nextCursor_acts (alive_main ())) ?_
  exact ubootScope_resumes rfl hfinished hd he hroom (by rw [hconsole]; rfl)
    timeoutMs

/-- One client that asks for the U-Boot prompt of the simulated board. -/
def ubootRequest : Unit → ClientRequest :=
  fun _ => .rpc (.powerOnUboot ⟨"simulated", none⟩)

theorem workerOf_ubootRequest :
    workerOf simulatedRegistry (ubootRequest ()) = powerWorker simulated := by
  have hprofile : simulatedRegistry.board (ubootRequest ()).boardId =
      .ok simulated := simulatedRegistry_board
  rw [workerOf, hprofile]

/-- The request, interrupted when its worker has been started. -/
theorem servePowerOnUboot_resumes {v : World Unit} {d e : Console}
    {observation : PowerObservation}
    (hfinished : v.worker () = .finished (.returned (.ok observation)))
    (hconsole : v.console = armedWorld.console)
    (hlease : v.lease = armedWorld.lease)
    (hd : v.console.Sends d (utf8 "U-Boot>"))
    (he : d.Sends e (utf8 "U-Boot>")) :
    ∃ result, Prog.Resumes (afterEnv boardSem BoardEnv ((), .main))
      (serve simulatedRegistry (ubootRequest ()))
      (World.initial simulatedConsole) armedWorld v
      (.rpc (.ok (.operation result)))
      ((((bootedWorld v observation d e).emit ((), .main)
        [.noted (.booted (.ok .ubootPrompt))]).look ((), .main)).releaseBy
          ((), .main) (operationOwner "power_on_uboot")) := by
  have hmain : ∀ w : World Unit, w.Alive ((), .main) := fun _ => alive_main ()
  have haction := powerOnUbootAction_resumes hfinished hconsole hd he
    simulated.timing.operationTimeoutMs
  obtain ⟨result, hoperation⟩ : ∃ result, ActsAround ((), .main)
      (powerOnUboot simulatedRegistry "simulated"
        simulated.timing.operationTimeoutMs)
      (World.initial simulatedConsole) armedWorld v (.ok result) _ :=
    operation_resumes simulatedRegistry_board rfl haction hlease
  have hboard : ActsAround ((), .main)
      (powerOnUbootBoard simulatedRegistry ⟨"simulated", none⟩)
      (World.initial simulatedConsole) armedWorld v (.ok result) _ :=
    Acts.bindAround (lookup_acts simulatedRegistry_board _) hoperation
  have hserve : serve simulatedRegistry (ubootRequest ()) =
        ClientResponse.rpc <$> Except.map RpcResult.operation <$>
          (powerOnUbootBoard simulatedRegistry ⟨"simulated", none⟩).run := by
    rw [ubootRequest, serve, handleRpc, ExceptT.run_map]
  rw [hserve]
  exact ⟨result, (hboard.map _).map _⟩

/--
A run in which the worker succeeds while the boot thread is held up and the
board comes to its prompt.
-/
theorem powerOnUboot_runs :
    ∃ c result, BoardReaches
        (start simulatedRegistry simulatedConsole ubootRequest) c ∧
      c.prog ((), .main) = .pure (.rpc (.ok (.operation result))) ∧
      .workerSpawned ∈ c.world.threadLog ((), .main) := by
  have hcapacity : 0 < armedWorld.console.capacity := by decide
  obtain ⟨d, hd⟩ : ∃ d, armedWorld.console.Sends d (utf8 "U-Boot>") :=
    Console.exists_sends _ hcapacity (by decide)
  obtain ⟨e, he⟩ : ∃ e, d.Sends e (utf8 "U-Boot>") := by
    refine d.exists_sends (by rw [hd.1]; exact hcapacity) ?_
    rw [hd.stream]
    decide
  have hworker := powerWorker_performs (w := armedWorld) (i := ()) rfl
    (by decide) simulated_hasRelay simulated_verifiable
  rw [← workerOf_ubootRequest] at hworker
  obtain ⟨result, hmain⟩ := servePowerOnUboot_resumes (v := poweredWorld) rfl
    rfl rfl hd he
  obtain ⟨c, hreaches, hdone, hworld⟩ := Pool.reaches_of_resumes
    (c := start simulatedRegistry simulatedConsole ubootRequest)
    (by simp) hmain hworker
  refine ⟨c, result, hreaches, hdone, ?_⟩
  rw [hworld]
  simp [World.threadLog, bootedWorld, poweredWorld, armedWorld, World.look,
    World.emit, World.hear, World.joinBy, World.finishBy, World.releaseBy,
    World.spawnBy]

/-- In that run the worker is joined, and the prompt is fresh. -/
theorem powerOnUboot_joins_worker_prompt :
    ∃ c result, BoardReaches
        (start simulatedRegistry simulatedConsole ubootRequest) c ∧
      c.prog ((), .main) = .pure (.rpc (.ok (.operation result))) ∧
      ∃ profile outcome boot r,
        simulatedRegistry.board "simulated" = .ok profile ∧
        .ok (.operation result) = r.map RpcResult.operation ∧
        UbootRun profile outcome boot r (c.world.threadLog ((), .main))
          (c.world.threadLog ((), .worker)) := by
  obtain ⟨c, result, hreaches, hdone, hspawned⟩ := powerOnUboot_runs
  have hreq : ubootRequest () =
      .rpc (.powerOnUboot ⟨"simulated", none⟩) := rfl
  exact ⟨c, result, hreaches, hdone,
    powerOnUboot_joins_worker hreq hreaches hdone hspawned⟩

end Schedule

end RpictlMcp
