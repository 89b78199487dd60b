import RpictlMcp.PowerOperations

/-!
# rpictl-mcp: traces of `power_on_uboot`

The boot thread of `power_on_uboot` polls the console and, before each poll,
joins the power worker if that has finished.  `BootTrace` is what it may have
done so far: console events, and at most one join, which happened exactly when
the handle is gone.  The end of the thread scope joins what is left, so that
`ScopeTrace` has exactly one join, whose outcome takes precedence over what the
boot thread has found.
-/

namespace RpictlMcp

open Prog

/-- The outcome of the worker that an event joins. -/
def Event.joined? : Event → Option WorkerOutcome
  | .workerJoined outcome => some outcome
  | _ => none

/-- The outcomes of the workers that a trace joins. -/
def joins (t : List Event) : List WorkerOutcome :=
  t.filterMap Event.joined?

@[simp] theorem joins_nil : joins [] = [] := rfl

@[simp] theorem joins_cons (e : Event) (t : List Event) :
    joins (e :: t) = e.joined?.toList ++ joins t := by
  cases h : e.joined? <;> simp [joins, h]

@[simp] theorem joins_append (s t : List Event) :
    joins (s ++ t) = joins s ++ joins t := by
  simp [joins]

theorem mem_of_mem_joins {outcome : WorkerOutcome} {t : List Event}
    (h : outcome ∈ joins t) : .workerJoined outcome ∈ t := by
  obtain ⟨e, he, hjoined⟩ := List.mem_filterMap.mp h
  cases e with
  | workerJoined other =>
      cases hjoined
      exact he
  | _ => cases hjoined

theorem ConsoleOnly.joins {t : List Event} (h : ConsoleOnly t) :
    joins t = [] := by
  rw [RpictlMcp.joins, List.filterMap_eq_nil_iff]
  intro e he
  have := h e he
  cases e <;> first | rfl | simp [Event.isConsole] at this

/-- What joining a worker yields. -/
def WorkerOutcome.joinResult : WorkerOutcome → Result Unit
  | .panicked => .error (Error.new .powerBackendFailed "power_on_uboot"
      (utf8 "power worker panicked"))
  | .returned (.error error) => .error error
  | .returned (.ok _) => .ok ()

/-- Events of the boot thread: it deals with the console and joins. -/
def Event.isBoot (e : Event) : Bool :=
  e.isConsole || e.joined?.isSome

/-- A trace of the boot thread and whether the worker's handle is left. -/
structure BootTrace (handle : Bool) (outcomes : List WorkerOutcome)
    (t : List Event) : Prop where
  boot : ∀ e ∈ t, e.isBoot = true
  joins : RpictlMcp.joins t = outcomes
  once : outcomes.length ≤ 1
  handle : handle = outcomes.isEmpty

section Boot

variable {free : Bool} {profile : BoardProfile}

theorem BootTrace.nil : BootTrace true [] [] :=
  ⟨by simp, rfl, by simp, rfl⟩

/-- Console events belong to the boot thread. -/
theorem BootTrace.append {handle : Bool} {outcomes : List WorkerOutcome}
    {t t' : List Event} (h : BootTrace handle outcomes t)
    (h' : ConsoleOnly t') : BootTrace handle outcomes (t ++ t') where
  boot := by
    intro e he
    rcases List.mem_append.mp he with hleft | hright
    · exact h.boot e hleft
    · simp [Event.isBoot, h' e hright]
  joins := by rw [joins_append, h.joins, h'.joins, List.append_nil]
  once := h.once
  handle := h.handle

/-- The one join of the boot thread. -/
theorem BootTrace.join {t : List Event} (h : BootTrace true [] t)
    (outcome : WorkerOutcome) :
    BootTrace false [outcome] (t ++ [.workerJoined outcome]) where
  boot := by
    intro e he
    rcases List.mem_append.mp he with hleft | hright
    · exact h.boot e hleft
    · obtain rfl := List.mem_singleton.mp hright
      rfl
  joins := by rw [joins_append, h.joins]; rfl
  once := by simp
  handle := rfl

/-- The boot thread keeps the lease. -/
theorem holds_append_boot {t : List Event} (h : ∀ e ∈ t, e.isBoot = true)
    (log : List Event) : holds (log ++ t) = holds log := by
  induction t generalizing log with
  | nil => simp
  | cons e t ih =>
      have he := h e List.mem_cons_self
      rw [List.append_cons, ih fun x hx => h x (List.mem_cons_of_mem e hx),
        holds_append_singleton]
      cases e <;> first | rfl | simp [Event.isBoot, Event.isConsole,
        Event.joined?] at he

/-- The worker is waiting to be joined as long as nothing has been joined. -/
theorem pending_append_boot {t : List Event}
    (h : ∀ e ∈ t, e.isBoot = true) (log : List Event) :
    pending (log ++ t) = (pending log && (joins t).isEmpty) := by
  induction t generalizing log with
  | nil => simp
  | cons e t ih =>
      have he := h e List.mem_cons_self
      rw [List.append_cons, ih fun x hx => h x (List.mem_cons_of_mem e hx),
        pending_append_singleton]
      cases e with
      | workerJoined outcome => simp [Event.worker, joins, Event.joined?]
      | _ => first | rfl | simp [Event.isBoot, Event.isConsole,
          Event.joined?] at he

/-- A log inside the thread scope, before anything of the scope happened. -/
def InScope (log : List Event) : Prop :=
  holds log = true ∧ pending log = true

theorem BootTrace.holds {log t : List Event} {handle : Bool}
    {outcomes : List WorkerOutcome} (h : BootTrace handle outcomes t)
    (hlog : InScope log) : RpictlMcp.holds (log ++ t) = true := by
  rw [holds_append_boot h.boot, hlog.1]

theorem BootTrace.pending {log t : List Event} {handle : Bool}
    {outcomes : List WorkerOutcome} (h : BootTrace handle outcomes t)
    (hlog : InScope log) : RpictlMcp.pending (log ++ t) = handle := by
  rw [pending_append_boot h.boot, hlog.2, h.joins, h.handle,
    Bool.true_and]

theorem joinPower_traces {base : List Event}
    (hbase : RpictlMcp.pending base = true) :
    Traces BoardOp.emits (Permitted free) joinPower base fun r t =>
      ∃ outcome, t = [.workerJoined outcome] ∧ r = outcome.joinResult := by
  refine Traces.askBind ?_
  rintro outcome es ⟨c, c', -, rfl⟩
  refine ⟨⟨hbase, trivial⟩, ?_⟩
  match outcome with
  | .panicked => exact Traces.pure ⟨_, rfl, rfl⟩
  | .returned (.error error) => exact Traces.pure ⟨_, rfl, rfl⟩
  | .returned (.ok observation) => exact Traces.pure ⟨_, rfl, rfl⟩

/-- The check before a poll joins the worker once it has finished. -/
theorem checkPower_traces {base t : List Event} {handle : Bool}
    {outcomes : List WorkerOutcome} (hbase : InScope base)
    (ht : BootTrace handle outcomes t) :
    Traces BoardOp.emits (Permitted free) (checkPower handle) (base ++ t)
      fun r t' => (t' = [] ∧ r = (.ok (), handle)) ∨
        handle = true ∧ ∃ outcome, t' = [.workerJoined outcome] ∧
          r = (outcome.joinResult, false) := by
  have hpending := ht.pending hbase
  cases handle with
  | false => exact Traces.pure (.inl ⟨rfl, rfl⟩)
  | true =>
      refine Traces.askSilent (fun _ _ => rfl) fun finished => ?_
      cases finished with
      | false => exact Traces.pure (.inl ⟨rfl, rfl⟩)
      | true =>
          refine Traces.bind (joinPower_traces hpending) ?_
          rintro r t' ⟨outcome, rfl, rfl⟩
          exact Traces.pure (.inr ⟨rfl, outcome, by simp, rfl⟩)

/-- No join has reported a failure. -/
def JoinedOk (outcomes : List WorkerOutcome) : Prop :=
  ∀ outcome ∈ outcomes, outcome.joinResult = .ok ()

/-- A failure of the boot thread is its own, or the worker's that it joined. -/
def BootFailure (e : Error) (outcomes : List WorkerOutcome) : Prop :=
  (e.code.isRejection = false ∧ JoinedOk outcomes) ∨
    ∃ outcome, outcomes = [outcome] ∧ outcome.joinResult = .error e

variable (free profile) in
/-- What a wait of the boot thread adds to what it has done before. -/
theorem bootWait_traces {base t₀ : List Event} {handle : Bool}
    {outcomes : List WorkerOutcome} (hbase : InScope base)
    (ht₀ : BootTrace handle outcomes t₀) (hok : JoinedOk outcomes)
    (states : List BoardState) (timeoutMs cursor : Nat) :
    Traces BoardOp.emits (Permitted free)
      (waitForStatesAfterChecked profile states timeoutMs cursor checkPower
        handle) (base ++ t₀)
      fun r t => ∃ outcomes', BootTrace r.2 outcomes' (t₀ ++ t) ∧
        written t = [] ∧
        match r.1 with
        | .ok state => JoinedOk outcomes' ∧
            ∃ front c, t = front ++ [.looked c] ∧
              pollAfter profile states cursor c.ring = some state
        | .error e => BootFailure e outcomes' := by
  refine Traces.mono (waitForStatesAfterChecked_traces
    (J := fun handle t => ∃ outcomes', BootTrace handle outcomes' (t₀ ++ t) ∧
      written t = [] ∧ JoinedOk outcomes')
    (F := fun e handle t => ∃ outcome, BootTrace handle [outcome] (t₀ ++ t) ∧
      written t = [] ∧ outcome.joinResult = .error e) ?_ ?_ ?_ ?_) ?_
  · exact ⟨outcomes, by simpa using ht₀, rfl, hok⟩
  · rintro handle t ⟨outcomes', ht, hwritten, hok⟩
    rw [List.append_assoc]
    refine Traces.mono (checkPower_traces hbase ht) ?_
    rintro _ t' (⟨rfl, rfl⟩ | ⟨rfl, outcome, rfl, rfl⟩)
    · exact ⟨outcomes', by simpa using ht, by simpa using hwritten, hok⟩
    · have hnone : outcomes' = [] := by simpa using ht.handle.symm
      subst hnone
      have hjoin := ht.join outcome
      rw [List.append_assoc] at hjoin
      have hwritten' : written (t ++ [.workerJoined outcome]) = [] := by
        rw [written_append, hwritten]
        rfl
      cases hresult : outcome.joinResult with
      | error e => exact ⟨outcome, hjoin, hwritten', hresult⟩
      | ok u => exact ⟨[outcome], hjoin, hwritten', by simp [JoinedOk, hresult]⟩
  · rintro handle t c ⟨outcomes', ht, hwritten, hok⟩
    refine ⟨trivial, outcomes', ?_, ?_, hok⟩
    · rw [← List.append_assoc]
      exact ht.append (by simp [Event.isConsole])
    · rw [written_append, hwritten]
      rfl
  · rintro handle t ⟨outcomes', ht, hwritten, hok⟩
    refine ⟨trivial, outcomes', ?_, ?_, hok⟩
    · rw [← List.append_assoc]
      exact ht.append (by simp [Event.isConsole])
    · rw [written_append, hwritten]
      rfl
  · rintro ⟨e | state, handle⟩ t hr
    · rcases hr with ⟨outcome, ht, hwritten, hresult⟩ |
        ⟨⟨outcomes', ht, hwritten, hok⟩, he⟩
      · exact ⟨[outcome], ht, hwritten, .inr ⟨outcome, rfl, hresult⟩⟩
      · exact ⟨outcomes', ht, hwritten, .inl ⟨he, hok⟩⟩
    · obtain ⟨⟨outcomes', ht, hwritten, hok⟩, hlast⟩ := hr
      exact ⟨outcomes', ht, hwritten, hok, hlast⟩

/-- The cursor is taken, the bytes are written, and then a prompt is seen. -/
def Synchronized (profile : BoardProfile) (bytes : List UInt8)
    (t : List Event) : Prop :=
  ∃ c front c', t = .looked c :: writeEvents profile bytes ++ front ++
      [.looked c'] ∧
    written front = [] ∧
    pollAfter profile [.ubootPrompt] c.ring.nextCursor c'.ring =
      some .ubootPrompt

theorem writeAndAwaitPrompt_traces {base t₀ : List Event} {handle : Bool}
    {outcomes : List WorkerOutcome} (hbase : InScope base)
    (ht₀ : BootTrace handle outcomes t₀) (hok : JoinedOk outcomes)
    (bytes : List UInt8) (action : String) :
    Traces BoardOp.emits (Permitted free)
      (writeAndAwaitPrompt profile bytes action handle) (base ++ t₀)
      fun r t => ∃ outcomes', BootTrace r.2 outcomes' (t₀ ++ t) ∧
        match r.1 with
        | .ok booted => JoinedOk outcomes' ∧
            booted = (.ubootPrompt, action) ∧ Synchronized profile bytes t
        | .error e => BootFailure e outcomes' := by
  refine Traces.askLook fun c => ⟨trivial, ?_⟩
  have hlooked : BootTrace handle outcomes (t₀ ++ [.looked c]) :=
    ht₀.append (by simp [Event.isConsole])
  have hheld := hlooked.holds hbase
  rw [← List.append_assoc] at hheld
  refine Traces.bind (writeConsole_traces (writable_held free) bytes hheld) ?_
  intro written' w hw
  have hwrote : BootTrace handle outcomes (t₀ ++ [.looked c] ++ w) :=
    hlooked.append hw.console
  cases written' with
  | error e =>
      refine Traces.pure ⟨outcomes, by simpa using hwrote, .inl ⟨?_, hok⟩⟩
      exact accepted_error.mp hw.accepted
  | ok u =>
      have hwait := bootWait_traces free profile hbase hwrote hok
        [.ubootPrompt] 10000 c.ring.nextCursor
      rw [← List.append_assoc base, ← List.append_assoc base] at hwait
      refine Traces.bind hwait ?_
      rintro ⟨e | state, handle'⟩ t ⟨outcomes', ht, hwritten, hr⟩
      · exact Traces.pure ⟨outcomes', by simpa using ht, hr⟩
      · obtain ⟨hok', front, c', rfl, hpoll⟩ := hr
        have hstate : state = .ubootPrompt := by
          simpa using (mem_of_requested hpoll).2
        subst hstate
        refine Traces.pure ⟨outcomes', by simpa using ht, hok', rfl, ?_⟩
        refine ⟨c, front, c', by simp [hw.all rfl], ?_, hpoll⟩
        rw [written_append] at hwritten
        exact (List.append_eq_nil_iff.mp hwritten).1

/-- What the boot thread writes, depending on what it has seen first. -/
def bootBytes (profile : BoardProfile) (first : BoardState) : List UInt8 :=
  if first = .ubootPrompt then utf8 "\r" else utf8 profile.uboot.interrupt

/-- A fresh state is seen, and then the boot is synchronized with it. -/
def BootSucceeded (profile : BoardProfile) (cursor : Nat) (t : List Event) :
    Prop :=
  ∃ first front c s, t = front ++ .looked c :: s ∧ written front = [] ∧
    pollAfter profile [.ubootCountdown, .ubootPrompt] cursor c.ring =
      some first ∧
    Synchronized profile (bootBytes profile first) s

/-- What the boot closure does. -/
theorem bootPhase_traces {base : List Event} (hbase : InScope base)
    (timeoutMs cursor : Nat) :
    Traces BoardOp.emits (Permitted free) (bootPhase profile timeoutMs cursor)
      base fun r t => ∃ outcomes, BootTrace r.2 outcomes t ∧
        match r.1 with
        | .ok booted => JoinedOk outcomes ∧ booted.1 = .ubootPrompt ∧
            BootSucceeded profile cursor t
        | .error e => BootFailure e outcomes := by
  have hwait := bootWait_traces free profile hbase BootTrace.nil
    (by simp [JoinedOk]) [.ubootCountdown, .ubootPrompt] timeoutMs cursor
  rw [List.append_nil] at hwait
  refine Traces.bind hwait ?_
  rintro ⟨e | first, handle⟩ t ⟨outcomes, ht, hwritten, hr⟩
  · exact Traces.pure ⟨outcomes, by simpa using ht, hr⟩
  · obtain ⟨hok, front, c, rfl, hpoll⟩ := hr
    rw [List.nil_append] at ht
    have hfront : written front = [] := by
      rw [written_append] at hwritten
      exact (List.append_eq_nil_iff.mp hwritten).1
    have hrest : ∀ bytes action, bytes = bootBytes profile first →
        Traces BoardOp.emits (Permitted free)
          (writeAndAwaitPrompt profile bytes action handle)
          (base ++ (front ++ [.looked c])) fun r t =>
            ∃ outcomes', BootTrace r.2 outcomes' (front ++ [.looked c] ++ t) ∧
              match r.1 with
              | .ok booted => JoinedOk outcomes' ∧ booted.1 = .ubootPrompt ∧
                  BootSucceeded profile cursor (front ++ [.looked c] ++ t)
              | .error e => BootFailure e outcomes' := by
      rintro _ action rfl
      refine Traces.mono (writeAndAwaitPrompt_traces hbase ht hok _ action) ?_
      rintro ⟨e | booted, handle'⟩ t ⟨outcomes', ht', hr⟩
      · exact ⟨outcomes', ht', hr⟩
      · obtain ⟨hok', rfl, hsync⟩ := hr
        exact ⟨outcomes', ht', hok', rfl, first, front, c, t, by simp,
          hfront, hpoll, hsync⟩
    simp only
    split
    · rename_i hprompt
      exact hrest _ _ (if_pos hprompt).symm
    · rename_i hcountdown
      exact hrest _ _ (if_neg hcountdown).symm

/-- What the thread scope returns when the worker has succeeded. -/
def bootReport (boot : Result Booted) : Result Performed :=
  boot.map fun booted =>
    (observedOutput booted.1, [booted.2, "verified relay on"])

/-- What the thread scope returns: a failure of the worker takes precedence. -/
def scopeResult (outcome : WorkerOutcome) (boot : Result Booted) :
    Result Performed :=
  match outcome.joinResult with
  | .error e => .error e
  | .ok () => bootReport boot

/-- What the thread scope of `power_on_uboot` does. -/
structure ScopeTrace (profile : BoardProfile) (cursor : Nat)
    (outcome : WorkerOutcome) (boot : Result Booted) (u v : List Event) :
    Prop where
  thread : ∀ e ∈ u, e.isBoot = true
  late : v = [] ∨ v = [.workerJoined outcome]
  joins : joins u ++ joins v = [outcome]
  accepted : outcome.joinResult = .ok () → Accepted boot
  succeeded : ∀ booted, boot = .ok booted → booted.1 = .ubootPrompt ∧
    BootSucceeded profile cursor u

theorem ScopeTrace.leased {base u v : List Event} {cursor : Nat}
    {outcome : WorkerOutcome} {boot : Result Booted}
    (h : ScopeTrace profile cursor outcome boot u v) (hbase : Leased base)
    (point : Note) :
    Leased (base ++ (.workerSpawned :: u ++ .noted point :: v)) := by
  have hsplit : base ++ (.workerSpawned :: u ++ .noted point :: v) =
      base ++ [.workerSpawned] ++ u ++ [.noted point] ++ v := by simp
  have hscope : Leased (base ++ [.workerSpawned] ++ u ++ [.noted point] ++
      v) := by
    rcases h.late with rfl | rfl
    · have hjoined := h.joins
      rw [joins_nil, List.append_nil] at hjoined
      simp only [Leased, List.append_nil, holds_append_singleton,
        pending_append_singleton, holds_append_boot h.thread,
        pending_append_boot h.thread, hjoined, hbase.1, Event.lease,
        Event.worker, List.isEmpty_cons, Bool.and_false, and_self]
    · simp only [Leased, holds_append_singleton, pending_append_singleton,
        holds_append_boot h.thread, hbase.1, Event.lease, Event.worker,
        and_self]
  rw [hsplit]
  exact hscope

/-- The end of the thread scope. -/
theorem bootReport_traces {base : List Event} (boot : Result Booted) :
    Traces BoardOp.emits (Permitted free)
      (do
        let booted ← ofResult boot
        return (observedOutput booted.1, [booted.2, "verified relay on"]) :
          Action Performed).run base
      fun r t => t = [] ∧ r = bootReport boot := by
  refine Traces.resultBind ?_ ?_
  · rintro booted rfl
    exact Traces.done ⟨rfl, rfl⟩
  · rintro e rfl
    exact ⟨rfl, rfl⟩

/-- The failure of a worker that a poll has joined is the boot's own failure. -/
theorem scopeResult_of_joined {outcome : WorkerOutcome} {boot : Result Booted}
    (h : match boot with
      | .ok _ => JoinedOk [outcome]
      | .error e => BootFailure e [outcome]) :
    scopeResult outcome boot = bootReport boot ∧
      (outcome.joinResult = .ok () → Accepted boot) := by
  cases boot with
  | ok booted =>
      exact ⟨by simp [scopeResult, h outcome (by simp)],
        fun _ => accepted_ok booted⟩
  | error e =>
      rcases h with ⟨he, hok⟩ | ⟨other, hother, he⟩
      · exact ⟨by simp [scopeResult, hok outcome (by simp)],
          fun _ => accepted_error.mpr he⟩
      · cases hother
        exact ⟨by simp [scopeResult, he, bootReport, Except.map],
          fun hok => by simp [he] at hok⟩

/-- A rejection of the whole scope is one that the worker has returned. -/
theorem ScopeTrace.returned_of_rejected {u v : List Event} {cursor : Nat}
    {outcome : WorkerOutcome} {boot : Result Booted} {e : Error}
    (h : ScopeTrace profile cursor outcome boot u v)
    (he : scopeResult outcome boot = .error e)
    (hreject : e.code.isRejection = true) : outcome = .returned (.error e) := by
  match outcome with
  | .panicked =>
      cases he
      simp [ErrorCode.isRejection] at hreject
  | .returned (.error e') =>
      cases he
      rfl
  | .returned (.ok observation) =>
      cases boot with
      | ok booted => cases he
      | error e' =>
          cases he
          simp [accepted_error.mp (h.accepted rfl)] at hreject

theorem ScopeTrace.mem {u v : List Event} {cursor : Nat}
    {outcome : WorkerOutcome} {boot : Result Booted}
    (h : ScopeTrace profile cursor outcome boot u v) :
    .workerJoined outcome ∈ u ∨ .workerJoined outcome ∈ v := by
  have hmem : outcome ∈ RpictlMcp.joins u ++ RpictlMcp.joins v := by
    simp [h.joins]
  rcases List.mem_append.mp hmem with hu | hv
  · exact .inl (mem_of_mem_joins hu)
  · exact .inr (mem_of_mem_joins hv)

/-- What the thread scope of `power_on_uboot` does. -/
def Scoped (profile : BoardProfile) (cursor : Nat) (r : Result Performed)
    (t : List Event) : Prop :=
  ∃ outcome boot u v,
    t = .workerSpawned :: u ++ .noted (.booted (boot.map Prod.fst)) :: v ∧
    r = scopeResult outcome boot ∧
    ScopeTrace profile cursor outcome boot u v

theorem ScopeTrace.scoped {base : List Event} (hbase : Leased base)
    {u v : List Event} {cursor : Nat} {outcome : WorkerOutcome}
    {boot : Result Booted}
    (h : ScopeTrace profile cursor outcome boot u v) :
    let t := .workerSpawned :: (u ++
      .noted (.booted (boot.map Prod.fst)) :: v)
    Leased (base ++ t) ∧ Scoped profile cursor (scopeResult outcome boot) t :=
  ⟨h.leased hbase _, outcome, boot, u, v, rfl, rfl, h⟩

/-- The worker is joined once, and its failure takes precedence. -/
theorem ubootScope_traces {base : List Event} (hbase : Leased base)
    (hmarked : ∃ c, .marked c ∈ base) (timeoutMs cursor : Nat) :
    Traces BoardOp.emits (Permitted free)
      (ubootScope profile timeoutMs cursor).run base fun r t =>
        Leased (base ++ t) ∧ Scoped profile cursor r t := by
  refine Traces.eventBind (fun _ _ => rfl) ⟨hbase.1, hbase.2, hmarked⟩
    fun _ => ?_
  have hscope : InScope (base ++ [.workerSpawned]) := by
    simp [InScope, hbase.1, Event.lease, Event.worker]
  refine Traces.bindE (Φ := fun r t => ∃ boot, r = .ok boot ∧
    ∃ outcomes, BootTrace boot.2 outcomes t ∧ match boot.1 with
      | .ok booted => JoinedOk outcomes ∧ booted.1 = .ubootPrompt ∧
          BootSucceeded profile cursor t
      | .error e => BootFailure e outcomes)
    (Traces.lift (Traces.mono (bootPhase_traces hscope timeoutMs cursor)
      fun boot t ht => ⟨boot, rfl, ht⟩)) ?_ (by simp)
  rintro ⟨boot, handle⟩ u ⟨_, ⟨⟩, outcomes, hu, hboot⟩
  refine Traces.eventBind (fun _ _ => rfl) trivial fun _ => ?_
  have hsucceeded : ∀ booted, boot = .ok booted → booted.1 = .ubootPrompt ∧
      BootSucceeded profile cursor u := by
    rintro booted rfl
    exact hboot.2
  cases handle with
  | false =>
      -- A poll has joined the worker.
      obtain ⟨outcome, rfl⟩ : ∃ outcome, outcomes = [outcome] := by
        have hne : outcomes ≠ [] := by simpa using hu.handle
        exact List.length_eq_one_iff.mp (Nat.le_antisymm hu.once
          (List.length_pos_iff.mpr hne))
      obtain ⟨hresult, haccepted⟩ : scopeResult outcome boot =
          bootReport boot ∧ (outcome.joinResult = .ok () → Accepted boot) := by
        apply scopeResult_of_joined
        cases boot with
        | ok booted => exact hboot.1
        | error e => exact hboot
      have htrace : ScopeTrace profile cursor outcome boot u [] :=
        ⟨hu.boot, .inl rfl, by simp [hu.joins], haccepted, hsucceeded⟩
      refine Traces.bindE (Φ := fun r t => r = .ok () ∧ t = [])
        (Traces.pure ⟨rfl, rfl⟩) ?_ (by simp)
      rintro ⟨⟩ _ ⟨-, rfl⟩
      refine Traces.mono (bootReport_traces boot) ?_
      rintro _ _ ⟨rfl, rfl⟩
      rw [← hresult]
      exact htrace.scoped hbase
  | true =>
      -- The worker is still to be joined.
      obtain rfl : outcomes = [] := by simpa using hu.handle.symm
      have haccepted : Accepted boot := by
        cases boot with
        | ok booted => exact accepted_ok booted
        | error e =>
            rcases hboot with ⟨he, -⟩ | ⟨other, hother, -⟩
            · exact accepted_error.mpr he
            · cases hother
      have hpending : pending (base ++ [.workerSpawned] ++ u ++
          [.noted (.booted (boot.map Prod.fst))]) = true := by
        rw [pending_append_singleton, hu.pending hscope]
        rfl
      have htrace : ∀ outcome, ScopeTrace profile cursor outcome boot u
          [.workerJoined outcome] := fun outcome =>
        ⟨hu.boot, .inr rfl, by rw [hu.joins]; rfl, fun _ => haccepted,
          hsucceeded⟩
      refine Traces.bindE (Φ := fun r t => ∃ outcome,
        t = [.workerJoined outcome] ∧ r = outcome.joinResult)
        (joinPower_traces hpending) ?_ ?_
      · rintro ⟨⟩ _ ⟨outcome, rfl, hjoined⟩
        refine Traces.mono (bootReport_traces boot) ?_
        rintro _ _ ⟨rfl, rfl⟩
        have := (htrace outcome).scoped hbase
        rw [scopeResult, ← hjoined] at this
        exact this
      · rintro e _ ⟨outcome, rfl, hjoined⟩
        have := (htrace outcome).scoped hbase
        rw [scopeResult, ← hjoined] at this
        exact this

/-- What `power_on_uboot` does before it starts its worker. -/
structure Armed (profile : BoardProfile) (front : List Event) : Prop where
  neutral : Neutral front
  silent : written front = []
  relay : ∃ identity, HasRelay profile identity
  off : ∃ q observation c, front = q ++ [.noted (.queried observation)] ++
    [.marked c] ∧ Passive q ∧ observation.state ≠ "on"

/-- What `power_on_uboot` does under the lease: it fails early, or it starts
its worker. -/
def UbootTrace (profile : BoardProfile) (r : Result Performed)
    (t : List Event) : Prop :=
  (Neutral t ∧ Harmless r t ∧ ∃ e, r = .error e) ∨
    ∃ front c s, t = front ++ .looked c :: s ∧ Armed profile front ∧
      Scoped profile c.ring.nextCursor r s

theorem Passive.written {t : List Event} (h : Passive t) :
    written t = [] := by
  rw [RpictlMcp.written, List.filterMap_eq_nil_iff]
  intro e he
  have := h e he
  cases e <;> first | rfl | simp [Event.isPassive] at this

theorem powerOnUbootAction_traces {base : List Event} (hbase : Leased base)
    (timeoutMs : Nat) :
    Traces BoardOp.emits (Permitted free)
      (powerOnUbootAction profile timeoutMs).run base fun r t =>
        Leased (base ++ t) ∧ UbootTrace profile r t := by
  refine Traces.bindE (powerState_runs base hbase) ?_ ?_
  · rintro observation t ⟨hneutral, q, identity, rfl, hq, hrelay, -⟩
    split
    · refine Traces.throwError ?_
      rw [List.append_nil]
      exact ⟨hbase.append hneutral, .inl ⟨hneutral,
        harmless_of_accepted rfl _, _, rfl⟩⟩
    · rename_i hoff
      have hleased := hbase.append hneutral
      refine Traces.actBind ?_
      rintro generation es ⟨c, c', -, rfl⟩
      refine ⟨⟨hleased.1, trivial⟩, ?_⟩
      have harmed : Armed profile
          (q ++ [.noted (.queried observation)] ++ [.marked c']) :=
        { neutral := neutral_append.mpr ⟨hneutral, by simp [Event.isNeutral]⟩
          silent := by
            rw [written_append, written_append, hq.written]
            rfl
          relay := ⟨identity, hrelay⟩
          off := ⟨q, observation, c', rfl, hq, hoff⟩ }
      refine Traces.bindE (nextCursor_traces fun _ => trivial) ?_ ?_
      · rintro _ _ ⟨c, ⟨⟩, rfl⟩
        have hscope := (hleased.append (t := [.marked c']) (by
          simp [Event.isNeutral])).append (t := [.looked c]) (by
            simp [Event.isNeutral])
        refine Traces.mono (ubootScope_traces hscope ⟨c', by simp⟩
          timeoutMs _) ?_
        rintro r s ⟨hend, hs⟩
        refine ⟨?_, .inr ⟨_, c, s, by simp [BoardOp.events], harmed, hs⟩⟩
        simpa [BoardOp.events] using hend
      · rintro e t ⟨c, ⟨⟩, -⟩
  · rintro e t ⟨hneutral, ht, hreject⟩
    refine ⟨hbase.append hneutral, .inl ⟨hneutral, ?_, e, rfl⟩⟩
    rintro _ ⟨⟩ he
    rw [(hreject he).1]
    exact inert_nil

end Boot

end RpictlMcp
