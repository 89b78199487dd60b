import RpictlMcp.Power
import RpictlMcp.Kernel.TraceLogic

/-!
# rpictl-mcp: the trace logic of the service

The trace logic at the service's own operations.  An event is passive when it
changes nothing on the board: looking at the ring, sleeping, or launching a
subprocess that is no relay command.  `IsQuiet` collects the actions whose
events are all passive and which reject nothing; it is closed under the ways in
which the service composes actions.

The one application here is to subprocesses: `runPowerCommand_traces` says that
a power command launches its subprocess at most once and is quiet otherwise.
-/

namespace RpictlMcp

open Prog

/-- What an action may respond with and which events that causes. -/
def BoardOp.emits (o : BoardSig.Op) (r : BoardSig.Resp o) (es : List Event) :
    Prop :=
  ∃ c c', BoardOp.OnConsole o c r c' ∧ es = BoardOp.events o r c'

/-- The relay position a command asks for, if it is a relay command. -/
def Command.relay? (command : Command) : Option Bool :=
  match command.args with
  | [cluster, action, _, _] =>
      if command.program = "chip-tool" ∧ cluster = "onoff" then
        if action = "on" then some true
        else if action = "off" then some false
        else none
      else none
  | _ => none

/-- The relay position that the launch of a relay command asks for. -/
def Event.relay? : Event → Option Bool
  | .launched command => command.relay?
  | _ => none

/-- Events that change nothing on the board. -/
def Event.isPassive : Event → Bool
  | .looked _ => true
  | .slept _ => true
  | .launched command => command.relay?.isNone
  | _ => false

/-- A trace of passive events. -/
def Passive (t : List Event) : Prop :=
  ∀ e ∈ t, e.isPassive = true

@[simp] theorem readRelay_relay? (identity : Identity) :
    (readRelay identity).relay? = none := rfl

@[simp] theorem listNeighbors_relay? : listNeighbors.relay? = none := rfl

@[simp] theorem switchRelay_relay? (identity : Identity) (on : Bool) :
    (switchRelay identity on).relay? = some on := by
  cases on <;> rfl

@[simp] theorem passive_nil : Passive [] := by
  simp [Passive]

@[simp] theorem passive_cons {e : Event} {t : List Event} :
    Passive (e :: t) ↔ e.isPassive = true ∧ Passive t := by
  simp [Passive]

@[simp] theorem passive_append {s t : List Event} :
    Passive (s ++ t) ↔ Passive s ∧ Passive t := by
  simp [Passive, or_imp, forall_and]

/-- Events that neither move the lease nor start or join a worker. -/
def Event.isNeutral : Event → Bool
  | .acquired _ => false
  | .released _ => false
  | .workerSpawned => false
  | .workerJoined _ => false
  | _ => true

/-- A trace of neutral events. -/
def Neutral (t : List Event) : Prop :=
  ∀ e ∈ t, e.isNeutral = true

@[simp] theorem neutral_nil : Neutral [] := by
  simp [Neutral]

@[simp] theorem neutral_cons {e : Event} {t : List Event} :
    Neutral (e :: t) ↔ e.isNeutral = true ∧ Neutral t := by
  simp [Neutral]

@[simp] theorem neutral_append {s t : List Event} :
    Neutral (s ++ t) ↔ Neutral s ∧ Neutral t := by
  simp [Neutral, or_imp, forall_and]

theorem Passive.neutral {t : List Event} (h : Passive t) : Neutral t := by
  intro e he
  have := h e he
  cases e <;> simp_all [Event.isNeutral, Event.isPassive]

/-- Whether a thread holds the lease after one more event. -/
def Event.lease (held : Bool) : Event → Bool
  | .acquired _ => true
  | .released _ => false
  | _ => held

/-- Whether a thread with this log holds the lease. -/
def holds (log : List Event) : Bool :=
  log.foldl Event.lease false

/-- Whether a worker is waiting to be joined after one more event. -/
def Event.worker (pending : Bool) : Event → Bool
  | .workerSpawned => true
  | .workerJoined _ => false
  | _ => pending

/-- Whether a thread with this log has a worker that it has not joined. -/
def pending (log : List Event) : Bool :=
  log.foldl Event.worker false

@[simp] theorem holds_append_singleton (log : List Event) (e : Event) :
    holds (log ++ [e]) = e.lease (holds log) := by
  simp [holds]

@[simp] theorem pending_append_singleton (log : List Event) (e : Event) :
    pending (log ++ [e]) = e.worker (pending log) := by
  simp [pending]

/-- Neutral events keep the lease. -/
theorem holds_append {t : List Event} (h : Neutral t) (log : List Event) :
    holds (log ++ t) = holds log := by
  induction t generalizing log with
  | nil => simp
  | cons e t ih =>
      rw [neutral_cons] at h
      rw [List.append_cons, ih h.2, holds_append_singleton]
      cases e <;> first | rfl | simp [Event.isNeutral] at h

/-- Neutral events keep the worker. -/
theorem pending_append {t : List Event} (h : Neutral t) (log : List Event) :
    pending (log ++ t) = pending log := by
  induction t generalizing log with
  | nil => simp
  | cons e t ih =>
      rw [neutral_cons] at h
      rw [List.append_cons, ih h.2, pending_append_singleton]
      cases e <;> first | rfl | simp [Event.isNeutral] at h

/-- Permissions that restrict neither passive events nor what is noted. -/
structure Lenient (allowed : List Event → Event → Prop) : Prop where
  passive : ∀ log e, e.isPassive = true → allowed log e
  queried : ∀ log observation, allowed log (.noted (.queried observation))
  switched : ∀ log on output, allowed log (.noted (.switched on output))

section Rules

variable {α β : Type} {allowed : List Event → Event → Prop}
variable {base : List Event} {Ψ : Result β → List Event → Prop}

/-- The rule for an action of a program that does not fail. -/
theorem Traces.askBind {o : BoardOp} {f : o.Resp → Prog BoardSig β}
    {Ψ : β → List Event → Prop}
    (h : ∀ r es, BoardOp.emits o r es → AllowedAfter allowed base es ∧
      Traces BoardOp.emits allowed (f r) (base ++ es)
        fun b t => Ψ b (es ++ t)) :
    Traces BoardOp.emits allowed (ask o >>= f) base Ψ := by
  refine Traces.bind (Φ := fun r es =>
    Traces BoardOp.emits allowed (f r) (base ++ es)
      fun b t => Ψ b (es ++ t)) (Traces.perform h) ?_
  exact fun _ _ hf => hf

/-- The same for an action without events. -/
theorem Traces.askSilent {o : BoardOp} {f : o.Resp → Prog BoardSig β}
    {Ψ : β → List Event → Prop}
    (hsilent : ∀ r c, BoardOp.events o r c = [])
    (h : ∀ r, Traces BoardOp.emits allowed (f r) base Ψ) :
    Traces BoardOp.emits allowed (ask o >>= f) base Ψ := by
  refine Traces.askBind ?_
  rintro r es ⟨c, c', -, rfl⟩
  rw [hsilent, List.append_nil]
  exact ⟨trivial, h r⟩

/-- The same for an action with one event. -/
theorem Traces.askEvent {o : BoardOp} {f : o.Resp → Prog BoardSig β}
    {e : Event} {Ψ : β → List Event → Prop}
    (hevent : ∀ r c, BoardOp.events o r c = [e]) (he : allowed base e)
    (h : ∀ r, Traces BoardOp.emits allowed (f r) (base ++ [e])
      fun b t => Ψ b (e :: t)) :
    Traces BoardOp.emits allowed (ask o >>= f) base Ψ := by
  refine Traces.askBind ?_
  rintro r es ⟨c, c', -, rfl⟩
  rw [hevent]
  exact ⟨⟨he, trivial⟩, h r⟩

/-- The same for a look at the ring. -/
theorem Traces.askLook {f : SerialRing → Prog BoardSig β}
    {Ψ : β → List Event → Prop}
    (h : ∀ c : Console, allowed base (.looked c) ∧
      Traces BoardOp.emits allowed (f c.ring) (base ++ [.looked c])
        fun b t => Ψ b (.looked c :: t)) :
    Traces BoardOp.emits allowed (ask .lockSerial >>= f) base Ψ := by
  refine Traces.askBind ?_
  rintro r es ⟨c, c', ⟨rfl, rfl⟩, rfl⟩
  exact ⟨⟨(h c').1, trivial⟩, (h c').2⟩

/-- The rule for an action. -/
theorem Traces.actBind {o : BoardOp} {f : o.Resp → Action β}
    (h : ∀ r es, BoardOp.emits o r es → AllowedAfter allowed base es ∧
      Traces BoardOp.emits allowed (f r).run (base ++ es)
        fun b t => Ψ b (es ++ t)) :
    Traces BoardOp.emits allowed (act o >>= f).run base Ψ := by
  refine Traces.bindE (Φ := fun r es => ∃ a, r = .ok a ∧
    Traces BoardOp.emits allowed (f a).run (base ++ es)
      fun b t => Ψ b (es ++ t)) ?_ ?_ ?_
  · refine Traces.lift (Traces.perform fun r es hes => ?_)
    exact ⟨(h r es hes).1, r, rfl, (h r es hes).2⟩
  · rintro a es ⟨_, ha, hf⟩
    cases ha
    exact hf
  · rintro e es ⟨_, he, -⟩
    cases he

/-- The rule for an action without events. -/
theorem Traces.silentBind {o : BoardOp} {f : o.Resp → Action β}
    (hsilent : ∀ r c, BoardOp.events o r c = [])
    (h : ∀ r, Traces BoardOp.emits allowed (f r).run base Ψ) :
    Traces BoardOp.emits allowed (act o >>= f).run base Ψ := by
  refine Traces.actBind ?_
  rintro r es ⟨c, c', -, rfl⟩
  rw [hsilent, List.append_nil]
  exact ⟨trivial, h r⟩

/-- The rule for an action whose one event does not depend on the response. -/
theorem Traces.eventBind {o : BoardOp} {f : o.Resp → Action β} {e : Event}
    (hevent : ∀ r c, BoardOp.events o r c = [e]) (he : allowed base e)
    (h : ∀ r, Traces BoardOp.emits allowed (f r).run (base ++ [e])
      fun b t => Ψ b (e :: t)) :
    Traces BoardOp.emits allowed (act o >>= f).run base Ψ := by
  refine Traces.actBind ?_
  rintro r es ⟨c, c', -, rfl⟩
  rw [hevent]
  exact ⟨⟨he, trivial⟩, h r⟩

/-- The rule for a look at the ring. -/
theorem Traces.lookBind {f : SerialRing → Action β}
    (hlook : ∀ c : Console, allowed base (.looked c))
    (h : ∀ c : Console,
      Traces BoardOp.emits allowed (f c.ring).run (base ++ [.looked c])
        fun b t => Ψ b (.looked c :: t)) :
    Traces BoardOp.emits allowed (act .lockSerial >>= f).run base Ψ := by
  refine Traces.actBind ?_
  rintro r es ⟨c, c', ⟨rfl, rfl⟩, rfl⟩
  exact ⟨⟨hlook c', trivial⟩, h c'⟩

/-- The rule for a result that has been computed. -/
theorem Traces.resultBind {result : Result α} {f : α → Action β}
    (hok : ∀ a, result = .ok a →
      Traces BoardOp.emits allowed (f a).run base Ψ)
    (herror : ∀ e, result = .error e → Ψ (.error e) []) :
    Traces BoardOp.emits allowed (ofResult result >>= f).run base Ψ := by
  cases result with
  | ok a => exact hok a rfl
  | error e => exact Traces.pure (herror e rfl)

/-- The rule for looking at the result of an action. -/
theorem Traces.attemptBind {action : Action α} {f : Result α → Action β}
    {Φ : Result α → List Event → Prop}
    (haction : Traces BoardOp.emits allowed action.run base Φ)
    (h : ∀ r t, Φ r t → Traces BoardOp.emits allowed (f r).run (base ++ t)
      fun b t' => Ψ b (t ++ t')) :
    Traces BoardOp.emits allowed (attempt action >>= f).run base Ψ := by
  refine Traces.bindE (Φ := fun r t => ∃ a, r = .ok a ∧ Φ a t) ?_ ?_ ?_
  · refine Traces.lift (Traces.mono haction ?_)
    exact fun r t ht => ⟨r, rfl, ht⟩
  · rintro a t ⟨_, ha, ht⟩
    cases ha
    exact h a t ht
  · rintro e t ⟨_, he, -⟩
    cases he

/-- The rule for a function of the result of a program. -/
theorem Traces.map {p : Prog BoardSig α} {f : α → β}
    {Ψ : β → List Event → Prop}
    (h : Traces BoardOp.emits allowed p base fun a t => Ψ (f a) t) :
    Traces BoardOp.emits allowed (f <$> p) base Ψ := by
  rw [← bind_pure_comp]
  refine Traces.bind h fun a t ht => Traces.pure ?_
  rw [List.append_nil]
  exact ht

/-- The same for an action. -/
theorem Traces.mapOk {action : Action α} {f : α → β}
    (h : Traces BoardOp.emits allowed action.run base
      fun r t => Ψ (r.map f) t) :
    Traces BoardOp.emits allowed (f <$> action).run base Ψ := by
  rw [ExceptT.run_map]
  exact Traces.map h

theorem Traces.throwError {e : Error} (h : Ψ (.error e) []) :
    Traces BoardOp.emits allowed (throw e : Action β).run base Ψ :=
  Traces.pure h

theorem Traces.done {b : β} (h : Ψ (.ok b) []) :
    Traces BoardOp.emits allowed (Pure.pure b : Action β).run base Ψ :=
  Traces.pure h

end Rules

/-- The error codes that reject a call for its arguments or configuration. -/
def ErrorCode.isRejection : ErrorCode → Bool
  | .invalidConfiguration => true
  | .commandDenied => true
  | .confirmationRequired => true
  | _ => false

/-- A result that is no rejection. -/
def Accepted {α : Type} (r : Result α) : Prop :=
  ∀ e, r = .error e → e.code.isRejection = false

@[simp] theorem accepted_ok {α : Type} (a : α) :
    Accepted (.ok a : Result α) := by
  simp [Accepted]

@[simp] theorem accepted_error {α : Type} {e : Error} :
    Accepted (.error e : Result α) ↔ e.code.isRejection = false := by
  simp [Accepted]

/-- A kind of events together with logs that they do not leave. -/
structure Region where
  within : List Event → Prop
  has : Event → Bool
  keep : ∀ {log e}, within log → has e = true → within (log ++ [e])

theorem Region.keep_append (R : Region) {log t : List Event}
    (hlog : R.within log) (ht : ∀ e ∈ t, R.has e = true) :
    R.within (log ++ t) := by
  induction t generalizing log with
  | nil => simpa using hlog
  | cons e t ih =>
      rw [List.append_cons]
      exact ih (R.keep hlog (ht e List.mem_cons_self))
        fun x hx => ht x (List.mem_cons_of_mem e hx)

/--
An action whose events are all of a region's kind and which rejects nothing,
wherever in the region it starts; what it returns satisfies `post`.
-/
def Confined (R : Region) {α : Type} (allowed : List Event → Event → Prop)
    (action : Action α) (post : α → Prop) : Prop :=
  ∀ base, R.within base → Traces BoardOp.emits allowed action.run base
    fun r t => Accepted r ∧ (∀ e ∈ t, R.has e = true) ∧
      ∀ a, r = .ok a → post a

/-- The same without a condition on what is returned. -/
abbrev Within (R : Region) {α : Type} (allowed : List Event → Event → Prop)
    (action : Action α) : Prop :=
  Confined R allowed action fun _ => True

namespace Confined

variable {R : Region} {α β σ : Type} {allowed : List Event → Event → Prop}
variable {post : α → Prop} {post' : β → Prop}

theorem ret {a : α} (h : post a) :
    Confined R allowed (Pure.pure a : Action α) post :=
  fun _ _ => Traces.pure ⟨accepted_ok a, by simp, by
    rintro _ ⟨⟩
    exact h⟩

theorem pure (a : α) : Within R allowed (Pure.pure a : Action α) :=
  .ret trivial

theorem throw {e : Error} (he : e.code.isRejection = false) :
    Confined R allowed (throw e : Action α) post :=
  fun _ _ => Traces.pure ⟨accepted_error.mpr he, by simp, by simp⟩

theorem andThen {x : Action α} {f : α → Action β}
    (hx : Confined R allowed x post)
    (hf : ∀ a, post a → Confined R allowed (f a) post') :
    Confined R allowed (x >>= f) post' := by
  intro base hbase
  refine Traces.bindE (hx base hbase) ?_ ?_
  · intro a t ht
    refine Traces.mono
      (hf a (ht.2.2 a rfl) (base ++ t) (R.keep_append hbase ht.2.1)) ?_
    intro b t' ht'
    refine ⟨ht'.1, fun e he => ?_, ht'.2.2⟩
    rcases List.mem_append.mp he with hleft | hright
    · exact ht.2.1 e hleft
    · exact ht'.2.1 e hright
  · intro e t ht
    exact ⟨accepted_error.mpr (accepted_error.mp ht.1), ht.2.1, by simp⟩

theorem bind {x : Action α} {f : α → Action β} (hx : Within R allowed x)
    (hf : ∀ a, Confined R allowed (f a) post') :
    Confined R allowed (x >>= f) post' :=
  hx.andThen fun a _ => hf a

/-- An action of the board whose events are allowed and of the right kind. -/
theorem act {o : BoardOp}
    (h : ∀ base r c, R.within base →
      AllowedAfter allowed base (BoardOp.events o r c) ∧
        ∀ e ∈ BoardOp.events o r c, R.has e = true) :
    Within R allowed (act o) := by
  intro base hbase
  refine Traces.lift (Traces.perform ?_)
  rintro r es ⟨c, c', -, rfl⟩
  exact ⟨(h base r c' hbase).1, accepted_ok r, (h base r c' hbase).2,
    fun _ _ => trivial⟩

theorem silent {o : BoardOp} (h : ∀ r c, BoardOp.events o r c = []) :
    Within R allowed (RpictlMcp.act o) :=
  .act fun _ r c _ => by simp [h r c, AllowedAfter]

theorem result {r : Result α} (h : Accepted r) :
    Within R allowed (ofResult r) :=
  fun _ _ => Traces.pure ⟨h, by simp, fun _ _ => trivial⟩

/-- A loop with an invariant of the values that it passes on. -/
theorem loop {body : σ → Action (σ ⊕ β)} (J : σ → Prop)
    (hbody : ∀ s, J s → Confined R allowed (body s)
      fun r => r.elim J post') {s : σ} (hs : J s) :
    Confined R allowed (Prog.iterateE body s) post' := by
  intro base hbase
  refine Traces.iterateE (fun s t => J s ∧ ∀ e ∈ t, R.has e = true)
    ⟨hs, by simp⟩ ?_
  rintro s t ⟨hs, ht⟩
  refine Traces.mono (hbody s hs (base ++ t) (R.keep_append hbase ht)) ?_
  rintro r t' ⟨hr, ht', hpost⟩
  have happend : ∀ e ∈ t ++ t', R.has e = true := by
    intro e he
    rcases List.mem_append.mp he with hleft | hright
    · exact ht e hleft
    · exact ht' e hright
  match r with
  | .error e =>
      exact ⟨accepted_error.mpr (accepted_error.mp hr), happend, by simp⟩
  | .ok (.inl s') => exact ⟨hpost (.inl s') rfl, happend⟩
  | .ok (.inr b) =>
      refine ⟨accepted_ok b, happend, ?_⟩
      rintro _ ⟨⟩
      exact hpost (.inr b) rfl

end Confined

/-- What an action yields that leaves the board alone and rejects nothing. -/
def Quiet {α : Type} (r : Result α) (t : List Event) : Prop :=
  Accepted r ∧ Passive t

/-- The region of passive events, which is everywhere. -/
def Region.passive : Region where
  within _ := True
  has := Event.isPassive
  keep _ _ := trivial

/-- An action that leaves the board alone and rejects nothing. -/
abbrev IsQuiet {α : Type} (allowed : List Event → Event → Prop)
    (action : Action α) : Prop :=
  Within .passive allowed action

theorem Confined.quiet {α : Type} {allowed : List Event → Event → Prop}
    {action : Action α} {post : α → Prop}
    (h : Confined .passive allowed action post) (base : List Event) :
    Traces BoardOp.emits allowed action.run base fun r t =>
      Quiet r t ∧ ∀ a, r = .ok a → post a :=
  Traces.mono (h base trivial) fun _ _ ht => ⟨⟨ht.1, ht.2.1⟩, ht.2.2⟩

theorem Lenient.sleep_quiet {allowed : List Event → Event → Prop}
    (h : Lenient allowed) (ms : Nat) : IsQuiet allowed (act (.sleep ms)) :=
  .act fun base _ _ _ =>
    ⟨⟨h.passive base _ rfl, trivial⟩, by simp [BoardOp.events,
      Region.passive, Event.isPassive]⟩

section PowerCommand

variable {allowed : List Event → Event → Prop}

/-- A read moves bytes from what remains to what has been collected. -/
theorem collectPowerOutput_quiet (pipe : Pipe) (bytes : List UInt8)
    (remaining : Nat) (phase : String) :
    Confined .passive allowed (collectPowerOutput pipe bytes remaining phase)
      fun c => c.bytes.length + c.remaining = bytes.length + remaining := by
  refine .bind (.silent fun _ _ => rfl) fun result => ?_
  cases result with
  | eof => exact .ret rfl
  | data chunk =>
      simp only
      split
      · exact .throw rfl
      · refine .ret ?_
        simp only [List.length_append]
        omega
  | wouldBlock => exact .ret rfl
  | interrupted => exact .ret rfl
  | failed error => exact .throw rfl

theorem collectUnlessEof_quiet (eof : Bool) (pipe : Pipe)
    (bytes : List UInt8) (remaining : Nat) (phase : String) :
    Confined .passive allowed (collectUnlessEof eof pipe bytes remaining phase)
      fun c => c.bytes.length + c.remaining = bytes.length + remaining := by
  cases eof with
  | true => exact .ret rfl
  | false => exact collectPowerOutput_quiet pipe bytes remaining phase

theorem tryWaitIf_quiet (bothEof : Bool) :
    IsQuiet allowed (tryWaitIf bothEof) := by
  cases bothEof with
  | true => exact .silent fun _ _ => rfl
  | false => exact .pure _

/-- What has been collected, with what remains, is the whole budget. -/
def Collected.Budgeted (s : Collected) : Prop :=
  s.stdout.length + s.stderr.length + s.remaining = maxPowerOutputBytes

/-- An output that a power command can have been collected from. -/
def Output.Bounded (output : Output) : Prop :=
  output.stdout.length + output.stderr.length ≤ maxPowerOutputBytes

theorem collectTurn_quiet (hlenient : Lenient allowed) (deadline : Nat)
    (phase : String) {s : Collected} (hs : s.Budgeted) :
    Confined .passive allowed (collectTurn deadline phase s) fun r =>
      r.elim Collected.Budgeted Output.Bounded := by
  simp only [Collected.Budgeted] at hs
  refine .bind (.silent fun _ _ => rfl) fun now => ?_
  split
  · exact .throw rfl
  · refine .andThen (collectUnlessEof_quiet _ _ _ _ _) fun out hout =>
      .andThen (collectUnlessEof_quiet _ _ _ _ _) fun err herr =>
        .bind (tryWaitIf_quiet _) fun status => ?_
    have hnext : Collected.Budgeted
        ⟨out.bytes, err.bytes, out.eof, err.eof, err.remaining⟩ := by
      simp only [Collected.Budgeted]
      omega
    match status with
    | .error error => exact .throw rfl
    | .ok (some success) =>
        refine .ret ?_
        simp only [Sum.elim_inr, Output.Bounded]
        omega
    | .ok none =>
        simp only
        split
        · exact .bind (hlenient.sleep_quiet 10) fun _ => .ret hnext
        · exact .ret hnext

theorem collectOutput_quiet (hlenient : Lenient allowed) (deadline : Nat)
    (phase : String) :
    Confined .passive allowed (collectOutput deadline phase) Output.Bounded := by
  refine .bind (.silent fun _ _ => rfl) fun stdout => ?_
  cases stdout with
  | some error => exact .throw rfl
  | none =>
      refine .bind (.silent fun _ _ => rfl) fun stderr => ?_
      cases stderr with
      | some error => exact .throw rfl
      | none =>
          exact .loop Collected.Budgeted
            (fun s hs => collectTurn_quiet hlenient deadline phase hs) rfl

theorem reapFailed_quiet (phase : String) {result : Result Output}
    (hresult : Accepted result)
    (hbounded : ∀ output, result = .ok output → output.Bounded) :
    Confined .passive allowed (reapFailed phase result) Output.Bounded := by
  cases result with
  | ok output => exact .ret (hbounded output rfl)
  | error error =>
      refine .bind (.silent fun _ _ => rfl) fun _ =>
        .bind (.silent fun _ _ => rfl) fun _ =>
          .bind (.silent fun _ _ => rfl) fun failure => ?_
      cases failure with
      | some failure => exact .throw rfl
      | none => exact .throw (accepted_error.mp hresult)

/-- What a power command does: nothing, or one launch and then waiting. -/
def CommandTrace (command : Command) (r : Result Output) (t : List Event) :
    Prop :=
  Accepted r ∧ (∀ output, r = .ok output → output.Bounded) ∧
    ((∃ e, r = .error e ∧ t = []) ∨
      ∃ rest, t = .launched command :: rest ∧ Passive rest)

/-- A power command launches its subprocess at most once. -/
theorem runPowerCommand_traces (hlenient : Lenient allowed)
    {command : Command} {base : List Event}
    (hlaunch : allowed base (.launched command)) (deadline : Nat)
    (phase : String) :
    Traces BoardOp.emits allowed
      (runPowerCommand command deadline phase).run base
      (CommandTrace command) := by
  refine Traces.silentBind (fun _ _ => rfl) fun now => ?_
  split
  · exact Traces.throwError
      ⟨accepted_error.mpr rfl, by simp, .inl ⟨_, rfl, rfl⟩⟩
  · refine Traces.actBind ?_
    rintro spawned es ⟨c, c', -, rfl⟩
    cases spawned with
    | some error =>
        exact ⟨trivial, Traces.throwError
          ⟨accepted_error.mpr rfl, by simp, .inl ⟨_, rfl, rfl⟩⟩⟩
    | none =>
        refine ⟨⟨hlaunch, trivial⟩, ?_⟩
        refine Traces.attemptBind
          ((collectOutput_quiet hlenient deadline phase).quiet _)
          fun r t ht => ?_
        refine Traces.mono
          ((reapFailed_quiet phase ht.1.1 ht.2).quiet _) fun r' t' ht' => ?_
        exact ⟨ht'.1.1, ht'.2,
          .inr ⟨t ++ t', rfl, passive_append.mpr ⟨ht.1.2, ht'.1.2⟩⟩⟩

/-- A command that is no relay command is passive as a whole. -/
theorem runPowerCommand_quiet (hlenient : Lenient allowed)
    {command : Command} (hrelay : command.relay? = none) (deadline : Nat)
    (phase : String) :
    Confined .passive allowed (runPowerCommand command deadline phase)
      Output.Bounded := by
  intro base _
  have hpassive : (Event.launched command).isPassive = true := by
    simp [Event.isPassive, hrelay]
  refine Traces.mono (runPowerCommand_traces hlenient
    (hlenient.passive base _ hpassive) deadline phase) ?_
  rintro r t ⟨hr, hbounded, ⟨e, -, rfl⟩ | ⟨rest, rfl, hrest⟩⟩
  · exact ⟨hr, passive_nil, hbounded⟩
  · exact ⟨hr, passive_cons.mpr ⟨hpassive, hrest⟩, hbounded⟩

end PowerCommand

end RpictlMcp
