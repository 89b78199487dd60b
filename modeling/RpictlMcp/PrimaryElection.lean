import RpictlMcp.PrimarySocket
import RpictlMcp.Kernel.Transcript

/-!
# rpictl-mcp: at most one process serves the boards

A process that finds the path in use asks whether somebody listens there, and
removes the file if its connection fails.  It fails where nobody listens, but
also for other reasons; and nothing makes asking and removing one action, so that
in between another process may come to listen.  A takeover is a removal of a
socket that is still open.

In a run without a takeover the path names every process that serves, so there
is at most one.  A process that runs `start` while nobody else moves becomes the
one that serves, unless there is one already that it can connect to.
-/

namespace RpictlMcp

open Prog

/-- The events that one process may cause, given those it has caused so far. -/
def HostPermitted (log : List HostEvent) : HostEvent → Prop
  | .bound => .bound ∉ log
  | .listens => log.getLast? = some .bound
  | .removed => log.getLast? = some .refused ∧ .bound ∉ log
  | .dropped => .listens ∈ log ∧ .closed ∉ log ∧ .dropped ∉ log
  | .refused => True
  | .closed => True

/-- The events of an action are determined by its response. -/
def hostEmits (o : SocketOp) (r : o.Resp) (es : List HostEvent) : Prop :=
  es = o.events r

section HostTraces

/-- The judgement about the events of one process. -/
abbrev HostTraces {α : Type} (p : Prog SocketSig α) (base : List HostEvent)
    (Φ : α → List HostEvent → Prop) : Prop :=
  Traces (S := SocketSig) hostEmits HostPermitted p base Φ

/-- A process that has not bound its socket. -/
structure Unbound (log : List HostEvent) : Prop where
  bound : .bound ∉ log
  closed : .closed ∉ log
  dropped : .dropped ∉ log

/-- A process whose socket listens. -/
structure Listens (log : List HostEvent) : Prop where
  listens : .listens ∈ log
  closed : .closed ∉ log
  dropped : .dropped ∉ log

variable {base : List HostEvent} {path : String}

theorem Unbound.append {es : List HostEvent} (h : Unbound base)
    (hes : Unbound es) : Unbound (base ++ es) where
  bound := by simp [h.bound, hes.bound]
  closed := by simp [h.closed, hes.closed]
  dropped := by simp [h.dropped, hes.dropped]

theorem unbound_nil : Unbound [] :=
  ⟨by simp, by simp, by simp⟩

theorem unbound_of_forall {es : List HostEvent}
    (h : ∀ e ∈ es, e = .refused ∨ e = .removed) : Unbound es := by
  constructor <;> exact fun hmem => by simpa using h _ hmem

/-- The rule for an action whose events are known. -/
theorem hostTraces_sys {o : SocketOp} {Φ : o.Resp → List HostEvent → Prop}
    (h : ∀ r, AllowedAfter HostPermitted base (o.events r) ∧
      Φ r (o.events r)) : HostTraces (sys o) base Φ := by
  refine Traces.perform fun r es hes => ?_
  rw [show es = o.events r from hes]
  exact h r

/-- The rule for an action that others cannot notice. -/
theorem hostTraces_silent {o : SocketOp} (h : ∀ r, o.events r = [])
    (Φ : o.Resp → List HostEvent → Prop) (hΦ : ∀ r, Φ r []) :
    HostTraces (sys o) base Φ :=
  hostTraces_sys fun r => by rw [h r]; exact ⟨trivial, hΦ r⟩

theorem hostTraces_sysE {o : SocketOp}
    {Φ : Except String o.Resp → List HostEvent → Prop}
    (h : HostTraces (sys o) base fun r t => Φ (.ok r) t) :
    HostTraces (sysE o).run base Φ :=
  Traces.lift h

/-- The events of `UnixListener::bind`, and what is known if it fails. -/
def Binds (error : Option BindError) (t : List HostEvent) : Prop :=
  match error with
  | none => t = [.bound, .listens]
  | some error => t = [] ∨ error.addrInUse = false

/-- `UnixListener::bind`, by a process that has not bound a socket yet. -/
theorem bindListener_traces (h : Unbound base) :
    HostTraces (ExceptT.lift bindListener : Startup (Option BindError)).run
      base fun r t => ∃ error, r = .ok error ∧ Binds error t := by
  refine Traces.lift (Traces.mono (Φ := Binds) ?_
    fun error t ht => ⟨error, rfl, ht⟩)
  refine Traces.bind (Φ := fun error t =>
      (error = none → t = [.bound]) ∧ (error ≠ none → t = []))
    (hostTraces_sys fun r => ?_) fun error t ht => ?_
  · cases r with
    | none => exact ⟨⟨h.bound, trivial⟩, by simp [SocketOp.events]⟩
    | some error => exact ⟨trivial, by simp [SocketOp.events]⟩
  cases error with
  | some error => exact Traces.pure (.inl (by simpa using ht.2))
  | none =>
      obtain rfl := ht.1 rfl
      refine Traces.bind (Φ := fun error t =>
          error = none → t = [.listens])
        (hostTraces_sys fun r => ?_) fun error t ht => ?_
      · cases r with
        | none => exact ⟨⟨by simp [HostPermitted], trivial⟩, fun _ => rfl⟩
        | some error => exact ⟨trivial, by simp⟩
      cases error with
      | none =>
          obtain rfl := ht rfl
          exact Traces.pure rfl
      | some error =>
          refine Traces.bind (Φ := fun _ _ => True)
            (hostTraces_sys fun r => ⟨⟨trivial, trivial⟩, trivial⟩) ?_
          exact fun _ _ _ => Traces.pure (.inr rfl)

/-- What a part of `start` comes to: a socket that listens, if it succeeds. -/
def Started (result : Except String Unit) (t : List HostEvent) : Prop :=
  result = .ok () → Listens t

theorem started_error (error : String) (t : List HostEvent) :
    Started (.error error) t := by
  rintro ⟨⟩

theorem listens_of_bind (t : List HostEvent) (ht : Unbound t) :
    Listens (t ++ [.bound, .listens]) where
  listens := by simp
  closed := by simp [ht.closed]
  dropped := by simp [ht.dropped]

theorem takeOver_traces (h : Unbound base) :
    HostTraces (ConsoleSocket.takeOver path).run base Started := by
  refine Traces.bindE (Φ := fun r t => r = .ok false → t = [.refused])
    (hostTraces_sysE (hostTraces_sys fun r => ?_)) ?_
    fun e t _ => started_error e t
  · cases r with
    | true => exact ⟨trivial, by simp⟩
    | false => exact ⟨⟨trivial, trivial⟩, fun _ => rfl⟩
  intro served t ht
  cases served with
  | true => exact Traces.pure (started_error _ _)
  | false =>
      obtain rfl := ht rfl
      have hrefused : Unbound [.refused] := unbound_of_forall (by simp)
      refine Traces.bindE (Φ := fun r t => r = .ok none → t = [.removed])
        (hostTraces_sysE (hostTraces_sys fun r => ?_)) ?_
        fun e t _ => started_error e _
      · cases r with
        | none =>
            have hbound := (h.append hrefused).bound
            exact ⟨⟨⟨by simp, hbound⟩, trivial⟩, fun _ => rfl⟩
        | some error => exact ⟨trivial, by simp⟩
      intro removed t ht
      cases removed with
      | some error => exact Traces.pure (started_error _ _)
      | none =>
          obtain rfl := ht rfl
          have hremoved : Unbound [.refused, .removed] :=
            unbound_of_forall (by simp)
          refine Traces.bindE (bindListener_traces ?_) ?_
            fun e t _ => started_error e _
          · simpa using h.append hremoved
          rintro error t ⟨_, ⟨⟩, ht⟩
          cases error with
          | some error => exact Traces.pure (started_error _ _)
          | none =>
              obtain rfl := ht
              refine Traces.pure fun _ => ?_
              exact listens_of_bind _ hremoved

theorem createListener_traces (h : Unbound base) :
    HostTraces (ConsoleSocket.createListener path).run base Started := by
  refine Traces.bindE (bindListener_traces h) ?_
    fun e t _ => started_error e _
  rintro error t ⟨_, ⟨⟩, ht⟩
  cases error with
  | none =>
      obtain rfl := ht
      exact Traces.pure fun _ => listens_of_bind [] unbound_nil
  | some error =>
      by_cases hinUse : error.addrInUse = true
      · obtain rfl : t = [] := ht.resolve_right (by simp [hinUse])
        simp only [hinUse, if_true]
        exact (takeOver_traces (by simpa using h)).mono fun _ _ hr => hr
      · simp only [hinUse]
        exact Traces.pure (started_error _ _)

/-- Closing the listener and failing. -/
theorem closeListener_traces (message : String)
    {Φ : Except String Unit → List HostEvent → Prop}
    (hΦ : ∀ t, Φ (.error message) t) :
    HostTraces (do sysE .closeListener; throw message : Startup Unit).run base
      Φ := by
  refine Traces.bindE (Φ := fun r _ => ∃ u, r = .ok u)
    (hostTraces_sysE (hostTraces_sys fun r =>
      ⟨⟨trivial, trivial⟩, r, rfl⟩)) ?_ ?_
  · exact fun _ _ _ => Traces.pure (hΦ _)
  · rintro e t ⟨u, hu⟩
    cases hu

theorem start_traces (h : Unbound base) :
    HostTraces (ConsoleSocket.start path).run base Started := by
  refine Traces.bindE (createListener_traces h) ?_
    fun e t _ => started_error e _
  intro _ t ht
  have hsilent : ∀ o : SocketOp, (∀ r, o.events r = []) →
      HostTraces (sysE o).run (base ++ t) fun r t => ∃ a, r = .ok a ∧ t = [] :=
    fun o ho => hostTraces_sysE (hostTraces_silent ho _ fun r => ⟨r, rfl, rfl⟩)
  refine Traces.bindE (hsilent .setPermissions (fun r => by cases r <;> rfl))
    ?_ fun e t _ => started_error e _
  rintro error t' ⟨-, -, rfl⟩
  cases error with
  | some error => exact closeListener_traces _ fun _ => started_error _ _
  | none =>
      rw [List.append_nil]
      refine Traces.bindE (hsilent .spawnListener (fun r => by cases r <;> rfl))
        ?_ fun e t _ => started_error e _
      rintro error t' ⟨-, -, rfl⟩
      cases error with
      | some error => exact closeListener_traces _ fun _ => started_error _ _
      | none => exact Traces.pure fun _ => by simpa using ht rfl

/-- A ping may be refused; nothing else of it is noticed. -/
theorem pingDaemon_traces :
    HostTraces pingDaemon base fun _ t => ∀ e ∈ t, e = .refused := by
  refine Traces.bind (Φ := fun _ t => ∀ e ∈ t, e = .refused)
    (hostTraces_sys fun r => ?_) fun connected t ht => ?_
  · cases r with
    | true => exact ⟨trivial, by simp [SocketOp.events]⟩
    | false => exact ⟨⟨trivial, trivial⟩, by simp [SocketOp.events]⟩
  cases connected with
  | false => exact Traces.pure (by simpa using ht)
  | true =>
      refine Traces.bind (Φ := fun _ t => t = [])
        (hostTraces_silent (fun r => by cases r <;> rfl) _ fun _ => rfl) ?_
      rintro reply t' rfl
      cases reply <;> exact Traces.pure (by simpa using ht)

/-- An action that others cannot notice, before the rest of a program. -/
theorem hostTraces_then {α : Type} {o : SocketOp}
    {f : o.Resp → Prog SocketSig α} {Φ : α → List HostEvent → Prop}
    (ho : ∀ r, o.events r = []) (hf : ∀ r, HostTraces (f r) base Φ) :
    HostTraces (sys o >>= f) base Φ := by
  refine Traces.bind (Φ := fun _ t => t = [])
    (hostTraces_silent ho _ fun _ => rfl) ?_
  rintro r t rfl
  simpa using hf r

theorem exit_traces (code : Nat) :
    HostTraces (sys (.exit code)) base fun _ _ => True :=
  hostTraces_silent (fun _ => rfl) _ fun _ => trivial

theorem servePrimary_traces (h : Unbound base) :
    HostTraces (servePrimary path) base fun _ _ => True := by
  refine hostTraces_then (fun r => by cases r <;> rfl) fun error => ?_
  cases error with
  | some error => exact exit_traces 1
  | none =>
      refine Traces.bind (start_traces h) fun result t ht => ?_
      cases result with
      | error e => exact exit_traces 1
      | ok u =>
          have hlistens := ht rfl
          have hclosed : .closed ∉ base ++ t := by
            simp [h.closed, hlistens.closed]
          have hdropped : .dropped ∉ base ++ t := by
            simp [h.dropped, hlistens.dropped]
          refine hostTraces_then (fun _ => rfl) fun _ => ?_
          refine Traces.bind (Φ := fun _ _ => True) (hostTraces_sys fun r => ?_)
            fun _ _ _ => exit_traces 0
          have hmem : .listens ∈ base ++ t := by simp [hlistens.listens]
          exact ⟨⟨⟨hmem, hclosed, hdropped⟩, trivial⟩, trivial⟩

theorem awaitStop_traces (polls : Nat) :
    HostTraces (awaitStop polls).run base fun _ _ => True := by
  induction polls generalizing base with
  | zero => exact Traces.pure trivial
  | succ polls ih =>
      refine Traces.bindE (Φ := fun _ _ => True)
        (hostTraces_sysE (hostTraces_silent (fun _ => rfl) _ fun _ => trivial))
        (fun _ t _ => ?_) fun _ _ _ => trivial
      refine Traces.bindE (Φ := fun _ _ => True)
        (Traces.lift (pingDaemon_traces.mono fun _ _ _ => trivial))
        (fun alive t _ => ?_) fun _ _ _ => trivial
      cases alive with
      | false => exact Traces.pure trivial
      | true => exact ih

theorem awaitDaemon_traces (polls : Nat) :
    HostTraces (awaitDaemon polls) base fun _ _ => True := by
  induction polls generalizing base with
  | zero => exact exit_traces 1
  | succ polls ih =>
      refine hostTraces_then (fun _ => rfl) fun _ => ?_
      refine Traces.bind pingDaemon_traces fun alive t _ => ?_
      cases alive with
      | false => exact ih
      | true => exact exit_traces 0

theorem stopDaemon_traces :
    HostTraces (stopDaemon path).run base fun _ _ => True := by
  refine Traces.bindE (Φ := fun _ _ => True)
    (Traces.lift (pingDaemon_traces.mono fun _ _ _ => trivial))
    (fun alive t _ => ?_) fun _ _ _ => trivial
  cases alive with
  | false => exact Traces.pure trivial
  | true =>
      refine Traces.bindE (Φ := fun _ _ => True)
        (hostTraces_sysE (hostTraces_sys fun r => ?_)) (fun connected t _ => ?_)
        fun _ _ _ => trivial
      · cases r <;> simp [SocketOp.events, AllowedAfter, HostPermitted]
      cases connected with
      | false => exact Traces.pure trivial
      | true =>
          exact Traces.bindE (Φ := fun _ _ => True)
            (hostTraces_sysE
              (hostTraces_silent (fun _ => rfl) _ fun _ => trivial))
            (fun _ _ _ => awaitStop_traces 50) fun _ _ _ => trivial

/-- Every process causes its events in the order of `start`. -/
theorem main_traces (command : SocketCommand) :
    HostTraces (command.main path) [] fun _ _ => True := by
  have hping : ∀ f : Bool → Prog SocketSig Unit,
      (∀ alive base, Unbound base →
        HostTraces (f alive) base fun _ _ => True) →
      HostTraces (pingDaemon >>= f) [] fun _ _ => True := by
    intro f hf
    refine Traces.bind pingDaemon_traces fun alive t ht => hf alive _ ?_
    exact unbound_of_forall fun e he => .inl (ht e he)
  cases command with
  | serve =>
      refine hping _ fun alive base hbase => ?_
      cases alive with
      | false => exact servePrimary_traces hbase
      | true => exact hostTraces_then (fun _ => rfl) fun _ => exit_traces 0
  | daemon =>
      refine hping _ fun alive base hbase => ?_
      cases alive with
      | true => exact exit_traces 1
      | false =>
          refine hostTraces_then (fun r => by cases r <;> rfl) fun error => ?_
          cases error with
          | some error => exact exit_traces 1
          | none => exact servePrimary_traces hbase
  | daemonParent =>
      refine hping _ fun alive base hbase => ?_
      cases alive with
      | true => exact exit_traces 1
      | false =>
          refine hostTraces_then (fun r => by cases r <;> rfl) fun error => ?_
          cases error with
          | some error => exact exit_traces 1
          | none => exact awaitDaemon_traces 30
  | daemonChild => exact servePrimary_traces unbound_nil
  | stop =>
      refine Traces.bind stopDaemon_traces fun result t _ => ?_
      cases result with
      | ok u => exact exit_traces 0
      | error e => exact exit_traces 1
  | status =>
      exact hping _ fun alive base hbase => exit_traces 0

end HostTraces

section Election

variable {ι : Type} [DecidableEq ι]

/-- The events of one process. -/
def Host.processLog (w : Host ι) (i : ι) : List HostEvent :=
  (w.log.filter fun entry => decide (entry.process = i)).map HostEntry.event

/-- A process whose socket listens, and who has not begun to give it up. -/
structure Host.Serves (w : Host ι) (i : ι) : Prop where
  listening : w.endpoint i = .listening
  kept : .dropped ∉ w.processLog i

omit [DecidableEq ι] in
/-- A process has removed the socket of another one, which was still open. -/
def Takeover (log : List (HostEntry ι)) : Prop :=
  ∃ k j, k ≠ j ∧ ⟨k, some j, .removed⟩ ∈ log

/-- What an action may do to the host, and the events it causes. -/
inductive HostChange (i : ι) : Host ι → List HostEvent → Host ι → Prop
  | quiet {w : Host ι} : HostChange i w [] w
  | refused {w : Host ι} : HostChange i w [.refused] w
  | bound {w : Host ι} (hfree : w.file = none) :
      HostChange i w [.bound]
        { w.setEndpoint i .bound with file := some (.socket i) }
  | listens {w : Host ι} (hbound : w.endpoint i = .bound) :
      HostChange i w [.listens] (w.setEndpoint i .listening)
  | removed {w : Host ι} (hfile : w.file ≠ none) :
      HostChange i w [.removed] { w with file := none }
  | dropped {w : Host ι} (file : Option (SocketFile ι))
      (hfile : file = w.file ∨ file = none) :
      HostChange i w [.dropped] { w with file }
  | closed {w : Host ι} :
      HostChange i w [.closed] (w.setEndpoint i (w.endpoint i).close)
  | exited {w : Host ι} :
      HostChange i w []
        { w.setEndpoint i (w.endpoint i).close with
          alive := Function.update w.alive i false }

theorem HostStep.change {i : ι} {o : SocketOp} {w v : Host ι} {r : o.Resp}
    (h : HostStep i o w r v) : HostChange i w (o.events r) v := by
  cases h with
  | bound hfree => exact .bound hfree
  | listens hbound => exact .listens hbound
  | refused => exact .refused
  | removed hfile => exact .removed hfile
  | dropped => exact .dropped none (.inr rfl)
  | dropFailed => exact .dropped _ (.inl rfl)
  | closed => exact .closed
  | exited code => exact .exited
  | _ => exact .quiet

/-- The host `v`, with the events that have led to it from `w`. -/
def Host.after (w v : Host ι) (i : ι) (es : List HostEvent) : Host ι :=
  { v with log := w.log ++ es.map (HostEntry.mk i w.named) }

theorem processLog_after (w v : Host ι) (i j : ι) (es : List HostEvent) :
    (w.after v i es).processLog j =
      w.processLog j ++ if i = j then es else [] := by
  rw [Host.processLog, Host.processLog, Host.after, List.filter_append,
    List.map_append]
  congr 1
  by_cases hij : i = j
  · simp [hij, List.filter_map, Function.comp_def]
  · simp [hij, List.filter_map, Function.comp_def]

theorem processLog_of_hostSem {i : ι} {o : SocketOp} {w w' : Host ι}
    {r : o.Resp} (h : hostSem i o w r w') (j : ι) :
    w'.processLog j =
      w.processLog j ++ if i = j then o.events r else [] := by
  obtain ⟨-, v, -, rfl⟩ := h
  exact processLog_after w v i j _

theorem processLog_of_hostEnv {w w' : Host ι} (h : HostEnv w w') (j : ι) :
    w'.processLog j = w.processLog j := by
  obtain ⟨i, rfl⟩ := h
  rfl

variable {path : String} {leftover : Bool} {commands : ι → SocketCommand}
variable {c : Pool SocketSig (fun _ : ι => Unit) (Host ι)}

/-- Every process causes its events in the order of `start`. -/
theorem HostReaches.lawful
    (h : HostReaches (processes path leftover commands) c) (i : ι) :
    Lawful HostPermitted (c.world.processLog i) := by
  have hown : ∀ (o : SocketOp) (log : List HostEvent) (w : Host ι)
      (r : o.Resp) (w' : Host ι), log = w.processLog i → hostSem i o w r w' →
        ∃ log', logSem (S := SocketSig) hostEmits o log r log' ∧
          log' = w'.processLog i := by
    rintro o log w r w' rfl hsem
    refine ⟨_, ⟨o.events r, rfl, rfl⟩, ?_⟩
    rw [processLog_of_hostSem hsem, if_pos rfl]
  have hother : ∀ (j : ι) (o : SocketOp) (log : List HostEvent) (w : Host ι)
      (r : o.Resp) (w' : Host ι), j ≠ i → log = w.processLog i →
        hostSem j o w r w' → log = w'.processLog i := by
    rintro j o log w r w' hne rfl hsem
    rw [processLog_of_hostSem hsem, if_neg hne, List.append_nil]
  have henv : ∀ (log : List HostEvent) (w w' : Host ι),
      log = w.processLog i → HostEnv w w' → log = w'.processLog i := by
    rintro log w w' rfl henv
    rw [processLog_of_hostEnv henv]
  obtain ⟨log, hexec, rfl⟩ := Pool.Reaches.project h i hown hother henv rfl
  exact (main_traces (commands i)).lawful hexec

/-- The process's own events tell the state of its socket. -/
structure Host.Accounted (w : Host ι) : Prop where
  bound : ∀ i, .bound ∉ w.processLog i → w.endpoint i = .unbound
  listens : ∀ i, .listens ∈ w.processLog i →
    w.endpoint i = .listening ∨ w.endpoint i = .closed
  alive : ∀ i, .listens ∈ w.processLog i → .closed ∉ w.processLog i →
    w.alive i = true → w.endpoint i = .listening
  named : ∀ i, w.file = some (.socket i) → .bound ∈ w.processLog i

/-- The path names every socket that is open and has not been given up. -/
def Host.Named (w : Host ι) : Prop :=
  ∀ i, (w.endpoint i).isOpen = true → .dropped ∉ w.processLog i →
    w.file = some (.socket i)

/-- An action of a process that is alive, and that keeps to the order. -/
structure HostMove (i : ι) (w : Host ι) (es : List HostEvent) (v : Host ι) :
    Prop where
  alive : w.alive i = true
  change : HostChange i w es v
  permitted : ∀ e, es = [e] → HostPermitted (w.processLog i) e

theorem hostMove_of_hostSem {i : ι} {o : SocketOp} {w w' : Host ι}
    {r : o.Resp} (h : hostSem i o w r w')
    (hlawful : Lawful HostPermitted (w'.processLog i)) :
    ∃ es v, HostMove i w es v ∧ w' = w.after v i es := by
  obtain ⟨halive, v, hstep, rfl⟩ := h
  refine ⟨_, v, ⟨halive, hstep.change, fun e he => ?_⟩, rfl⟩
  change Lawful _ ((w.after v i (o.events r)).processLog i) at hlawful
  rw [processLog_after, if_pos rfl, he] at hlawful
  exact hlawful _ e [] rfl

variable {i j : ι} {w v : Host ι} {es : List HostEvent}

/-- A process changes its own socket only. -/
theorem HostChange.other (h : HostChange i w es v) (hne : j ≠ i) :
    v.endpoint j = w.endpoint j ∧ v.alive j = w.alive j := by
  cases h <;> simp [Host.setEndpoint, hne]

/-- Only a process that binds its socket is named anew. -/
theorem HostChange.named_cases (h : HostChange i w es v)
    (hnamed : v.file = some (.socket j)) :
    w.file = some (.socket j) ∨ j = i ∧ es = [.bound] := by
  cases h with
  | bound =>
      obtain rfl : i = j := by simpa using hnamed
      exact .inr ⟨rfl, rfl⟩
  | removed => cases hnamed
  | dropped file hfile =>
      rcases hfile with rfl | rfl
      · exact .inl hnamed
      · cases hnamed
  | _ => exact .inl hnamed

/-- What a process's own move does to its socket. -/
theorem Host.Accounted.endpoint (h : w.Accounted) (hmove : HostMove i w es v) :
    (.bound ∉ w.processLog i ++ es → v.endpoint i = .unbound) ∧
    (.listens ∈ w.processLog i ++ es →
      v.endpoint i = .listening ∨ v.endpoint i = .closed) ∧
    (.listens ∈ w.processLog i ++ es → .closed ∉ w.processLog i ++ es →
      v.alive i = true → v.endpoint i = .listening) := by
  have hbound := h.bound i
  have hlistens := h.listens i
  have halive := fun h₁ h₂ => h.alive i h₁ h₂ hmove.alive
  have hunbound : .listens ∈ w.processLog i → .bound ∈ w.processLog i := by
    intro hmem
    by_contra hnot
    simpa [hbound hnot] using hlistens hmem
  cases hmove.change with
  | quiet => simpa using ⟨hbound, hlistens, fun h₁ h₂ _ => halive h₁ h₂⟩
  | refused => simpa using ⟨hbound, hlistens, fun h₁ h₂ _ => halive h₁ h₂⟩
  | removed => simpa using ⟨hbound, hlistens, fun h₁ h₂ _ => halive h₁ h₂⟩
  | dropped => simpa using ⟨hbound, hlistens, fun h₁ h₂ _ => halive h₁ h₂⟩
  | bound =>
      have hfirst : .bound ∉ w.processLog i := hmove.permitted _ rfl
      have hnone : .listens ∉ w.processLog i := fun h => hfirst (hunbound h)
      simp [Host.setEndpoint, hnone]
  | listens hb =>
      have hmem : .bound ∈ w.processLog i := by
        by_contra hnot
        simp [hbound hnot] at hb
      simp [Host.setEndpoint, hmem]
  | closed =>
      refine ⟨fun hnot => ?_, fun hmem => .inr ?_, by simp⟩
      · simp [Host.setEndpoint, hbound (by simpa using hnot), Endpoint.close]
      · have hmem : .listens ∈ w.processLog i := by simpa using hmem
        rcases hlistens hmem with hl | hc
        · simp [Host.setEndpoint, hl, Endpoint.close]
        · simp [Host.setEndpoint, hc, Endpoint.close]
  | exited =>
      refine ⟨fun hnot => ?_, fun hmem => .inr ?_, by simp⟩
      · simp [Host.setEndpoint, hbound (by simpa using hnot), Endpoint.close]
      · have hmem : .listens ∈ w.processLog i := by simpa using hmem
        rcases hlistens hmem with hl | hc
        · simp [Host.setEndpoint, hl, Endpoint.close]
        · simp [Host.setEndpoint, hc, Endpoint.close]

theorem Host.Accounted.move (h : w.Accounted) (hmove : HostMove i w es v) :
    (w.after v i es).Accounted := by
  have hself := h.endpoint hmove
  have hother : ∀ j, j ≠ i → v.endpoint j = w.endpoint j ∧
      v.alive j = w.alive j := fun j hj => hmove.change.other hj
  constructor
  · intro j hj
    rw [processLog_after] at hj
    by_cases hij : i = j
    · subst hij
      rw [if_pos rfl] at hj
      exact hself.1 hj
    · rw [if_neg hij, List.append_nil] at hj
      exact (hother j (Ne.symm hij)).1.trans (h.bound j hj)
  · intro j hj
    rw [processLog_after] at hj
    by_cases hij : i = j
    · subst hij
      rw [if_pos rfl] at hj
      exact hself.2.1 hj
    · rw [if_neg hij, List.append_nil] at hj
      simpa [Host.after, (hother j (Ne.symm hij)).1] using h.listens j hj
  · intro j hj hclosed halive
    rw [processLog_after] at hj hclosed
    by_cases hij : i = j
    · subst hij
      rw [if_pos rfl] at hj hclosed
      exact hself.2.2 hj hclosed halive
    · rw [if_neg hij, List.append_nil] at hj hclosed
      have hj' := hother j (Ne.symm hij)
      exact hj'.1.trans (h.alive j hj hclosed (hj'.2.symm.trans halive))
  · intro j hj
    rw [processLog_after]
    rcases hmove.change.named_cases hj with hold | ⟨rfl, rfl⟩
    · exact List.mem_append_left _ (h.named j hold)
    · simp

/-- The host after a process has died. -/
theorem Host.Accounted.env (h : w.Accounted) (henv : HostEnv w v) :
    v.Accounted := by
  obtain ⟨i, rfl⟩ := henv
  have hclose : ∀ e : Endpoint, e.close = .unbound ∨ e.close = .closed := by
    intro e
    cases e <;> simp [Endpoint.close]
  refine ⟨fun j hj => ?_, fun j hj => ?_, fun j hj hclosed halive => ?_,
    h.named⟩
  · by_cases hij : j = i
    · subst hij
      simp [Host.setEndpoint, h.bound j hj, Endpoint.close]
    · simpa [Host.setEndpoint, hij] using h.bound j hj
  · by_cases hij : j = i
    · subst hij
      rcases h.listens j hj with hl | hc
      · simp [Host.setEndpoint, hl, Endpoint.close]
      · simp [Host.setEndpoint, hc, Endpoint.close]
    · simpa [Host.setEndpoint, hij] using h.listens j hj
  · by_cases hij : j = i
    · subst hij
      simp at halive
    · simpa [Host.setEndpoint, hij] using
        h.alive j hj hclosed (by simpa [hij] using halive)

omit [DecidableEq ι] in
/-- Events that have been logged stay so. -/
theorem takeover_append {log more : List (HostEntry ι)} (h : Takeover log) :
    Takeover (log ++ more) := by
  obtain ⟨k, j, hne, hmem⟩ := h
  exact ⟨k, j, hne, List.mem_append_left _ hmem⟩

omit [DecidableEq ι] in
theorem named_eq_some_iff : w.named = some j ↔
    w.file = some (.socket j) ∧ (w.endpoint j).isOpen = true := by
  unfold Host.named
  constructor
  · intro hnamed
    split at hnamed
    · rename_i k hfile
      split_ifs at hnamed with hopen
      obtain rfl := Option.some.inj hnamed
      exact ⟨hfile, hopen⟩
    · cases hnamed
  · rintro ⟨hfile, hopen⟩
    simp [hfile, hopen]

/-- Who removes a socket has not bound one, so it is that of another process. -/
theorem takeover_of_removed (h : w.Accounted)
    (hpermitted : HostPermitted (w.processLog i) .removed)
    (hopen : (w.endpoint j).isOpen = true)
    (hfile : w.file = some (.socket j)) :
    Takeover (w.after v i [.removed]).log := by
  refine ⟨i, j, ?_, ?_⟩
  · rintro rfl
    exact hpermitted.2 (h.named i hfile)
  · simp [Host.after, named_eq_some_iff.mpr ⟨hfile, hopen⟩]

/-- Without a takeover the path keeps naming the sockets that are in use. -/
theorem Host.Named.move (hnamed : w.Named) (h : w.Accounted)
    (hmove : HostMove i w es v)
    (hnone : ¬Takeover (w.after v i es).log) : (w.after v i es).Named := by
  intro j hopen hkept
  rw [processLog_after, List.mem_append, not_or] at hkept
  have hnamedj := fun hopen => hnamed j hopen hkept.1
  change (v.endpoint j).isOpen = true at hopen
  change v.file = some (.socket j)
  have hclose : ∀ e : Endpoint, e.close.isOpen = false := by
    intro e
    cases e <;> rfl
  cases hmove.change with
  | quiet => exact hnamedj hopen
  | refused => exact hnamedj hopen
  | bound hfree =>
      by_cases hij : j = i
      · rw [hij]
      · have hold := hnamedj (by simpa [Host.setEndpoint, hij] using hopen)
        rw [hfree] at hold
        cases hold
  | listens hb =>
      by_cases hij : j = i
      · subst hij
        exact hnamedj (by simp [hb, Endpoint.isOpen])
      · exact hnamedj (by simpa [Host.setEndpoint, hij] using hopen)
  | removed =>
      refine absurd ?_ hnone
      exact takeover_of_removed h (hmove.permitted _ rfl) hopen (hnamedj hopen)
  | dropped file hfile =>
      have hpermitted : HostPermitted (w.processLog i) .dropped :=
        hmove.permitted _ rfl
      have hlistening := h.alive i hpermitted.1 hpermitted.2.1 hmove.alive
      have hi := hnamed i (by simp [hlistening, Endpoint.isOpen])
        hpermitted.2.2
      have hij : i = j := by simpa [hi] using hnamedj hopen
      simp [hij] at hkept
  | closed =>
      by_cases hij : j = i
      · subst hij
        simp [Host.setEndpoint, hclose] at hopen
      · exact hnamedj (by simpa [Host.setEndpoint, hij] using hopen)
  | exited =>
      by_cases hij : j = i
      · subst hij
        simp [Host.setEndpoint, hclose] at hopen
      · exact hnamedj (by simpa [Host.setEndpoint, hij] using hopen)

theorem Host.Named.env (hnamed : w.Named) (henv : HostEnv w v) : v.Named := by
  obtain ⟨i, rfl⟩ := henv
  intro j hopen hkept
  refine hnamed j ?_ hkept
  by_cases hij : j = i
  · subst hij
    cases hj : w.endpoint j <;>
      simp [Host.setEndpoint, hj, Endpoint.close, Endpoint.isOpen] at hopen
  · simpa [Host.setEndpoint, hij] using hopen

/-- What is known of every host that the processes come to. -/
structure Host.Consistent (w : Host ι) : Prop where
  accounted : w.Accounted
  named : ¬Takeover w.log → w.Named

theorem hostConsistent_initial (leftover : Bool) :
    (Host.initial (ι := ι) leftover).Consistent where
  accounted := by
    refine ⟨fun _ _ => rfl, fun i hi => ?_, fun i hi => ?_, fun i hi => ?_⟩
    · simp [Host.initial, Host.processLog] at hi
    · simp [Host.initial, Host.processLog] at hi
    · cases leftover <;> simp [Host.initial] at hi
  named := by
    intro _ i hopen
    simp [Host.initial, Endpoint.isOpen] at hopen

theorem HostReaches.consistent
    (h : HostReaches (processes path leftover commands) c) :
    c.world.Consistent := by
  refine Pool.Reaches.invariant_of h
    (fun w => ∀ i, Lawful HostPermitted (w.processLog i)) Host.Consistent
    (fun d hd i => HostReaches.lawful hd i) ?_ ?_
    (hostConsistent_initial leftover)
  · intro i o w r w' _ hlawful hw hsem
    obtain ⟨es, v, hmove, rfl⟩ := hostMove_of_hostSem hsem (hlawful i)
    refine ⟨hw.accounted.move hmove, fun hnone => ?_⟩
    refine (hw.named fun htakeover => hnone ?_).move hw.accounted hmove hnone
    exact takeover_append htakeover
  · intro w w' _ _ hw henv
    refine ⟨hw.accounted.env henv, fun hnone => ?_⟩
    have hlog : w'.log = w.log := by
      obtain ⟨i, rfl⟩ := henv
      rfl
    exact (hw.named (hlog ▸ hnone)).env henv

/-! ## A start that nobody interrupts -/

variable {reliable : Prop}

/-- The precondition of a program that nobody interrupts. -/
abbrev Alone {α : Type} (reliable : Prop) (i : ι) (p : Prog SocketSig α)
    (Q : α → Host ι → Prop) (w : Host ι) : Prop :=
  wp (S := SocketSig) (hostSemIf reliable i) (fun _ _ _ _ => True) p Q w

theorem alone_sys {o : SocketOp} {Q : o.Resp → Host ι → Prop}
    (h : ∀ r v, HostStep i o w r v →
      (reliable → o.events r = [.refused] → ¬w.Served) →
        Q r (w.after v i (o.events r))) :
    Alone reliable i (sys o) Q w := by
  rintro r w' ⟨⟨-, v, hstep, rfl⟩, hreliable⟩
  exact ⟨trivial, h r v hstep hreliable⟩

theorem alone_bind {α β : Type} {p : Prog SocketSig α}
    {f : α → Prog SocketSig β} {Q : β → Host ι → Prop}
    (h : Alone reliable i p (fun a v => Alone reliable i (f a) Q v) w) :
    Alone reliable i (p >>= f) Q w :=
  (wp_bind p f Q w).mpr h

theorem alone_bindE {α β : Type} {x : Startup α} {f : α → Startup β}
    {Q : Except String β → Host ι → Prop}
    (h : Alone reliable i x.run (fun r v => match r with
      | .ok a => Alone reliable i (f a).run Q v
      | .error e => Q (.error e) v) w) :
    Alone reliable i (x >>= f).run Q w := by
  rw [ExceptT.run_bind]
  refine alone_bind (wp_mono h ?_)
  rintro (e | a) v hr
  · exact hr
  · exact hr

theorem alone_sysE {o : SocketOp} {Q : Except String o.Resp → Host ι → Prop}
    (h : ∀ r v, HostStep i o w r v →
      (reliable → o.events r = [.refused] → ¬w.Served) →
        Q (.ok r) (w.after v i (o.events r))) :
    Alone reliable i (sysE o).run Q w :=
  (wp_run_lift (sys o) Q w).mpr (alone_sys h)

/-- The file and the sockets are the same. -/
structure Host.SameFiles (w v : Host ι) : Prop where
  file : v.file = w.file
  endpoint : v.endpoint = w.endpoint

omit [DecidableEq ι] in
theorem Host.SameFiles.not_served (h : w.SameFiles v) (hserved : ¬w.Served) :
    ¬v.Served := by
  intro hserves
  exact hserved (by simpa [Host.Served, h.file, h.endpoint] using hserves)

omit [DecidableEq ι] in
theorem not_served_initial (leftover : Bool) :
    ¬(Host.initial (ι := ι) leftover).Served := by
  rintro ⟨k, -, hk⟩
  simp [Host.initial] at hk

/-- The path names a process's own socket, which listens. -/
structure Host.TakenBy (w : Host ι) (i : ι) (v : Host ι) : Prop where
  file : v.file = some (.socket i)
  endpoint : v.endpoint = Function.update w.endpoint i .listening

/-- What `UnixListener::bind` comes to. -/
structure BindResult (i : ι) (w : Host ι) (error : Option BindError)
    (v : Host ι) : Prop where
  bound : error = none → w.file = none ∧ w.TakenBy i v
  inUse : (∃ e, error = some e ∧ e.addrInUse = true) → w.file ≠ none
  failed : error ≠ none → w.file ≠ none → w.SameFiles v

theorem bindListener_alone (w : Host ι) :
    Alone reliable i bindListener (BindResult i w) w := by
  refine alone_bind (alone_sys fun r v hstep _ => ?_)
  cases hstep with
  | bindFailed error hinUse =>
      refine ⟨by simp, ?_, fun _ _ => ⟨rfl, rfl⟩⟩
      rintro ⟨e, he, htrue⟩
      cases he
      exact hinUse htrue
  | bound hfree =>
      refine alone_bind (alone_sys fun r v hstep _ => ?_)
      cases hstep with
      | listens hb =>
          refine ⟨fun _ => ⟨hfree, rfl, ?_⟩, by simp, by simp⟩
          simp [Host.after, Host.setEndpoint]
      | listenFailed error =>
          refine alone_bind (alone_sys fun r v hstep _ => ?_)
          exact ⟨by simp, by simp, fun _ hfile => absurd hfree hfile⟩

/-- What a part of `start` comes to, if nobody interrupts it. -/
structure StartResult (reliable : Prop) (i : ι) (w : Host ι)
    (result : Except String Unit) (v : Host ι) : Prop where
  served : reliable → w.Served → result ≠ .ok () ∧ w.SameFiles v
  taken : result = .ok () → w.TakenBy i v

omit [DecidableEq ι] in
theorem Host.Served.file (h : w.Served) : w.file ≠ none := by
  obtain ⟨j, hfile, -⟩ := h
  simp [hfile]

omit [DecidableEq ι] in
theorem Host.SameFiles.served (h : w.SameFiles v) (hserved : w.Served) :
    v.Served := by
  obtain ⟨j, hfile, hlistens⟩ := hserved
  exact ⟨j, h.file.trans hfile, by rw [h.endpoint, hlistens]⟩

theorem startResult_error (error : String) (hsame : w.SameFiles v) :
    StartResult reliable i w (.error error) v :=
  ⟨fun _ _ => ⟨by simp, hsame⟩, by simp⟩

/-- A failure of a start that has found the path unserved. -/
theorem startResult_failed (error : String)
    (hserved : reliable → ¬w.Served) :
    StartResult reliable i w (.error error) v :=
  ⟨fun hreliable h => absurd h (hserved hreliable), by simp⟩

theorem takeOver_alone (path : String) (w : Host ι) :
    Alone reliable i (ConsoleSocket.takeOver path).run
      (StartResult reliable i w) w := by
  refine alone_bindE (alone_sysE fun served v hstep hconnect => ?_)
  cases hstep with
  | connected hserved => exact startResult_error _ ⟨rfl, rfl⟩
  | refused =>
      have hserved : reliable → ¬w.Served := fun h => hconnect h rfl
      refine alone_bindE (alone_sysE fun r v hstep _ => ?_)
      cases hstep with
      | removeFailed error => exact startResult_failed _ hserved
      | removed hfile =>
          refine alone_bindE ((wp_run_lift bindListener _ _).mpr
            (wp_mono (bindListener_alone _) ?_))
          rintro (_ | error) v hbind
          · obtain ⟨-, htaken⟩ := hbind.bound rfl
            exact ⟨fun hreliable h => absurd h (hserved hreliable),
              fun _ => ⟨htaken.file, htaken.endpoint⟩⟩
          · exact startResult_failed _ hserved

theorem createListener_alone (path : String) (w : Host ι) :
    Alone reliable i (ConsoleSocket.createListener path).run
      (StartResult reliable i w) w := by
  refine alone_bindE ((wp_run_lift bindListener _ _).mpr
    (wp_mono (bindListener_alone _) ?_))
  rintro (_ | error) v hbind
  · obtain ⟨hfree, htaken⟩ := hbind.bound rfl
    exact ⟨fun _ hserved => absurd hfree hserved.file, fun _ => htaken⟩
  · by_cases hinUse : error.addrInUse = true
    · have hsame := hbind.failed (by simp) (hbind.inUse ⟨error, rfl, hinUse⟩)
      simp only [hinUse, if_true]
      refine wp_mono (takeOver_alone path v) fun result u h => ⟨?_, ?_⟩
      · intro hreliable hserved
        obtain ⟨hfailed, hsame'⟩ := h.served hreliable (hsame.served hserved)
        exact ⟨hfailed, hsame'.file.trans hsame.file,
          hsame'.endpoint.trans hsame.endpoint⟩
      · intro hok
        have htaken := h.taken hok
        exact ⟨htaken.file, by rw [htaken.endpoint, hsame.endpoint]⟩
    · simp only [hinUse]
      refine ⟨fun _ hserved => ⟨by simp, ?_⟩, by simp⟩
      exact hbind.failed (by simp) hserved.file

theorem closeListener_alone {message : String}
    {Q : Except String Unit → Host ι → Prop}
    (h : ∀ v, Q (.error message) v) :
    Alone reliable i (do sysE .closeListener; throw message :
      Startup Unit).run Q w :=
  alone_bindE (alone_sysE fun _ _ _ _ => h _)

theorem start_alone (path : String) (w : Host ι) :
    Alone reliable i (ConsoleSocket.start path).run
      (StartResult reliable i w) w := by
  refine alone_bindE (wp_mono (createListener_alone path w) ?_)
  rintro (error | u) v hcreated
  · exact hcreated
  · have hserved : reliable → ¬w.Served :=
      fun hreliable h => (hcreated.served hreliable h).1 rfl
    have htaken := hcreated.taken rfl
    refine alone_bindE (alone_sysE fun r v' hstep _ => ?_)
    cases hstep with
    | securingFailed error =>
        exact closeListener_alone fun _ => startResult_failed _ hserved
    | secured hfile =>
        refine alone_bindE (alone_sysE fun r v' hstep _ => ?_)
        cases hstep with
        | spawnFailed error =>
            exact closeListener_alone fun _ => startResult_failed _ hserved
        | spawned =>
            exact ⟨fun hreliable h => absurd h (hserved hreliable),
              fun _ => ⟨htaken.file, htaken.endpoint⟩⟩

/-- An action of a process that is alive. -/
theorem returns_sys {o : SocketOp} {r : o.Resp} (halive : w.alive i = true)
    (hstep : HostStep i o w r v)
    (hreliable : reliable → o.events r = [.refused] → ¬w.Served) :
    Returns (S := SocketSig) (hostSemIf reliable i) (sys o) w r
      (w.after v i (o.events r)) :=
  Returns.perform ⟨⟨halive, v, hstep, rfl⟩, hreliable⟩

/-- A complete run of a program that nobody interrupts and that may fail. -/
abbrev RunsAlone {α : Type} (reliable : Prop) (i : ι) (x : Startup α)
    (w : Host ι) (r : Except String α) (w' : Host ι) : Prop :=
  Returns (S := SocketSig) (hostSemIf reliable i) x.run w r w'

theorem runsAlone_bind {α β : Type} {x : Startup α} {f : α → Startup β} {a : α}
    {r : Except String β} {w' : Host ι}
    (hx : RunsAlone reliable i x w (.ok a) v)
    (hf : RunsAlone reliable i (f a) v r w') :
    RunsAlone reliable i (x >>= f) w r w' :=
  Returns.bind hx hf

theorem runsAlone_lift {α : Type} {p : Prog SocketSig α} {a : α}
    (h : Returns (S := SocketSig) (hostSemIf reliable i) p w a v) :
    RunsAlone reliable i (ExceptT.lift p) w (.ok a) v :=
  Returns.bind h (Returns.pure _ _)

/-- An action, and then the rest. -/
theorem runsAlone_sysE {β : Type} {o : SocketOp} {f : o.Resp → Startup β}
    {r : o.Resp} {result : Except String β} {w' : Host ι}
    (halive : w.alive i = true) (hstep : HostStep i o w r v)
    (hreliable : reliable → o.events r = [.refused] → ¬w.Served)
    (hf : RunsAlone reliable i (f r) (w.after v i (o.events r)) result w') :
    RunsAlone reliable i (sysE o >>= f) w result w' :=
  runsAlone_bind (runsAlone_lift (returns_sys halive hstep hreliable)) hf

/-- `UnixListener::bind` succeeds where the path names nothing. -/
theorem bindListener_runs (reliable : Prop) (halive : w.alive i = true)
    (hfree : w.file = none) :
    ∃ v, Returns (S := SocketSig) (hostSemIf reliable i) bindListener w none
        v ∧ v.alive i = true ∧ v.file ≠ none := by
  refine ⟨_, Returns.bind (returns_sys halive (.bound hfree) fun _ => nofun)
    (Returns.bind (returns_sys halive (.listens ?_) fun _ => nofun)
      (Returns.pure _ _)), halive, ?_⟩
  · simp [Host.after, Host.setEndpoint]
  · simp [Host.after, Host.setEndpoint]

theorem createListener_runs (path : String) (halive : w.alive i = true)
    (hserved : reliable → ¬w.Served) :
    ∃ v, RunsAlone reliable i (ConsoleSocket.createListener path) w (.ok ()) v ∧
      v.alive i = true ∧ v.file ≠ none := by
  by_cases hfree : w.file = none
  · obtain ⟨v, hbind, hv⟩ := bindListener_runs reliable halive hfree
    exact ⟨v, runsAlone_bind (runsAlone_lift hbind) (Returns.pure _ _), hv⟩
  · have hinUse : Returns (S := SocketSig) (hostSemIf reliable i)
        bindListener w (some ⟨true, "Address already in use"⟩)
          (w.after w i []) :=
      Returns.bind (returns_sys halive (.bindFailed _ fun _ => hfree)
        fun _ => nofun) (Returns.pure _ _)
    have hunserved : reliable → ¬(w.after w i []).Served := hserved
    obtain ⟨v, hbind, hv⟩ := bindListener_runs (i := i) reliable
      (w := ((w.after w i []).after _ i [.refused]).after
        { (w.after w i []).after (w.after w i []) i [.refused] with
          file := none } i [.removed]) halive rfl
    refine ⟨v, runsAlone_bind (runsAlone_lift hinUse) ?_, hv⟩
    refine runsAlone_sysE halive .refused (fun h _ => hunserved h) ?_
    refine runsAlone_sysE halive (.removed hfree) (fun _ => nofun) ?_
    exact runsAlone_bind (runsAlone_lift hbind) (Returns.pure _ _)

/-- The rest of a start, with the path naming some file. -/
theorem openListener_runs (halive : w.alive i = true) (hfile : w.file ≠ none) :
    RunsAlone reliable i ConsoleSocket.openListener w (.ok ())
      ((w.after w i []).after (w.after w i []) i []) :=
  runsAlone_sysE halive (.secured hfile) (fun _ => nofun)
    (runsAlone_sysE halive .spawned (fun _ => nofun) (Returns.pure _ _))

/-- What a start comes to that nobody interrupts. -/
theorem start_result {path : String} {r : Except String Unit}
    (h : RunsAlone reliable i (ConsoleSocket.start path) w r v) :
    StartResult reliable i w r v :=
  (wp_exec (fun _ _ _ _ _ _ _ => trivial) h trivial (start_alone path w)).2

theorem start_runs (reliable : Prop) (path : String) (halive : w.alive i = true)
    (hserved : reliable → ¬w.Served) :
    ∃ v, RunsAlone reliable i (ConsoleSocket.start path) w (.ok ()) v := by
  obtain ⟨u, hcreated, halive', hfile⟩ :=
    createListener_runs path halive hserved
  exact ⟨_, runsAlone_bind hcreated (openListener_runs halive' hfile)⟩

/--
Where connections fail only if nobody listens, a start that nobody interrupts
can succeed exactly if nobody serves the path; where somebody does, it fails and
changes neither the file nor a socket.  Where they can fail for other reasons
too, it can always succeed.  A start that succeeds makes the path name its own
listener, and leaves every other socket as it is.
-/
theorem start_alone_iff (path : String) (w : Host ι)
    (halive : w.alive i = true) :
    ((∃ v, RunsAlone True i (ConsoleSocket.start path) w (.ok ()) v) ↔
        ¬w.Served) ∧
      (∀ r v, w.Served →
        RunsAlone True i (ConsoleSocket.start path) w r v →
          r ≠ .ok () ∧ v.file = w.file ∧ v.endpoint = w.endpoint) ∧
      (∃ v, RunsAlone False i (ConsoleSocket.start path) w (.ok ()) v) ∧
      ∀ reliable v,
        RunsAlone reliable i (ConsoleSocket.start path) w (.ok ()) v →
          v.file = some (.socket i) ∧
            v.endpoint = Function.update w.endpoint i .listening := by
  refine ⟨⟨?_, fun hserved => ?_⟩, fun r v hserved hrun => ?_, ?_,
    fun reliable v hrun => ?_⟩
  · rintro ⟨v, hrun⟩ hserved
    exact ((start_result hrun).served trivial hserved).1 rfl
  · exact start_runs True path halive fun _ => hserved
  · obtain ⟨hfailed, hsame⟩ := (start_result hrun).served trivial hserved
    exact ⟨hfailed, hsame.file, hsame.endpoint⟩
  · exact start_runs False path halive False.elim
  · have htaken := (start_result hrun).taken rfl
    exact ⟨htaken.file, htaken.endpoint⟩

theorem start_alone_iff_initial :
    ∃ v, RunsAlone True () (ConsoleSocket.start defaultSocket)
      (Host.initial (ι := Unit) true) (.ok ()) v := by
  refine (start_alone_iff defaultSocket _ rfl).1.mpr ?_
  rintro ⟨i, -, hlistens⟩
  simp [Host.initial] at hlistens

/-! ## Two processes that start at the same time -/

/-- The commands that make a process serve the boards. -/
def SocketCommand.starts : SocketCommand → Bool
  | .serve => true
  | .daemon => true
  | .daemonChild => true
  | _ => false

/-- A run of one process that nobody interrupts, in a run of all. -/
theorem reliablyReaches_of_exec {p : Prog SocketSig Unit} {w : Host ι}
    (h : Exec (S := SocketSig) (hostSemIf True i) (c.prog i, c.world) (p, w)) :
    ReliablyReaches c (c.move i p w) := by
  refine Pool.reaches_of_exec ?_
  refine Relation.ReflTransGen.lift id ?_ _ _ h
  rintro a b hstep
  cases hstep with
  | op hr => exact .op ⟨_, .refl, hr⟩
  | enter => exact .enter

/-- What is reached on a reliable host is reached on any. -/
theorem ReliablyReaches.hostReaches
    {d : Pool SocketSig (fun _ : ι => Unit) (Host ι)}
    (h : ReliablyReaches c d) : HostReaches c d :=
  Pool.Reaches.mono (fun _ _ _ _ _ hsem => hsem.1) h

/-- An action that begins a program. -/
theorem exec_sys {α : Type} {o : SocketOp} {f : o.Resp → Prog SocketSig α}
    {r : o.Resp} (halive : w.alive i = true) (hstep : HostStep i o w r v)
    (hreliable : reliable → o.events r = [.refused] → ¬w.Served) :
    Exec (S := SocketSig) (hostSemIf reliable i) (sys o >>= f, w)
      (f r, w.after v i (o.events r)) :=
  Exec.bind f (returns_sys halive hstep hreliable)

/-- What a process finds as it was. -/
structure Host.SameFor (w v : Host ι) (j : ι) : Prop where
  endpoint : v.endpoint j = w.endpoint j
  alive : v.alive j = w.alive j
  log : v.processLog j = w.processLog j

/-- A process alone changes nothing of the others. -/
theorem sameFor_of_exec {α : Type} {p p' : Prog SocketSig α}
    (h : Exec (S := SocketSig) (hostSemIf reliable i) (p, w) (p', v))
    (hne : i ≠ j) : w.SameFor v j := by
  refine h.invariant (fun u => w.SameFor u j) ?_ ⟨rfl, rfl, rfl⟩
  intro o u r u' hu hsem
  have hlog : u'.processLog j = u.processLog j := by
    rw [processLog_of_hostSem hsem.1, if_neg hne, List.append_nil]
  obtain ⟨⟨-, v', hstep, rfl⟩, -⟩ := hsem
  obtain ⟨hendpoint, halive⟩ := hstep.change.other hne.symm
  exact ⟨hendpoint.trans hu.endpoint, halive.trans hu.alive,
    hlog.trans hu.log⟩

/-- Nobody listens, so that nothing that is asked of the path is answered. -/
theorem main_begins (path : String) {command : SocketCommand}
    (hstarts : command.starts = true) (halive : w.alive i = true)
    (hserved : ¬w.Served) :
    ∃ v, Exec (S := SocketSig) (hostSemIf True i) (command.main path, w)
        (Prog.bind (ConsoleSocket.start path).run serveStarted, v) ∧
      w.SameFiles v ∧ v.alive = w.alive ∧
      (v.processLog i = w.processLog i ∨
        v.processLog i = w.processLog i ++ [.refused]) := by
  have hload : ∀ v : Host ι, v.alive i = true →
      Exec (S := SocketSig) (hostSemIf True i) (servePrimary path, v)
        (Prog.bind (ConsoleSocket.start path).run serveStarted,
          v.after v i []) := by
    intro v hv
    exact exec_sys hv .loaded fun _ => nofun
  have hping : ∀ f : Bool → Prog SocketSig Unit,
      Exec (S := SocketSig) (hostSemIf True i) (pingDaemon >>= f, w)
        (f false, w.after w i [.refused]) := by
    intro f
    exact Exec.bind f (exec_sys halive .refused fun _ _ => hserved)
  let u := w.after w i [.refused]
  cases command with
  | serve =>
      refine ⟨u.after u i [], ?_, ⟨rfl, rfl⟩, rfl, .inr ?_⟩
      · exact Relation.ReflTransGen.trans (hping _) (hload _ halive)
      · simp [u, processLog_after]
  | daemon =>
      refine ⟨(u.after u i []).after (u.after u i []) i [], ?_, ⟨rfl, rfl⟩, rfl,
        .inr ?_⟩
      · refine Relation.ReflTransGen.trans (hping _) ?_
        exact Relation.ReflTransGen.trans (exec_sys halive .loaded
          fun _ => nofun) (hload _ halive)
      · simp [u, processLog_after]
  | daemonChild =>
      exact ⟨_, hload w halive, ⟨rfl, rfl⟩, rfl,
        .inl (by simp [processLog_after])⟩
  | daemonParent => cases hstarts
  | stop => cases hstarts
  | status => cases hstarts

/-- What a process has logged that has not begun to start. -/
theorem unbound_begins (hnone : w.processLog i = [])
    (hlog : v.processLog i = w.processLog i ∨
      v.processLog i = w.processLog i ++ [.refused]) :
    Unbound (v.processLog i) := by
  rcases hlog with hlog | hlog
  · rw [hlog, hnone]
    exact unbound_nil
  · rw [hlog, hnone]
    exact unbound_of_forall (by simp)

/-- What a start that succeeds has logged. -/
theorem start_listens {path : String}
    (h : RunsAlone reliable i (ConsoleSocket.start path) w (.ok ()) v)
    (hunbound : Unbound (w.processLog i)) :
    ∃ t, v.processLog i = w.processLog i ++ t ∧ Listens t := by
  have hexec : Returns (logSem (S := SocketSig) hostEmits)
      (ConsoleSocket.start path).run (w.processLog i) (.ok ())
      (v.processLog i) := by
    refine Exec.log (fun u : Host ι => u.processLog i) ?_ h
    intro o u r u' hsem
    exact ⟨o.events r, rfl, by rw [processLog_of_hostSem hsem.1, if_pos rfl]⟩
  obtain ⟨t, ht, hstarted⟩ := Traces.returns (start_traces hunbound) hexec
  exact ⟨t, ht, hstarted rfl⟩

/-- A process that starts alone, where nobody serves, comes to serve. -/
theorem main_serves (path : String) {command : SocketCommand}
    (hstarts : command.starts = true) (halive : w.alive i = true)
    (hserved : ¬w.Served) (hnone : w.processLog i = []) :
    ∃ v, Exec (S := SocketSig) (hostSemIf True i) (command.main path, w)
        (Prog.bind (.pure (.ok ())) serveStarted, v) ∧
      w.TakenBy i v ∧ .dropped ∉ v.processLog i := by
  obtain ⟨u, hbegins, hfiles, halive', hlog⟩ :=
    main_begins (i := i) path hstarts halive hserved
  obtain ⟨v, hstart⟩ := start_runs (i := i) True path
    (by rw [halive', halive]) fun _ => hfiles.not_served hserved
  have htaken := (start_result hstart).taken rfl
  have hunbound := unbound_begins hnone hlog
  obtain ⟨t, hlog', hlistens⟩ := start_listens hstart hunbound
  refine ⟨v, hbegins.trans (Exec.bind serveStarted hstart),
    ⟨htaken.file, ?_⟩, ?_⟩
  · rw [htaken.endpoint, hfiles.endpoint]
  · rw [hlog', List.mem_append, not_or]
    exact ⟨hunbound.dropped, hlistens.dropped⟩

/-- The path names the socket of a process that has bound it and logged `es`. -/
structure Host.TakesAddress (v w : Host ι) (i : ι) (es : List HostEvent) :
    Prop where
  file : v.file = some (.socket i)
  endpoint : v.endpoint = Function.update w.endpoint i .bound
  alive : v.alive = w.alive
  log : v.processLog i = w.processLog i ++ es

/-- A socket that is only bound does not serve. -/
theorem Host.TakesAddress.not_served (h : v.TakesAddress w i es) :
    ¬v.Served := by
  rintro ⟨k, hfile, hk⟩
  obtain rfl : i = k := by simpa [h.file] using hfile
  simp [h.endpoint] at hk

/-- `UnixListener::bind`, interrupted when the address is bound. -/
theorem bindListener_resumes (halive : w.alive i = true)
    (hfree : w.file = none) :
    ∃ v, v.TakesAddress w i [.bound] ∧
      ∀ u, u.alive i = true → u.endpoint i = .bound →
        Prog.Resumes (S := SocketSig) (hostSemIf True i) bindListener w v u none
          (u.after (u.setEndpoint i .listening) i [.listens]) := by
  refine ⟨w.after { w.setEndpoint i .bound with file := some (.socket i) } i
    [.bound], ⟨rfl, rfl, rfl, ?_⟩, fun u hu hb => ?_⟩
  · rw [processLog_after, if_pos rfl]
  refine Returns.bind_resumes
    (returns_sys halive (.bound hfree) fun _ => nofun) (Returns.resumes ?_)
  exact Returns.bind (returns_sys hu (.listens hb) fun _ => nofun)
    (Returns.pure _ _)

/-- A complete run of a program that is interrupted in `v`, and goes on in
`u`. -/
abbrev RunsAround {α : Type} (i : ι) (x : Startup α) (w v u : Host ι)
    (r : Except String α) (w' : Host ι) : Prop :=
  Prog.Resumes (S := SocketSig) (hostSemIf True i) x.run w v u r w'

theorem runsAround_bind {α β : Type} {x : Startup α} {f : α → Startup β} {a : α}
    {r : Except String β} {u u' w' : Host ι}
    (hx : RunsAround i x w v u (.ok a) u') (hf : RunsAlone True i (f a) u' r w') :
    RunsAround i (x >>= f) w v u r w' :=
  Prog.Resumes.bind hx hf

theorem bind_runsAround {α β : Type} {x : Startup α} {f : α → Startup β} {a : α}
    {r : Except String β} {u u' w' : Host ι} (hx : RunsAlone True i x w (.ok a) u')
    (hf : RunsAround i (f a) u' v u r w') : RunsAround i (x >>= f) w v u r w' :=
  Returns.bind_resumes hx hf

theorem runsAround_lift {α : Type} {p : Prog SocketSig α} {a : α}
    {u w' : Host ι}
    (h : Prog.Resumes (S := SocketSig) (hostSemIf True i) p w v u a w') :
    RunsAround i (ExceptT.lift p) w v u (.ok a) w' :=
  Prog.Resumes.bind h (Returns.pure _ _)

/-- The host once the process `i` listens, with the file as it is. -/
def Host.listensAgain (u : Host ι) (i : ι) : Host ι :=
  u.after (u.setEndpoint i .listening) i [.listens]

/-- The creation of the listener of a path that nobody serves, interrupted when
the address is bound. -/
theorem createListener_resumes (path : String) (halive : w.alive i = true)
    (hserved : ¬w.Served) :
    ∃ v es, v.TakesAddress w i es ∧ .dropped ∉ es ∧
      ∀ u, u.alive i = true → u.endpoint i = .bound →
        RunsAround i (ConsoleSocket.createListener path) w v u (.ok ())
          (u.listensAgain i) := by
  by_cases hfree : w.file = none
  · obtain ⟨v, htakes, hbind⟩ := bindListener_resumes halive hfree
    refine ⟨v, _, htakes, by simp, fun u hu hb => ?_⟩
    exact runsAround_bind (runsAround_lift (hbind u hu hb)) (Returns.pure _ _)
  · let w₁ := w.after w i []
    let w₂ := w₁.after w₁ i [.refused]
    let w₃ := w₂.after { w₂ with file := none } i [.removed]
    have hinUse : Returns (S := SocketSig) (hostSemIf True i) bindListener w
        (some ⟨true, "Address already in use"⟩) w₁ :=
      Returns.bind (returns_sys halive (.bindFailed _ fun _ => hfree)
        fun _ => nofun) (Returns.pure _ _)
    obtain ⟨v, htakes, hbind⟩ :=
      bindListener_resumes (i := i) (w := w₃) halive rfl
    refine ⟨v, [.refused, .removed, .bound],
      ⟨htakes.file, htakes.endpoint, htakes.alive, ?_⟩, by simp,
      fun u hu hb => ?_⟩
    · rw [htakes.log]
      simp [w₃, w₂, w₁, processLog_after]
    · refine bind_runsAround (runsAlone_lift hinUse) ?_
      refine bind_runsAround (runsAlone_lift
        (returns_sys halive .refused fun _ _ => hserved)) ?_
      refine bind_runsAround (runsAlone_lift
        (returns_sys halive (.removed hfree) fun _ => nofun)) ?_
      exact runsAround_bind (runsAround_lift (hbind u hu hb))
        (Returns.pure _ _)

/--
There may be two: whatever an earlier run has left at the path, any two processes
that are started to serve the boards can both come to serve them, even if
connections fail only where nobody listens.
-/
theorem primaries_race (path : String) (leftover : Bool)
    (commands : ι → SocketCommand) (hne : i ≠ j)
    (hi : (commands i).starts = true) (hj : (commands j).starts = true) :
    ∃ c, ReliablyReaches (processes path leftover commands) c ∧
      HostReaches (processes path leftover commands) c ∧
      c.world.Serves i ∧ c.world.Serves j := by
  obtain ⟨v₁, hbegins, hfiles, halive₁, hlog₁⟩ :=
    main_begins (i := i) path hi rfl (not_served_initial leftover)
  -- `i` has bound its socket, which does not listen yet.
  obtain ⟨v₂, es, htakes, hes, hcreates⟩ :=
    createListener_resumes (w := v₁) (i := i) path (by rw [halive₁]; rfl)
      (hfiles.not_served (not_served_initial leftover))
  have hi₂ : v₂.alive i = true := by rw [htakes.alive, halive₁]; rfl
  have hj₂ : v₂.alive j = true := by rw [htakes.alive, halive₁]; rfl
  have hb₂ : v₂.endpoint i = .bound := by
    rw [htakes.endpoint, Function.update_self]
  have hnone₂ : v₂.processLog j = [] := by
    obtain ⟨_, hreaches, -⟩ := hcreates v₂ hi₂ hb₂
    rw [(sameFor_of_exec hreaches hne).log, (sameFor_of_exec hbegins hne).log]
    rfl
  -- `j` finds that nobody listens and takes the path over.
  obtain ⟨v₃, hserves, htaken, hkept⟩ :=
    main_serves (i := j) path hj hj₂ htakes.not_served hnone₂
  have hsame₃ := sameFor_of_exec hserves hne.symm
  -- `i` goes on and listens, although the path no longer names its socket.
  have hfile : (v₃.listensAgain i).file ≠ none :=
    htaken.file.symm ▸ Option.some_ne_none _
  have hi₃ := hsame₃.alive.trans hi₂
  have hresumes : RunsAround i (ConsoleSocket.start path) v₁ v₂ v₃ (.ok ()) _ :=
    runsAround_bind (f := fun _ => ConsoleSocket.openListener)
      (hcreates v₃ hi₃ (hsame₃.endpoint.trans hb₂))
      (openListener_runs hi₃ hfile)
  obtain ⟨q, hfirst, hrest⟩ := hresumes
  let c₀ := processes path leftover commands
  let c₁ := c₀.move i (Prog.bind q serveStarted) v₂
  let c₂ := c₁.move j (Prog.bind (.pure (.ok ())) serveStarted) v₃
  have h₁ : ReliablyReaches c₀ c₁ :=
    reliablyReaches_of_exec (hbegins.trans (Exec.bind serveStarted hfirst))
  have h₂ : ReliablyReaches c₁ c₂ := by
    refine reliablyReaches_of_exec ?_
    rw [Pool.move_prog_of_ne c₀ _ _ hne.symm]
    exact hserves
  have h₃ := reliablyReaches_of_exec (c := c₂) (i := i) (by
    rw [Pool.move_prog_of_ne c₁ _ _ hne, Pool.move_prog_self]
    exact Exec.bind serveStarted hrest)
  have hreaches := (h₁.trans h₂).trans h₃
  refine ⟨_, hreaches, ReliablyReaches.hostReaches hreaches, ⟨?_, ?_⟩,
    ⟨?_, ?_⟩⟩
  · simp [Host.listensAgain, Host.after, Host.setEndpoint]
  · simp only [Pool.move_world, processLog_after, Host.listensAgain,
      hsame₃.log, htakes.log]
    have hnone := (unbound_begins rfl hlog₁).dropped
    simp [hnone, hes]
  · simp [Host.listensAgain, Host.after, Host.setEndpoint, htaken.endpoint,
      hne.symm]
  · simp only [Pool.move_world, processLog_after, Host.listensAgain,
      if_neg hne, List.append_nil]
    exact hkept

theorem primaries_race_serve :
    ∃ c, ReliablyReaches
        (processes defaultSocket false fun _ : Bool => .serve) c ∧
      HostReaches (processes defaultSocket false fun _ : Bool => .serve) c ∧
      c.world.Serves true ∧ c.world.Serves false :=
  primaries_race defaultSocket false (fun _ => .serve) (by decide) rfl rfl

/-- A process whose connection tells it that the path is served gives up. -/
theorem servePrimary_givesUp (path : String) (halive : w.alive i = true)
    (hserved : w.Served) :
    ∃ v, Exec (S := SocketSig) (hostSemIf True i) (servePrimary path, w)
        (.pure (), v) ∧ v.file = w.file ∧ v.log = w.log := by
  let u := (w.after w i []).after (w.after w i []) i []
  have hinUse : Returns (S := SocketSig) (hostSemIf True i) bindListener
      (w.after w i []) (some ⟨true, "Address already in use"⟩) u :=
    Returns.bind (returns_sys halive (.bindFailed _ fun _ => hserved.file)
      fun _ => nofun) (Returns.pure _ _)
  have hserved' : u.Served := hserved
  have hstart : RunsAlone True i (ConsoleSocket.start path) (w.after w i [])
      (.error s!"console socket {path} is already served")
      (u.after u i []) := by
    have htakeOver : RunsAlone True i (ConsoleSocket.takeOver path) u
        (.error s!"console socket {path} is already served")
        (u.after u i []) :=
      runsAlone_sysE halive (.connected hserved') (fun _ => nofun)
        (Returns.pure _ _)
    have hcreate : RunsAlone True i (ConsoleSocket.createListener path)
        (w.after w i [])
        (.error s!"console socket {path} is already served")
        (u.after u i []) :=
      runsAlone_bind (runsAlone_lift hinUse) htakeOver
    exact Returns.bind hcreate (Returns.pure _ _)
  have hexit : Returns (S := SocketSig) (hostSemIf True i) (sys (.exit 1))
      (u.after u i []) _ _ :=
    returns_sys halive (.exited 1) fun _ => nofun
  refine ⟨_, (exec_sys halive .loaded fun _ => nofun).trans
    ((Exec.bind serveStarted hstart).trans hexit), rfl, ?_⟩
  simp [u, Host.after, SocketOp.events]

/-- What one process alone has logged concerns its own socket. -/
theorem own_of_exec {α : Type} {p p' : Prog SocketSig α}
    (h : Exec (S := SocketSig) (hostSemIf reliable i) (p, w) (p', v))
    (hunbound : ∀ k, k ≠ i → w.endpoint k = .unbound) (hlog : w.log = []) :
    ∀ entry ∈ v.log, entry.process = i ∧
      ∀ k, entry.named = some k → k = i := by
  suffices hall : (∀ k, k ≠ i → v.endpoint k = .unbound) ∧
      ∀ entry ∈ v.log, entry.process = i ∧
        ∀ k, entry.named = some k → k = i from hall.2
  refine h.invariant (fun u => (∀ k, k ≠ i → u.endpoint k = .unbound) ∧
    ∀ entry ∈ u.log, entry.process = i ∧
      ∀ k, entry.named = some k → k = i) ?_ ⟨hunbound, by simp [hlog]⟩
  rintro o u r u' ⟨hothers, hentries⟩ ⟨⟨-, v', hstep, rfl⟩, -⟩
  refine ⟨fun k hk => ((hstep.change.other hk).1).trans (hothers k hk), ?_⟩
  intro entry hentry
  rcases List.mem_append.mp hentry with hold | hnew
  · exact hentries entry hold
  · obtain ⟨e, -, rfl⟩ := List.mem_map.mp hnew
    refine ⟨rfl, fun k hk => ?_⟩
    by_contra hne
    obtain ⟨-, hopen⟩ := named_eq_some_iff.mp hk
    simp [hothers k hne, Endpoint.isOpen] at hopen

/--
In a run of any processes in which no removal is a takeover, the path names
every process that serves, so that there is at most one.
-/
theorem primary_unique
    (h : HostReaches (processes path leftover commands) c)
    (hnone : ¬Takeover c.world.log) :
    (∀ i, c.world.Serves i → c.world.file = some (.socket i)) ∧
      ∀ i j, c.world.Serves i → c.world.Serves j → i = j := by
  have hnamed : ∀ i, c.world.Serves i → c.world.file = some (.socket i) :=
    fun i hi => h.consistent.named hnone i
      (by simp [hi.listening, Endpoint.isOpen]) hi.kept
  refine ⟨hnamed, fun i j hi hj => ?_⟩
  simpa [hnamed i hi] using hnamed j hj

/-- Of two processes the first comes to serve, and the second gives up. -/
theorem primary_unique_two :
    ∃ c, HostReaches (processes defaultSocket true
        fun _ : Bool => .daemonChild) c ∧
      c.world.Serves true ∧ c.prog false = .pure () ∧
      ¬c.world.Serves false := by
  let c₀ := processes defaultSocket true fun _ : Bool => .daemonChild
  have hstarts : SocketCommand.daemonChild.starts = true := rfl
  obtain ⟨v, hserves, htaken, hkept⟩ :=
    main_serves (i := true) defaultSocket hstarts
      (w := Host.initial (ι := Bool) true) rfl (not_served_initial true) rfl
  have hother := sameFor_of_exec hserves (j := false) (by decide)
  have hserved : v.Served := ⟨true, htaken.file, by simp [htaken.endpoint]⟩
  obtain ⟨u, hgivesUp, hfile, hlog⟩ :=
    servePrimary_givesUp (i := false) defaultSocket
      (hother.alive.trans rfl) hserved
  have hsame := sameFor_of_exec hgivesUp (j := true) (by decide)
  let c₁ := c₀.move true (Prog.bind (.pure (.ok ())) serveStarted) v
  have h₁ : ReliablyReaches c₀ c₁ := reliablyReaches_of_exec hserves
  have h₂ : ReliablyReaches c₁ (c₁.move false (.pure ()) u) := by
    refine reliablyReaches_of_exec ?_
    rw [Pool.move_prog_of_ne c₀ _ _ (by decide)]
    exact hgivesUp
  have hreaches := ReliablyReaches.hostReaches (h₁.trans h₂)
  have htrue : (c₁.move false (.pure ()) u).world.Serves true :=
    ⟨by simp [hsame.endpoint, htaken.endpoint], by
      rw [Pool.move_world, hsame.log]
      exact hkept⟩
  have hnone : ¬Takeover (c₁.move false (.pure ()) u).world.log := by
    rintro ⟨k, j, hne, hmem⟩
    rw [Pool.move_world, hlog] at hmem
    obtain ⟨rfl, hown⟩ := own_of_exec hserves (fun _ _ => rfl) rfl _ hmem
    exact hne (hown j rfl).symm
  refine ⟨_, hreaches, htrue, Pool.move_prog_self _ _ _ _, fun hfalse => ?_⟩
  exact absurd ((primary_unique hreaches hnone).2 true false htrue hfalse)
    (by decide)

end Election

end RpictlMcp
