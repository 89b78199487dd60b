import RpictlMcp.SessionOrder
import RpictlMcp.ConsoleTyping

/-!
# rpictl-mcp: what is typed into a session

The bytes that a client types into its session are forwarded one by one, each by
a request of its own, and a byte is dropped when the lease is held or the serial
port fails.  This module shows that what comes to the serial port of all this is
a part of what was typed, in the order in which it was typed and no byte twice,
and that nothing of a command is among it.

Two facts meet here.  A request writes its own byte, at most once, whatever the
other threads do, and the requests of a connection act on the board in their
order.
-/

namespace RpictlMcp

open Prog

section OneByte

variable {registry : BoardRegistry} {byte : UInt8}

/-- Only the byte may be written, and only once. -/
def WritesOnce (byte : UInt8) (log : List Event) (e : Event) : Prop :=
  ∀ written' error, e = .wrote written' error →
    written' = byte ∧ written log = []

/-- An event that writes nothing is permitted. -/
theorem writesOnce_silent {log : List Event} {e : Event}
    (h : e.written? = none) : WritesOnce byte log e := by
  rintro written' error rfl
  cases h

theorem writable_once :
    WritableInOrder (WritesOnce byte) [byte]
      (fun done log => (written log).map Prod.fst = done) where
  write := by
    intro done b rest log error hwhole hsent
    obtain ⟨rfl, rfl, rfl⟩ : done = [] ∧ b = byte ∧ rest = [] := by
      cases done with
      | nil =>
          obtain ⟨rfl, rfl⟩ := List.cons.inj hwhole
          exact ⟨rfl, rfl, rfl⟩
      | cons _ done => simp at hwhole
    have hnone : written log = [] := by simpa using hsent
    refine ⟨?_, by simp [hnone, Event.written?]⟩
    rintro _ _ ⟨⟩
    exact ⟨rfl, hnone⟩
  sleep := by
    intro done log ms hsent
    exact ⟨writesOnce_silent rfl, by simpa [Event.written?] using hsent⟩

/-- A request for a byte writes nothing but the byte, at most once. -/
theorem consoleInput_traces (boardId : String) :
    Traces BoardOp.emits (WritesOnce byte)
      (serve registry (.consoleInput boardId byte)) [] fun _ _ => True := by
  refine Traces.map ?_
  unfold forwardConsoleInput
  split
  · exact Traces.pure trivial
  · refine Traces.askSilent (fun _ _ => rfl) fun uuid => Traces.askBind ?_
    rintro heldBy es ⟨c, c', -, rfl⟩
    cases heldBy with
    | some heldBy => exact ⟨trivial, Traces.pure trivial⟩
    | none =>
        refine ⟨⟨writesOnce_silent rfl, trivial⟩, ?_⟩
        refine Traces.bind (writeConsole_inOrder writable_once rfl)
          fun written t _ => ?_
        refine Traces.askEvent (fun _ _ => rfl) (writesOnce_silent rfl)
          fun _ => ?_
        cases written <;> exact Traces.pure trivial

/-- What a run of such a request has written. -/
theorem written_of_lawful {log : List Event}
    (h : Lawful (WritesOnce byte) log) :
    ((written log).map Prod.fst).Sublist [byte] := by
  induction log using List.reverseRecOn with
  | nil => simp
  | append_singleton log e ih =>
      have hlog : Lawful (WritesOnce byte) log := by
        intro before x after hx
        exact h before x (after ++ [e]) (by simp [hx])
      cases hwrote : e.written? with
      | none => simpa [hwrote] using ih hlog
      | some write =>
          cases e with
          | wrote b error =>
              obtain ⟨rfl, hnone⟩ := h log _ [] rfl b error rfl
              simp [hnone, Event.written?]
          | _ => cases hwrote

end OneByte

/-! ## The requests in their order -/

/-- Picks from a list, at indices that increase. -/
theorem sublist_of_picks {α β : Type} {l : List α} {f : α → Option β}
    {picks : List (Nat × β)}
    (hincreasing : picks.Pairwise fun pick later => pick.1 < later.1)
    (hpicks : ∀ pick ∈ picks, ∃ a, l[pick.1]? = some a ∧ f a = some pick.2) :
    (picks.map Prod.snd).Sublist (l.filterMap f) := by
  have hbound : ∀ pick ∈ picks, pick.1 < l.length := by
    intro pick hpick
    obtain ⟨a, ha, -⟩ := hpicks pick hpick
    exact (List.getElem?_eq_some_iff.mp ha).1
  have hsublist := (@List.map_getElem_sublist _ l
    (picks.pmap (fun pick h => ⟨pick.1, h⟩) hbound)
    (hincreasing.pmap hbound fun _ _ _ _ h => h)).filterMap f
  suffices hsame : picks.map Prod.snd =
      ((picks.pmap (fun pick h => (⟨pick.1, h⟩ : Fin l.length)) hbound).map
        fun k => l[k]).filterMap f by
    rw [hsame]
    exact hsublist
  clear hincreasing hsublist
  induction picks with
  | nil => rfl
  | cons pick picks ih =>
      obtain ⟨a, ha, hf⟩ := hpicks pick (by simp)
      obtain ⟨hlt, rfl⟩ := List.getElem?_eq_some_iff.mp ha
      have hrest := ih (fun pick h => hpicks pick (by simp [h]))
        fun pick h => hbound pick (by simp [h])
      simp only [List.map_cons, List.pmap, List.filterMap_cons,
        Fin.getElem_fin, hf, hrest]

/-- The byte that a request is for, if it is for one. -/
def ClientRequest.input? : ClientRequest → Option UInt8
  | .consoleInput _ byte => some byte
  | _ => none

section InOrder

variable {κ : Type} [DecidableEq κ]

/-- The byte that an event has written for the input of a connection. -/
def Entry.input? (reqs : κ × Nat → ClientRequest) (i : κ)
    (e : Entry (κ × Nat)) : Option (Nat × UInt8) :=
  match e.thread, e.event with
  | ((j, k), .main), .wrote byte _ =>
      if j = i ∧ (reqs (j, k)).input?.isSome then some (k, byte) else none
  | _, _ => none

/-- The bytes written for the input of a connection, in their order. -/
def inputWrites (reqs : κ × Nat → ClientRequest) (i : κ)
    (log : List (Entry (κ × Nat))) : List UInt8 :=
  (log.filterMap (Entry.input? reqs i)).map Prod.snd

variable {reqs : κ × Nat → ClientRequest} {i : κ}

theorem Entry.input?_eq_some {e : Entry (κ × Nat)} {k : Nat} {byte : UInt8} :
    e.input? reqs i = some (k, byte) ↔
      e.thread = ((i, k), .main) ∧ (reqs (i, k)).input?.isSome = true ∧
        ∃ error, e.event = .wrote byte error := by
  obtain ⟨⟨⟨j, n⟩, role⟩, holder, event⟩ := e
  cases role <;> cases event <;> simp [Entry.input?]
  constructor
  · rintro ⟨⟨rfl, hinput⟩, rfl, rfl⟩
    exact ⟨⟨rfl, rfl⟩, hinput, rfl⟩
  · rintro ⟨⟨rfl, rfl⟩, hinput, rfl⟩
    exact ⟨⟨rfl, hinput⟩, rfl, rfl⟩

/-- A request writes its byte at most once, whatever the other threads do. -/
def WritesInput (reqs : κ × Nat → ClientRequest) (w : World (κ × Nat)) :
    Prop :=
  ∀ i k byte, (reqs (i, k)).input? = some byte →
    ((written (w.threadLog ((i, k), .main))).map Prod.fst).Sublist [byte]

theorem BoardReaches.writesInput {registry : BoardRegistry}
    {console : Console} {d : Pool BoardSig Answer (World (κ × Nat))}
    (h : BoardReaches (start registry console reqs) d) :
    WritesInput reqs d.world := by
  intro i k byte hinput
  have hexec := h.exec ((i, k), .main)
  cases hreq : reqs (i, k) with
  | consoleInput boardId byte' =>
      rw [hreq] at hinput
      obtain rfl := Option.some.inj hinput
      have hprogram : (start registry console reqs).prog ((i, k), .main) =
          serve registry (.consoleInput boardId byte') := by
        rw [← hreq]
        rfl
      rw [hprogram] at hexec
      exact written_of_lawful ((consoleInput_traces boardId).lawful hexec)
  | _ =>
      rw [hreq] at hinput
      cases hinput

variable {w : World (κ × Nat)} {clients : κ → Client} {u : κ → Record}
variable {b : String}
variable {serde : Serde}

/-- Two writes for the input of a connection are writes of two requests. -/
theorem inputs_increase (hwrites : WritesInput reqs w)
    (hlogged : SessionsLogged clients b u w.log) :
    (w.log.filterMap (Entry.input? reqs i)).Pairwise
      fun pick later => pick.1 < later.1 := by
  refine List.pairwise_filterMap.mpr ?_
  refine List.pairwise_iff_forall_sublist.mpr ?_
  rintro e later hsublist ⟨k, byte⟩ he ⟨k', byte'⟩ hlater
  obtain ⟨hthread, hinput, error, hevent⟩ := Entry.input?_eq_some.mp he
  obtain ⟨hthread', -, error', hevent'⟩ := Entry.input?_eq_some.mp hlater
  have hle : k ≤ k' := by
    have hordered := List.pairwise_iff_forall_sublist.mp hlogged.ordered
      hsublist i
    simp only [Entry.IsOf, Entry.number, hthread, hthread'] at hordered
    simpa using hordered
  refine lt_of_le_of_ne hle ?_
  rintro rfl
  -- One request would have written two bytes.
  obtain ⟨own, hown⟩ := Option.isSome_iff_exists.mp hinput
  have htwo : [e, later].filter (fun e => e.thread = ((i, k), .main)) =
      [e, later] := by
    simp [hthread, hthread']
  have hlog := (hsublist.filter fun e => e.thread = ((i, k), .main)).map
    Entry.event
  rw [htwo] at hlog
  have hwritten := (hlog.filterMap Event.written?).map Prod.fst
  have hlength := (hwritten.trans (hwrites i k own hown)).length_le
  simp [hevent, hevent', Event.written?] at hlength

/-- What was written for the input of a connection is what it asked for. -/
theorem inputWrites_sublist
    (hwrites : WritesInput (requestsOf serde clients) w)
    (hlogged : SessionsLogged clients b u w.log) :
    (inputWrites (requestsOf serde clients) i w.log).Sublist
      (((clients i).requests serde).filterMap ClientRequest.input?) := by
  refine sublist_of_picks (inputs_increase hwrites hlogged) ?_
  rintro ⟨k, byte⟩ hpick
  obtain ⟨e, he, hinput⟩ := List.mem_filterMap.mp hpick
  obtain ⟨hthread, hinput, error, hevent⟩ := Entry.input?_eq_some.mp hinput
  obtain ⟨own, hown⟩ := Option.isSome_iff_exists.mp hinput
  have hmem : byte ∈ (written (w.threadLog ((i, k), .main))).map Prod.fst := by
    have hlog : e.event ∈ w.threadLog ((i, k), .main) :=
      List.mem_map.mpr ⟨e, List.mem_filter.mpr ⟨he, by simp [hthread]⟩, rfl⟩
    refine List.mem_map.mpr ⟨(byte, error), ?_, rfl⟩
    exact List.mem_filterMap.mpr ⟨e.event, hlog, by rw [hevent]; rfl⟩
  obtain rfl := List.mem_singleton.mp ((hwrites i k own hown).subset hmem)
  cases hreq : ((clients i).requests serde)[k]? with
  | none => simp [requestsOf, hreq, ClientRequest.input?] at hown
  | some req =>
      refine ⟨req, rfl, ?_⟩
      simpa [requestsOf, hreq] using hown

omit [DecidableEq κ] in
/-- The input that a session asks for is what its decoder serves. -/
theorem requests_input (client : Client) :
    ((client.requests serde).filterMap ClientRequest.input?).Sublist
      (inputs (Session.initial.run client.typed).2) := by
  have hsession : ∀ boardId served,
      (served.filterMap (Served.request? boardId)).filterMap
        ClientRequest.input? = inputs served := by
    intro boardId served
    rw [List.filterMap_filterMap, inputs]
    refine List.filterMap_congr fun step _ => ?_
    cases step <;> rfl
  unfold Client.requests
  split
  · split <;> exact List.nil_sublist _
  · exact List.nil_sublist _
  · rw [sessionRequests, hsession]
  · exact List.nil_sublist _

/-- What has come to the serial port of what a client has typed. -/
structure TypedInOrder (client : Client) (bytes : List UInt8) : Prop where
  decoded : bytes.Sublist (inputs (Session.initial.run client.typed).2)
  pressed : ∀ keys, client.typed = (Keyboard.initial.run keys).1 →
    0 ∉ uartBytes keys → bytes.Sublist (uartBytes keys)

variable {registry : BoardRegistry} {consoles : String → Console}
variable {c : Pool ConnectionSig (fun _ : ConnectionThread κ => Unit)
  (Daemon κ)}

/--
The bytes written for the input of a connection are a part of what its client
has typed for the board, in order and no byte twice.
-/
theorem typed_in_order
    (h : DaemonReaches clients
      (startDaemon registry serde consoles clients) c) (i : κ)
    (boardId : String) :
    TypedInOrder (clients i) (inputWrites (requestsOf serde clients) i
      (c.world.boards boardId).log) := by
  obtain ⟨d, hreaches, hshows⟩ :=
    (boardLayering_shows boardId registry serde consoles clients).reaches h
  obtain ⟨v, hkept, -⟩ := h.sessions
  have hwrites : WritesInput (requestsOf serde clients)
      (c.world.boards boardId) := by
    have hworld : d.world = c.world.boards boardId := hshows.world
    rw [← hworld]
    exact BoardReaches.writesInput hreaches
  have hdecoded := (inputWrites_sublist hwrites (hkept.logged boardId)
    (i := i)).trans (requests_input (clients i))
  refine ⟨hdecoded, fun keys hkeys hnul => ?_⟩
  rw [hkeys] at hdecoded
  have hserved := congrArg (fun served => inputs served.2)
    (served_of_asked keys hnul)
  have hpressed : inputs (Session.initial.run (Keyboard.initial.run keys).1).2 =
      uartBytes keys := hserved
  rwa [hpressed] at hdecoded

/-- A typist's byte comes to the serial port. -/
theorem typed_in_order_typing :
    ∃ c : Pool ConnectionSig (fun _ : ConnectionThread Bool => Unit)
        (Daemon Bool),
      inputWrites (requestsOf noSerde (typists Bool 0x61)) false
        (c.world.boards "simulated").log = [0x61] ∧
      TypedInOrder (typist 0x61) (inputWrites
        (requestsOf noSerde (typists Bool 0x61)) false
        (c.world.boards "simulated").log) := by
  obtain ⟨c, hreaches, -, hlog⟩ := typists_reach noSerde 0x61
    (by decide) false
  refine ⟨c, ?_, typed_in_order hreaches false "simulated"⟩
  have hclient : (typist 0x61).requests noSerde =
      [.consoleInput "simulated" 0x61] := by
    simp only [Client.requests, typist, Option.map_some, typist_handshake]
    decide
  have hreq : requestsOf noSerde (typists Bool 0x61) (false, 0) =
      .consoleInput "simulated" 0x61 := by
    rw [requestsOf, typists, hclient]
    rfl
  have hwrote : Entry.input? (requestsOf noSerde (typists Bool 0x61)) false
      ⟨((false, 0), .main), some ((false, 0), .main), .wrote 0x61 none⟩ =
        some (0, 0x61) :=
    Entry.input?_eq_some.mpr ⟨rfl, by rw [hreq]; rfl, none, rfl⟩
  have hacquired : Entry.input? (requestsOf noSerde (typists Bool 0x61)) false
      ⟨((false, 0), .main), none, .acquired typingOwner⟩ = none := rfl
  rw [inputWrites, hlog]
  simp [writeEvents, simulated, hwrote, hacquired]

end InOrder

end RpictlMcp
