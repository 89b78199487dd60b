import RpictlMcp.Connections
import RpictlMcp.LeaseDiscipline

/-!
# rpictl-mcp: connections make requests

The daemon does what its clients ask for, one request after the other on each
connection.  This module relates the daemon, in which the requests of a
connection are parts of the program that serves it, to the system in which each
request has a thread of its own: every run of the daemon is a run of that
system, as far as any one board can tell.  The requests of the other boards are
then no more than a pause.

A console session makes its requests while it reads.  Its invariant says that
the session stands where the decoder of the typed bytes stands, and that the
requests which that decoder has not come to yet are still to be served.
-/

namespace RpictlMcp

open Prog

section Hosting

variable {registry : BoardRegistry} {serde : Serde}
variable {κ : Type} {clients : κ → Client} {b : String}

/-- What the main thread of a connection knows of its stream: what it has not
read, what it has written, and whether it has spawned the forwarder. -/
structure Stream where
  unread : List UInt8
  sent : Text
  forwarding : Bool

/-- A part of some bytes has been written, at the front of them. -/
def Wrote (bytes : Text) (v v' : Stream) : Prop :=
  ∃ part, part <+: bytes ∧ v' = { v with sent := v.sent ++ part }

/-- What an action of the main thread does to its stream. -/
def StreamOp.OnStream (client : Client) (o : StreamOp) (v : Stream)
    (r : o.Resp) (v' : Stream) : Prop :=
  match o, r with
  | .readLine, line => line = client.line ∧ v' = v
  | .read, .data bytes => ∃ rest, v.unread = bytes ++ rest ∧
      v' = { v with unread := rest }
  | .send bytes, _ => Wrote bytes v v'
  | .spawnForwarder, _ => v' = { v with forwarding := true }
  | _, _ => v' = v

/-- The thread of a connection on the stage of a board. -/
def connectionStage (b : String) (clients : κ → Client)
    (t : ConnectionThread κ) : Stage RequestKey StreamSig Stream where
  moves o v r v' := t.2 = .main → StreamOp.OnStream (clients t.1) o v r v'
  mine key := t.2 ≠ .forwarder ∧ key.board? = some b

/-- The requests of a connection. -/
abbrev Waiting : Type 1 :=
  Guests (K := RequestKey) BoardSig fun _ => ClientResponse

/-- What the main thread of a connection comes to. -/
abbrev Serving (b : String) (clients : κ → Client) (i : κ) {α : Type}
    (p : Connection α) (Q : α → Stream → Waiting → Prop) (v : Stream)
    (P : Waiting) : Prop :=
  (connectionStage b clients (i, .main)).hosts p Q v P

variable {i : κ} {v : Stream} {P : Waiting}

/-- An action that leaves the stream alone. -/
def StreamOp.isQuiet : StreamOp → Bool
  | .readLine => false
  | .read => false
  | .send _ => false
  | .spawnForwarder => false
  | _ => true

theorem serving_quiet {o : StreamOp} {Q : o.Resp → Stream → Waiting → Prop}
    (hquiet : o.isQuiet = true) (hQ : ∀ r, Q r v P) :
    Serving b clients i (stream o) Q v P := by
  intro r v' hmoves
  have hsame : v' = v := by
    have := hmoves rfl
    cases o <;>
      first
      | exact this
      | cases hquiet
  exact hsame ▸ hQ r

theorem serving_readLine {Q : Option (List Char) → Stream → Waiting → Prop}
    (hQ : Q (clients i).line v P) :
    Serving b clients i (stream .readLine) Q v P := by
  intro line v' hmoves
  obtain ⟨rfl, rfl⟩ := hmoves rfl
  exact hQ

theorem serving_send {bytes : Text} {Q : Bool → Stream → Waiting → Prop}
    (hQ : ∀ r v', Wrote bytes v v' → Q r v' P) :
    Serving b clients i (stream (.send bytes)) Q v P :=
  fun r v' hmoves => hQ r v' (hmoves rfl)

theorem serving_sendAll {bytes : Text} {Q : Unit → Stream → Waiting → Prop}
    (hQ : ∀ v', Wrote bytes v v' → Q () v' P) :
    Serving b clients i (sendAll bytes) Q v P :=
  (Stage.hosts_bind _ _ _ _ _).mpr (serving_send fun _ => hQ)

/-- What has been written is nothing to the reader. -/
theorem Wrote.unread {bytes : Text} {v' : Stream} (h : Wrote bytes v v') :
    v'.unread = v.unread := by
  obtain ⟨part, -, rfl⟩ := h
  rfl

theorem serving_sendResponse {response : Text}
    {Q : Unit → Stream → Waiting → Prop}
    (hQ : ∀ v', v'.unread = v.unread → Q () v' P) :
    Serving b clients i (sendResponse response) Q v P := by
  refine (Stage.hosts_bind _ _ _ _ _).mpr ?_
  refine serving_send fun opened v₁ h₁ => ?_
  cases opened with
  | false => exact hQ v₁ h₁.unread
  | true =>
      refine (Stage.hosts_bind _ _ _ _ _).mpr ?_
      refine serving_send fun written v₂ h₂ => ?_
      have hunread := h₂.unread.trans h₁.unread
      cases written with
      | false => exact hQ v₂ hunread
      | true =>
          exact serving_sendAll fun v₃ h₃ => hQ v₃ (h₃.unread.trans hunread)

/-- A request is under way, and the others are where they were. -/
structure Underway (b : String) (P₀ : Waiting) (key : RequestKey)
    (p : Prog BoardSig ClientResponse) (P : Waiting) : Prop where
  self : key.board? = some b → Enters (P key) p
  other : ∀ key', key' ≠ key → P key' = P₀ key'

/-- A part of a request: the request goes on with its result. -/
theorem Underway.request {α : Type} {key : RequestKey} {p : Prog BoardSig α}
    {f : α → Prog BoardSig ClientResponse} {P₀ : Waiting}
    {Q : α → Stream → Waiting → Prop} (h : Underway b P₀ key (p >>= f) P)
    (hQ : ∀ x P', Underway b P₀ key (f x) P' → Q x v P') :
    Serving b clients i (request key p) Q v P := by
  refine Stage.hosts_embed (fun hmine => h.self hmine.2) ?_
  intro x P' hsame henters
  refine hQ x P' ⟨fun hboard => henters ⟨by simp, hboard⟩, fun key' hkey' => ?_⟩
  exact (hsame key' hkey').trans (h.other key' hkey')

/-- A part of a request, and what comes after it. -/
theorem Underway.requestBind {α β : Type} {key : RequestKey}
    {p : Prog BoardSig α} {f : α → Prog BoardSig ClientResponse}
    {next : α → Connection β} {P₀ : Waiting}
    {Q : β → Stream → Waiting → Prop} (h : Underway b P₀ key (p >>= f) P)
    (hQ : ∀ x P', Underway b P₀ key (f x) P' →
      Serving b clients i (next x) Q v P') :
    Serving b clients i (RpictlMcp.request key p >>= next) Q v P :=
  (Stage.hosts_bind _ _ _ _ _).mpr (h.request hQ)

theorem serving_sendBind {β : Type} {bytes : Text} {next : Connection β}
    {Q : β → Stream → Waiting → Prop}
    (hQ : ∀ v', Wrote bytes v v' → Serving b clients i next Q v' P) :
    Serving b clients i (sendAll bytes >>= fun _ => next) Q v P :=
  (Stage.hosts_bind _ _ _ _ _).mpr (serving_sendAll hQ)

/-- The requests that a session has not come to. -/
def Unserved (registry : BoardRegistry) (reqs : Nat → ClientRequest) (n : Nat)
    (P : Waiting) : Prop :=
  ∀ key, n ≤ key.number → P key = serve registry (reqs key.number)

variable {reqs : Nat → ClientRequest} {k : Nat} {board? : Option String}
variable {P₀ : Waiting}

theorem Unserved.begin (h : Unserved registry reqs k P)
    {p : Prog BoardSig ClientResponse} (hserve : serve registry (reqs k) = p)
    (board? : Option String) : Underway b P ⟨board?, k⟩ p P := by
  refine ⟨fun _ => ?_, fun _ _ => rfl⟩
  rw [h ⟨board?, k⟩ le_rfl, hserve]
  exact .refl

theorem Underway.unserved {p : Prog BoardSig ClientResponse}
    (h : Underway b P₀ ⟨board?, k⟩ p P)
    (hunserved : Unserved registry reqs k P₀) :
    Unserved registry reqs (k + 1) P := by
  intro key hkey
  have hother : key ≠ ⟨board?, k⟩ := by
    rintro rfl
    exact absurd hkey (by simp)
  rw [h.other key hother]
  exact hunserved key (Nat.le_of_succ_le hkey)

theorem forwardInput_serving {boardId : String} {byte : UInt8}
    (h : Unserved registry reqs k P)
    (hreq : reqs k = .consoleInput boardId byte) :
    Serving b clients i (forwardInput registry k boardId [byte])
      (fun _ v' P' => v'.unread = v.unread ∧
        Unserved registry reqs (k + 1) P') v P := by
  have hserve : serve registry (reqs k) =
      .forwarded <$> forwardConsoleInput registry boardId [byte] := by
    rw [hreq, serve]
  unfold forwardInput
  unfold forwardConsoleInput at hserve
  cases hboard : registry.board boardId with
  | error error =>
      exact ⟨rfl, fun key hkey => h key (Nat.le_of_succ_le hkey)⟩
  | ok profile =>
      simp only [hboard, map_bind] at hserve
      refine (h.begin hserve (some boardId)).requestBind fun uuid P' hP' => ?_
      refine hP'.requestBind fun heldBy P' hP' => ?_
      cases heldBy with
      | some owner =>
          exact serving_sendAll fun _ hsent =>
            ⟨hsent.unread, hP'.unserved h⟩
      | none =>
          simp only [map_bind] at hP'
          refine hP'.requestBind fun written P' hP' => ?_
          cases written with
          | error error =>
              refine serving_sendBind fun _ hsent => ?_
              exact hP'.request fun _ P' hP' =>
                ⟨hsent.unread, hP'.unserved h⟩
          | ok _ =>
              exact hP'.request fun _ P' hP' => ⟨rfl, hP'.unserved h⟩

/-! ### The decoder of a session, byte by byte -/

section Decoder

variable {s : Session} {command : List UInt8} {byte : UInt8}

theorem Session.receive_complete (h : s.commandBuf = some command)
    (hbyte : byte = 0x0A ∨ byte = 0x0D) :
    s.receive byte = s.complete command := by
  simp only [Session.receive, h, if_pos hbyte]

theorem Session.receive_collect (h : s.commandBuf = some command)
    (hbyte : ¬(byte = 0x0A ∨ byte = 0x0D)) :
    s.receive byte =
      ({ s with commandBuf := some (command ++ [byte]) }, []) := by
  simp only [Session.receive, h, if_neg hbyte]

theorem Session.receive_open (h : s.commandBuf = none) (hbyte : byte = 0) :
    s.receive byte = ({ s with commandBuf := some [] }, []) := by
  simp only [Session.receive, h, if_pos hbyte]

theorem Session.receive_typed (h : s.commandBuf = none) (hbyte : byte ≠ 0) :
    s.receive byte = (s, [.input byte]) := by
  simp only [Session.receive, h, if_neg hbyte]

end Decoder

/-- A session that has read some bytes stands where their decoder stands. -/
structure InStep (registry : BoardRegistry) (reqs : Nat → ClientRequest)
    (boardId : String) (bytes : List UInt8) (s : SessionVars) (P : Waiting) :
    Prop where
  buffer : s.commandBuf = (Session.initial.run bytes).1.commandBuf
  made : s.requests = (sessionRequests boardId bytes).length
  unserved : Unserved registry reqs s.requests P

theorem sessionRequests_append (boardId : String) (bytes rest : List UInt8) :
    sessionRequests boardId (bytes ++ rest) = sessionRequests boardId bytes ++
      ((Session.initial.run bytes).1.run rest).2.filterMap
        (Served.request? boardId) := by
  rw [sessionRequests, Session.run_append, List.filterMap_append]
  rfl

/-- The requests are those that a session asks for. -/
def Asks (boardId : String) (typed : List UInt8) (reqs : Nat → ClientRequest) :
    Prop :=
  ∀ k req, (sessionRequests boardId typed)[k]? = some req → reqs k = req

section Session

variable {boardId : String} {typed bytes rest : List UInt8} {byte : UInt8}
variable {s s' : SessionVars} {P' : Waiting} {served : List Served}

/-- The decoder takes a byte. -/
theorem InStep.next (h : InStep registry reqs boardId bytes s P)
    (hbuffer : s'.commandBuf =
      ((Session.initial.run bytes).1.receive byte).1.commandBuf)
    (hserved : ((Session.initial.run bytes).1.receive byte).2 = served)
    (hrequests : s'.requests = s.requests +
      (served.filterMap (Served.request? boardId)).length)
    (hunserved : Unserved registry reqs s'.requests P') :
    InStep registry reqs boardId (bytes ++ [byte]) s' P' := by
  refine ⟨?_, ?_, hunserved⟩
  · rw [Session.run_append]
    exact hbuffer
  · rw [sessionRequests_append, List.length_append, ← h.made, hrequests,
      Session.run, hserved]
    simp [Session.run]

/-- The request that a byte asks for is the next one. -/
theorem InStep.asked {req : ClientRequest}
    (h : InStep registry reqs boardId bytes s P)
    (hasks : Asks boardId (bytes ++ byte :: rest) reqs)
    (hserved : ((Session.initial.run bytes).1.receive byte).2 = served)
    (hreq : served.filterMap (Served.request? boardId) = [req]) :
    reqs s.requests = req := by
  refine hasks _ _ ?_
  rw [sessionRequests_append, h.made, Session.run, List.filterMap_append,
    hserved, hreq, List.getElem?_append_right le_rfl]
  simp

theorem completeCommand_serving {command : List UInt8}
    (h : InStep registry reqs boardId bytes s P)
    (hasks : Asks boardId (bytes ++ byte :: rest) reqs)
    (hbuffer : s.commandBuf = some command)
    (hbyte : byte = 0x0A ∨ byte = 0x0D) :
    Serving b clients i (completeCommand registry boardId command s.requests)
      (fun s' v' P' => v'.unread = v.unread ∧
        InStep registry reqs boardId (bytes ++ [byte]) s' P') v P := by
  have hreceive := Session.receive_complete (h.buffer.symm.trans hbuffer) hbyte
  unfold completeCommand
  cases hcommand : stringFromUtf8 command with
  | none =>
      have hcomplete : (Session.initial.run bytes).1.receive byte =
          (⟨none, (Session.initial.run bytes).1.rpictlMode⟩,
            [.undecodable]) := by
        rw [hreceive, Session.complete, hcommand]
      refine (Stage.hosts_bind _ _ _ _ _).mpr ?_
      refine serving_sendResponse fun _ hunread => ⟨hunread, ?_⟩
      exact h.next (by rw [hcomplete]) (by rw [hcomplete]) rfl h.unserved
  | some command =>
      simp only [Session.complete, hcommand] at hreceive
      dsimp only
      split
      · rename_i hon
        rw [if_pos hon] at hreceive
        refine (Stage.hosts_bind _ _ _ _ _).mpr ?_
        refine serving_quiet rfl fun _ => ⟨rfl, ?_⟩
        exact h.next (by rw [hreceive]) (by rw [hreceive]) rfl h.unserved
      · rename_i hon
        rw [if_neg hon] at hreceive
        split
        · rename_i hoff
          rw [if_pos hoff] at hreceive
          refine (Stage.hosts_bind _ _ _ _ _).mpr ?_
          refine serving_quiet rfl fun _ => ⟨rfl, ?_⟩
          exact h.next (by rw [hreceive]) (by rw [hreceive]) rfl h.unserved
        · rename_i hoff
          rw [if_neg hoff] at hreceive
          have hreq := h.asked hasks (congrArg Prod.snd hreceive) rfl
          have hserve : serve registry (reqs s.requests) =
              handleConsoleCommand registry boardId
                (String.ofList (trim command.toList)) >>=
                  fun reply => Pure.pure (ClientResponse.text reply) := by
            rw [hreq, serve, map_eq_pure_bind]
          have hbegin := h.unserved.begin (b := b) hserve (some boardId)
          generalize String.ofList (trim command.toList) = cmd
            at hbegin hreceive ⊢
          refine hbegin.requestBind fun reply P' hP' => ?_
          refine (Stage.hosts_bind _ _ _ _ _).mpr ?_
          refine serving_sendResponse fun _ hunread => ⟨hunread, ?_⟩
          exact h.next (by rw [hreceive]) (by rw [hreceive]) rfl
            (hP'.unserved h.unserved)

theorem sessionByte_serving
    (h : InStep registry reqs boardId bytes s P)
    (hasks : Asks boardId (bytes ++ byte :: rest) reqs) :
    Serving b clients i (sessionByte registry boardId s byte)
      (fun s' v' P' => v'.unread = v.unread ∧
        InStep registry reqs boardId (bytes ++ [byte]) s' P') v P := by
  unfold sessionByte
  cases hbuffer : s.commandBuf with
  | some command =>
      have hdecoder := h.buffer.symm.trans hbuffer
      dsimp only
      split
      · rename_i hbyte
        exact completeCommand_serving h hasks hbuffer hbyte
      · rename_i hbyte
        have hreceive := Session.receive_collect hdecoder hbyte
        refine ⟨rfl, ?_⟩
        exact h.next (by rw [hreceive]) (by rw [hreceive]) rfl h.unserved
  | none =>
      have hdecoder := h.buffer.symm.trans hbuffer
      dsimp only
      split
      · rename_i hbyte
        have hreceive := Session.receive_open hdecoder hbyte
        refine ⟨rfl, ?_⟩
        exact h.next (by rw [hreceive]) (by rw [hreceive]) rfl h.unserved
      · rename_i hbyte
        have hreceive := Session.receive_typed hdecoder hbyte
        have hreq := h.asked hasks (congrArg Prod.snd hreceive) rfl
        refine (Stage.hosts_bind _ _ _ _ _).mpr ?_
        refine Stage.hosts_mono (forwardInput_serving h.unserved hreq) ?_
        rintro _ v' P' ⟨hunread, hP'⟩
        refine ⟨hunread, ?_⟩
        exact h.next (by rw [hreceive, hdecoder]) (by rw [hreceive]) rfl hP'

/-- The bytes of one read: by induction on them. -/
theorem sessionBytes_serving {input : List UInt8}
    (h : InStep registry reqs boardId bytes s P)
    (hasks : Asks boardId (bytes ++ (input ++ rest)) reqs) :
    Serving b clients i (sessionBytes registry boardId s input)
      (fun s' v' P' => v'.unread = v.unread ∧
        InStep registry reqs boardId (bytes ++ input) s' P') v P := by
  induction input generalizing bytes s v P with
  | nil => exact ⟨rfl, by simpa using h⟩
  | cons byte input ih =>
      refine (Stage.hosts_bind _ _ _ _ _).mpr ?_
      refine Stage.hosts_mono (sessionByte_serving h hasks) ?_
      rintro s' v' P' ⟨hunread, hP'⟩
      rw [List.append_cons, ← hunread]
      refine ih hP' ?_
      rwa [← List.append_cons, ← List.cons_append]

/-- What is known of a session between two turns of its loop. -/
def Attends (registry : BoardRegistry) (reqs : Nat → ClientRequest)
    (boardId : String) (typed : List UInt8) (s : SessionVars)
    (v : Stream) (P : Waiting) : Prop :=
  ∃ bytes, typed = bytes ++ v.unread ∧
    InStep registry reqs boardId bytes s P

theorem sessionTurn_serving
    (h : Attends registry reqs boardId typed s v P)
    (hasks : Asks boardId typed reqs) :
    Serving b clients i (sessionTurn registry boardId s)
      (fun r v' P' => r.elim
        (fun s' => Attends registry reqs boardId typed s' v' P')
        fun _ => True) v P := by
  refine (Stage.hosts_bind _ _ _ _ _).mpr ?_
  refine serving_quiet rfl fun running => ?_
  cases running with
  | false => trivial
  | true =>
      refine (Stage.hosts_bind _ _ _ _ _).mpr ?_
      intro read v' hmoves
      have hread := hmoves rfl
      cases read with
      | eof => trivial
      | failed => trivial
      | interrupted =>
          obtain rfl : v' = v := hread
          exact h
      | data input =>
          obtain ⟨rest, hinput, rfl⟩ := hread
          obtain ⟨bytes, rfl, hinStep⟩ := h
          rw [hinput] at hasks
          refine (Stage.hosts_bind _ _ _ _ _).mpr ?_
          refine Stage.hosts_mono (sessionBytes_serving hinStep hasks) ?_
          rintro s' v' P' ⟨hunread, hP'⟩
          refine ⟨bytes ++ input, ?_, hP'⟩
          rw [hunread, hinput, List.append_assoc]

theorem consoleSession_serving (hasks : Asks boardId typed reqs)
    (h : Unserved registry reqs 0 P) (hunread : v.unread = typed) :
    Serving b clients i (consoleSession registry boardId)
      (fun _ _ _ => True) v P := by
  refine (Stage.hosts_bind _ _ _ _ _).mpr ?_
  refine serving_quiet rfl fun claimed => ?_
  cases claimed with
  | false => exact serving_sendAll fun _ _ => trivial
  | true =>
      refine (Stage.hosts_bind _ _ _ _ _).mpr ?_
      refine serving_quiet rfl fun cloned => ?_
      cases cloned with
      | false => exact serving_quiet rfl fun _ => trivial
      | true =>
          refine (Stage.hosts_bind _ _ _ _ _).mpr ?_
          intro _ v' hmoves
          obtain rfl : v' = { v with forwarding := true } := hmoves rfl
          refine (Stage.hosts_bind _ _ _ _ _).mpr ?_
          refine Stage.hosts_iterate (Attends registry reqs boardId typed)
            ⟨[], hunread.symm, rfl, rfl, h⟩ ?_
          intro s v P hJ
          refine Stage.hosts_mono (sessionTurn_serving hJ hasks) ?_
          rintro (s' | _) v P hr
          · exact hr
          · refine (Stage.hosts_bind _ _ _ _ _).mpr ?_
            refine serving_quiet rfl fun _ => ?_
            exact serving_quiet rfl fun _ => trivial

end Session

/-- The requests that a client makes are those of its connection. -/
def Numbers (serde : Serde) (client : Client) (reqs : Nat → ClientRequest) :
    Prop :=
  ∀ k req, (client.requests serde)[k]? = some req → reqs k = req

theorem requestsOf_numbers (i : κ) :
    Numbers serde (clients i) fun k => requestsOf serde clients (i, k) := by
  intro k req hreq
  simp only [requestsOf, hreq, Option.getD_some]

/-- The bytes of a reply that is written as it is. -/
def replyText (serde : Serde) : ClientResponse → Text
  | .rpc result => utf8 (String.ofList (responseLine serde
      (RpcResponse.of (encodeResult serde result))))
  | .text reply => reply
  | .forwarded _ => []

/-- What a connection without a console comes to: nobody else has written to its
client, and of the reply to a request of the board the client has got a part,
unless it has got nothing. -/
structure Answered (b : String) (serde : Serde) (client : Client) (v : Stream)
    (P : Waiting) : Prop where
  alone : v.forwarding = false
  reply : (∃ req ∈ client.requests serde, req.board? = some b) →
    v.sent = [] ∨ ∃ response, Enters (P ⟨some b, 0⟩) (.pure response) ∧
      v.sent <+: replyText serde response

/-- What a connection comes to. -/
abbrev Concluded (b : String) (serde : Serde) (client : Client) (v : Stream)
    (P : Waiting) : Prop :=
  client.console? = none → Answered b serde client v P

/-- A connection that makes no request. -/
theorem Answered.idle (hnone : (clients i).requests serde = [])
    (halone : v.forwarding = false) : Answered b serde (clients i) v P :=
  ⟨halone, fun ⟨_, hsome, _⟩ => absurd hsome (by simp [hnone])⟩

/-- A connection that has sent nothing. -/
theorem Answered.silent (hsent : v.sent = []) (halone : v.forwarding = false) :
    Answered b serde (clients i) v P :=
  ⟨halone, fun _ => .inl hsent⟩

/-- A connection that has sent the reply to its request. -/
theorem Answered.replied {v' : Stream} {req : ClientRequest}
    (response : ClientResponse)
    (hsent : Wrote (replyText serde response) v v') (hfresh : v.sent = [])
    (halone : v.forwarding = false)
    (hreq : (clients i).requests serde = [req])
    (hresponse : Underway b P₀ ⟨req.board?, 0⟩ (Pure.pure response) P) :
    Answered b serde (clients i) v' P := by
  obtain ⟨part, hpart, rfl⟩ := hsent
  refine ⟨halone, ?_⟩
  rintro ⟨req', hreq', hboard⟩
  obtain rfl : req' = req := by simpa [hreq] using hreq'
  have henters := hresponse.self hboard
  rw [hboard] at henters
  exact .inr ⟨response, henters, by simpa [hfresh] using hpart⟩

theorem Wrote.forwarding {bytes : Text} {v' : Stream} (h : Wrote bytes v v') :
    v'.forwarding = v.forwarding := by
  obtain ⟨part, -, rfl⟩ := h
  rfl

theorem withSubscription_serving {boardId : String} {next : Connection Unit}
    {Q : Unit → Stream → Waiting → Prop} (h : Serving b clients i next Q v P)
    (hQ : ∀ bytes v', Wrote bytes v v' → Q () v' P) :
    Serving b clients i (withSubscription registry boardId next) Q v P := by
  unfold withSubscription
  split
  · exact serving_sendAll (hQ _)
  · refine (Stage.hosts_bind _ _ _ _ _).mpr ?_
    exact serving_quiet rfl fun _ => h

theorem monitorLoop_serving {forwarding : Bool}
    (halone : v.forwarding = forwarding) :
    Serving b clients i monitorLoop (fun _ v' _ => v'.forwarding = forwarding)
      v P := by
  refine Stage.hosts_iterate (fun _ v _ => v.forwarding = forwarding)
    halone ?_
  intro _ v P halone
  refine (Stage.hosts_bind _ _ _ _ _).mpr ?_
  refine serving_quiet rfl fun received => ?_
  cases received with
  | none => exact halone
  | some bytes =>
      refine (Stage.hosts_bind _ _ _ _ _).mpr ?_
      refine serving_send fun written v' hsent => ?_
      have halone' := hsent.forwarding.trans halone
      cases written <;> exact halone'

theorem serveRpcLine_serving {json : List Char}
    (hnumbers : Numbers serde (clients i) reqs)
    (hline : (clients i).line.map parseHandshake = some (.rpc json))
    (h : Unserved registry reqs 0 P) (hfresh : v.sent = [])
    (halone : v.forwarding = false) :
    Serving b clients i (serveRpcLine registry serde json)
      (fun _ v P => Answered b serde (clients i) v P) v P := by
  unfold serveRpcLine
  cases hdecode : serde.request.decode json with
  | error err =>
      refine serving_sendAll fun _ hsent => ?_
      refine .idle ?_ (hsent.forwarding.trans halone)
      simp [Client.requests, hline, hdecode]
  | ok req =>
      have hmade : (clients i).requests serde = [.rpc req] := by
        simp [Client.requests, hline, hdecode]
      have hreq : reqs 0 = .rpc req := hnumbers 0 _ (by simp [hmade])
      have hserve : serve registry (reqs 0) =
          (handleRpc registry req).run >>= fun result =>
            Pure.pure (ClientResponse.rpc result) := by
        rw [hreq, serve, map_eq_pure_bind]
      refine (h.begin hserve _).requestBind fun result P' hP' => ?_
      exact serving_sendAll fun _ hsent =>
        .replied (.rpc result) hsent hfresh halone hmade hP'

/-- The main thread of a connection makes the requests of its client. -/
theorem serveClient_serving
    (hnumbers : Numbers serde (clients i) reqs)
    (h : Unserved registry reqs 0 P) :
    Serving b clients i (serveClient registry serde)
      (fun _ v P => Concluded b serde (clients i) v P)
      ⟨(clients i).typed, [], false⟩ P := by
  refine (Stage.hosts_bind _ _ _ _ _).mpr ?_
  refine serving_quiet rfl fun cloned => ?_
  cases cloned with
  | false => exact fun _ => .silent rfl rfl
  | true =>
      refine (Stage.hosts_bind _ _ _ _ _).mpr ?_
      refine serving_readLine ?_
      cases hline : (clients i).line with
      | none => exact fun _ => .silent rfl rfl
      | some line =>
          have hparsed : (clients i).line.map parseHandshake =
              some (parseHandshake line) := by
            rw [hline]
            rfl
          dsimp only
          cases hhandshake : parseHandshake line with
          | ping =>
              refine serving_sendAll fun _ hsent _ => .idle ?_ hsent.forwarding
              simp [Client.requests, hparsed, hhandshake]
          | shutdown =>
              refine serving_sendBind fun _ hsent => ?_
              refine serving_quiet rfl fun _ _ => .idle ?_ hsent.forwarding
              simp [Client.requests, hparsed, hhandshake]
          | rpc json =>
              refine Stage.hosts_mono (serveRpcLine_serving hnumbers
                (hhandshake ▸ hparsed) h rfl rfl) ?_
              exact fun _ _ _ hanswered _ => hanswered
          | power rest =>
              have hmade : (clients i).requests serde =
                  [.power (String.ofList rest)] := by
                simp [Client.requests, hparsed, hhandshake]
              have hreq : reqs 0 = .power (String.ofList rest) :=
                hnumbers 0 _ (by simp [hmade])
              have hserve : serve registry (reqs 0) =
                  powerLine registry (String.ofList rest) >>= fun reply =>
                    Pure.pure (ClientResponse.text reply) := by
                rw [hreq, serve, map_eq_pure_bind]
              refine (h.begin hserve _).requestBind fun reply P' hP' => ?_
              exact serving_sendAll fun _ hsent _ =>
                .replied (.text reply) hsent rfl rfl hmade hP'
          | console id =>
              have hconsole : (clients i).console? ≠ none := by
                simp [Client.console?, hparsed, hhandshake]
              refine withSubscription_serving ?_
                fun _ _ _ hnone => absurd hnone hconsole
              have hasks : Asks (String.ofList id) (clients i).typed reqs := by
                intro k req hreq
                refine hnumbers k req ?_
                simpa [Client.requests, hparsed, hhandshake] using hreq
              refine Stage.hosts_mono (consoleSession_serving hasks h rfl) ?_
              exact fun _ _ _ _ hnone => absurd hnone hconsole
          | monitor id =>
              have hnone : (clients i).requests serde = [] := by
                simp [Client.requests, hparsed, hhandshake]
              refine withSubscription_serving ?_
                fun _ _ hsent _ => .idle hnone hsent.forwarding
              refine Stage.hosts_mono (monitorLoop_serving rfl) ?_
              exact fun _ _ _ halone _ => .idle hnone halone

/-- The worker of a connection is that of its first request. -/
theorem worker_hosts {p : Prog BoardSig Unit} {key : RequestKey} (i : κ)
    (v : Stream) (P : Guests (K := RequestKey) BoardSig fun _ => Unit)
    (hp : P key = p) :
    (connectionStage b clients (i, .worker)).hosts (request key p)
      (fun _ _ _ => True) v P := by
  refine Stage.hosts_embed (f := Prog.pure) (fun _ => ?_)
    fun _ _ _ _ => trivial
  rw [bind_pure, hp]
  exact .refl

/-- The forwarder acts on the stream only. -/
theorem forwarder_hosts {V : Type} (a : Stage RequestKey StreamSig V) (v : V)
    (P : Waiting) : a.hosts forwarder (fun _ _ _ => True) v P := by
  refine (Stage.hosts_bind _ _ _ _ _).mpr ?_
  refine Stage.hosts_iterate (fun _ _ _ => True) trivial ?_
  · intro _ v P _
    refine (Stage.hosts_bind _ _ _ _ _).mpr fun running v' _ => ?_
    cases running with
    | false => exact fun _ _ _ => trivial
    | true =>
        refine (Stage.hosts_bind _ _ _ _ _).mpr fun delivery v' _ => ?_
        cases delivery with
        | timeout => trivial
        | disconnected => exact fun _ _ _ => trivial
        | chunk bytes =>
            refine (Stage.hosts_bind _ _ _ _ _).mpr fun rpictlMode v' _ => ?_
            cases rpictlMode with
            | true => trivial
            | false =>
                refine (Stage.hosts_bind _ _ _ _ _).mpr fun sent v' _ => ?_
                cases sent with
                | true => trivial
                | false => exact fun _ _ _ => trivial

end Hosting

/-! ## The daemon as a system of requests -/

section Refinement

variable {κ : Type} [DecidableEq κ] {clients : κ → Client}
variable {i : κ} {o : StreamOp} {r : o.Resp} {w w' : Daemon κ}

/-- The stream of a connection. -/
def Daemon.stream (w : Daemon κ) (i : κ) : Stream :=
  ⟨w.unread i, w.sent i, w.forwarding i⟩

/-- What an action of a connection does to its stream, and what it leaves
alone. -/
structure Kept (client : Client) (i : κ) (o : StreamOp) (w : Daemon κ)
    (r : o.Resp) (w' : Daemon κ) : Prop where
  boards : w'.boards = w.boards
  stream : o.OnStream client (w.stream i) r (w'.stream i)
  stream_other : ∀ j, j ≠ i → w'.stream j = w.stream j
  claim_other : ∀ j, j ≠ i → w'.claim j = w.claim j
  consoles : (∀ boardId, o ≠ .claimConsole boardId) → o ≠ .dropClaim →
    w'.claim = w.claim ∧ w'.consoleActive = w.consoleActive

theorem StreamOp.OnDaemon.kept (h : StreamOp.OnDaemon clients i o w r w') :
    Kept (clients i) i o w r w' := by
  cases o with
  | read =>
      cases r with
      | data bytes =>
          obtain ⟨-, -, rest, hunread, rfl⟩ := h
          refine ⟨rfl, ⟨rest, hunread, ?_⟩, fun j hj => ?_, fun _ _ => rfl,
            fun _ _ => ⟨rfl, rfl⟩⟩
          · simp [Daemon.stream]
          · simp [Daemon.stream, hj]
      | eof =>
          obtain ⟨-, rfl⟩ := h
          exact ⟨rfl, rfl, fun _ _ => rfl, fun _ _ => rfl,
            fun _ _ => ⟨rfl, rfl⟩⟩
      | interrupted | failed =>
          obtain rfl := h
          exact ⟨rfl, rfl, fun _ _ => rfl, fun _ _ => rfl,
            fun _ _ => ⟨rfl, rfl⟩⟩
  | send bytes =>
      obtain ⟨part, hpart, -, rfl⟩ := h
      refine ⟨rfl, ⟨part, hpart, ?_⟩, fun j hj => ?_, fun _ _ => rfl,
        fun _ _ => ⟨rfl, rfl⟩⟩
      · simp [Daemon.stream]
      · simp [Daemon.stream, hj]
  | spawnForwarder =>
      obtain rfl := h
      refine ⟨rfl, ?_, fun j hj => ?_, fun _ _ => rfl,
        fun _ _ => ⟨rfl, rfl⟩⟩
      · simp [StreamOp.OnStream, Daemon.stream]
      · simp [Daemon.stream, hj]
  | claimConsole boardId =>
      simp only [StreamOp.OnDaemon] at h
      split at h
      · rw [h.2]
        exact ⟨rfl, rfl, fun _ _ => rfl, fun _ _ => rfl,
          fun _ _ => ⟨rfl, rfl⟩⟩
      · rw [h.2]
        exact ⟨rfl, rfl, fun _ _ => rfl,
          fun j hj => Function.update_of_ne hj _ _,
          fun hclaim => absurd rfl (hclaim boardId)⟩
  | dropClaim =>
      simp only [StreamOp.OnDaemon] at h
      split at h
      · rw [h]
        exact ⟨rfl, rfl, fun _ _ => rfl, fun _ _ => rfl,
          fun _ _ => ⟨rfl, rfl⟩⟩
      · rw [h]
        exact ⟨rfl, rfl, fun _ _ => rfl,
          fun j hj => Function.update_of_ne hj _ _,
          fun _ hdrop => absurd rfl hdrop⟩
  | readLine =>
      obtain ⟨hline, rfl⟩ := h
      exact ⟨rfl, ⟨hline, rfl⟩, fun _ _ => rfl, fun _ _ => rfl,
        fun _ _ => ⟨rfl, rfl⟩⟩
  | loadRunning | loadMode =>
      obtain ⟨-, rfl⟩ := h
      exact ⟨rfl, rfl, fun _ _ => rfl, fun _ _ => rfl,
        fun _ _ => ⟨rfl, rfl⟩⟩
  | _ =>
      obtain rfl := h
      exact ⟨rfl, rfl, fun _ _ => rfl, fun _ _ => rfl,
        fun _ _ => ⟨rfl, rfl⟩⟩

/-- What the main thread of a connection knows of its stream is true; once it
has spawned the forwarder, it does not know what has been sent. -/
structure Stream.Agrees (v s : Stream) : Prop where
  unread : v.unread = s.unread
  forwarding : v.forwarding = s.forwarding
  sent : v.forwarding = false → v.sent = s.sent

section Agrees

variable {client : Client} {v s s' : Stream}

/-- An action of the main thread. -/
theorem Stream.Agrees.own (h : v.Agrees s) (hmoves : o.OnStream client s r s') :
    ∃ v', o.OnStream client v r v' ∧ v'.Agrees s' := by
  obtain ⟨hunread, hforwarding, hsent⟩ := h
  cases o with
  | readLine =>
      obtain ⟨hline, rfl⟩ := hmoves
      exact ⟨v, ⟨hline, rfl⟩, hunread, hforwarding, hsent⟩
  | read =>
      cases r with
      | data bytes =>
          obtain ⟨rest, hrest, rfl⟩ := hmoves
          exact ⟨{ v with unread := rest }, ⟨rest, hunread.trans hrest, rfl⟩,
            rfl, hforwarding, hsent⟩
      | eof | interrupted | failed =>
          obtain rfl := hmoves
          exact ⟨v, rfl, hunread, hforwarding, hsent⟩
  | send bytes =>
      obtain ⟨part, hpart, rfl⟩ := hmoves
      exact ⟨{ v with sent := v.sent ++ part }, ⟨part, hpart, rfl⟩, hunread,
        hforwarding, fun halone => by rw [hsent halone]⟩
  | spawnForwarder =>
      obtain rfl := hmoves
      exact ⟨{ v with forwarding := true }, rfl, hunread, rfl,
        fun halone => absurd halone (by simp)⟩
  | _ =>
      obtain rfl := hmoves
      exact ⟨v, rfl, hunread, hforwarding, hsent⟩

/-- An action that the forwarder may perform. -/
theorem Stream.Agrees.other (h : v.Agrees s)
    (hmoves : o.OnStream client s r s') (hmain : o.isMain = false)
    (hforwarding : s.forwarding = true) : v.Agrees s' := by
  have hsame : s'.unread = s.unread ∧ s'.forwarding = s.forwarding := by
    cases o with
    | send bytes =>
        obtain ⟨part, -, rfl⟩ := hmoves
        exact ⟨rfl, rfl⟩
    | readLine | read | spawnForwarder => cases hmain
    | _ =>
        obtain rfl := hmoves
        exact ⟨rfl, rfl⟩
  refine ⟨h.unread.trans hsame.1.symm, h.forwarding.trans hsame.2.symm, ?_⟩
  intro halone
  rw [h.forwarding, hforwarding] at halone
  cases halone

end Agrees

/-- The forwarder leaves to the main thread what is the main thread's. -/
theorem StreamOp.isAllowed_of_ne_main {forwarding : Bool}
    {role : ConnectionRole} (h : o.isAllowed forwarding role = true)
    (hrole : role ≠ .main) : forwarding = true ∧ o.isMain = false := by
  cases role with
  | main => exact absurd rfl hrole
  | forwarder => simpa [StreamOp.isAllowed] using h
  | worker => cases h

theorem StreamOp.role_of_isMain {forwarding : Bool} {role : ConnectionRole}
    (h : o.isAllowed forwarding role = true) (hmain : o.isMain = true) :
    role = .main := by
  by_contra hrole
  have := (StreamOp.isAllowed_of_ne_main h hrole).2
  simp [hmain] at this

/-- An action of a request leaves the boards of the others alone. -/
theorem RequestKey.OnBoards.other {key : RequestKey} {t : Thread (κ × Nat)}
    {o : BoardOp} {r : o.Resp} {boards boards' : String → World (κ × Nat)}
    (h : key.OnBoards t o boards r boards') {b : String}
    (hb : key.board? ≠ some b) : boards' b = boards b := by
  unfold RequestKey.OnBoards at h
  split at h
  · rename_i boardId hkey
    obtain ⟨board, -, rfl⟩ := h
    refine Function.update_of_ne ?_ _ _
    rintro rfl
    exact hb hkey
  · obtain ⟨-, -, rfl⟩ := h
    rfl

/-- The threads of a connection run its requests of a board. -/
def boardLayering (b : String) (clients : κ → Client) :
    Layering RequestKey BoardSig StreamSig (ConnectionThread κ)
      (Thread (κ × Nat)) Stream (Daemon κ) (World (κ × Nat))
      (daemonSem clients) DaemonEnv boardSem BoardEnv where
  stage := connectionStage b clients
  guest t key := ((t.1, key.number), t.2.onBoard.getD .main)
  lower w := w.boards b
  Sees t v w := t.2 = .main → v.Agrees (w.stream t.1)
  unique := by
    rintro ⟨i, role⟩ ⟨j, role'⟩ ⟨board?, k⟩ ⟨board?', k'⟩ hmine hmine' hsame
    obtain ⟨hrole, rfl : board? = some b⟩ := hmine
    obtain ⟨hrole', rfl : board?' = some b⟩ := hmine'
    simp only [Prod.mk.injEq] at hsame
    obtain ⟨⟨rfl, rfl⟩, hsame⟩ := hsame
    refine ⟨?_, rfl⟩
    cases role <;> cases role' <;> simp_all [ConnectionRole.onBoard]
  op := by
    rintro t ⟨board?, k⟩ o w r w' ⟨-, rfl : board? = some b⟩
      ⟨role, hrole, ⟨board, hsem, hboards⟩, -⟩
    rwa [hrole, Option.getD_some, hboards, Function.update_self]
  foreign := by
    rintro t key o w r w' hforeign ⟨role, hrole, hboards, -⟩
    have hkey : key.board? ≠ some b := by
      rintro hkey
      refine hforeign ⟨?_, hkey⟩
      rintro hforwarder
      simp [hforwarder, ConnectionRole.onBoard] at hrole
    exact hboards.other hkey
  sees_op := by
    rintro t t' k o v w r w' ⟨role, -, -, hw'⟩ hsees
    rw [hw']
    exact hsees
  own := fun h => congrFun h.2.kept.boards b
  sees_own := by
    rintro ⟨i, role⟩ o v w r w' ⟨-, hsem⟩ hsees
    cases role with
    | main =>
        obtain ⟨v', hmoves, hagrees⟩ := (hsees rfl).own hsem.kept.stream
        exact ⟨v', fun _ => hmoves, fun _ => hagrees⟩
    | forwarder | worker =>
        refine ⟨v, ?_, ?_⟩ <;> rintro ⟨⟩
  sees_other := by
    rintro ⟨i, role⟩ ⟨j, role'⟩ o v w r w' hne ⟨hallowed, hsem⟩ hsees hrole
    obtain rfl : role' = .main := hrole
    by_cases hj : j = i
    · subst hj
      have hrole' : role ≠ .main := fun h => hne (by rw [h])
      obtain ⟨hforwarding, hmain⟩ :=
        StreamOp.isAllowed_of_ne_main hallowed hrole'
      exact (hsees rfl).other hsem.kept.stream hmain hforwarding
    · have hsame := hsem.kept.stream_other j hj
      simpa only [hsame] using hsees rfl
  env_step := by
    rintro w w' ⟨boardId, board, henv, rfl⟩
    by_cases hb : boardId = b
    · subst hb
      exact .inr (by simpa using henv)
    · exact .inl (Function.update_of_ne (Ne.symm hb) _ _)
  sees_env := by
    rintro t v w w' ⟨boardId, board, -, rfl⟩ hsees
    exact hsees

/-- What the thread of a connection comes to. -/
def Finishes (b : String) (serde : Serde) (clients : κ → Client) :
    (t : ConnectionThread κ) → Unit → Stream →
      (Guests BoardSig fun key =>
        Answer ((boardLayering b clients).guest t key)) → Prop
  | (i, .main), _, v, P => Concluded b serde (clients i) v P
  | (_, .forwarder), _, _, _ => True
  | (_, .worker), _, _, _ => True

/-- The daemon that has not been asked anything, and its requests. -/
theorem boardLayering_shows (b : String) (registry : BoardRegistry)
    (serde : Serde) (consoles : String → Console) (clients : κ → Client) :
    (boardLayering b clients).Shows (Finishes b serde clients)
      (startDaemon registry serde consoles clients)
      (start registry (consoles b) (requestsOf serde clients)) where
  world := rfl
  runs := by
    rintro ⟨i, role⟩
    cases role with
    | main =>
        refine ⟨⟨(clients i).typed, [], false⟩, fun key => serve registry
          (requestsOf serde clients (i, key.number)), ?_, ?_, fun _ _ => rfl⟩
        · exact serveClient_serving (requestsOf_numbers i) fun _ _ => rfl
        · exact fun _ => ⟨rfl, rfl, fun _ => rfl⟩
    | forwarder =>
        refine ⟨⟨[], [], false⟩, fun key => serve registry
          (requestsOf serde clients (i, key.number)),
          forwarder_hosts _ _ _, ?_, ?_⟩
        · rintro ⟨⟩
        · intro key hmine
          exact absurd rfl hmine.1
    | worker =>
        refine ⟨⟨[], [], false⟩, fun key => workerOf registry
          (requestsOf serde clients (i, key.number)), ?_, ?_, fun _ _ => rfl⟩
        · exact worker_hosts i _ _ rfl
        · rintro ⟨⟩

end Refinement

/-! ## A session -/

section Boards

variable {κ : Type}

/-- The daemon with another state of a board. -/
def Daemon.setBoard (w : Daemon κ) (boardId : String)
    (board : World (κ × Nat)) : Daemon κ :=
  { w with boards := Function.update w.boards boardId board }

@[simp] theorem Daemon.setBoard_boards (w : Daemon κ) (boardId : String)
    (board : World (κ × Nat)) :
    (w.setBoard boardId board).boards boardId = board :=
  Function.update_self _ _ _

@[simp] theorem Daemon.setBoard_setBoard (w : Daemon κ) (boardId : String)
    (board board' : World (κ × Nat)) :
    (w.setBoard boardId board).setBoard boardId board' =
      w.setBoard boardId board' := by
  simp [Daemon.setBoard]

@[simp] theorem Daemon.setBoard_self (w : Daemon κ) (boardId : String) :
    w.setBoard boardId (w.boards boardId) = w := by
  simp [Daemon.setBoard]

end Boards

section Runs

variable {κ : Type} [DecidableEq κ] {clients : κ → Client}
variable {i : κ} {w w' : Daemon κ} {boardId : String}

/-- The main thread of a connection performs an action on its stream. -/
theorem stream_performs {o : StreamOp} {r : o.Resp}
    (h : StreamOp.OnDaemon clients i o w r w') :
    Returns (afterEnv (daemonSem clients) DaemonEnv (i, .main)) (stream o)
      w r w' :=
  .single (.op ⟨w, .refl, rfl, h⟩)

/-- What happens to a board without a connection. -/
theorem daemonEnv_of_boardEnv {board board' : World (κ × Nat)}
    (h : Relation.ReflTransGen BoardEnv board board') :
    Relation.ReflTransGen DaemonEnv (w.setBoard boardId board)
      (w.setBoard boardId board') := by
  refine Relation.ReflTransGen.lift (w.setBoard boardId) ?_ _ _ h
  intro board board' henv
  exact ⟨boardId, board', by simpa using henv,
    (w.setBoard_setBoard boardId board board').symm⟩

/-- The main thread of a connection performs a part of a request. -/
theorem request_performs {α : Type} {k : Nat} {p q : Prog BoardSig α}
    {board : World (κ × Nat)}
    (h : Exec (afterEnv boardSem BoardEnv ((i, k), .main))
      (p, w.boards boardId) (q, board)) :
    Exec (afterEnv (daemonSem clients) DaemonEnv (i, .main))
      (request ⟨some boardId, k⟩ p, w)
      (request ⟨some boardId, k⟩ q, w.setBoard boardId board) := by
  conv in (request _ p, w) => rw [← w.setBoard_self boardId]
  refine Exec.embed (w.setBoard boardId) ?_ h
  rintro o board r board' ⟨between, henv, hsem⟩
  refine ⟨w.setBoard boardId between, daemonEnv_of_boardEnv henv, .main, rfl,
    ?_, rfl⟩
  dsimp only [RequestKey.OnBoards]
  exact ⟨board', by simpa using hsem, congrArg Daemon.boards
    (w.setBoard_setBoard boardId between board').symm⟩

/-- A client that types a byte into the console of the simulated board. -/
def typist (byte : UInt8) : Client :=
  ⟨some "CONSOLE simulated\n".toList, [byte]⟩

theorem typist_handshake :
    parseHandshake "CONSOLE simulated\n".toList =
      .console "simulated".toList := by
  decide

/-- The daemon when the session of a typist has read its byte. -/
def typing (w : Daemon κ) (i : κ) : Daemon κ :=
  { w with
    unread := Function.update w.unread i []
    consoleActive := Function.update w.consoleActive "simulated" true
    claim := Function.update w.claim i (some "simulated")
    forwarding := Function.update w.forwarding i true }

/-- A part of a request that is complete. -/
theorem request_returns {α : Type} {k : Nat} {p : Prog BoardSig α} {a : α}
    {board : World (κ × Nat)}
    (h : Performs ((i, k), .main) p (w.boards boardId) a board) :
    Returns (afterEnv (daemonSem clients) DaemonEnv (i, .main))
      (request ⟨some boardId, k⟩ p) w a (w.setBoard boardId board) :=
  request_performs h

/-- The simulated board when the first byte of a session has been written. -/
def typed (w : Daemon κ) (i : κ) (byte : UInt8) : World (κ × Nat) :=
  ((w.boards "simulated").acquireBy ((i, 0), .main) typingOwner).emit
    ((i, 0), .main) (writeEvents simulated [byte])

/-- A session forwards its byte. -/
theorem forwardInput_types (byte : UInt8)
    (hfree : (w.boards "simulated").lease = none) :
    Visits (afterEnv (daemonSem clients) DaemonEnv (i, .main))
      (forwardInput simulatedRegistry 0 "simulated" [byte]) w
      (w.setBoard "simulated" (typed w i byte)) := by
  unfold forwardInput
  simp only [simulatedRegistry_board]
  refine Returns.bind_visits (request_returns
    (typing_begins (i, 0) (w.boards "simulated"))) ?_
  rw [Daemon.setBoard_self]
  refine Returns.bind_visits
    (request_returns (typing_acquires (i, 0) hfree)) ?_
  generalize hacquired : World.acquireBy (w.boards "simulated")
    ((i, 0), .main) typingOwner = acquired
  have hwrites : Acts ((i, 0), .main) (writeConsole simulated [byte])
      ((w.setBoard "simulated" acquired).boards "simulated") (.ok ())
      (typed w i byte) := by
    rw [Daemon.setBoard_boards, typed, hacquired]
    exact writeConsole_acts (hacquired ▸ alive_main (i, 0)) [byte]
  rw [← Daemon.setBoard_setBoard w "simulated" acquired (typed w i byte)]
  exact Visits.bind (Returns.visits (request_returns hwrites)) _

/-- A session of a typist comes to write its byte. -/
theorem serveClient_types (serde : Serde) (byte : UInt8)
    (hbyte : byte ≠ 0) (hclient : clients i = typist byte)
    (hunread : w.unread i = [byte])
    (hconsole : w.consoleActive "simulated" = false)
    (hrunning : w.running i = true)
    (hfree : (w.boards "simulated").lease = none) :
    Visits (afterEnv (daemonSem clients) DaemonEnv (i, .main))
      (serveClient simulatedRegistry serde) w
      ((typing w i).setBoard "simulated" (typed w i byte)) := by
  have hline : (clients i).line = some "CONSOLE simulated\n".toList := by
    rw [hclient]
    rfl
  have hid : String.ofList "simulated".toList = "simulated" := by decide
  have hclaim : StreamOp.OnDaemon clients i (.claimConsole "simulated") w
      true { w with
        consoleActive := Function.update w.consoleActive "simulated" true
        claim := Function.update w.claim i (some "simulated") } := by
    simp [StreamOp.OnDaemon, hconsole]
  have hread : StreamOp.OnDaemon clients i .read
      { typing w i with unread := w.unread } (.data [byte]) (typing w i) :=
    ⟨by simp, by simp, [], hunread, rfl⟩
  refine Returns.bind_visits (stream_performs (r := true) rfl) ?_
  refine Returns.bind_visits (stream_performs ⟨hline.symm, rfl⟩) ?_
  simp only [typist_handshake, hid, withSubscription, simulatedRegistry_board]
  refine Returns.bind_visits (stream_performs (r := ()) rfl) ?_
  refine Returns.bind_visits (stream_performs hclaim) ?_
  refine Returns.bind_visits (stream_performs (r := true) rfl) ?_
  refine Returns.bind_visits (stream_performs (r := ()) rfl) ?_
  refine Visits.bind (Visits.iterate ?_) _
  refine Returns.bind_visits
    (stream_performs (r := true) ⟨hrunning.symm, rfl⟩) ?_
  refine Returns.bind_visits (stream_performs hread) ?_
  refine Visits.bind (Visits.bind ?_ _) _
  unfold sessionByte
  simp only [if_neg hbyte]
  exact Visits.bind (forwardInput_types (w := typing w i) byte hfree) _

/-- A JSON library that takes nothing; a typist does without one. -/
def noSerde : Serde where
  Value := Unit
  null := ()
  request := ⟨fun _ => .error "", fun _ => .error ""⟩
  response := ⟨fun _ => .error "", fun _ => .error ""⟩
  boards := ⟨fun _ => .error "", fun _ => .error ""⟩
  boardState := ⟨fun _ => .error "", fun _ => .error ""⟩
  powerState := ⟨fun _ => .error "", fun _ => .error ""⟩
  capture := ⟨fun _ => .error "", fun _ => .error ""⟩
  operation := ⟨fun _ => .error "", fun _ => .error ""⟩

/-- Every board has a console like that of the simulated board. -/
def simulatedConsoles : String → Console := fun _ => simulatedConsole

/-- Everybody types. -/
def typists (κ : Type) (byte : UInt8) : κ → Client := fun _ => typist byte

/-- One of the typists comes to write its byte. -/
theorem typists_reach (serde : Serde) (byte : UInt8) (hbyte : byte ≠ 0)
    (i : κ) :
    ∃ c, DaemonReaches (typists κ byte)
        (startDaemon simulatedRegistry serde simulatedConsoles
          (typists κ byte)) c ∧
      c.world.claim i = some "simulated" ∧
      (c.world.boards "simulated").log = Entry.mk ((i, 0), .main) none
          (.acquired typingOwner) ::
        (writeEvents simulated [byte]).map
          (Entry.mk ((i, 0), .main) (some ((i, 0), .main))) := by
  have hclient : typists κ byte i = typist byte := rfl
  obtain ⟨p, htyping⟩ := serveClient_types
    (w := Daemon.initial simulatedConsoles (typists κ byte)) serde byte hbyte
    hclient rfl rfl rfl rfl
  have hreaches := Pool.reaches_of_exec
    (c := startDaemon simulatedRegistry serde simulatedConsoles
      (typists κ byte)) (t := (i, .main)) htyping
  refine ⟨_, hreaches, ?_, ?_⟩
  · exact Function.update_self i _ _
  · simp [typed, World.emit, World.acquireBy, World.initial, Daemon.initial,
      World.holder]

variable {registry : BoardRegistry} {serde : Serde}
variable {consoles : String → Console}

/-- A run of the daemon is, for each board, a run of the system of requests. -/
theorem daemon_refines
    {c : Pool ConnectionSig (fun _ : ConnectionThread κ => Unit) (Daemon κ)}
    (h : DaemonReaches clients
      (startDaemon registry serde consoles clients) c) (boardId : String) :
    ∃ d, BoardReaches
        (start registry (consoles boardId) (requestsOf serde clients)) d ∧
      d.world = c.world.boards boardId := by
  obtain ⟨d, hreaches, hshows⟩ :=
    (boardLayering_shows boardId registry serde consoles clients).reaches h
  exact ⟨d, hreaches, hshows.world⟩

/-- The run of a typist is a run of the system of requests. -/
theorem daemon_refines_typing :
    ∃ c : Pool ConnectionSig (fun _ : ConnectionThread Bool => Unit)
        (Daemon Bool), (c.world.boards "simulated").log ≠ [] ∧
      ∃ d, BoardReaches (start simulatedRegistry simulatedConsole
          (requestsOf noSerde (typists Bool 0x61))) d ∧
        d.world = c.world.boards "simulated" := by
  obtain ⟨c, hreaches, -, hlog⟩ := typists_reach noSerde 0x61
    (by decide) false
  exact ⟨c, by simp [hlog], daemon_refines hreaches "simulated"⟩

end Runs

end RpictlMcp
