import RpictlMcp.ConnectionRefinement

/-!
# rpictl-mcp: replies

A client that asks for one thing of a board, by an `RPC` or a `POWER` line, gets
one reply.  This module shows that it is the reply to its own request: whatever
the other connections do, what the client has been sent when its connection is
over is the beginning of the text of the response that its request has come to,
in a run of the system of requests which has done to the board what the daemon
has done.
-/

namespace RpictlMcp

open Prog

section Replies

variable {κ : Type} [DecidableEq κ] {clients : κ → Client}
variable {registry : BoardRegistry} {serde : Serde}
variable {consoles : String → Console}
variable {c : Pool ConnectionSig (fun _ : ConnectionThread κ => Unit)
  (Daemon κ)}
variable {d : Pool BoardSig (Answer (ι := κ × Nat)) (World (κ × Nat))} {i : κ}
variable {boardId : String}

/-! ### A run -/

/-- A client that switches the simulated board on. -/
def commander : Client :=
  ⟨some "POWER on simulated\n".toList, []⟩

/-- Everybody switches the board on. -/
def commanders (κ : Type) : κ → Client := fun _ => commander

theorem commander_handshake :
    parseHandshake "POWER on simulated\n".toList =
      .power "on simulated".toList := by
  decide

theorem powerLine_on :
    powerLine simulatedRegistry (String.ofList "on simulated".toList) =
      powerReply (fun _ => utf8 "power on succeeded") "power on" <$>
        (powerOn simulatedRegistry "simulated").run := by
  have hwords : (splitWhitespace (String.ofList
      "on simulated".toList).toList).map String.ofList =
        ["on", "simulated"] := by
    decide
  simp only [powerLine, hwords]
  simp [powerCommand]

theorem power_board :
    (ClientRequest.power (String.ofList "on simulated".toList)).board? =
      some "simulated" := by
  decide

/-- The simulated board is switched on. -/
theorem powerOn_acts {w : World (κ × Nat)} (hfree : w.lease = none) :
    ∃ result w', Acts ((i, 0), .main) (powerOn simulatedRegistry "simulated") w
      (.ok result) w' := by
  have halive : (w.acquireBy ((i, 0), .main) (operationOwner "power_on")).Alive
      ((i, 0), .main) := alive_main (i, 0)
  have haction : Acts ((i, 0), .main) (powerOnAction simulated)
      (w.acquireBy ((i, 0), .main) (operationOwner "power_on"))
      (.ok ((relayObservation true).raw, ["verified relay on"]))
      (((w.acquireBy ((i, 0), .main) (operationOwner "power_on")).emit
        ((i, 0), .main) (setPowerEvents simulatedIdentity true)).markBy
          ((i, 0), .main)) :=
    Acts.bind (setPower_acts halive (by decide) simulated_hasRelay
      simulated_verifiable true)
      (Acts.mark (alive_main (i, 0)) (Acts.pure _))
  have hrun : ∃ result, Acts ((i, 0), .main)
      (powerOn simulatedRegistry "simulated") w (.ok result) _ :=
    operation_acts simulatedRegistry_board hfree haction rfl
  obtain ⟨result, hrun⟩ := hrun
  exact ⟨result, _, hrun⟩

/-- A commander is served. -/
theorem commanders_reach (serde : Serde) (i : κ) :
    ∃ c, DaemonReaches (commanders κ)
        (startDaemon simulatedRegistry serde simulatedConsoles
          (commanders κ)) c ∧
      c.prog (i, .main) = .pure () ∧
      c.world.sent i = utf8 "ok  power on succeeded\n" := by
  have hline : some "POWER on simulated\n".toList =
      (commanders κ i).line := rfl
  obtain ⟨result, board, hrun⟩ := powerOn_acts (i := i)
    (w := .initial simulatedConsole) rfl
  have hreply : Performs ((i, 0), .main)
      (powerLine simulatedRegistry (String.ofList "on simulated".toList))
      (World.initial simulatedConsole) (utf8 "ok  power on succeeded\n")
      board := by
    rw [powerLine_on, map_eq_pure_bind]
    refine Returns.bind hrun ?_
    have htext : powerReply (fun _ => utf8 "power on succeeded") "power on"
        (.ok result) = utf8 "ok  power on succeeded\n" := by
      simp [powerReply, ← utf8_append]
    rw [htext]
    exact Returns.pure _ _
  have hserve : Returns
      (afterEnv (daemonSem (commanders κ)) DaemonEnv (i, .main))
      (serveClient simulatedRegistry serde)
      (Daemon.initial simulatedConsoles (commanders κ)) ()
      { (Daemon.initial simulatedConsoles (commanders κ)).setBoard
          "simulated" board with
        sent := Function.update (fun _ => []) i
          (utf8 "ok  power on succeeded\n") } := by
    refine Returns.bind (stream_performs (r := true) rfl) ?_
    refine Returns.bind (stream_performs ⟨hline, rfl⟩) ?_
    simp only [commander_handshake, power_board]
    refine Returns.bind (request_returns hreply) ?_
    refine Returns.bind (stream_performs (r := true) ?_) (Returns.pure _ _)
    exact ⟨_, List.prefix_refl _, fun _ => rfl, rfl⟩
  have hreaches := Pool.reaches_of_exec (c := startDaemon simulatedRegistry
    serde simulatedConsoles (commanders κ)) (t := (i, .main)) hserve
  refine ⟨_, hreaches, Pool.move_prog_self _ _ _ _, ?_⟩
  simp only [Pool.move_world, Function.update_self]

/-! ### Every reply -/

/-- A client that asks for one thing of a board. -/
structure Client.AsksOnce (serde : Serde) (boardId : String)
    (client : Client) : Prop where
  noConsole : client.console? = none
  asks : ∃ req ∈ client.requests serde, req.board? = some boardId

/-- The client of a connection has been sent a part of the reply to its request,
or nothing. -/
def RepliedTo (serde : Serde)
    (c : Pool ConnectionSig (fun _ : ConnectionThread κ => Unit) (Daemon κ))
    (d : Pool BoardSig (Answer (ι := κ × Nat)) (World (κ × Nat))) (i : κ) :
    Prop :=
  c.world.sent i = [] ∨ ∃ response : ClientResponse,
    Enters (d.prog ((i, 0), .main)) (.pure response) ∧
    c.world.sent i <+: replyText serde response

/-- Replies are seen in the pool of requests. -/
theorem repliedTo_of_shows
    (h : (boardLayering boardId clients).Shows
      (Finishes boardId serde clients) c d)
    (hasks : (clients i).AsksOnce serde boardId)
    (hover : c.prog (i, .main) = .pure ()) : RepliedTo serde c d i := by
  obtain ⟨v, P, hhosts, hsees, hP⟩ := h.runs (i, .main)
  rw [hover] at hhosts
  have hanswered : Answered boardId serde (clients i) v P :=
    hhosts hasks.noConsole
  have hsent : v.sent = c.world.sent i := (hsees rfl).sent hanswered.alone
  have hprogram : P ⟨some boardId, 0⟩ = d.prog ((i, 0), .main) :=
    hP ⟨some boardId, 0⟩ ⟨by simp, rfl⟩
  rw [RepliedTo, ← hsent, ← hprogram]
  exact hanswered.reply hasks.asks

/-- A client whose first line is an `RPC` line with a readable request. -/
def Client.AsksRpc (serde : Serde) (client : Client) (json : List Char)
    (req : RpcRequest) : Prop :=
  client.line.map parseHandshake = some (.rpc json) ∧
    serde.request.decode json = .ok req

/-- The reply to an `RPC` line is the line that `handle_rpc` makes of it on the
methods of the registry. -/
theorem replyText_handleRpcJson {json : List Char} {req : RpcRequest}
    (hdecode : serde.request.decode json = .ok req) :
    replyText serde <$> serve registry (.rpc req) =
      (fun response => utf8 (String.ofList (responseLine serde response))) <$>
        handleRpcJson serde (registryMethods registry) json := by
  simp only [serve, handleRpcJson, hdecode, dispatchRpc_registry, ← comp_map]
  rfl

/-- What `handle_rpc` has come to on the events of a request, and the part of
its line that the client has been sent, if it has been sent anything. -/
def RepliedByRpc (registry : BoardRegistry) (serde : Serde)
    (c : Pool ConnectionSig (fun _ : ConnectionThread κ => Unit) (Daemon κ))
    (d : Pool BoardSig (Answer (ι := κ × Nat)) (World (κ × Nat))) (i : κ)
    (json : List Char) : Prop :=
  c.world.sent i = [] ∨ ∃ response : RpcResponse serde.Value,
    Returns (logSem BoardOp.emits)
      (handleRpcJson serde (registryMethods registry) json) [] response
      (d.world.threadLog ((i, 0), .main)) ∧
    c.world.sent i <+: utf8 (String.ofList (responseLine serde response))

theorem RepliedTo.rpc {json : List Char} {req : RpcRequest}
    (h : RepliedTo serde c d i)
    (hreaches : BoardReaches
      (start registry (consoles boardId) (requestsOf serde clients)) d)
    (hasks : (clients i).AsksRpc serde json req) :
    RepliedByRpc registry serde c d i json := by
  obtain ⟨hline, hdecode⟩ := hasks
  refine h.imp_right ?_
  rintro ⟨response, henters, hpart⟩
  have hreq : requestsOf serde clients (i, 0) = .rpc req := by
    simp [requestsOf, Client.requests, hline, hdecode]
  have hexec := hreaches.exec ((i, 0), .main)
  have hserved : Returns (logSem BoardOp.emits)
      (serve registry (requestsOf serde clients (i, 0))) [] response
      (d.world.threadLog ((i, 0), .main)) := hexec.trans (henters.exec _)
  rw [hreq] at hserved
  have hreply : Returns (logSem BoardOp.emits)
      (replyText serde <$> serve registry (.rpc req)) []
      (replyText serde response) (d.world.threadLog ((i, 0), .main)) :=
    Returns.bind hserved (Returns.pure _ _)
  rw [replyText_handleRpcJson hdecode] at hreply
  obtain ⟨answer, log, hanswer, hrest⟩ := Returns.of_bind hreply
  obtain ⟨htext, rfl⟩ := Returns.of_pure hrest
  rw [htext] at hpart
  exact ⟨answer, hanswer, hpart⟩

/--
One run of the system of requests explains all replies of the daemon that are
about a board: it has done to the board what the daemon has done, and the client
of each connection that is over and was to answer one request of the board has
been sent a part of the reply to that request, or nothing.  The reply to an `RPC`
line is the line that `handle_rpc` makes of it.
-/
theorem replies_explained
    (h : DaemonReaches clients
      (startDaemon registry serde consoles clients) c) (boardId : String) :
    ∃ d, BoardReaches
        (start registry (consoles boardId) (requestsOf serde clients)) d ∧
      d.world = c.world.boards boardId ∧
      ∀ i, (clients i).AsksOnce serde boardId →
        c.prog (i, .main) = .pure () → RepliedTo serde c d i ∧
          ∀ json req, (clients i).AsksRpc serde json req →
            RepliedByRpc registry serde c d i json := by
  obtain ⟨d, hreaches, hshows⟩ :=
    (boardLayering_shows boardId registry serde consoles clients).reaches h
  refine ⟨d, hreaches, hshows.world, fun i hasks hover => ?_⟩
  have hreplied := repliedTo_of_shows hshows hasks hover
  exact ⟨hreplied, fun json req hrpc => hreplied.rpc hreaches hrpc⟩

/-- The reply to a commander is explained. -/
theorem replies_explained_commander :
    ∃ c : Pool ConnectionSig (fun _ : ConnectionThread Bool => Unit)
        (Daemon Bool),
      c.world.sent false = utf8 "ok  power on succeeded\n" ∧
      ∃ d, BoardReaches (start simulatedRegistry simulatedConsole
          (requestsOf noSerde (commanders Bool))) d ∧
        d.world = c.world.boards "simulated" ∧
        RepliedTo noSerde c d false := by
  obtain ⟨c, hreaches, hover, hsent⟩ := commanders_reach noSerde false
  obtain ⟨d, hreaches', hworld, hreplied⟩ :=
    replies_explained hreaches "simulated"
  refine ⟨c, hsent, d, hreaches', hworld, (hreplied false ⟨?_, ?_⟩ hover).1⟩
  · rw [commanders, Client.console?, commander, Option.map_some,
      commander_handshake]
  · rw [commanders, Client.requests, commander, Option.map_some,
      commander_handshake]
    exact ⟨_, List.mem_singleton_self _, power_board⟩

/-- A reply that has been sent, and the run in which its request has ended. -/
theorem DaemonReaches.replied
    (h : DaemonReaches clients
      (startDaemon registry serde consoles clients) c)
    (hasks : (clients i).AsksOnce serde boardId)
    (hover : c.prog (i, .main) = .pure ())
    (hsent : c.world.sent i ≠ []) :
    ∃ d response,
      BoardReaches
        (start registry (consoles boardId) (requestsOf serde clients)) d ∧
      d.world = c.world.boards boardId ∧
      d.prog ((i, 0), .main) = .pure response ∧
      c.world.sent i <+: replyText serde response := by
  obtain ⟨d, hreaches, hshows⟩ :=
    (boardLayering_shows boardId registry serde consoles clients).reaches h
  rcases repliedTo_of_shows hshows hasks hover with
    hnone | ⟨response, henters, hpart⟩
  · exact absurd hnone hsent
  · refine ⟨d.move ((i, 0), .main) (.pure response) d.world, response,
      hreaches.trans (Pool.reaches_of_exec (henters.exec d.world)),
      hshows.world, Pool.move_prog_self _ _ _ _, hpart⟩

end Replies

end RpictlMcp
