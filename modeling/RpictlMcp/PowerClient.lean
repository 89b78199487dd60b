import RpictlMcp.ConnectionReplies
import RpictlMcp.HandshakeLines
import RpictlMcp.VerifiedSwitching
import RpictlMcp.Kernel.Utf8Text

/-!
# rpictl-mcp: the `power` command

`rpictl-mcp power` writes one `POWER` line to the daemon, prints the first line
of the reply and fails if it begins with `err`.  This module follows the command
through the daemon to the relay: unless the connection has broken within the
first three bytes of the reply, a command that exits with success has done what
it says, on the board it names, by its own request, under the lease, with a
verified identity, and whatever the other connections were doing.
-/

namespace RpictlMcp

open Prog

/-- The exchange of `run_power` with the daemon. -/
inductive PowerExchange where
  | refused (error : Text)
  | unwritten (error : Text)
  | unread (error : Text)
  | answered (response : Text)
deriving DecidableEq, Repr

/-- `run_power`: what it prints, and its result. -/
def runPower (path : String) : PowerExchange → Text × Except Text Unit
  | .refused error => ([], .error (utf8 s!"cannot connect to socket {path}: " ++
      error ++ utf8 "; is rpictl-mcp serve running?"))
  | .unwritten error => ([], .error error)
  | .unread error => ([], .error error)
  | .answered response => (response,
      if (utf8 "err").isPrefixOf response then .error response else .ok ())

/-- The bytes of `read_line`. -/
def lineBytes : Text → Text
  | [] => []
  | byte :: stream =>
      if byte = 0x0A then [byte] else byte :: lineBytes stream

/-- What `run_power` reads when the daemon has sent some bytes and is gone. -/
def received (sent : Text) : PowerExchange :=
  if isUtf8 (lineBytes sent) = true then .answered (lineBytes sent)
  else .unread (utf8 "stream did not contain valid UTF-8")

section Told

variable {registry : BoardRegistry} {action boardId : String}

/-- What an operation has done under the lease of its board. -/
def Operated (registry : BoardRegistry) (boardId : String)
    (Φ : BoardProfile → List Event → Prop) (log : List Event) : Prop :=
  ∃ profile owner s c, registry.board boardId = .ok profile ∧
    log = [.acquired owner] ++ s ++ [.looked c, .released owner] ∧ Φ profile s

/-- The board was switched off, stayed off for its time and was switched on. -/
def PowerCycled (profile : BoardProfile) (s : List Event) : Prop :=
  ∃ off on, s = off ++ .slept profile.timing.powerCycleOffMs :: on ∧
    Achieved profile false off ∧ Achieved profile true on

/-- What stands behind the success of a `power` command. -/
inductive PowerDone (registry : BoardRegistry) (boardId : String)
    (log : List Event) : String → Prop
  | on (h : Operated registry boardId (fun profile => Achieved profile true)
      log) : PowerDone registry boardId log "on"
  | off (h : Operated registry boardId (fun profile => Achieved profile false)
      log) : PowerDone registry boardId log "off"
  | forceOff (h : Operated registry boardId
      (fun profile => Achieved profile false) log) :
      PowerDone registry boardId log "force-off"
  | offForce (h : Operated registry boardId
      (fun profile => Achieved profile false) log) :
      PowerDone registry boardId log "off-force"
  | cycle (h : Operated registry boardId PowerCycled log) :
      PowerDone registry boardId log "cycle"
  | status {profile : BoardProfile} {front : List Event}
      {observation : PowerObservation}
      (hboard : registry.board boardId = .ok profile) (hfront : Passive front)
      (hlog : log = front ++ [.noted (.queried observation)]) :
      PowerDone registry boardId log "status"

/-- A `POWER` reply tells of an error, or of something done. -/
def Told (registry : BoardRegistry) (action boardId : String) (reply : Text)
    (log : List Event) : Prop :=
  utf8 "err" <+: reply ∨ PowerDone registry boardId log action

theorem err_prefix (s : String) : utf8 "err" <+: utf8 ("err " ++ s) := by
  have hword : utf8 "err" <+: utf8 "err " := by decide
  rw [utf8_append]
  exact hword.trans (List.prefix_append _ _)

theorem err_prefix_powerReply {α : Type} {succeeded : α → Text}
    {failed : String} {e : Error} :
    utf8 "err" <+: powerReply succeeded failed (.error e : Result α) := by
  have hfailed := err_prefix (failed ++ " failed: ")
  rw [← String.append_assoc] at hfailed
  exact (hfailed.trans (List.prefix_append _ _)).trans (List.prefix_append _ _)

/-- The reply to an operation, from what the operation does. -/
theorem Traces.told {α : Type} {operation : Action α} {succeeded : α → Text}
    {failed : String} {Φ : Result α → List Event → Prop}
    (h : Traces BoardOp.emits (Permitted false) operation.run [] Φ)
    (hok : ∀ a log, Φ (.ok a) log → PowerDone registry boardId log action) :
    Traces BoardOp.emits (Permitted false)
      (powerReply succeeded failed <$> operation.run) []
      (Told registry action boardId) := by
  refine Traces.map (h.mono fun r log hr => ?_)
  cases r with
  | error e => exact .inl err_prefix_powerReply
  | ok a => exact .inr (hok a log hr)

theorem OperationTrace.operated
    {Φ : BoardProfile → Result Performed → List Event → Prop}
    {Ψ : BoardProfile → List Event → Prop} {result : OperationResult}
    {log : List Event} (h : OperationTrace registry boardId Φ (.ok result) log)
    (hΦ : ∀ profile performed s, Φ profile (.ok performed) s → Ψ profile s) :
    Operated registry boardId Ψ log := by
  obtain ⟨profile, owner, performed, s, c, hboard, hlog, hs⟩ := h.succeeded
  exact ⟨profile, owner, s, c, hboard, hlog, hΦ profile performed s hs⟩

theorem Confirming.of_ok {Φ : Result OperationResult → List Event → Prop}
    {result : OperationResult} {log : List Event}
    (h : Confirming true Φ (.ok result) log) : Φ (.ok result) log := by
  rcases h with ⟨hconfirmed, -⟩ | ⟨-, hdone⟩
  · cases hconfirmed
  · exact hdone

theorem PowerCycleTrace.powerCycled {profile : BoardProfile}
    {performed : Performed} {s : List Event}
    (h : PowerCycleTrace profile (.ok performed) s) :
    PowerCycled profile s := by
  cases h with
  | @restored off on _ s s' c hoff hon =>
      have hnone : ConsoleOnly [] := by simp
      refine ⟨s, s' ++ [.marked c], by simp, ?_, ?_⟩
      · simpa using hoff.achieved [] hnone
      · exact hon.achieved [] (by simp [Event.isConsole])

theorem powerCommand_told :
    Traces BoardOp.emits (Permitted false)
      (powerCommand registry action boardId) []
      (Told registry action boardId) := by
  unfold powerCommand
  split
  · rename_i haction
    refine Traces.told (powerOn_traces rfl) fun _ _ hok => haction ▸ .on ?_
    exact hok.operated fun _ performed _ hs => hs.achieved performed rfl
  · split
    · rename_i haction
      refine Traces.told (gracefulPowerOff_traces rfl true)
        fun _ _ hok => haction ▸ .off ?_
      exact hok.of_ok.operated fun _ performed _ hs => hs.1 performed rfl
    · split
      · rename_i haction
        refine Traces.told (forcedPowerOff_traces rfl true) fun _ _ hok => ?_
        have hoff := hok.of_ok.operated
          fun _ performed _ hs => hs.achieved performed rfl
        rcases haction with rfl | rfl
        · exact .forceOff hoff
        · exact .offForce hoff
      · split
        · rename_i haction
          refine Traces.told (powerCycle_traces rfl true)
            fun _ _ hok => haction ▸ .cycle ?_
          exact hok.of_ok.operated fun _ _ _ hs => hs.powerCycled
        · split
          · rename_i haction
            refine Traces.told (Φ := fun r log => ∀ observation,
              r = .ok observation → PowerDone registry boardId log "status")
              ?_ fun observation _ hok => haction ▸ hok observation rfl
            refine Traces.resultBind (fun profile hboard => ?_) (by simp)
            refine (powerState_traces (lenient_permitted _) []).mono ?_
            rintro _ log hquery observation rfl
            obtain ⟨q, identity, rfl, hq, -, -⟩ := hquery
            exact .status hboard hq rfl
          · refine Traces.pure (.inl ?_)
            have hword : toString "err unknown power action: " =
                "err " ++ "unknown power action: " := by
              decide
            rw [hword, String.append_assoc, String.append_assoc]
            exact err_prefix _

end Told

/-! ## From the command to the relay -/

section Command

variable {registry : BoardRegistry} {serde : Serde} {action boardId : String}

/-- A client that runs a `power` command. -/
structure Client.RunsPower (client : Client) (action boardId : String) :
    Prop where
  line : client.line = some
    (readLine (ClientLine.power action.toList boardId.toList).text)
  clear : (ClientLine.power action.toList boardId.toList).Clear

theorem Handshake.of_understood_power {handshake : Handshake}
    {word other : List Char}
    (h : handshake.understood = .power word other) :
    ∃ rest, handshake = .power rest ∧ firstWords rest = (word, other) := by
  cases handshake with
  | power rest =>
      refine ⟨rest, rfl, ?_⟩
      simpa [Handshake.understood, Prod.ext_iff] using h
  | _ => cases h

theorem splitWhitespace_word (rest : List Char) (k : Nat) :
    ((splitWhitespace rest).map String.ofList)[k]?.getD "" =
      String.ofList ((splitWhitespace rest)[k]?.getD []) := by
  rw [List.getElem?_map]
  cases (splitWhitespace rest)[k]? <;> rfl

theorem powerLine_eq {rest : List Char}
    (h : firstWords rest = (action.toList, boardId.toList)) :
    powerLine registry (String.ofList rest) =
      powerCommand registry action boardId := by
  obtain ⟨haction, hboardId⟩ := Prod.ext_iff.mp h
  simp only [firstWords] at haction hboardId
  simp only [powerLine, String.toList_ofList, splitWhitespace_word, haction,
    hboardId, String.ofList_toList]

theorem board_of_power {rest : List Char}
    (h : firstWords rest = (action.toList, boardId.toList)) :
    (ClientRequest.power (String.ofList rest)).board? = some boardId := by
  obtain ⟨-, hboardId⟩ := Prod.ext_iff.mp h
  simp only [firstWords] at hboardId
  simp only [ClientRequest.board?, ClientRequest.boardId,
    String.toList_ofList, splitWhitespace_word, hboardId,
    String.ofList_toList]

/-- The daemon makes of the command the request that it stands for. -/
theorem Client.RunsPower.handshake {client : Client}
    (h : client.RunsPower action boardId) (registry : BoardRegistry) :
    ∃ rest, client.line.map parseHandshake = some (.power rest) ∧
      (ClientRequest.power (String.ofList rest)).board? = some boardId ∧
      powerLine registry (String.ofList rest) =
        powerCommand registry action boardId := by
  have hunderstood := (understood_power_iff _ _ []).mpr h.clear
  rw [understood, List.append_nil] at hunderstood
  obtain ⟨rest, hrest, hwords⟩ := Handshake.of_understood_power hunderstood
  refine ⟨rest, ?_, board_of_power hwords, powerLine_eq hwords⟩
  rw [h.line, Option.map_some, hrest]

variable {κ : Type} [DecidableEq κ] {clients : κ → Client}
variable {consoles : String → Console}
variable {c : Pool ConnectionSig (fun _ : ConnectionThread κ => Unit)
  (Daemon κ)} {i : κ}

/-- The reply to a command tells what its request has done. -/
theorem DaemonReaches.told
    (h : DaemonReaches clients
      (startDaemon registry serde consoles clients) c)
    (hruns : (clients i).RunsPower action boardId)
    (hover : c.prog (i, .main) = .pure ()) (hsent : c.world.sent i ≠ []) :
    ∃ reply, c.world.sent i <+: reply ∧ Told registry action boardId reply
      ((c.world.boards boardId).threadLog ((i, 0), .main)) := by
  obtain ⟨rest, hhandshake, hboard, hpower⟩ := hruns.handshake registry
  have hrequests : (clients i).requests serde =
      [.power (String.ofList rest)] := by
    rw [Client.requests, hhandshake]
  have hasks : (clients i).AsksOnce serde boardId := by
    refine ⟨?_, _, by rw [hrequests]; exact List.mem_singleton_self _, hboard⟩
    rw [Client.console?, hhandshake]
  obtain ⟨d, response, hreaches, hworld, hdone, hpart⟩ :=
    h.replied hasks hover hsent
  have hexec := hreaches.exec ((i, 0), .main)
  have hprogram : (start registry (consoles boardId)
      (requestsOf serde clients)).prog ((i, 0), .main) =
        .text <$> powerCommand registry action boardId := by
    change serve registry (requestsOf serde clients (i, 0)) = _
    rw [requestsOf, hrequests, ← hpower]
    rfl
  rw [hprogram, hdone, hworld] at hexec
  have htold : Traces BoardOp.emits (Permitted false)
      (.text <$> powerCommand registry action boardId) []
      fun response log => ∃ reply, response = ClientResponse.text reply ∧
        Told registry action boardId reply log := by
    refine Traces.map (powerCommand_told.mono ?_)
    exact fun reply log hreply => ⟨reply, rfl, hreply⟩
  obtain ⟨reply, rfl, hreply⟩ := htold.result hexec
  exact ⟨reply, hpart, hreply⟩

/-- A command that succeeds has not read an error. -/
theorem sent_of_runPower_ok {path : String} {sent reply : Text}
    (hok : (runPower path (received sent)).2 = .ok ())
    (hpart : sent <+: reply) (herr : utf8 "err" <+: reply) :
    sent <+: utf8 "er" := by
  have hword : utf8 "err" = [0x65, 0x72, 0x72] := by decide
  have hpiece : utf8 "er" <+: utf8 "err" := by decide
  have hlength : (utf8 "er").length = 2 := by decide
  by_cases hshort : sent.length ≤ 2
  · refine List.prefix_of_prefix_length_le hpart (hpiece.trans herr) ?_
    omega
  · rw [hword] at herr
    have hlong : [0x65, 0x72, 0x72] <+: sent := by
      refine List.prefix_of_prefix_length_le herr hpart ?_
      simp only [List.length_cons, List.length_nil]
      omega
    obtain ⟨rest, rfl⟩ := hlong
    have hline : lineBytes ([0x65, 0x72, 0x72] ++ rest) =
        0x65 :: 0x72 :: 0x72 :: lineBytes rest := by
      simp [lineBytes]
    rw [received, hline] at hok
    split at hok
    · simp [runPower, hword] at hok
    · simp [runPower] at hok

/--
A `power` command that exits with success has done what it says, unless the
connection has broken before the third byte of an error came.
-/
theorem runPower_truthful {path : String}
    (h : DaemonReaches clients
      (startDaemon registry serde consoles clients) c)
    (hruns : (clients i).RunsPower action boardId)
    (hover : c.prog (i, .main) = .pure ())
    (hok : (runPower path (received (c.world.sent i))).2 = .ok ()) :
    c.world.sent i <+: utf8 "er" ∨ PowerDone registry boardId
      ((c.world.boards boardId).threadLog ((i, 0), .main)) action := by
  by_cases hsent : c.world.sent i = []
  · exact .inl (hsent ▸ List.nil_prefix)
  · obtain ⟨reply, hpart, herr | hdone⟩ := h.told hruns hover hsent
    · exact .inl (sent_of_runPower_ok hok hpart herr)
    · exact .inr hdone

/-- The command of a commander succeeds, and the board is on. -/
theorem runPower_truthful_commander :
    ∃ c : Pool ConnectionSig (fun _ : ConnectionThread Bool => Unit)
        (Daemon Bool),
      c.world.sent false = utf8 "ok  power on succeeded\n" ∧
      PowerDone simulatedRegistry "simulated"
        ((c.world.boards "simulated").threadLog ((false, 0), .main)) "on" := by
  obtain ⟨c, hreaches, hover, hsent⟩ := commanders_reach noSerde false
  have hruns : commander.RunsPower "on" "simulated" :=
    ⟨by decide, by decide⟩
  have htext : lineBytes (utf8 "ok  power on succeeded\n") =
      utf8 "ok  power on succeeded\n" := by
    decide
  have hok : (runPower "" (received (c.world.sent false))).2 = .ok () := by
    have hreceived : received (utf8 "ok  power on succeeded\n") =
        .answered (utf8 "ok  power on succeeded\n") := by
      rw [received, htext, if_pos (by decide)]
    rw [hsent, hreceived, runPower, if_neg (by decide)]
  refine ⟨c, hsent, ?_⟩
  rcases runPower_truthful hreaches hruns hover hok with hbroken | hdone
  · rw [hsent] at hbroken
    exact absurd hbroken (by decide)
  · exact hdone

end Command

end RpictlMcp
