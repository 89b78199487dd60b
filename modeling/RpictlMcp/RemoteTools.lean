import RpictlMcp.RemoteBackend

/-!
# rpictl-mcp: tools behind the daemon

A tool that runs on a registry of its own and the same tool behind the daemon
are compared for every outcome of the registry method.  The daemon passes every
value on, but of an error only the text: the client reports each of them as
`COMMAND_DENIED` in the phase `daemon`.
-/

namespace RpictlMcp

section Lines

variable {json stream : List Char}

/-- An encoded object on one line. -/
structure ObjectText (json : List Char) : Prop where
  opens : json.head? = some '\x7b'
  closes : json.getLast? = some '\x7d'
  oneLine : '\n' ∉ json

/-- The codec carries a value over a line of text. -/
def CarriesLine {α : Type} (codec : Codec α (List Char)) (a : α) : Prop :=
  ∃ json, codec.encode a = .ok json ∧ codec.decode json = .ok a ∧
    ObjectText json

/-- The codec carries a value. -/
def Carries {α β : Type} (codec : Codec α β) (a : α) : Prop :=
  ∃ b, codec.encode a = .ok b ∧ codec.decode b = .ok a

theorem readLine_line (h : '\n' ∉ stream) :
    readLine (stream ++ ['\n']) = stream ++ ['\n'] := by
  induction stream with
  | nil => rfl
  | cons c stream ih =>
      rw [List.mem_cons, not_or] at h
      rw [List.cons_append, readLine, if_neg (Ne.symm h.1), ih h.2]

theorem trim_line {c d : Char} (front rest : List Char)
    (hc : isWhitespace c = false) (hd : isWhitespace d = false)
    (hrest : c :: rest = front ++ [d]) :
    trim (c :: rest ++ ['\n']) = c :: rest := by
  have hfront : (c :: rest ++ ['\n']).dropWhile isWhitespace =
      c :: rest ++ ['\n'] := by
    rw [List.cons_append, List.dropWhile_cons_of_neg (by simp [hc])]
  have hnewline : isWhitespace '\n' = true := by decide
  have hback : (c :: rest ++ ['\n']).reverse.dropWhile isWhitespace =
      (c :: rest).reverse := by
    rw [List.reverse_append, List.reverse_singleton, List.singleton_append,
      List.dropWhile_cons_of_pos hnewline, hrest, List.reverse_append,
      List.reverse_singleton, List.singleton_append,
      List.dropWhile_cons_of_neg (by simp [hd])]
  rw [trim, hfront, hback, List.reverse_reverse]

/-- An object on a line of its own. -/
theorem ObjectText.trim_eq (h : ObjectText json) :
    trim (json ++ ['\n']) = json := by
  obtain ⟨front, hcloses⟩ := List.getLast?_eq_some_iff.mp h.closes
  obtain ⟨rest, rfl⟩ := List.head?_eq_some_iff.mp h.opens
  exact trim_line front rest (by decide) (by decide) hcloses

/-- The line of a remote call is taken for one. -/
theorem ObjectText.parseHandshake_eq (h : ObjectText json) :
    parseHandshake ("RPC ".toList ++ json ++ ['\n']) = .rpc json := by
  obtain ⟨front, hcloses⟩ := List.getLast?_eq_some_iff.mp h.closes
  have hline : trim ("RPC ".toList ++ json ++ ['\n']) =
      "RPC ".toList ++ json := by
    refine trim_line (c := 'R') (d := '\x7d') ("RPC ".toList ++ front)
      ("PC ".toList ++ json) (by decide) (by decide) ?_
    rw [List.append_assoc, ← hcloses]
    rfl
  have hstrip : stripPrefix "RPC ".toList ("RPC ".toList ++ json) =
      some json := by
    simp [stripPrefix]
  unfold parseHandshake
  simp only [hline, hstrip]
  rw [if_neg, if_neg]
  · exact fun h => absurd (List.cons.inj h).1 (by decide)
  · exact fun h => absurd (List.cons.inj h).1 (by decide)

end Lines

section Calls

variable {serde : Serde} {methods : BoardMethods Id} {req : RpcRequest}

/-- What becomes of a result on its way through the daemon. -/
def throughDaemon {α : Type} (result : Result α) : Result α :=
  match result with
  | .ok v => .ok v
  | .error e => .error (Error.new .commandDenied "daemon" e.display)

/-- What `handle_rpc` makes of the outcome of a method. -/
def dispatched (serde : Serde) (methods : BoardMethods Id)
    (req : RpcRequest) : Except Text serde.Value :=
  Id.run (dispatchRpc serde methods req)

/-- What a call returns for a dispatched request. -/
def callResult {Value : Type} (result : Except Text Value) : Result Value :=
  match result with
  | .ok value => .ok value
  | .error err => .error (Error.new .commandDenied "daemon" err)

/-- A call to the daemon dispatches its request. -/
theorem call_daemonClient (hreq : CarriesLine serde.request req)
    (hresp : CarriesLine serde.response
      (RpcResponse.of (dispatched serde methods req))) :
    Id.run ((daemonClient serde methods).call req) =
      callResult (dispatched serde methods req) := by
  obtain ⟨json, hencode, hdecode, hjson⟩ := hreq
  obtain ⟨answer, hencode', hdecode', hanswer⟩ := hresp
  have hread : readLine ("RPC ".toList ++ json ++ ['\n']) =
      "RPC ".toList ++ json ++ ['\n'] := by
    refine readLine_line ?_
    simp [hjson.oneLine]
  have hserve : Id.run (serveRpc serde methods
      ("RPC ".toList ++ json ++ ['\n'])) = some (answer ++ ['\n']) := by
    unfold serveRpc
    rw [hread, hjson.parseHandshake_eq]
    simp only [handleRpcJson, hdecode]
    change some (responseLine serde
      (RpcResponse.of (dispatched serde methods req))) = _
    rw [responseLine, hencode']
  have hreceive : receiveResponse serde (readLine (answer ++ ['\n'])) =
      callResult (dispatched serde methods req) := by
    rw [readLine_line hanswer.oneLine, receiveResponse, hanswer.trim_eq,
      hdecode']
    cases dispatched serde methods req <;> rfl
  have hencoded : (daemonClient serde methods).serde.request.encode req =
      .ok json := hencode
  rw [SocketClient.call, hencoded]
  change receiveResponse serde (readLine ((Id.run (serveRpc serde methods
    ("RPC ".toList ++ json ++ ['\n']))).getD [])) = _
  rw [hserve]
  exact hreceive

theorem rpcValue_of_encode {α β : Type} {codec : Codec α β} {v : α} {b : β}
    (h : codec.encode v = .ok b) : rpcValue codec (.ok v) = .ok b := by
  simp only [rpcValue, h]

/-- What a method of the client returns. -/
theorem decodeResult_call {α : Type} {codec : Codec α serde.Value}
    {name : String} {result : Result α}
    (hdispatch : dispatched serde methods req = rpcValue codec result)
    (hreq : CarriesLine serde.request req)
    (hresp : CarriesLine serde.response
      (RpcResponse.of (dispatched serde methods req)))
    (hvalue : ∀ v, result = .ok v → Carries codec v) :
    decodeResult codec name (Id.run ((daemonClient serde methods).call req)) =
      throughDaemon result := by
  refine (congrArg (decodeResult codec name)
    (call_daemonClient hreq hresp)).trans ?_
  rw [hdispatch]
  cases result with
  | error e => rfl
  | ok v =>
      obtain ⟨value, hencode, hdecode⟩ := hvalue v rfl
      simp only [rpcValue, hencode, callResult, decodeResult, hdecode,
        throughDaemon]

end Calls

section Tools

/-- The remote call of a tool. -/
def ToolRequest.rpc : ToolRequest → RpcRequest
  | .listBoards => .listBoards
  | .getBoardState request => .getBoardState request
  | .getPowerState request => .getPowerState request
  | .captureSerial request => .captureSerial request
  | .powerOn request => .powerOn request
  | .powerOnUboot request => .powerOnUboot request
  | .powerOnLinux request => .powerOnLinux request
  | .powerOff request => .powerOff request
  | .powerCycle request => .powerCycle request
  | .waitForState request => .waitForState request
  | .enterUboot request => .enterUboot request
  | .runUbootCommand request => .runUbootCommand request
  | .bootLinux request => .bootLinux request
  | .linuxLogin request => .linuxLogin request
  | .runLinuxCommand request => .runLinuxCommand request
  | .rebootLinux request => .rebootLinux request

/-- The codec of a result carries it. -/
def Serde.CarriesResult (serde : Serde) : ToolResult → Prop
  | .boards summaries => Carries serde.boards summaries
  | .boardsList result => Carries serde.boards result.boards
  | .boardState result => Carries serde.boardState result
  | .powerState result => Carries serde.powerState result
  | .capture result => Carries serde.capture result
  | .operation result => Carries serde.operation result

variable (serde : Serde) (methods : BoardMethods Id) (gemini : Bool)

/-- A tool on a registry of its own. -/
def localCall (request : ToolRequest) : Result ToolResult :=
  Id.run (RpictlServer.call ⟨.local methods, gemini⟩ request)

/-- The tool behind a daemon that serves the registry. -/
def remoteCall (request : ToolRequest) : Result ToolResult :=
  Id.run (RpictlServer.call ⟨.remote (daemonClient serde methods), gemini⟩
    request)

/-- The JSON library carries a request and what comes back for it. -/
structure Transports (request : ToolRequest) : Prop where
  asked : CarriesLine serde.request request.rpc
  answered : CarriesLine serde.response
    (RpcResponse.of (dispatched serde methods request.rpc))
  returned : ∀ result, localCall methods gemini request = .ok result →
    serde.CarriesResult result

/-- The same value, or errors with the same code and phase. -/
def SameOutcome : Result ToolResult → Result ToolResult → Prop
  | .ok result, .ok other => other = result
  | .error e, .error other => other.code = e.code ∧ other.phase = e.phase
  | _, _ => False

variable {serde methods gemini}

theorem map_throughDaemon {α β : Type} (f : α → β) (result : Result α) :
    (throughDaemon result).map f = throughDaemon (result.map f) := by
  cases result <;> rfl

/-- A method of the client returns what has come through the daemon. -/
theorem map_decodeResult {α : Type} {request : ToolRequest}
    {codec : Codec α serde.Value} {name : String} (result : Result α)
    {f : α → ToolResult} (h : Transports serde methods gemini request)
    (hdispatch : dispatched serde methods request.rpc =
      rpcValue codec result)
    (hlocal : localCall methods gemini request = result.map f)
    (hcarries : ∀ v, serde.CarriesResult (f v) → Carries codec v) :
    (decodeResult codec name
        (Id.run ((daemonClient serde methods).call request.rpc))).map f =
      throughDaemon (localCall methods gemini request) := by
  rw [hlocal, ← map_throughDaemon]
  refine congrArg (Except.map f) (decodeResult_call hdispatch h.asked
    h.answered fun v hv => hcarries v (h.returned (f v) ?_))
  rw [hlocal, hv]
  rfl

theorem map_decodeResult_boards
    (h : Transports serde methods gemini .listBoards) :
    remoteCall serde methods gemini .listBoards =
      throughDaemon (localCall methods gemini .listBoards) := by
  have hcarries : ∀ summaries, serde.CarriesResult
      (RpictlServer.boardsResult ⟨.local methods, gemini⟩ summaries) →
        Carries serde.boards summaries := by
    intro summaries hsummaries
    cases gemini <;> exact hsummaries
  obtain ⟨value, hencode, -⟩ := hcarries _ (h.returned _ rfl)
  exact map_decodeResult (.ok (Id.run methods.listBoardSummaries)) h
    ((congrArg (Except.mapError utf8) hencode).trans
      (rpcValue_of_encode hencode).symm) rfl hcarries

/-- Behind the daemon a tool returns what has come through it. -/
theorem remoteCall_eq {request : ToolRequest}
    (h : Transports serde methods gemini request) :
    remoteCall serde methods gemini request =
      throughDaemon (localCall methods gemini request) := by
  cases request with
  | listBoards => exact map_decodeResult_boards h
  | getBoardState request => exact map_decodeResult _ h rfl rfl fun _ hv => hv
  | getPowerState request => exact map_decodeResult _ h rfl rfl fun _ hv => hv
  | captureSerial request => exact map_decodeResult _ h rfl rfl fun _ hv => hv
  | powerOn request => exact map_decodeResult _ h rfl rfl fun _ hv => hv
  | powerOnUboot request => exact map_decodeResult _ h rfl rfl fun _ hv => hv
  | powerOnLinux request => exact map_decodeResult _ h rfl rfl fun _ hv => hv
  | powerOff request => exact map_decodeResult _ h rfl rfl fun _ hv => hv
  | powerCycle request => exact map_decodeResult _ h rfl rfl fun _ hv => hv
  | waitForState request => exact map_decodeResult _ h rfl rfl fun _ hv => hv
  | enterUboot request => exact map_decodeResult _ h rfl rfl fun _ hv => hv
  | runUbootCommand request => exact map_decodeResult _ h rfl rfl fun _ hv => hv
  | bootLinux request => exact map_decodeResult _ h rfl rfl fun _ hv => hv
  | linuxLogin request => exact map_decodeResult _ h rfl rfl fun _ hv => hv
  | runLinuxCommand request => exact map_decodeResult _ h rfl rfl fun _ hv => hv
  | rebootLinux request => exact map_decodeResult _ h rfl rfl fun _ hv => hv

/--
Behind the daemon a tool returns the same result exactly when the method does not
fail, or fails with the code and the phase that the client gives every error.
-/
theorem remoteCall_agrees_iff {request : ToolRequest}
    (h : Transports serde methods gemini request) :
    SameOutcome (localCall methods gemini request)
        (remoteCall serde methods gemini request) ↔
      ∀ e, localCall methods gemini request = .error e →
        e.code = .commandDenied ∧ e.phase = "daemon" := by
  rw [remoteCall_eq h]
  cases localCall methods gemini request with
  | ok result => simp [SameOutcome, throughDaemon]
  | error e =>
      constructor
      · rintro ⟨hcode, hphase⟩ _ ⟨⟩
        exact ⟨hcode.symm, hphase.symm⟩
      · intro hsame
        obtain ⟨hcode, hphase⟩ := hsame e rfl
        exact ⟨hcode.symm, hphase.symm⟩

end Tools

section Witness

/-- What the JSON library does with one call and the response to it. -/
def recordedSerde (request : RpcRequest) (requestText : String)
    (response : RpcResponse String) (responseText : String) : Serde where
  Value := String
  null := "null"
  request := ⟨fun _ => .ok requestText.toList, fun _ => .ok request⟩
  response := ⟨fun _ => .ok responseText.toList, fun _ => .ok response⟩
  boards := ⟨fun _ => .ok "[]", fun _ => .ok []⟩
  boardState := ⟨fun _ => .error "", fun _ => .error ""⟩
  powerState := ⟨fun _ => .error "", fun _ => .error ""⟩
  capture := ⟨fun _ => .error "", fun _ => .error ""⟩
  operation := ⟨fun _ => .error "", fun _ => .error ""⟩

/-- A registry without boards. -/
def noBoards : BoardMethods Id where
  listBoardSummaries := []
  boardState req := .error (boardNotFound req.boardId)
  boardPowerState req := .error (boardNotFound req.boardId)
  captureBoardSerial req := .error (boardNotFound req.boardId)
  powerOnBoard req := .error (boardNotFound req.boardId)
  powerOnUbootBoard req := .error (boardNotFound req.boardId)
  powerOnLinuxBoard req := .error (boardNotFound req.boardId)
  powerOffBoard req := .error (boardNotFound req.boardId)
  powerCycleBoard req := .error (boardNotFound req.boardId)
  waitForBoardState req := .error (boardNotFound req.boardId)
  enterBoardUboot req := .error (boardNotFound req.boardId)
  runBoardUbootCommand req := .error (boardNotFound req.boardId)
  bootBoardLinux req := .error (boardNotFound req.boardId)
  linuxBoardLogin req := .error (boardNotFound req.boardId)
  runBoardLinuxCommand req := .error (boardNotFound req.boardId)
  rebootBoardLinux req := .error (boardNotFound req.boardId)

/-- The call of `list_boards`, and its response. -/
def listingSerde : Serde :=
  recordedSerde .listBoards "\x7b\"method\":\"list_boards\"\x7d"
    ⟨true, some "[]", none⟩
    "\x7b\"ok\":true,\"result\":[],\"error\":null\x7d"

theorem remoteCall_agrees_listing :
    SameOutcome (localCall noBoards false .listBoards)
        (remoteCall listingSerde noBoards false .listBoards) ↔
      ∀ e, localCall noBoards false .listBoards = .error e →
        e.code = .commandDenied ∧ e.phase = "daemon" := by
  refine remoteCall_agrees_iff ⟨?_, ?_, ?_⟩
  · exact ⟨_, rfl, rfl, rfl, by decide, by decide⟩
  · exact ⟨_, rfl, rfl, rfl, by decide, by decide⟩
  · rintro _ ⟨⟩
    exact ⟨_, rfl, rfl⟩

/-- The call of `get_power_state` for a board that is not configured. -/
def unknownBoard : ToolRequest := .getPowerState ⟨"lab"⟩

def unknownBoardSerde : Serde :=
  recordedSerde unknownBoard.rpc
    ("\x7b\"method\":\"get_power_state\",\"params\":\x7b\"board_id\":\"lab\"" ++
      "\x7d\x7d")
    ⟨false, none, some (boardNotFound "lab").display⟩
    ("\x7b\"ok\":false,\"result\":null,\"error\":\"BOARD_NOT_FOUND during " ++
      "discovery: board \\\"lab\\\" is not configured\"\x7d")

/-- Behind the daemon the error of an unknown board has another code. -/
theorem remoteCall_differs :
    ¬∀ (serde : Serde) (methods : BoardMethods Id) (gemini : Bool)
        (request : ToolRequest), Transports serde methods gemini request →
      SameOutcome (localCall methods gemini request)
        (remoteCall serde methods gemini request) := by
  intro h
  have hcarried : Transports unknownBoardSerde noBoards false unknownBoard := by
    refine ⟨?_, ?_, ?_⟩
    · exact ⟨_, rfl, rfl, rfl, by decide, by decide⟩
    · exact ⟨_, rfl, rfl, rfl, by decide, by decide⟩
    · rintro _ ⟨⟩
  have hsame := h _ _ _ _ hcarried
  rw [remoteCall_eq hcarried] at hsame
  exact absurd hsame.1 (by decide)

end Witness

end RpictlMcp
