import RpictlMcp.ConsoleFrames

/-!
# rpictl-mcp: the two threads of a console session

A console session of the daemon has two threads that write to one stream.  The
forwarder takes a chunk of serial bytes, tests `rpictl_mode` and then writes the
chunk; the session thread switches the mode, executes commands and writes their
responses, a response in three pieces.  No lock covers the stream.

A run is a list of steps of the two threads in any order, one for each
`write_all`.  The responses arrive as they were produced exactly in the runs in
which the forwarder never writes between the first and the last piece of a
response.
-/

namespace RpictlMcp

/-- Serial bytes without a NUL byte. -/
structure Chunk where
  bytes : List UInt8
  nulFree : 0 ∉ bytes
deriving DecidableEq

/-- A response without a NUL byte. -/
structure Reply extends ResponseText where
  nulFree : 0 ∉ bytes
deriving DecidableEq

/-- Where the session thread is in writing a response. -/
inductive Writing where
  | idle
  | opening (reply : Reply)
  | body (reply : Reply)
  | closing (reply : Reply)
deriving DecidableEq

/-- The shared variables of a console session and where its threads are. -/
structure Threads where
  rpictlMode : Bool
  held : Option Chunk
  writing : Writing
  stream : List UInt8
  produced : List Reply
deriving DecidableEq

/-- A session that has just been opened. -/
def Threads.initial : Threads := ⟨false, none, .idle, [], []⟩

/-- The steps of the two threads. -/
inductive ThreadStep where
  | takeChunk (chunk : Chunk)
  | writeChunk
  | setMode (rpictlMode : Bool)
  | execute (reply : Reply)
  | notify (notice : Chunk)
  | writePiece
deriving DecidableEq

/-- A chunk that the forwarder takes is dropped in the command console. -/
def Threads.takeChunk (s : Threads) (chunk : Chunk) : Option Threads :=
  match s.held with
  | some _ => none
  | none => some { s with held := if s.rpictlMode then none else some chunk }

/-- The forwarder writes the chunk it has taken. -/
def Threads.writeChunk (s : Threads) : Option Threads :=
  match s.held with
  | none => none
  | some chunk => some { s with held := none, stream := s.stream ++ chunk.bytes }

/-- The session thread writes the next piece of a response. -/
def Threads.writePiece (s : Threads) : Option Threads :=
  match s.writing with
  | .idle => none
  | .opening reply =>
      some { s with writing := .body reply, stream := s.stream ++ [0, 0x52] }
  | .body reply =>
      some { s with writing := .closing reply, stream := s.stream ++ reply.bytes }
  | .closing reply =>
      some { s with
        writing := .idle
        stream := s.stream ++ [0]
        produced := s.produced ++ [reply] }

/-- A step of one of the threads. -/
def Threads.step (s : Threads) : ThreadStep → Option Threads
  | .takeChunk chunk => s.takeChunk chunk
  | .writeChunk => s.writeChunk
  | .setMode rpictlMode =>
      if s.writing = .idle then some { s with rpictlMode } else none
  | .execute reply =>
      if s.writing = .idle then some { s with writing := .opening reply }
      else none
  | .notify notice =>
      if s.writing = .idle then
        some { s with stream := s.stream ++ notice.bytes }
      else none
  | .writePiece => s.writePiece

/-- A run of the threads. -/
def Threads.run (s : Threads) : List ThreadStep → Option Threads
  | [] => some s
  | act :: acts => (s.step act).bind fun next => next.run acts

/-- The client decodes the responses that were produced. -/
def Threads.Intact (s : Threads) : Prop :=
  Receiver.initial.answered s.stream = s.produced.map fun reply => reply.bytes

/-- The session thread is between the first and the last piece of a response. -/
def Writing.InFrame : Writing → Prop
  | .body _ => True
  | .closing _ => True
  | _ => False

/-- A step that writes serial bytes into a response. -/
def Threads.Disturbs (s : Threads) (act : ThreadStep) : Prop :=
  act = .writeChunk ∧ s.writing.InFrame ∧
    ∃ chunk, s.held = some chunk ∧ chunk.bytes ≠ []

/-- No step of a run writes serial bytes into a response. -/
def Threads.Undisturbed (s : Threads) : List ThreadStep → Prop
  | [] => True
  | act :: acts => ¬s.Disturbs act ∧
      ∀ next, s.step act = some next → next.Undisturbed acts

/-- What of the open response has been written. -/
def Writing.written : Writing → Text
  | .closing reply => reply.bytes
  | _ => []

/-- The client while a response is written, with what it has collected. -/
def Writing.receiver (writing : Writing) (collected : List UInt8) : Receiver :=
  match writing with
  | .body _ | .closing _ => ⟨collected, true, false⟩
  | _ => Receiver.idle false

/-- The bytes of several texts. -/
def totalLength (texts : List Text) : Nat :=
  (texts.map List.length).sum

/-- The texts that were produced. -/
def Threads.texts (s : Threads) : List Text :=
  s.produced.map fun reply => reply.bytes

/--
The client follows the threads: it has collected a text for each response, and
these have `extra` bytes more than the responses.
-/
structure Follows (s : Threads) (texts : List Text) (collected : List UInt8)
    (extra : Nat) : Prop where
  receiver : (Receiver.initial.run s.stream).1 = s.writing.receiver collected
  answers : Receiver.initial.answered s.stream = texts.map fromUtf8Lossy
  outside : ¬s.writing.InFrame → collected = []
  size : totalLength texts + collected.length =
    totalLength s.texts + s.writing.written.length + extra
  exact : extra = 0 → texts = s.texts ∧ collected = s.writing.written

section Following

variable {s t : Threads} {texts : List Text} {collected : List UInt8}
variable {extra : Nat}

@[simp] theorem totalLength_append (texts more : List Text) :
    totalLength (texts ++ more) = totalLength texts + totalLength more := by
  simp [totalLength]

@[simp] theorem totalLength_singleton (text : Text) :
    totalLength [text] = text.length := by
  simp [totalLength]

theorem totalLength_le_lossy (texts : List Text) :
    totalLength texts ≤ totalLength (texts.map fromUtf8Lossy) := by
  induction texts with
  | nil => rfl
  | cons text texts ih =>
      have htext := length_le_fromUtf8Lossy text
      simp only [totalLength, List.map_cons, List.sum_cons] at ih ⊢
      omega

theorem Follows.initial : Follows Threads.initial [] [] 0 where
  receiver := rfl
  answers := rfl
  outside _ := rfl
  size := rfl
  exact _ := ⟨rfl, rfl⟩

/-- Bytes without a NUL byte are shown outside of responses. -/
theorem run_nulFree {bytes : List UInt8} (hbytes : 0 ∉ bytes) :
    ((Receiver.idle false).run bytes).1 = Receiver.idle false ∧
      responsesOf ((Receiver.idle false).run bytes).2 = [] := by
  have hpair : pairAll false bytes = some false := by
    induction bytes with
    | nil => rfl
    | cons b bytes ih =>
        rw [List.mem_cons, not_or] at hbytes
        have hb : decide (b = 0) = false := by simpa using Ne.symm hbytes.1
        simp [pairAll, pair, hb, ih hbytes.2]
  obtain ⟨shown, hrun, hnone, -⟩ := Receiver.run_pairAll hpair
  rw [hrun]
  exact ⟨rfl, hnone⟩

/-- Serial bytes that are written outside of a response. -/
theorem Follows.outsideChunk (h : Follows s texts collected extra)
    (hwriting : ¬s.writing.InFrame) {bytes : List UInt8} (hbytes : 0 ∉ bytes)
    (hstream : t.stream = s.stream ++ bytes) (hsame : t.writing = s.writing)
    (hproduced : t.produced = s.produced) :
    Follows t texts collected extra := by
  have hidle : (Receiver.initial.run s.stream).1 = Receiver.idle false := by
    rw [h.receiver]
    cases hw : s.writing <;> simp_all [Writing.receiver, Writing.InFrame]
  obtain ⟨hstay, hnone⟩ := run_nulFree hbytes
  have htexts : t.texts = s.texts := congrArg (List.map _) hproduced
  refine ⟨?_, ?_, hsame ▸ h.outside, ?_, ?_⟩
  · rw [hstream, Receiver.run_append, hidle, hsame, ← h.receiver, hidle]
    exact hstay
  · rw [hstream, Receiver.answered_append, hidle, Receiver.answered, hnone,
      List.append_nil]
    exact h.answers
  · rw [htexts, hsame]
    exact h.size
  · rw [htexts, hsame]
    exact h.exact

/-- Serial bytes that are written into a response. -/
theorem Follows.insideChunk (h : Follows s texts collected extra)
    (hwriting : s.writing.InFrame) {bytes : List UInt8} (hbytes : 0 ∉ bytes)
    (hstream : t.stream = s.stream ++ bytes) (hsame : t.writing = s.writing)
    (hproduced : t.produced = s.produced) :
    Follows t texts (collected ++ bytes) (extra + bytes.length) := by
  have hopen : ∀ front : List UInt8,
      s.writing.receiver front = ⟨front, true, false⟩ := by
    intro front
    cases hw : s.writing <;> simp_all [Writing.receiver, Writing.InFrame]
  have hrun := Receiver.run_collect collected hbytes
  have htexts : t.texts = s.texts := congrArg (List.map _) hproduced
  refine ⟨?_, ?_, ?_, ?_, ?_⟩
  · rw [hstream, Receiver.run_append, h.receiver, hopen, hrun, hsame, hopen]
  · rw [hstream, Receiver.answered_append, h.receiver, hopen,
      Receiver.answered, hrun]
    exact (List.append_nil _).trans h.answers
  · exact fun hout => absurd (hsame ▸ hwriting) hout
  · have hsize := h.size
    rw [htexts, hsame, List.length_append]
    omega
  · intro hextra
    obtain ⟨hzero, hlength⟩ := Nat.add_eq_zero_iff.mp hextra
    rw [List.length_eq_zero_iff.mp hlength, List.append_nil, htexts, hsame]
    exact h.exact hzero

/-- The first piece of a response. -/
theorem Follows.opens (h : Follows s texts collected extra) {reply : Reply}
    (hwriting : s.writing = .opening reply) :
    Follows { s with
        writing := .body reply, stream := s.stream ++ [0, 0x52] }
      texts collected extra := by
  have hout : ¬s.writing.InFrame := by simp [hwriting, Writing.InFrame]
  have hcollected := h.outside hout
  have hidle : (Receiver.initial.run s.stream).1 = Receiver.idle false := by
    rw [h.receiver, hwriting]
    rfl
  have hsize := h.size
  have hexact := h.exact
  simp only [hwriting, Writing.written] at hsize hexact
  refine ⟨?_, ?_, fun hout => absurd trivial hout, hsize, hexact⟩
  · rw [Receiver.run_append, hidle, hcollected]
    rfl
  · rw [Receiver.answered_append, hidle]
    exact (List.append_nil _).trans h.answers

/-- The text of a response. -/
theorem Follows.writes (h : Follows s texts collected extra) {reply : Reply}
    (hwriting : s.writing = .body reply) :
    Follows { s with
        writing := .closing reply, stream := s.stream ++ reply.bytes }
      texts (collected ++ reply.bytes) extra := by
  have hopen : (Receiver.initial.run s.stream).1 = ⟨collected, true, false⟩ := by
    rw [h.receiver, hwriting]
    rfl
  have hrun := Receiver.run_collect collected reply.nulFree
  have hsize := h.size
  have hexact := h.exact
  simp only [hwriting, Writing.written] at hsize hexact
  refine ⟨?_, ?_, fun hout => absurd trivial hout, ?_, ?_⟩
  · rw [Receiver.run_append, hopen, hrun]
    rfl
  · rw [Receiver.answered_append, hopen, Receiver.answered, hrun]
    exact (List.append_nil _).trans h.answers
  · simp only [List.length_append, List.length_nil] at hsize ⊢
    simp only [Threads.texts, Writing.written] at hsize ⊢
    omega
  · intro hextra
    obtain ⟨htexts, hnil⟩ := hexact hextra
    exact ⟨htexts, by rw [hnil]; rfl⟩

/-- The last piece of a response. -/
theorem Follows.closes (h : Follows s texts collected extra) {reply : Reply}
    (hwriting : s.writing = .closing reply) :
    Follows { s with
        writing := .idle
        stream := s.stream ++ [0]
        produced := s.produced ++ [reply] }
      (texts ++ [collected]) [] extra := by
  have hopen : (Receiver.initial.run s.stream).1 = ⟨collected, true, false⟩ := by
    rw [h.receiver, hwriting]
    rfl
  have hrun : Receiver.run ⟨collected, true, false⟩ [0] =
      (Receiver.idle false, [.response (fromUtf8Lossy collected)]) := rfl
  have hsize := h.size
  have hexact := h.exact
  simp only [hwriting, Writing.written] at hsize hexact
  refine ⟨?_, ?_, fun _ => rfl, ?_, ?_⟩
  · rw [Receiver.run_append, hopen, hrun]
    rfl
  · rw [Receiver.answered_append, hopen, Receiver.answered, hrun,
      List.map_append]
    exact congrArg (· ++ [fromUtf8Lossy collected]) h.answers
  · simp only [Threads.texts, List.map_append, List.map_singleton,
      totalLength_append, totalLength_singleton, Writing.written,
      List.length_nil] at hsize ⊢
    omega
  · intro hextra
    obtain ⟨htexts, hbytes⟩ := hexact hextra
    rw [htexts, hbytes]
    exact ⟨by simp [Threads.texts], rfl⟩

/-- A change of anything but the stream and the responses. -/
theorem Follows.unwritten (h : Follows s texts collected extra)
    (hstream : t.stream = s.stream) (hproduced : t.produced = s.produced)
    (hreceiver : t.writing.receiver = s.writing.receiver)
    (hwritten : t.writing.written = s.writing.written)
    (hframe : t.writing.InFrame ↔ s.writing.InFrame) :
    Follows t texts collected extra := by
  have htexts : t.texts = s.texts := congrArg (List.map _) hproduced
  refine ⟨?_, ?_, ?_, ?_, ?_⟩
  · rw [hstream, hreceiver, h.receiver]
  · rw [hstream, h.answers]
  · rw [hframe]
    exact h.outside
  · rw [htexts, hwritten, h.size]
  · rw [htexts, hwritten]
    exact h.exact

/-- A step of the threads: the client has collected more only if the step
disturbs a response. -/
theorem Follows.step (h : Follows s texts collected extra) {act : ThreadStep}
    (hstep : s.step act = some t) :
    ∃ texts' collected' extra', Follows t texts' collected' extra' ∧
      (extra' = 0 ↔ extra = 0 ∧ ¬s.Disturbs act) := by
  have hquiet : act ≠ .writeChunk → (extra = 0 ↔ extra = 0 ∧ ¬s.Disturbs act) :=
    fun hact => (and_iff_left fun hdisturbs => hact hdisturbs.1).symm
  cases act with
  | takeChunk chunk =>
      have ht : t.stream = s.stream ∧ t.produced = s.produced ∧
          t.writing = s.writing := by
        simp only [Threads.step, Threads.takeChunk] at hstep
        split at hstep
        · cases hstep
        · obtain rfl := Option.some.inj hstep
          exact ⟨rfl, rfl, rfl⟩
      obtain ⟨hstream, hproduced, hwriting⟩ := ht
      exact ⟨texts, collected, extra, h.unwritten hstream hproduced
        (by rw [hwriting]) (by rw [hwriting]) (by rw [hwriting]),
        hquiet (by simp)⟩
  | writeChunk =>
      simp only [Threads.step, Threads.writeChunk] at hstep
      cases hheld : s.held with
      | none => simp [hheld] at hstep
      | some chunk =>
          rw [hheld] at hstep
          obtain rfl := Option.some.inj hstep
          by_cases hframe : s.writing.InFrame
          · refine ⟨_, _, _, h.insideChunk hframe chunk.nulFree rfl rfl rfl, ?_⟩
            simp only [Threads.Disturbs, hframe, hheld, Nat.add_eq_zero_iff,
              List.length_eq_zero_iff, true_and, Option.some.injEq,
              exists_eq_left', not_not]
          · refine ⟨_, _, _, h.outsideChunk hframe chunk.nulFree rfl rfl rfl, ?_⟩
            simp [Threads.Disturbs, hframe]
  | setMode rpictlMode =>
      simp only [Threads.step] at hstep
      split at hstep
      · obtain rfl := Option.some.inj hstep
        exact ⟨texts, collected, extra, h.unwritten rfl rfl rfl rfl .rfl,
          hquiet (by simp)⟩
      · cases hstep
  | execute reply =>
      simp only [Threads.step] at hstep
      split at hstep
      · rename_i hidle
        obtain rfl := Option.some.inj hstep
        exact ⟨texts, collected, extra, h.unwritten rfl rfl
          (by rw [hidle]; rfl) (by rw [hidle]; rfl)
          (by rw [hidle]; exact .rfl), hquiet (by simp)⟩
      · cases hstep
  | notify notice =>
      simp only [Threads.step] at hstep
      split at hstep
      · rename_i hidle
        obtain rfl := Option.some.inj hstep
        exact ⟨texts, collected, extra, h.outsideChunk
          (by simp [hidle, Writing.InFrame]) notice.nulFree rfl rfl rfl,
          hquiet (by simp)⟩
      · cases hstep
  | writePiece =>
      have hquiet := hquiet (by simp)
      simp only [Threads.step, Threads.writePiece] at hstep
      cases hwriting : s.writing with
      | idle => simp [hwriting] at hstep
      | opening reply =>
          rw [hwriting] at hstep
          obtain rfl := Option.some.inj hstep
          exact ⟨_, _, _, h.opens hwriting, hquiet⟩
      | body reply =>
          rw [hwriting] at hstep
          obtain rfl := Option.some.inj hstep
          exact ⟨_, _, _, h.writes hwriting, hquiet⟩
      | closing reply =>
          rw [hwriting] at hstep
          obtain rfl := Option.some.inj hstep
          exact ⟨_, _, _, h.closes hwriting, hquiet⟩

/-- A run of the threads. -/
theorem Follows.run (h : Follows s texts collected extra)
    {acts : List ThreadStep} (hrun : s.run acts = some t) :
    ∃ texts' collected' extra', Follows t texts' collected' extra' ∧
      (extra' = 0 ↔ extra = 0 ∧ s.Undisturbed acts) := by
  induction acts generalizing s texts collected extra with
  | nil =>
      obtain rfl := Option.some.inj hrun
      exact ⟨texts, collected, extra, h, (and_iff_left trivial).symm⟩
  | cons act acts ih =>
      obtain ⟨next, hstep, hrest⟩ := Option.bind_eq_some_iff.mp hrun
      obtain ⟨texts₁, collected₁, extra₁, hnext, hzero⟩ := h.step hstep
      obtain ⟨texts₂, collected₂, extra₂, hlast, hzero'⟩ := ih hnext hrest
      refine ⟨texts₂, collected₂, extra₂, hlast, hzero'.trans ?_⟩
      rw [hzero, and_assoc]
      refine and_congr_right' (and_congr_right' ⟨?_, ?_⟩)
      · intro hrest other hother
        obtain rfl := Option.some.inj (hstep.symm.trans hother)
        exact hrest
      · exact fun hrest => hrest next hstep

/-- A client that follows with nothing extra decodes the responses. -/
theorem Follows.intact_iff (h : Follows s texts [] extra)
    (hidle : s.writing = .idle) : s.Intact ↔ extra = 0 := by
  constructor
  · intro hintact
    have hmap : texts.map fromUtf8Lossy = s.texts :=
      h.answers.symm.trans hintact
    have hlength := totalLength_le_lossy texts
    have hsize := h.size
    rw [hmap] at hlength
    rw [hidle] at hsize
    simp only [Writing.written, List.length_nil] at hsize
    omega
  · intro hextra
    obtain ⟨rfl, -⟩ := h.exact hextra
    refine h.answers.trans ?_
    rw [Threads.texts, List.map_map]
    exact List.map_congr_left fun reply _ => fromUtf8Lossy_of_isUtf8 reply.valid

end Following

/--
Once the session thread has written its responses, the client has decoded them
as they were produced exactly when no step wrote serial bytes into one of them.
-/
theorem responses_intact_iff {acts : List ThreadStep} {s : Threads}
    (hrun : Threads.initial.run acts = some s) (hidle : s.writing = .idle) :
    s.Intact ↔ Threads.initial.Undisturbed acts := by
  obtain ⟨texts, collected, extra, h, hextra⟩ := Follows.initial.run hrun
  have hcollected : collected = [] := by
    refine h.outside ?_
    simp [hidle, Writing.InFrame]
  subst hcollected
  rw [h.intact_iff hidle, hextra]
  exact and_iff_right rfl

/-- A chunk of one byte. -/
def promptChunk : Chunk := ⟨[0x23], by decide⟩

/-- A short response. -/
def shortReply : Reply := ⟨⟨[0x6F, 0x6B], by decide⟩, by decide⟩

/-- The forwarder tests the mode, the client opens the command console and has a
command executed, and the chunk is written before the text of the response. -/
def lateChunk : List ThreadStep :=
  [.takeChunk promptChunk, .setMode true, .execute shortReply, .writePiece,
    .writeChunk, .writePiece, .writePiece]

theorem responses_intact_prompt :
    ∃ s, Threads.initial.run [.takeChunk promptChunk, .writeChunk,
        .setMode true, .execute shortReply, .writePiece, .writePiece,
        .writePiece] = some s ∧
      (s.Intact ↔ Threads.initial.Undisturbed [.takeChunk promptChunk,
        .writeChunk, .setMode true, .execute shortReply, .writePiece,
        .writePiece, .writePiece]) :=
  ⟨_, rfl, responses_intact_iff rfl rfl⟩

/-- Serial bytes arrive inside a response. -/
theorem response_disturbed :
    ¬∀ acts s, Threads.initial.run acts = some s → s.writing = .idle →
      s.Intact := by
  intro h
  have hintact := h lateChunk _ rfl rfl
  revert hintact
  unfold Threads.Intact
  decide

end RpictlMcp
