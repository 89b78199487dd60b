import RpictlMcp.ConsoleSession

/-!
# rpictl-mcp: what a console client shows

The daemon writes serial bytes and responses into one stream; a response stands
between a NUL byte with an `R` and a closing NUL byte, and the serial bytes are
not escaped.  This module determines the sequences of items that the receive
loop of the client recovers: the responses must be free of NUL bytes, and in the
serial bytes a run of NUL bytes in front of an `R` or of a response must have an
even length, since the loop reads NUL bytes in pairs.
-/

namespace RpictlMcp

/-- A response as the daemon holds it: well-formed UTF-8. -/
structure ResponseText where
  bytes : Text
  valid : isUtf8 bytes = true
deriving DecidableEq

/-- What the daemon writes to a console client. -/
inductive Item where
  | chunk (bytes : List UInt8)
  | response (text : ResponseText)
deriving DecidableEq

/-- The bytes of an item on the stream. -/
def Item.wire : Item → List UInt8
  | .chunk bytes => bytes
  | .response text => responseFrame text.bytes

/-- The stream of a sequence of items. -/
def wire (items : List Item) : List UInt8 :=
  items.flatMap Item.wire

/-- The serial bytes of a sequence of items. -/
def serialBytes (items : List Item) : List UInt8 :=
  items.flatMap fun
    | .chunk bytes => bytes
    | .response _ => []

/-- The responses of a sequence of items. -/
def responseTexts (items : List Item) : List Text :=
  items.filterMap fun
    | .chunk _ => none
    | .response text => some text.bytes

/-- The console output among what is shown. -/
def consoleOf (shown : List Shown) : List UInt8 :=
  shown.flatMap fun
    | .console bytes => bytes
    | .response _ => []

/-- The responses among what is shown. -/
def responsesOf (shown : List Shown) : List Text :=
  shown.filterMap fun
    | .console _ => none
    | .response text => some text

/-- A NUL byte that has been read and not been shown. -/
def pendingBytes (pendingNul : Bool) : List UInt8 :=
  if pendingNul then [0] else []

/-- However the stream is split, the client recovers the items. -/
def Recovers (items : List Item) : Prop :=
  ∀ reads : List (List UInt8), reads.flatten = wire items →
    let result := Receiver.initial.runReads reads
    consoleOf result.2 ++ pendingBytes result.1.pendingNul =
        serialBytes items ∧
      responsesOf result.2 = responseTexts items

/-- A serial byte or a response. -/
inductive Symbol where
  | byte (b : UInt8)
  | frame (text : ResponseText)
deriving DecidableEq

/-- An item, serial byte by serial byte. -/
def Item.symbols : Item → List Symbol
  | .chunk bytes => bytes.map .byte
  | .response text => [.frame text]

/-- What a pending NUL byte must not stand in front of. -/
def Symbol.Breaks : Symbol → Prop
  | .byte b => b = 0x52
  | .frame _ => True

/-- An odd number of NUL bytes stands in front of an `R` or of a response. -/
def OddRun (symbols : List Symbol) : Prop :=
  ∃ front n next rest,
    symbols = front ++ List.replicate (2 * n + 1) (.byte 0) ++ next :: rest ∧
      front.getLast? ≠ some (.byte 0) ∧ next.Breaks

/-- The items that the stream keeps apart. -/
structure Separable (items : List Item) : Prop where
  responses : ∀ text ∈ responseTexts items, 0 ∉ text
  runs : ¬OddRun (items.flatMap Item.symbols)

/-- The bytes of a symbol on the stream. -/
def Symbol.wire : Symbol → List UInt8
  | .byte b => [b]
  | .frame text => responseFrame text.bytes

/-- The serial bytes among the symbols. -/
def dataOf (symbols : List Symbol) : List UInt8 :=
  symbols.flatMap fun
    | .byte b => [b]
    | .frame _ => []

/-- The responses among the symbols. -/
def textsOf (symbols : List Symbol) : List Text :=
  symbols.filterMap fun
    | .byte _ => none
    | .frame text => some text.bytes

/-- How a NUL byte pairs with the serial byte after it. -/
def pair (pending : Bool) (b : UInt8) : Option Bool :=
  if pending then if b = 0x52 then none else some false
  else some (b = 0)

/-- The serial bytes up to here leave the pairing in a given state. -/
def pairAll (pending : Bool) : List UInt8 → Option Bool
  | [] => some pending
  | b :: bytes => (pair pending b).bind fun next => pairAll next bytes

/-- The symbols that are read as they were written. -/
def Clean (pending : Bool) : List Symbol → Prop
  | [] => True
  | .byte b :: symbols => ∃ next, pair pending b = some next ∧ Clean next symbols
  | .frame text :: symbols =>
      pending = false ∧ 0 ∉ text.bytes ∧ Clean false symbols

section Receiving

variable {pending next : Bool} {b : UInt8} {bytes : List UInt8}
variable {symbols : List Symbol}

/-- A receiver outside of any response. -/
def Receiver.idle (pending : Bool) : Receiver := ⟨[], false, pending⟩

/-- What is shown of a stream, with the NUL byte that is left. -/
def Receiver.heard (s : Receiver) (bytes : List UInt8) : List UInt8 :=
  consoleOf (s.run bytes).2 ++ pendingBytes (s.run bytes).1.pendingNul

/-- The responses that are shown of a stream. -/
def Receiver.answered (s : Receiver) (bytes : List UInt8) : List Text :=
  responsesOf (s.run bytes).2

@[simp] theorem consoleOf_append (shown rest : List Shown) :
    consoleOf (shown ++ rest) = consoleOf shown ++ consoleOf rest := by
  simp [consoleOf]

@[simp] theorem responsesOf_append (shown rest : List Shown) :
    responsesOf (shown ++ rest) = responsesOf shown ++ responsesOf rest := by
  simp [responsesOf]

theorem Receiver.heard_append (s : Receiver) (bytes rest : List UInt8) :
    s.heard (bytes ++ rest) =
      consoleOf (s.run bytes).2 ++ (s.run bytes).1.heard rest := by
  simp [Receiver.heard, Receiver.run_append]

theorem Receiver.answered_append (s : Receiver) (bytes rest : List UInt8) :
    s.answered (bytes ++ rest) =
      responsesOf (s.run bytes).2 ++ (s.run bytes).1.answered rest := by
  simp [Receiver.answered, Receiver.run_append]

/-- A serial byte that pairs is shown, now or with the next one. -/
theorem Receiver.run_pair (h : pair pending b = some next) :
    ∃ shown, (Receiver.idle pending).run [b] = (Receiver.idle next, shown) ∧
      responsesOf shown = [] ∧
      consoleOf shown ++ pendingBytes next = pendingBytes pending ++ [b] := by
  cases pending with
  | true =>
      by_cases hb : b = 0x52
      · simp [pair, hb] at h
      · obtain rfl : false = next := by simpa [pair, hb] using h
        exact ⟨[.console [0, b]],
          by simp [Receiver.run, Receiver.receive, Receiver.idle, hb],
          rfl, rfl⟩
  | false =>
      obtain rfl : decide (b = 0) = next := by simpa [pair] using h
      by_cases hb : b = 0
      · subst hb
        exact ⟨[], rfl, rfl, rfl⟩
      · exact ⟨[.console [b]],
          by simp [Receiver.run, Receiver.receive, Receiver.idle, hb],
          rfl, by simp [consoleOf, pendingBytes, hb]⟩

theorem Receiver.run_pairAll (h : pairAll pending bytes = some next) :
    ∃ shown, (Receiver.idle pending).run bytes = (Receiver.idle next, shown) ∧
      responsesOf shown = [] ∧
      consoleOf shown ++ pendingBytes next =
        pendingBytes pending ++ bytes := by
  induction bytes generalizing pending with
  | nil =>
      obtain rfl := Option.some.inj h
      exact ⟨[], rfl, rfl, by simp [consoleOf]⟩
  | cons b bytes ih =>
      obtain ⟨middle, hb, hrest⟩ := Option.bind_eq_some_iff.mp h
      obtain ⟨shown, hrun, hanswers, hshown⟩ := Receiver.run_pair hb
      obtain ⟨later, hrun', hanswers', hshown'⟩ := ih hrest
      refine ⟨shown ++ later, ?_, by simp [hanswers, hanswers'], ?_⟩
      · rw [← List.singleton_append, Receiver.run_append, hrun, hrun']
      · rw [consoleOf_append, List.append_assoc, hshown',
          ← List.append_assoc, hshown, List.append_assoc,
          List.singleton_append]

/-- The text of a response is collected. -/
theorem Receiver.run_collect (front : List UInt8) (hbytes : 0 ∉ bytes) :
    Receiver.run ⟨front, true, false⟩ bytes =
      (⟨front ++ bytes, true, false⟩, []) := by
  induction bytes generalizing front with
  | nil => simp [Receiver.run]
  | cons b bytes ih =>
      rw [List.mem_cons, not_or] at hbytes
      have hstep : Receiver.receive ⟨front, true, false⟩ b =
          (⟨front ++ [b], true, false⟩, []) := by
        simp [Receiver.receive, Ne.symm hbytes.1]
      rw [Receiver.run, hstep]
      simp [ih _ hbytes.2]

/-- A response without NUL bytes is shown as it was sent. -/
theorem Receiver.run_frame {text : ResponseText} (htext : 0 ∉ text.bytes) :
    (Receiver.idle false).run (responseFrame text.bytes) =
      (Receiver.idle false, [.response text.bytes]) := by
  have hopen : (Receiver.idle false).run [0, 0x52] = (⟨[], true, false⟩, []) :=
    rfl
  rw [responseFrame, Receiver.run_append, Receiver.run_append, hopen,
    Receiver.run_collect [] htext]
  simp [Receiver.run, Receiver.receive, Receiver.idle,
    fromUtf8Lossy_of_isUtf8 text.valid]

/-- No response that is shown has a NUL byte. -/
theorem Receiver.answered_nul_free (s : Receiver) (hs : 0 ∉ s.response)
    (bytes : List UInt8) : ∀ text ∈ s.answered bytes, 0 ∉ text := by
  induction bytes generalizing s with
  | nil => simp [Receiver.answered, Receiver.run, responsesOf]
  | cons b bytes ih =>
      rw [← List.singleton_append, Receiver.answered_append]
      intro text htext
      rcases List.mem_append.mp htext with hnow | hlater
      · simp only [Receiver.run, Receiver.receive, List.append_nil] at hnow
        split_ifs at hnow <;> simp [responsesOf] at hnow
        subst hnow
        intro hnul
        rcases mem_fromUtf8Lossy hnul with h | h
        · exact hs h
        · exact absurd h (by decide)
      · refine ih _ ?_ text hlater
        simp only [Receiver.run, Receiver.receive]
        split_ifs with hmode hb <;> simp [hs]
        exact Ne.symm hb

/-- The stream of a sequence of symbols. -/
def symbolWire (symbols : List Symbol) : List UInt8 :=
  symbols.flatMap Symbol.wire

theorem symbolWire_cons (symbol : Symbol) (symbols : List Symbol) :
    symbolWire (symbol :: symbols) = symbol.wire ++ symbolWire symbols := rfl

@[simp] theorem dataOf_byte (b : UInt8) (symbols : List Symbol) :
    dataOf (.byte b :: symbols) = b :: dataOf symbols := rfl

@[simp] theorem dataOf_frame (text : ResponseText) (symbols : List Symbol) :
    dataOf (.frame text :: symbols) = dataOf symbols := rfl

@[simp] theorem textsOf_byte (b : UInt8) (symbols : List Symbol) :
    textsOf (.byte b :: symbols) = textsOf symbols := rfl

@[simp] theorem textsOf_frame (text : ResponseText) (symbols : List Symbol) :
    textsOf (.frame text :: symbols) = text.bytes :: textsOf symbols := rfl

/-- From a given state the client recovers the symbols. -/
structure Receiver.RecoversFrom (pending : Bool) (symbols : List Symbol) :
    Prop where
  console : (Receiver.idle pending).heard (symbolWire symbols) =
    pendingBytes pending ++ dataOf symbols
  answers : (Receiver.idle pending).answered (symbolWire symbols) =
    textsOf symbols

/-- What is shown after a serial byte that pairs. -/
theorem Receiver.after_byte (h : pair pending b = some next)
    (symbols : List Symbol) :
    ∃ front : List UInt8, front ++ pendingBytes next = pendingBytes pending ++ [b] ∧
      (Receiver.idle pending).heard (symbolWire (.byte b :: symbols)) =
        front ++ (Receiver.idle next).heard (symbolWire symbols) ∧
      (Receiver.idle pending).answered (symbolWire (.byte b :: symbols)) =
        (Receiver.idle next).answered (symbolWire symbols) := by
  obtain ⟨shown, hrun, hanswers, hshown⟩ := Receiver.run_pair h
  refine ⟨consoleOf shown, hshown, ?_, ?_⟩
  · rw [symbolWire_cons, Symbol.wire, Receiver.heard_append, hrun]
  · rw [symbolWire_cons, Symbol.wire, Receiver.answered_append, hrun,
      hanswers, List.nil_append]

theorem Receiver.recoversFrom_byte (h : pair pending b = some next) :
    Receiver.RecoversFrom pending (.byte b :: symbols) ↔
      Receiver.RecoversFrom next symbols := by
  obtain ⟨front, hfront, hheard, hanswered⟩ := Receiver.after_byte h symbols
  have hdata : pendingBytes pending ++ dataOf (.byte b :: symbols) =
      front ++ (pendingBytes next ++ dataOf symbols) := by
    rw [dataOf_byte, ← List.append_assoc front, hfront, List.append_assoc,
      List.singleton_append]
  constructor
  · rintro ⟨hconsole, hanswers⟩
    rw [hheard, hdata] at hconsole
    rw [hanswered] at hanswers
    exact ⟨List.append_cancel_left hconsole, hanswers⟩
  · rintro ⟨hconsole, hanswers⟩
    exact ⟨by rw [hheard, hdata, hconsole], by rw [hanswered, hanswers]; rfl⟩

/-- What is shown after a response that is read as one. -/
theorem Receiver.after_frame {text : ResponseText} (htext : 0 ∉ text.bytes)
    (symbols : List Symbol) :
    (Receiver.idle false).heard (symbolWire (.frame text :: symbols)) =
        (Receiver.idle false).heard (symbolWire symbols) ∧
      (Receiver.idle false).answered (symbolWire (.frame text :: symbols)) =
        text.bytes ::
          (Receiver.idle false).answered (symbolWire symbols) := by
  have hrun := Receiver.run_frame htext
  constructor
  · rw [symbolWire_cons, Symbol.wire, Receiver.heard_append, hrun]
    rfl
  · rw [symbolWire_cons, Symbol.wire, Receiver.answered_append, hrun]
    rfl

theorem Receiver.recoversFrom_frame {text : ResponseText}
    (htext : 0 ∉ text.bytes) :
    Receiver.RecoversFrom false (.frame text :: symbols) ↔
      Receiver.RecoversFrom false symbols := by
  obtain ⟨hheard, hanswered⟩ := Receiver.after_frame htext symbols
  constructor
  · rintro ⟨hconsole, hanswers⟩
    rw [hheard] at hconsole
    rw [hanswered] at hanswers
    exact ⟨hconsole, (List.cons.inj hanswers).2⟩
  · rintro ⟨hconsole, hanswers⟩
    exact ⟨by rw [hheard, hconsole]; rfl, by rw [hanswered, hanswers]; rfl⟩

/-- A NUL byte with an `R` is never shown first. -/
theorem Receiver.heard_ne (s : Receiver) (bytes rest : List UInt8) :
    s.heard bytes ≠ 0 :: 0x52 :: rest := by
  induction bytes generalizing s with
  | nil =>
      cases hpending : s.pendingNul <;>
        simp [Receiver.heard, Receiver.run, consoleOf, pendingBytes, hpending]
  | cons b bytes ih =>
      rw [← List.singleton_append, Receiver.heard_append]
      have hstep := ih (s.receive b).1
      simp only [Receiver.run, List.append_nil]
      unfold Receiver.receive at hstep ⊢
      split_ifs with hmode hclose hpending hopen hnul
      · simpa [hmode, hclose, consoleOf] using hstep
      · simpa [hmode, hclose, consoleOf] using hstep
      · simpa [hmode, hpending, hopen, consoleOf] using hstep
      · simp [consoleOf, hopen]
      · simpa [hmode, hpending, hnul, consoleOf] using hstep
      · simp [consoleOf, hnul]

/-- A response that is read as serial bytes. -/
theorem pairAll_frame {text : ResponseText} (htext : 0 ∉ text.bytes) :
    pairAll true (responseFrame text.bytes) = some true := by
  have hfree : ∀ bytes : List UInt8, 0 ∉ bytes →
      pairAll false (bytes ++ [0]) = some true := by
    intro bytes hbytes
    induction bytes with
    | nil => rfl
    | cons b bytes ih =>
        rw [List.mem_cons, not_or] at hbytes
        have hb : decide (b = 0) = false := by simpa using Ne.symm hbytes.1
        simp [pairAll, pair, hb, ih hbytes.2]
  simpa [responseFrame, pairAll, pair] using hfree _ htext

theorem pairAll_append (bytes rest : List UInt8) :
    pairAll pending (bytes ++ rest) =
      (pairAll pending bytes).bind fun next => pairAll next rest := by
  induction bytes generalizing pending with
  | nil => rfl
  | cons b bytes ih =>
      simp only [List.cons_append, pairAll, ih, Option.bind_assoc]

/-- What is shown of a response that is read as serial bytes. -/
theorem Receiver.after_misread {text : ResponseText} (htext : 0 ∉ text.bytes)
    (symbols : List Symbol) :
    (Receiver.idle true).heard (symbolWire (.frame text :: symbols)) =
        0 :: 0 :: 0x52 :: text.bytes ++
          (Receiver.idle true).heard (symbolWire symbols) ∧
      (Receiver.idle true).answered (symbolWire (.frame text :: symbols)) =
        (Receiver.idle true).answered (symbolWire symbols) := by
  obtain ⟨shown, hrun, hnone, hshown⟩ :=
    Receiver.run_pairAll (pairAll_frame htext)
  obtain hshown : consoleOf shown = 0 :: 0 :: 0x52 :: text.bytes :=
    List.append_cancel_right hshown
  constructor
  · rw [symbolWire_cons, Symbol.wire, Receiver.heard_append, hrun, hshown]
  · rw [symbolWire_cons, Symbol.wire, Receiver.answered_append, hrun, hnone,
      List.nil_append]

/-- A response that is shown as it was written has no NUL byte. -/
theorem Receiver.nul_free_of_answered {s : Receiver} (hs : 0 ∉ s.response)
    {bytes : List UInt8} (missed : List Text) {text : ResponseText}
    (h : s.answered bytes = missed ++ textsOf (.frame text :: symbols)) :
    0 ∉ text.bytes := by
  refine Receiver.answered_nul_free s hs bytes _ ?_
  rw [h]
  simp

/--
A client that has read a response as serial bytes never catches up: what it
shows stays ahead of the serial bytes by a word that it reads as serial bytes
each time it comes by, so the number of responses stays behind.
-/
theorem Receiver.never_recovers (pending : Bool) (front : List UInt8)
    (missed : List Text)
    (hword : pairAll pending (front ++ pendingBytes pending) = some pending)
    (hfront : front ++ pendingBytes pending ≠ []) (hmissed : missed ≠ [])
    (hconsole : front ++
      (Receiver.idle pending).heard (symbolWire symbols) = dataOf symbols) :
    (Receiver.idle pending).answered (symbolWire symbols) ≠
      missed ++ textsOf symbols := by
  induction symbols generalizing pending front missed with
  | nil =>
      intro hanswers
      exact hmissed (List.append_eq_nil_iff.mp hanswers.symm).1
  | cons symbol symbols ih =>
      intro hanswers
      cases symbol with
      | byte b =>
          cases front with
          | nil => cases pending <;> simp_all [pendingBytes, pairAll, pair]
          | cons c front =>
              have hhead : c = b := (List.cons.inj hconsole).1
              subst hhead
              obtain ⟨next, hpair, hrest⟩ :=
                Option.bind_eq_some_iff.mp hword
              obtain ⟨shown, hshown, hheard, hanswered⟩ :=
                Receiver.after_byte hpair symbols
              have hrotated : front ++ shown ++ pendingBytes next =
                  front ++ pendingBytes pending ++ [c] := by
                rw [List.append_assoc, hshown, List.append_assoc]
              refine ih next (front ++ shown) missed ?_ ?_ hmissed ?_ ?_
              · rw [hrotated, pairAll_append]
                exact (congrArg (Option.bind · _) hrest).trans
                  (congrArg (Option.bind · _) hpair)
              · rw [hrotated]
                simp
              · rw [hheard] at hconsole
                rw [List.append_assoc]
                exact (List.cons.inj hconsole).2
              · rw [← hanswered, hanswers]
                rfl
      | frame text =>
          have htext : 0 ∉ text.bytes :=
            Receiver.nul_free_of_answered List.not_mem_nil missed hanswers
          cases pending with
          | false =>
              obtain ⟨hheard, hanswered⟩ := Receiver.after_frame htext symbols
              rw [hheard] at hconsole
              rw [hanswered] at hanswers
              obtain ⟨first, missed, rfl⟩ := List.exists_cons_of_ne_nil hmissed
              refine ih false front (missed ++ [text.bytes]) hword hfront
                (by simp) hconsole ?_
              exact (List.cons.inj hanswers).2.trans (List.append_cons ..)
          | true =>
              obtain ⟨hheard, hanswered⟩ :=
                Receiver.after_misread htext symbols
              rw [hheard, ← List.append_assoc] at hconsole
              rw [hanswered] at hanswers
              have hlonger : front ++ 0 :: 0 :: 0x52 :: text.bytes ++
                  pendingBytes true =
                    front ++ pendingBytes true ++ responseFrame text.bytes := by
                simp [pendingBytes, responseFrame]
              refine ih true _ (missed ++ [text.bytes]) ?_ ?_ (by simp)
                hconsole ?_
              · rw [hlonger, pairAll_append, hword, Option.bind_some,
                  pairAll_frame htext]
              · rw [hlonger]
                simp [pendingBytes]
              · exact hanswers.trans (List.append_cons ..)

/-- Exactly the symbols that are read as they were written are recovered. -/
theorem Receiver.recoversFrom_iff (pending : Bool) (symbols : List Symbol) :
    Receiver.RecoversFrom pending symbols ↔ Clean pending symbols := by
  induction symbols generalizing pending with
  | nil =>
      refine ⟨fun _ => trivial, fun _ => ⟨?_, rfl⟩⟩
      simp [Receiver.heard, symbolWire, Receiver.run, Receiver.idle, consoleOf,
        dataOf]
  | cons symbol symbols ih =>
      cases symbol with
      | byte b =>
          cases hpair : pair pending b with
          | some next =>
              rw [Receiver.recoversFrom_byte hpair, ih]
              constructor
              · exact fun h => ⟨next, hpair, h⟩
              · rintro ⟨other, hother, h⟩
                obtain rfl := Option.some.inj (hpair.symm.trans hother)
                exact h
          | none =>
              constructor
              · -- The pair opens a response, so it is not shown.
                intro h
                obtain ⟨rfl, rfl⟩ : pending = true ∧ b = 0x52 := by
                  cases pending <;> simp_all [pair]
                exact absurd h.console (Receiver.heard_ne _ _ _)
              · rintro ⟨next, hnext, -⟩
                rw [hpair] at hnext
                cases hnext
      | frame text =>
          by_cases htext : 0 ∈ text.bytes
          · refine ⟨fun h => ?_, fun h => absurd htext h.2.1⟩
            exact absurd htext
              (Receiver.nul_free_of_answered List.not_mem_nil [] h.answers)
          · cases pending with
            | false =>
                rw [Receiver.recoversFrom_frame htext, ih]
                exact ⟨fun h => ⟨rfl, htext, h⟩, fun h => h.2.2⟩
            | true =>
                refine ⟨fun h => ?_, fun h => absurd h.1 (by decide)⟩
                obtain ⟨hconsole, hanswers⟩ := h
                obtain ⟨hheard, hanswered⟩ :=
                  Receiver.after_misread htext symbols
                rw [hheard] at hconsole
                rw [hanswered] at hanswers
                exact absurd hanswers
                  (Receiver.never_recovers true (0 :: 0x52 :: text.bytes)
                    [text.bytes] (pairAll_frame htext) (List.cons_ne_nil _ _)
                    (List.cons_ne_nil text.bytes [])
                    (List.cons.inj hconsole).2)

end Receiving

section Runs

variable {pending : Bool} {symbols : List Symbol}

theorem Clean.texts (h : Clean pending symbols) :
    ∀ text ∈ textsOf symbols, 0 ∉ text := by
  induction symbols generalizing pending with
  | nil => simp [textsOf]
  | cons symbol symbols ih =>
      cases symbol with
      | byte b =>
          obtain ⟨next, -, hrest⟩ := h
          exact ih hrest
      | frame text =>
          obtain ⟨-, htext, hrest⟩ := h
          intro other hother
          rcases List.mem_cons.mp hother with rfl | hmem
          · exact htext
          · exact ih hrest other hmem

/-- Behind anything but a NUL byte the pairing begins anew. -/
theorem Clean.behind {front : List Symbol} (hfront : front ≠ [])
    (hlast : front.getLast? ≠ some (.byte 0))
    (h : Clean pending (front ++ symbols)) : Clean false symbols := by
  induction front generalizing pending with
  | nil => exact absurd rfl hfront
  | cons symbol front ih =>
      have hnext : ∃ next, Clean next (front ++ symbols) ∧
          (front = [] → next = false) := by
        cases symbol with
        | byte b =>
            obtain ⟨next, hpair, hrest⟩ := h
            refine ⟨next, hrest, ?_⟩
            rintro rfl
            have hb : b ≠ 0 := by simpa using hlast
            cases pending <;> simp_all [pair]
        | frame text => exact ⟨false, h.2.2, fun _ => rfl⟩
      obtain ⟨next, hrest, hnil⟩ := hnext
      by_cases hempty : front = []
      · subst hempty
        rw [hnil rfl] at hrest
        exact hrest
      · refine ih hempty ?_ hrest
        rwa [List.getLast?_cons_of_ne_nil hempty] at hlast

theorem clean_odd (n : Nat) :
    Clean false (List.replicate (2 * n + 1) (.byte 0) ++ symbols) ↔
      Clean true symbols := by
  induction n with
  | zero => simp [Clean, pair]
  | succ n ih =>
      have hpair : List.replicate (2 * (n + 1) + 1) (Symbol.byte 0) =
          .byte 0 :: .byte 0 :: List.replicate (2 * n + 1) (.byte 0) := rfl
      rw [hpair, ← ih]
      simp [Clean, pair]

theorem Clean.not_oddRun (h : Clean false symbols) : ¬OddRun symbols := by
  rintro ⟨front, n, next, rest, rfl, hlast, hbreaks⟩
  rw [List.append_assoc] at h
  have hrun : Clean false
      (List.replicate (2 * n + 1) (.byte 0) ++ next :: rest) := by
    cases front with
    | nil => exact h
    | cons symbol front => exact h.behind (List.cons_ne_nil _ _) hlast
  have hnext := (clean_odd n).mp hrun
  cases next with
  | byte b =>
      obtain ⟨after, hpair, -⟩ := hnext
      obtain rfl : b = 0x52 := hbreaks
      cases hpair
  | frame text => exact absurd hnext.1 (by decide)

/-- Behind `k` NUL bytes, without odd runs, the rest is read as written. -/
theorem clean_of_runs (front : List Symbol) (k : Nat)
    (hlast : front.getLast? ≠ some (.byte 0))
    (hruns : ¬OddRun (front ++ List.replicate k (.byte 0) ++ symbols))
    (htexts : ∀ text ∈ textsOf symbols, 0 ∉ text) :
    Clean (decide (k % 2 = 1)) symbols := by
  induction symbols generalizing front k with
  | nil => trivial
  | cons symbol symbols ih =>
      -- An odd run stands in front of nothing that breaks it.
      have heven : k % 2 = 1 → ¬symbol.Breaks := by
        intro hodd hbreaks
        refine hruns ⟨front, k / 2, symbol, symbols, ?_, hlast, hbreaks⟩
        rw [show 2 * (k / 2) + 1 = k by omega]
      have hbehind : symbol ≠ .byte 0 →
          (∀ text ∈ textsOf symbols, 0 ∉ text) → Clean false symbols := by
        intro hsymbol hrest
        refine ih (front ++ List.replicate k (.byte 0) ++ [symbol]) 0
          (by simpa using hsymbol) ?_ hrest
        simpa using hruns
      cases symbol with
      | byte b =>
          by_cases hb : b = 0
          · subst hb
            refine ⟨decide ((k + 1) % 2 = 1), ?_, ih front (k + 1) hlast ?_ htexts⟩
            · rcases Nat.mod_two_eq_zero_or_one k with hk | hk
              · simp [pair, hk, Nat.add_mod]
              · simp [pair, hk, Nat.add_mod]
            · rw [List.replicate_succ', ← List.append_assoc, List.append_assoc]
              exact hruns
          · refine ⟨false, ?_, hbehind (by simpa using hb) htexts⟩
            by_cases hk : k % 2 = 1
            · simp [pair, hk, show b ≠ 0x52 from heven hk]
            · simp [pair, hk, hb]
      | frame text =>
          refine ⟨?_, htexts _ List.mem_cons_self, hbehind (by simp)
            fun other hother => htexts other (List.mem_cons_of_mem _ hother)⟩
          exact decide_eq_false fun hk => heven hk trivial

theorem clean_iff :
    Clean false symbols ↔
      (∀ text ∈ textsOf symbols, 0 ∉ text) ∧ ¬OddRun symbols := by
  constructor
  · exact fun h => ⟨h.texts, h.not_oddRun⟩
  · rintro ⟨htexts, hruns⟩
    exact clean_of_runs [] 0 (by simp) hruns htexts

end Runs

section Items

variable {items : List Item}

theorem symbolWire_symbols (items : List Item) :
    symbolWire (items.flatMap Item.symbols) = wire items := by
  induction items with
  | nil => rfl
  | cons item items ih =>
      rw [List.flatMap_cons, symbolWire, List.flatMap_append]
      refine congrArg₂ (· ++ ·) ?_ ih
      cases item with
      | chunk bytes =>
          simp [Item.symbols, Item.wire, Symbol.wire, List.flatMap_map]
      | response text => simp [Item.symbols, Item.wire, Symbol.wire]

theorem dataOf_symbols (items : List Item) :
    dataOf (items.flatMap Item.symbols) = serialBytes items := by
  induction items with
  | nil => rfl
  | cons item items ih =>
      rw [List.flatMap_cons, dataOf, List.flatMap_append]
      refine congrArg₂ (· ++ ·) ?_ ih
      cases item with
      | chunk bytes => simp [Item.symbols, List.flatMap_map]
      | response text => simp [Item.symbols]

theorem textsOf_symbols (items : List Item) :
    textsOf (items.flatMap Item.symbols) = responseTexts items := by
  induction items with
  | nil => rfl
  | cons item items ih =>
      rw [List.flatMap_cons, textsOf, List.filterMap_append]
      change _ ++ textsOf (items.flatMap Item.symbols) = _
      rw [ih]
      cases item with
      | chunk bytes => simp [Item.symbols, responseTexts]
      | response text => simp [Item.symbols, responseTexts]

end Items

/--
The client recovers the items exactly when no response has a NUL byte and, in
the serial bytes, every run of NUL bytes in front of an `R` or of a response has
an even length.
-/
theorem recovers_iff (items : List Item) :
    Recovers items ↔ Separable items := by
  have hclean : Separable items ↔
      Clean false (items.flatMap Item.symbols) := by
    rw [clean_iff, textsOf_symbols]
    exact ⟨fun h => ⟨h.responses, h.runs⟩, fun h => ⟨h.1, h.2⟩⟩
  rw [hclean, ← Receiver.recoversFrom_iff]
  constructor
  · intro h
    obtain ⟨hconsole, hanswers⟩ := h [wire items] (by simp)
    rw [Receiver.runReads_eq] at hconsole hanswers
    simp only [List.flatten_singleton, ← symbolWire_symbols,
      ← dataOf_symbols, ← textsOf_symbols] at hconsole hanswers
    exact ⟨hconsole, hanswers⟩
  · rintro ⟨hconsole, hanswers⟩ reads hreads
    simp only [Receiver.runReads_eq, hreads, ← symbolWire_symbols,
      ← dataOf_symbols, ← textsOf_symbols]
    exact ⟨hconsole, hanswers⟩

/-- Serial output with a NUL byte and an `R` is taken for a response. -/
theorem nul_taken_for_response :
    ¬∀ items, Recovers items := by
  intro h
  have hlost := (h [.chunk [0, 0x52]] [[0, 0x52]] rfl).1
  revert hlost
  decide

end RpictlMcp
