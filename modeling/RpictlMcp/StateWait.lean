import RpictlMcp.OperationTrace
import RpictlMcp.Schedules

/-!
# rpictl-mcp: what the waits see

A poll of `wait_for_states_after_checked` looks at the first 65,536 of the
retained bytes from its cursor on, a poll of `wait_for_states` at the last bytes
of the current generation.  Both look at one contiguous piece of what the board
has sent, and neither at anything from before its boundary; so a state that is
reported has really been shown there.
-/

namespace RpictlMcp

open Prog

/-- The retained bytes from a cursor on. -/
def Console.retainedAfter (console : Console) (cursor : Nat) : List UInt8 :=
  console.stream.drop (max cursor (console.stream.length - console.capacity))

section Poll

variable {profile : BoardProfile} {states : List BoardState}
variable {console : Console} {cursor : Nat} {state : BoardState}

/-- The bytes a poll with a cursor looks at. -/
theorem snapshotFrom_retainedAfter (console : Console) (cursor : Nat)
    (maxBytes : Nat) :
    (console.ring.snapshotFrom cursor maxBytes).bytes =
      (console.retainedAfter cursor).take maxBytes := by
  rw [console.retains.snapshotFrom_bytes, console.ring_capacity,
    ConsoleLog.retainedFrom, console.bytes_log, console.length_entries_log]
  rfl

/-- The bytes a poll of the current generation looks at. -/
theorem snapshotGeneration_sinceMark (console : Console) (maxBytes : Nat) :
    (console.ring.snapshotGeneration console.ring.generation
      maxBytes).bytes =
        StampedLog.window (min maxBytes console.capacity)
          (sinceMark console.history) := by
  rw [console.retains.snapshotGeneration_current, console.ring_capacity,
    Console.log, ConsoleLog.map_fst_fresh_ofOps]

theorem stateAfter_eq (console : Console) (cursor : Nat) :
    stateAfter profile console.ring cursor =
      profile.patterns.observed
        ((console.retainedAfter cursor).take observationBytes) := by
  rw [stateAfter, snapshotFrom_retainedAfter]

/-- What the board has sent since a cursor is retained if it has room. -/
theorem Console.Sends.retainedAfter {c d : Console} {input : List UInt8}
    (h : c.Sends d input) (hroom : input.length ≤ c.capacity) :
    d.retainedAfter c.ring.nextCursor = input := by
  have hcursor : max c.stream.length
      ((c.stream ++ input).length - c.capacity) = c.stream.length := by
    rw [List.length_append]
    omega
  rw [Console.retainedAfter, h.stream, h.1, c.nextCursor_ring, hcursor,
    List.drop_left]

theorem generationState_eq (console : Console) :
    generationState profile console.ring = profile.patterns.observed
      (StampedLog.window (min observationBytes console.capacity)
        (sinceMark console.history)) := by
  rw [generationState, snapshotGeneration_sinceMark]

theorem StatePatterns.observed_of_latest {patterns : StatePatterns}
    {bytes : List UInt8} {offset : Nat} {pattern : Text}
    (h : patterns.latest (fromUtf8Lossy bytes) =
      some (offset, state, pattern)) : patterns.observed bytes = state := by
  rw [StatePatterns.observed, h]

end Poll

/--
The detector has found a state in a contiguous piece of some bytes, whose text
contains the nonempty pattern of the state.
-/
structure Detected (profile : BoardProfile) (state : BoardState)
    (bytes : List UInt8) : Prop where
  pattern : profile.patterns.patternOf state ≠ []
  seen : ∃ piece, piece <:+: bytes ∧
    profile.patterns.observed piece = state ∧
    profile.patterns.patternOf state <:+: fromUtf8Lossy piece

/-- The nonempty pattern of a state occurs in the bytes it was detected in. -/
structure Shows (profile : BoardProfile) (state : BoardState)
    (bytes : List UInt8) : Prop where
  pattern : profile.patterns.patternOf state ≠ []
  seen : ∃ piece, piece <:+: bytes ∧
    profile.patterns.observed piece = state ∧
    profile.patterns.patternOf state <:+: piece

/-- The last thing a thread did was to look at this console. -/
structure World.LastLooked {ι : Type} [DecidableEq ι] (w : World ι)
    (t : Thread ι) (console : Console) : Prop where
  last : (w.threadLog t).getLast? = some (.looked console)
  before : console.Extends w.console

/-- In a run of some pool one thread has come to a point of its program. -/
def RunsTo {ι B : Type} [DecidableEq ι] (t : Thread ι)
    (p q : Prog BoardSig B) (w : World ι) : Prop :=
  ∃ c₀ c : Pool BoardSig (fun _ : Thread ι => B) (World ι),
    c₀.prog t = p ∧ c₀.world.log = [] ∧ BoardReaches c₀ c ∧
      c.prog t = q ∧ c.world = w

/--
In a run of some pool one thread has executed a program and come to its answer.
The other threads, the lease, the workers and the board are as they like.
-/
def AnswersIn {ι B : Type} [DecidableEq ι] (t : Thread ι)
    (p : Prog BoardSig B) (b : B) (w : World ι) : Prop :=
  ∃ c₀ c : Pool BoardSig (fun _ : Thread ι => B) (World ι),
    c₀.prog t = p ∧ c₀.world.log = [] ∧ BoardReaches c₀ c ∧
      c.prog t = .pure b ∧ c.world = w

section Wait

variable {profile : BoardProfile} {states : List BoardState}
variable {console : Console} {state : BoardState}

theorem IsAscii.subset {bytes more : List UInt8} (h : IsAscii more)
    (hsub : bytes ⊆ more) : IsAscii bytes :=
  fun x hx => h x (hsub hx)

theorem Detected.mono {bytes more : List UInt8}
    (h : Detected profile state bytes) (hmore : bytes <:+: more) :
    Detected profile state more := by
  obtain ⟨piece, hpiece, hobserved, hoccurs⟩ := h.seen
  exact ⟨h.pattern, piece, hpiece.trans hmore, hobserved, hoccurs⟩

/-- What is detected in ASCII bytes has been shown by them. -/
theorem Detected.shows {bytes : List UInt8}
    (h : Detected profile state bytes) (hascii : IsAscii bytes) :
    Shows profile state bytes := by
  obtain ⟨piece, hpiece, hobserved, hoccurs⟩ := h.seen
  rw [fromUtf8Lossy_ascii (hascii.subset hpiece.subset)] at hoccurs
  exact ⟨h.pattern, piece, hpiece, hobserved, hoccurs⟩

theorem detected_of_requested {bytes : List UInt8}
    (hunknown : .unknown ∉ states)
    (h : requested states (profile.patterns.observed bytes) = some state) :
    state ∈ states ∧ Detected profile state bytes := by
  obtain ⟨rfl, hmem⟩ := mem_of_requested h
  have hne : profile.patterns.observed bytes ≠ .unknown := by
    intro heq
    exact hunknown (heq ▸ hmem)
  obtain ⟨hpattern, hoccurs⟩ := StatePatterns.occurs_of_observed hne
  exact ⟨hmem, hpattern, bytes, List.infix_rfl, rfl, hoccurs⟩

/-- A successful poll with a cursor has detected the state after it. -/
theorem detected_of_pollAfter {cursor : Nat} (hunknown : .unknown ∉ states)
    (h : pollAfter profile states cursor console.ring = some state) :
    state ∈ states ∧
      Detected profile state (console.stream.drop cursor) := by
  have hpiece : (console.retainedAfter cursor).take observationBytes <:+:
      console.stream.drop cursor := by
    refine (List.take_prefix _ _).isInfix.trans (List.IsSuffix.isInfix ?_)
    exact List.drop_suffix_drop_left _ (Nat.le_max_left _ _)
  rw [pollAfter, stateAfter_eq] at h
  obtain ⟨hmem, hdetected⟩ := detected_of_requested hunknown h
  exact ⟨hmem, hdetected.mono hpiece⟩

/-- The bytes of the current generation are the last ones of the stream. -/
theorem sinceMark_suffix (history : List RingOp) :
    sinceMark history <:+ history.flatMap RingOp.input := by
  induction history using List.reverseRecOn with
  | nil => exact List.suffix_rfl
  | append_singleton history op ih =>
      rw [List.flatMap_append]
      cases op with
      | append timestamp input =>
          rw [sinceMark_append]
          obtain ⟨front, hfront⟩ := ih
          exact ⟨front, by simp [← hfront, RingOp.input]⟩
      | markGeneration =>
          rw [sinceMark_markGeneration]
          exact List.nil_suffix

/-- A successful poll of a generation has detected the state in it. -/
theorem detected_of_pollGeneration {generation : Option Nat}
    (hunknown : .unknown ∉ states)
    (h : pollGeneration profile states generation console.ring =
      some state) :
    state ∈ states ∧ Detected profile state (sinceMark console.history) := by
  have hpiece := (StampedLog.window_suffix
    (min observationBytes console.capacity)
      (sinceMark console.history)).isInfix
  rw [pollGeneration] at h
  split at h
  · rw [generationState_eq] at h
    obtain ⟨hmem, hdetected⟩ := detected_of_requested hunknown h
    exact ⟨hmem, hdetected.mono hpiece⟩
  · cases h

variable {ι : Type} [DecidableEq ι] {t : Thread ι} {w : World ι}

/-- What a thread has logged up to a point of its program. -/
theorem RunsTo.exec {B : Type} {p q : Prog BoardSig B}
    (h : RunsTo t p q w) :
    Exec (logSem BoardOp.emits) (p, []) (q, w.threadLog t) := by
  obtain ⟨c₀, c, rfl, hfresh, hreach, rfl, rfl⟩ := h
  have hempty : c₀.world.threadLog t = [] := by
    rw [World.threadLog, hfresh]
    rfl
  have hexec := hreach.exec t
  rwa [hempty] at hexec

/-- What a thread of a pool has logged, it has logged in a run of its own. -/
theorem AnswersIn.exec {B : Type} {p : Prog BoardSig B} {b : B}
    (h : AnswersIn t p b w) :
    Exec (logSem BoardOp.emits) (p, []) (.pure b, w.threadLog t) ∧
      w.Ascending := by
  have hexec := RunsTo.exec (q := .pure b) h
  obtain ⟨c₀, c, rfl, hfresh, hreach, hanswer, rfl⟩ := h
  have hinit : c₀.world.Ascending := ⟨by rw [hfresh]; exact .nil, by
    simp [hfresh]⟩
  refine ⟨hexec, Pool.Reaches.invariant hreach World.Ascending ?_ ?_ hinit⟩
  · exact fun _ _ _ _ _ hw hsem => ascending_of_boardSem hw hsem
  · exact fun _ _ hw henv => ascending_of_env hw henv

/-- A run of one thread alone. -/
theorem Performs.answersIn {B : Type} {p : Prog BoardSig B} {b : B}
    {w₀ : World ι} (h : Performs t p w₀ b w) (hfresh : w₀.log = []) :
    AnswersIn t p b w :=
  ⟨⟨fun _ => p, w₀⟩, _, rfl, hfresh, Pool.reaches_of_exec h,
    Pool.move_prog_self _ _ _ _, rfl⟩

/-- Whatever the check does, a wait ends with a look that has succeeded. -/
theorem waitForStatesAfterChecked_last {σ : Type} {timeoutMs cursor : Nat}
    (check : σ → Prog BoardSig (Result Unit × σ)) (s : σ) :
    Traces BoardOp.emits (fun _ _ => True)
      (waitForStatesAfterChecked profile states timeoutMs cursor check s) []
      fun r t => ∀ state, r.1 = .ok state → ∃ front c,
        t = front ++ [.looked c] ∧
          pollAfter profile states cursor c.ring = some state := by
  refine Traces.mono (waitForStatesAfterChecked_traces
    (J := fun _ _ => True) (F := fun _ _ _ => True) trivial ?_
    (fun _ _ _ _ => ⟨trivial, trivial⟩) fun _ _ _ => ⟨trivial, trivial⟩) ?_
  · -- Nothing is asked of the check.
    intro s t _
    refine Traces.mono (Traces.anything _ _) ?_
    rintro ⟨_ | _, s'⟩ _ _ <;> trivial
  · rintro ⟨_ | found, s'⟩ t hr state ⟨⟩
    exact hr.2

/-- The last look of a thread. -/
theorem World.Ascending.lastLooked (h : w.Ascending) {front : List Event}
    (hlog : w.threadLog t = front ++ [.looked console]) :
    w.LastLooked t console := by
  have hmem : Event.looked console ∈ w.threadLog t := by simp [hlog]
  exact ⟨by simp [hlog], h.extends_of_mem hmem⟩

/--
In every run of any pool, a wait that succeeds has been shown the state by its
last look: in the bytes from its cursor on, or in those of the generation.
-/
theorem waits_show_requested (hunknown : .unknown ∉ states)
    (hascii : IsAscii w.console.stream) :
    (∀ {σ : Type} (check : σ → Prog BoardSig (Result Unit × σ)) (s s' : σ)
        (timeoutMs cursor : Nat),
      AnswersIn t (waitForStatesAfterChecked profile states timeoutMs cursor
        check s) (.ok state, s') w →
      state ∈ states ∧ ∃ d, w.LastLooked t d ∧
        Shows profile state (d.stream.drop cursor)) ∧
    ∀ (timeoutMs : Nat) (generation : Option Nat),
      AnswersIn t (waitForStates profile states timeoutMs generation).run
        (.ok state) w →
      state ∈ states ∧ ∃ d, w.LastLooked t d ∧
        Shows profile state (sinceMark d.history) := by
  constructor
  · intro σ check s s' timeoutMs cursor h
    obtain ⟨hexec, hascending⟩ := h.exec
    obtain ⟨front, d, hlog, hpoll⟩ :=
      (waitForStatesAfterChecked_last check s).result hexec state rfl
    have hlooked := hascending.lastLooked hlog
    obtain ⟨hmem, hdetected⟩ := detected_of_pollAfter hunknown hpoll
    have hseen : IsAscii (d.stream.drop cursor) :=
      (hascii.subset hlooked.before.stream.subset).subset
        (List.drop_subset _ _)
    exact ⟨hmem, d, hlooked, hdetected.shows hseen⟩
  · intro timeoutMs generation h
    obtain ⟨hexec, hascending⟩ := h.exec
    obtain ⟨front, d, hlog, hpoll⟩ := ((waitForStates_traces
      (lenient_permitted true) states timeoutMs generation []).result hexec).last _ rfl
    have hlooked := hascending.lastLooked hlog
    obtain ⟨hmem, hdetected⟩ := detected_of_pollGeneration hunknown hpoll
    have hseen : IsAscii (sinceMark d.history) :=
      (hascii.subset hlooked.before.stream.subset).subset
        (sinceMark_suffix d.history).subset
    exact ⟨hmem, d, hlooked, hdetected.shows hseen⟩

/-- A wait from the present cursor on is shown the login prompt. -/
theorem waits_show_requested_login :
    ∃ w : World Unit, ∃ d, w.LastLooked ((), .main) d ∧
      Shows simulated .linuxLogin
        (d.stream.drop simulatedConsole.ring.nextCursor) := by
  obtain ⟨d, hsends⟩ : ∃ d, simulatedConsole.Sends d (utf8 "login:") :=
    simulatedConsole.exists_sends simulatedRegistry.ring_pos (by decide)
  have hpoll : pollAfter simulated [.linuxLogin]
      simulatedConsole.ring.nextCursor d.ring = some .linuxLogin := by
    rw [pollAfter, stateAfter_eq, hsends.retainedAfter (by decide)]
    decide
  have hmain := alive_main (w := World.initial simulatedConsole) ()
  have hrun : AnswersIn ((), .main)
      (waitForStatesAfterChecked simulated [.linuxLogin] 1000
        simulatedConsole.ring.nextCursor (fun s : Unit => return (.ok (), s))
        ())
      (.ok .linuxLogin, ())
      (((World.initial simulatedConsole).hear d).look ((), .main)) :=
    Performs.answersIn (waitForStatesAfterChecked_performs hmain hmain
      (Returns.pure _ _) hsends hpoll) rfl
  have hascii : IsAscii d.stream := by
    rw [hsends.stream]
    exact isAscii_of_all (by decide)
  exact ⟨_, ((waits_show_requested (by decide) hascii).1 _ _ _ _ _ hrun).2⟩

end Wait

end RpictlMcp
