import RpictlMcp.PatternShadowing
import RpictlMcp.StateBytes

/-!
# rpictl-mcp: where a poll finds its state

The detector reports the pattern that begins last.  Said by positions, a text
shows a state last if from some occurrence of its pattern on no other pattern
begins.  A poll of `wait_for_states_after_checked` looks at the first 65,536 of
the retained bytes only, so a prompt at the end of a longer output counts if it
ends there, or if an earlier one of the same state does and nothing else begins
between it and the end of the window.
-/

namespace RpictlMcp

/-- The nonempty pattern of a state begins at an offset of a text. -/
structure StatePatterns.OccursAt (patterns : StatePatterns) (text : Text)
    (state : BoardState) (offset : Nat) : Prop where
  configured : patterns.patternOf state ≠ []
  begins : patterns.patternOf state <+: text.drop offset

/--
From an occurrence of a state's pattern on, no pattern of another state begins.
Where two begin together, the candidate that is looked for later counts.
-/
structure StatePatterns.ShowsLast (patterns : StatePatterns) (text : Text)
    (state : BoardState) (offset : Nat) : Prop where
  occurs : patterns.OccursAt text state offset
  last : ∀ other later, patterns.OccursAt text other later → other ≠ state →
    later < offset ∨ (later = offset ∧ Overrides state other)

section PollPositions

variable {patterns : StatePatterns} {text : Text} {state : BoardState}
variable {offset : Nat} {pattern : Text}

/-- An occurrence ends within its text. -/
theorem StatePatterns.OccursAt.fits (h : patterns.OccursAt text state offset) :
    offset + (patterns.patternOf state).length ≤ text.length := by
  have hlength := h.begins.length_le
  have hpos := List.length_pos_iff.mpr h.configured
  rw [List.length_drop] at hlength
  omega

/-- The search for a pattern finds an occurrence or a later one. -/
theorem StatePatterns.OccursAt.found
    (h : patterns.OccursAt text state offset) :
    ∃ i, (i, state, patterns.patternOf state) ∈ patterns.occurrences text ∧
      offset ≤ i := by
  have hfits := h.fits
  obtain ⟨i, hfind, hle⟩ := le_of_rfind (by omega) h.begins
  exact ⟨i, StatePatterns.mem_occurrences.mpr
    ⟨StatePatterns.mem_candidates h.configured, h.configured, hfind⟩, hle⟩

theorem StatePatterns.occursAt_of_mem
    (h : (offset, state, pattern) ∈ patterns.occurrences text) :
    pattern = patterns.patternOf state ∧
      patterns.OccursAt text state offset := by
  obtain ⟨hmem, hne, hfind⟩ := StatePatterns.mem_occurrences.mp h
  obtain ⟨rfl, -⟩ := StatePatterns.candidates_eq_patternOf hmem
  exact ⟨rfl, hne, isPrefix_drop_of_rfind hfind⟩

/-- The pattern that begins last is shown last where it begins. -/
theorem StatePatterns.showsLast_of_latest
    (h : patterns.latest text = some (offset, state, pattern)) :
    patterns.ShowsLast text state offset := by
  refine ⟨(StatePatterns.occursAt_of_mem (mem_of_maxByKey h)).2, ?_⟩
  intro other later hoccurs hother
  obtain ⟨i, hfound, hle⟩ := hoccurs.found
  have hgreatest := key_le_maxByKey hfound h
  simp only at hgreatest
  rcases Nat.lt_or_ge later offset with hlt | hge
  · exact .inl hlt
  · refine .inr ⟨by omega, ?_⟩
    -- It begins at the same place, so it stands in front in the list.
    obtain ⟨front, back, hsplit, -, hback⟩ := maxByKey_eq_some_iff.mp h
    have horder := patterns.occurrences_pairwise text
    rw [hsplit] at hfound horder
    rcases List.mem_append.mp hfound with hfront | hrest
    · exact (List.pairwise_append.mp horder).2.2 _ hfront _
        List.mem_cons_self
    · rcases List.mem_cons.mp hrest with heq | hmem
      · cases heq
        exact absurd rfl hother
      · have := hback _ hmem
        simp only at this
        omega

/-- A state that is shown last anywhere is the one the detector picks. -/
theorem StatePatterns.ShowsLast.latest
    (h : patterns.ShowsLast text state offset) :
    ∃ i, offset ≤ i ∧
      patterns.latest text = some (i, state, patterns.patternOf state) := by
  obtain ⟨i, hfound, hle⟩ := h.occurs.found
  cases hlatest : patterns.latest text with
  | none =>
      rw [maxByKey_eq_none.mp hlatest] at hfound
      exact absurd hfound List.not_mem_nil
  | some winner =>
      obtain ⟨j, winner, pattern⟩ := winner
      have hgreatest := key_le_maxByKey hfound hlatest
      simp only at hgreatest
      obtain ⟨rfl, hoccurs⟩ :=
        StatePatterns.occursAt_of_mem (mem_of_maxByKey hlatest)
      by_cases hsame : winner = state
      · subst hsame
        exact ⟨j, by omega, rfl⟩
      · rcases h.last winner j hoccurs hsame with hlt | ⟨rfl, hstate⟩
        · omega
        · -- Each of the two would have to be looked for after the other.
          have hwinner := (StatePatterns.showsLast_of_latest hlatest).last
            state j h.occurs (Ne.symm hsame)
          rcases hwinner with hlt | ⟨-, hother⟩
          · exact absurd hlt (Nat.lt_irrefl _)
          · exact absurd hother (Nat.lt_asymm hstate)

/-- A state with a pattern is observed exactly where it is shown last. -/
theorem StatePatterns.observed_eq_iff {bytes : List UInt8}
    (hstate : patterns.patternOf state ≠ []) :
    patterns.observed bytes = state ↔
      ∃ shown, patterns.ShowsLast (fromUtf8Lossy bytes) state shown := by
  constructor
  · intro hobserved
    unfold StatePatterns.observed at hobserved
    split at hobserved
    · rename_i shown found pattern hlatest
      subst hobserved
      exact ⟨shown, StatePatterns.showsLast_of_latest hlatest⟩
    · subst hobserved
      exact absurd rfl hstate
  · rintro ⟨shown, hshown⟩
    obtain ⟨i, -, hlatest⟩ := hshown.latest
    exact StatePatterns.observed_of_latest hlatest

/-- Without a replacement character in a pattern, decoding changes nothing. -/
theorem StatePatterns.Plain.showsLast_lossy (h : patterns.Plain)
    {bytes : List UInt8} :
    (∃ shown, patterns.ShowsLast (fromUtf8Lossy bytes) state shown) ↔
      ∃ shown, patterns.ShowsLast bytes state shown := by
  constructor
  · rintro ⟨shown, hshown⟩
    obtain ⟨i, -, hlatest⟩ := hshown.latest
    rw [h.latest_lossy] at hlatest
    obtain ⟨⟨j, found⟩, hbytes, heq⟩ := Option.map_eq_some_iff.mp hlatest
    cases heq
    exact ⟨j, StatePatterns.showsLast_of_latest hbytes⟩
  · rintro ⟨shown, hshown⟩
    obtain ⟨i, -, hlatest⟩ := hshown.latest
    have hlossy := h.latest_lossy bytes
    rw [hlatest] at hlossy
    exact ⟨_, StatePatterns.showsLast_of_latest hlossy⟩

/-- The front of a text shows the state of the whole text last exactly if the
winning occurrence ends in it, or an earlier one wins there. -/
theorem StatePatterns.showsLast_take_iff {limit : Nat}
    (h : patterns.latest text = some (offset, state, pattern)) :
    (∃ shown, patterns.ShowsLast (text.take limit) state shown) ↔
      offset + pattern.length ≤ limit ∨
        ∃ earlier < offset, patterns.ShowsLast (text.take limit) state
          earlier := by
  obtain ⟨rfl, hoccurs⟩ := StatePatterns.occursAt_of_mem (mem_of_maxByKey h)
  constructor
  · rintro ⟨shown, hshown⟩
    rcases Nat.lt_or_ge shown offset with hlt | hge
    · exact .inr ⟨shown, hlt, hshown⟩
    · have hfits := hshown.occurs.fits
      rw [List.length_take] at hfits
      exact .inl (by omega)
  · rintro (hends | ⟨earlier, -, hshown⟩)
    · have hfits := hoccurs.fits
      rw [← List.take_append_drop limit text] at h
      have hfront := StatePatterns.latest_of_append h (by
        rw [List.length_take]
        omega)
      exact ⟨offset, StatePatterns.showsLast_of_latest hfront⟩
    · exact ⟨earlier, hshown⟩

variable {profile : BoardProfile} {states : List BoardState}
variable {console : Console} {cursor : Nat}

/-- What a poll for a state needs to find. -/
theorem pollAfter_eq_some_iff (console : Console) (cursor : Nat)
    (hpattern : profile.patterns.patternOf state ≠ [])
    (hrequested : state ∈ states) :
    pollAfter profile states cursor console.ring = some state ↔
      ∃ shown, profile.patterns.ShowsLast (fromUtf8Lossy
        ((console.retainedAfter cursor).take observationBytes)) state
          shown := by
  rw [← StatePatterns.observed_eq_iff hpattern, pollAfter, stateAfter_eq]
  constructor
  · exact fun hpoll => (mem_of_requested hpoll).1
  · intro hobserved
    rw [hobserved, requested, if_pos hrequested]

/--
A requested state whose pattern begins last in the retained bytes is reported by
the current poll exactly if an occurrence of its pattern lies in the text of the
first 65,536 of them and no other pattern begins there from it on.  If no
pattern has a replacement character, that is so exactly if the winning
occurrence ends within these bytes, or an earlier one of the same state lies
wholly there and no other pattern begins there from it on.
-/
theorem pollAfter_latest_iff
    (hlatest : profile.patterns.latest
      (fromUtf8Lossy (console.retainedAfter cursor)) =
        some (offset, state, pattern))
    (hrequested : state ∈ states) :
    (pollAfter profile states cursor console.ring = some state ↔
      ∃ shown, profile.patterns.ShowsLast (fromUtf8Lossy
        ((console.retainedAfter cursor).take observationBytes)) state
          shown) ∧
    (profile.patterns.Plain →
      ∃ begins, lossyOffset (console.retainedAfter cursor) begins = offset ∧
        profile.patterns.OccursAt (console.retainedAfter cursor) state
          begins ∧
        (pollAfter profile states cursor console.ring = some state ↔
          begins + pattern.length ≤ observationBytes ∨
            ∃ earlier < begins, profile.patterns.ShowsLast
              ((console.retainedAfter cursor).take observationBytes) state
                earlier)) := by
  obtain ⟨-, hoccurs⟩ :=
    StatePatterns.occursAt_of_mem (mem_of_maxByKey hlatest)
  have hpoll :=
    pollAfter_eq_some_iff console cursor hoccurs.configured hrequested
  refine ⟨hpoll, fun hplain => ?_⟩
  rw [hplain.latest_lossy] at hlatest
  obtain ⟨⟨begins, winner⟩, hbytes, heq⟩ := Option.map_eq_some_iff.mp hlatest
  cases heq
  refine ⟨begins, rfl,
    (StatePatterns.occursAt_of_mem (mem_of_maxByKey hbytes)).2, ?_⟩
  rw [hpoll, hplain.showsLast_lossy]
  exact StatePatterns.showsLast_take_iff hbytes

/-- Bytes among which every pattern has one that is missing show no state. -/
theorem StatePatterns.observed_eq_unknown {patterns : StatePatterns}
    {bytes : List UInt8} (hascii : IsAscii bytes)
    (hmissing : ∀ state, patterns.patternOf state ≠ [] →
      ∃ x ∈ patterns.patternOf state, x ∉ bytes) :
    patterns.observed bytes = .unknown := by
  by_contra hne
  obtain ⟨hpattern, hpiece⟩ := StatePatterns.occurs_of_observed hne
  obtain ⟨x, hx, hnot⟩ := hmissing _ hpattern
  rw [fromUtf8Lossy_ascii hascii] at hpiece
  exact hnot (hpiece.subset hx)

/-- Each pattern of the simulated board has a byte other than a lower-case
x. -/
theorem simulated_patterns (state : BoardState)
    (h : simulated.patterns.patternOf state ≠ []) :
    ∃ x ∈ simulated.patterns.patternOf state, x ≠ 0x78 := by
  cases state <;> first
    | exact absurd rfl h
    | decide

/-- A boot log of some length and the login prompt that ends it. -/
def bootLog (n : Nat) : List UInt8 :=
  List.replicate n 0x78 ++ utf8 "login:"

theorem bootLog_ascii (n : Nat) : IsAscii (bootLog n) := by
  intro x hx
  rcases List.mem_append.mp hx with hfront | hprompt
  · rw [List.eq_of_mem_replicate hfront]
    decide
  · have hlogin : IsAscii (utf8 "login:") := isAscii_of_all (by decide)
    exact hlogin x hprompt

@[simp] theorem length_bootLog (n : Nat) : (bootLog n).length = n + 6 := by
  have hlogin : (utf8 "login:").length = 6 := by decide
  rw [bootLog, List.length_append, List.length_replicate, hlogin]

theorem bootLog_latest (n : Nat) :
    simulated.patterns.latest (fromUtf8Lossy (bootLog n)) =
      some (n, .linuxLogin, utf8 "login:") := by
  have hprompt : simulated.patterns.latest (utf8 "login:") =
      some (0, .linuxLogin, utf8 "login:") := by
    decide
  rw [fromUtf8Lossy_ascii (bootLog_ascii n), bootLog,
    StatePatterns.latest_append _ hprompt, List.length_replicate,
    Nat.add_zero]

/-- The log before the prompt shows no state. -/
theorem bootLog_take (n : Nat) :
    simulated.patterns.observed ((bootLog n).take n) = .unknown := by
  have htake : (bootLog n).take n = List.replicate n 0x78 := by
    rw [bootLog, List.take_left' (by simp)]
  rw [htake]
  refine StatePatterns.observed_eq_unknown ?_ ?_
  · intro x hx
    rw [List.eq_of_mem_replicate hx]
    decide
  · intro state hstate
    obtain ⟨x, hx, hne⟩ := simulated_patterns state hstate
    exact ⟨x, hx, fun hmem => hne (List.eq_of_mem_replicate hmem)⟩

/-- A board that has sent a boot log which its ring can hold. -/
theorem exists_bootLog {n : Nat}
    (hroom : n + 6 ≤ simulatedRegistry.config.serialRingBytes) :
    ∃ later : Console, simulatedConsole.Extends later ∧
      later.capacity = simulatedRegistry.config.serialRingBytes ∧
      later.retainedAfter simulatedConsole.ring.nextCursor = bootLog n := by
  have hring : simulatedRegistry.config.serialRingBytes = 256 * 1024 := rfl
  obtain ⟨later, hcapacity, hhistory⟩ := Console.exists_console
    simulatedRegistry.ring_pos [.append 0 (bootLog n)] (by
      simp [RingOp.input]
      omega)
  have hstream : later.stream = bootLog n := by
    simp [Console.stream, hhistory, RingOp.input]
  refine ⟨later, ⟨hcapacity, List.nil_prefix⟩, hcapacity, ?_⟩
  have hcursor : simulatedConsole.ring.nextCursor = 0 := rfl
  rw [Console.retainedAfter, hstream, hcapacity, hcursor, length_bootLog,
    Nat.sub_eq_zero_of_le hroom, Nat.max_self, List.drop_zero]

/-- A short boot log does not hide its prompt, which ends in the window. -/
theorem pollAfter_latest_iff_short :
    ∃ later : Console, simulatedConsole.Extends later ∧
      later.retainedAfter simulatedConsole.ring.nextCursor = bootLog 4 ∧
      pollAfter simulated [.linuxLogin] simulatedConsole.ring.nextCursor
        later.ring = some .linuxLogin := by
  obtain ⟨later, hextends, -, hretained⟩ := exists_bootLog (n := 4) (by decide)
  have hlatest := bootLog_latest 4
  rw [← hretained] at hlatest
  obtain ⟨begins, -, hoccurs, hpoll⟩ :=
    (pollAfter_latest_iff hlatest (List.mem_singleton_self _)).2
      plain_simulated
  have hfits := hoccurs.fits
  rw [hretained, length_bootLog] at hfits
  have hwindow : 4 + 6 ≤ observationBytes := by decide
  exact ⟨later, hextends, hretained, hpoll.mpr (.inl (hfits.trans hwindow))⟩

/--
The prompt at the end of a long boot log is the last thing the board shows, and
the poll that waits for it does not see it.
-/
theorem pollAfter_misses_login :
    ∃ earlier later : Console, earlier.Extends later ∧
      later.capacity = simulatedRegistry.config.serialRingBytes ∧
      simulated.patterns.latest (fromUtf8Lossy
        (later.retainedAfter earlier.ring.nextCursor)) =
          some (observationBytes, .linuxLogin, utf8 "login:") ∧
      (later.retainedAfter earlier.ring.nextCursor).length =
        observationBytes + 6 ∧
      pollAfter simulated [.linuxLogin, .linuxShell]
        earlier.ring.nextCursor later.ring = none := by
  obtain ⟨later, hextends, hcapacity, hretained⟩ :=
    exists_bootLog (n := observationBytes) (by decide)
  refine ⟨simulatedConsole, later, hextends, hcapacity, ?_, ?_, ?_⟩
  · rw [hretained, bootLog_latest]
  · rw [hretained, length_bootLog]
  · rw [pollAfter, stateAfter_eq, hretained, bootLog_take]
    rfl

end PollPositions

end RpictlMcp
