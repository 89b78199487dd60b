import RpictlMcp.StateLocality

/-!
# rpictl-mcp: patterns that hide each other

`BoardProfile::validate` requires three patterns, since a state without one is
never observed.  A pattern does not help if another one is found wherever it is:
the detector reports the pattern that begins last, and among those that begin at
the same place the last candidate.  So a state can be observed exactly if no
other pattern begins inside its own one, and no later candidate with it.
-/

namespace RpictlMcp

/-- The states whose patterns `BoardProfile::validate` requires. -/
def requiredStates : List BoardState :=
  [.ubootPrompt, .linuxLogin, .linuxShell]

/-- The states of the candidates, in the code's order. -/
def candidateStates : List BoardState :=
  [.shutdownInProgress, .linuxShell, .linuxLogin, .linuxBooting, .ubootPrompt,
    .ubootCountdown]

/-- A state looked for after another one; it wins where both begin together. -/
def Overrides (other state : BoardState) : Prop :=
  candidateStates.idxOf state < candidateStates.idxOf other

/-- Wherever the pattern of a state occurs, that of the other one wins. -/
structure StatePatterns.Shadows (patterns : StatePatterns)
    (other state : BoardState) : Prop where
  configured : patterns.patternOf other ≠ []
  hides :
    (∃ offset, 0 < offset ∧
        patterns.patternOf other <+: (patterns.patternOf state).drop offset) ∨
      (Overrides other state ∧
        patterns.patternOf other <+: patterns.patternOf state)

/-- Some bytes make the detector report the state. -/
def StatePatterns.Detectable (patterns : StatePatterns)
    (state : BoardState) : Prop :=
  ∃ bytes, ∀ timestamp generation,
    (patterns.observe bytes timestamp generation).state = state

/-- Some wait for the state ends with it. -/
def Awaitable (profile : BoardProfile) (state : BoardState) : Prop :=
  ∃ (timeoutMs cursor : Nat) (w : World Unit), AnswersIn ((), .main)
    (waitForStatesAfter profile [state] timeoutMs cursor).run (.ok state) w

section PatternShadowing

variable {patterns : StatePatterns} {state other : BoardState}

theorem StatePatterns.detectable_iff_observed :
    patterns.Detectable state ↔ ∃ bytes, patterns.observed bytes = state := by
  simp [StatePatterns.Detectable]

/-! ## A pattern as a text -/

theorem StatePatterns.mem_candidates
    (h : patterns.patternOf state ≠ []) :
    (state, patterns.patternOf state) ∈ patterns.candidates := by
  cases state <;> simp_all [StatePatterns.candidates, StatePatterns.patternOf]

/-- The occurrences are those of the candidates, in their order. -/
theorem StatePatterns.occurrences_pairwise (text : Text) :
    (patterns.occurrences text).Pairwise fun found later =>
      Overrides later.2.1 found.2.1 := by
  have hstates : (patterns.candidates.map Prod.fst).Pairwise
      fun state later => Overrides later state := by
    unfold Overrides
    exact (by decide : candidateStates.Pairwise fun state later =>
      candidateStates.idxOf state < candidateStates.idxOf later)
  have hcandidates : patterns.candidates.Pairwise fun candidate later =>
      Overrides later.1 candidate.1 :=
    hstates.of_map Prod.fst fun _ _ hoverrides => hoverrides
  refine (hcandidates.filter _).filterMap _ ?_
  intro candidate later hoverrides found hfound other hother
  obtain ⟨_, -, rfl⟩ := Option.map_eq_some_iff.mp hfound
  obtain ⟨_, -, rfl⟩ := Option.map_eq_some_iff.mp hother
  exact hoverrides

/-- A word occurs in itself at its beginning only. -/
theorem rfind_self (word : Text) : rfind word word = some 0 := by
  obtain ⟨i, hfind, -⟩ := le_of_rfind (Nat.zero_le word.length)
    (by rw [List.drop_zero])
  have hfits := rfind_add_length_le hfind
  rw [hfind, Option.some.injEq]
  omega

/-- A pattern that hides nothing of its own text is found last in it. -/
theorem StatePatterns.latest_of_unshadowed
    (hpattern : patterns.patternOf state ≠ [])
    (h : ∀ other, ¬patterns.Shadows other state) :
    patterns.latest (patterns.patternOf state) =
      some (0, state, patterns.patternOf state) := by
  have hmem : (0, state, patterns.patternOf state) ∈
      patterns.occurrences (patterns.patternOf state) :=
    StatePatterns.mem_occurrences.mpr
      ⟨StatePatterns.mem_candidates hpattern, hpattern, rfind_self _⟩
  have hbegins : ∀ found ∈ patterns.occurrences (patterns.patternOf state),
      found.1 = 0 ∧ ¬Overrides found.2.1 state := by
    rintro ⟨offset, other, pattern⟩ hfound
    obtain ⟨hcandidate, hne, hfind⟩ :=
      StatePatterns.mem_occurrences.mp hfound
    obtain ⟨rfl, -⟩ := StatePatterns.candidates_eq_patternOf hcandidate
    have hoccurs := isPrefix_drop_of_rfind hfind
    have hzero : offset = 0 := by
      by_contra hpos
      exact h other ⟨hne, .inl ⟨offset, Nat.pos_of_ne_zero hpos, hoccurs⟩⟩
    subst hzero
    exact ⟨rfl, fun hoverrides => h other ⟨hne, .inr ⟨hoverrides, hoccurs⟩⟩⟩
  obtain ⟨front, back, hsplit⟩ := List.append_of_mem hmem
  have horder := patterns.occurrences_pairwise (patterns.patternOf state)
  rw [hsplit] at horder hbegins
  refine maxByKey_eq_some_iff.mpr ⟨front, back, hsplit, ?_, ?_⟩
  · intro found hfound
    exact Nat.le_of_eq (hbegins found (List.mem_append_left _ hfound)).1
  · intro found hfound
    have hoverrides := List.rel_of_pairwise_cons
      (List.pairwise_append.mp horder).2.1 hfound
    exact absurd hoverrides (hbegins found
      (List.mem_append_right _ (List.mem_cons_of_mem _ hfound))).2

/-- A hidden pattern is not even found last in its own text. -/
theorem StatePatterns.not_shadows_of_latest
    (h : patterns.latest (patterns.patternOf state) =
      some (0, state, patterns.patternOf state)) (other : BoardState) :
    ¬patterns.Shadows other state := by
  rintro ⟨hconfigured, hhides⟩
  obtain ⟨front, back, hsplit, hfront, hback⟩ := maxByKey_eq_some_iff.mp h
  have hoccurs : ∀ offset, patterns.patternOf other <+:
      (patterns.patternOf state).drop offset →
        ∃ i, (i, other, patterns.patternOf other) ∈
          patterns.occurrences (patterns.patternOf state) ∧ offset ≤ i := by
    intro offset hstarts
    have hle : offset ≤ (patterns.patternOf state).length := by
      by_contra hgt
      rw [List.drop_of_length_le (by omega), List.prefix_nil] at hstarts
      exact hconfigured hstarts
    obtain ⟨i, hfind, hle⟩ := le_of_rfind hle hstarts
    exact ⟨i, StatePatterns.mem_occurrences.mpr
      ⟨StatePatterns.mem_candidates hconfigured, hconfigured, hfind⟩, hle⟩
  rcases hhides with ⟨offset, hpos, hstarts⟩ | ⟨hoverrides, hstarts⟩
  · -- The other pattern begins behind this one.
    obtain ⟨i, hfound, hle⟩ := hoccurs offset hstarts
    have hgreatest := key_le_maxByKey hfound h
    simp only at hgreatest
    omega
  · -- It begins with this one or behind it, and is the later candidate.
    obtain ⟨i, hfound, -⟩ := hoccurs 0 (by rwa [List.drop_zero])
    have horder := patterns.occurrences_pairwise (patterns.patternOf state)
    rw [hsplit] at horder hfound
    obtain ⟨-, hlater, hcross⟩ := List.pairwise_append.mp horder
    rcases List.mem_append.mp hfound with hfound | hfound
    · exact Nat.lt_asymm hoverrides (hcross _ hfound _ List.mem_cons_self)
    · rcases List.mem_cons.mp hfound with heq | hfound
      · cases heq
        exact Nat.lt_irrefl _ hoverrides
      · exact absurd (hback _ hfound) (Nat.not_lt_zero i)

/-- A pattern that is found last somewhere is found last in its own text. -/
theorem StatePatterns.latest_patternOf {text : Text} {offset : Nat}
    {pattern : Text} (h : patterns.latest text = some (offset, state, pattern)) :
    patterns.latest (patterns.patternOf state) =
      some (0, state, patterns.patternOf state) := by
  obtain ⟨hmem, -, hfind⟩ :=
    StatePatterns.mem_occurrences.mp (mem_of_maxByKey h)
  obtain ⟨rfl, -⟩ := StatePatterns.candidates_eq_patternOf hmem
  obtain ⟨rest, hrest⟩ := isPrefix_drop_of_rfind hfind
  have hfits := rfind_add_length_le hfind
  have hsplit : (text.take offset ++ patterns.patternOf state) ++ rest =
      text := by
    rw [List.append_assoc, hrest, List.take_append_drop]
  have hfront : (text.take offset).length = offset := by
    rw [List.length_take]
    omega
  rw [← hsplit] at h
  have hshort := StatePatterns.latest_of_append h (by
    rw [List.length_append]
    omega)
  cases hlatest : patterns.latest (patterns.patternOf state) with
  | none =>
      have := StatePatterns.latest_append_unknown hlatest _ hshort
      simp only at this
      omega
  | some found =>
      obtain ⟨i, candidate⟩ := found
      rw [StatePatterns.latest_append _ hlatest] at hshort
      obtain ⟨hoffset, rfl⟩ := Prod.mk.inj (Option.some.inj hshort)
      have hzero : i = 0 := by omega
      rw [hzero]

/-- The text of a pattern is decoded as it stands. -/
theorem StatePatterns.fromUtf8Lossy_patternOf :
    fromUtf8Lossy (patterns.patternOf state) = patterns.patternOf state := by
  cases state <;> first
    | exact fromUtf8Lossy_utf8 _
    | rfl

/-- Bytes that show the pattern alone are reported as the state. -/
theorem StatePatterns.observed_patternOf
    (h : patterns.latest (patterns.patternOf state) =
      some (0, state, patterns.patternOf state)) :
    patterns.observed (patterns.patternOf state) = state := by
  have hlatest : patterns.latest (fromUtf8Lossy (patterns.patternOf state)) =
      some (0, state, patterns.patternOf state) := by
    rw [StatePatterns.fromUtf8Lossy_patternOf]
    exact h
  exact StatePatterns.observed_of_latest hlatest

/-- A state can be observed exactly if no pattern hides its own one. -/
theorem StatePatterns.detectable_iff (hstate : patterns.patternOf state ≠ []) :
    patterns.Detectable state ↔ ∀ other, ¬patterns.Shadows other state := by
  rw [StatePatterns.detectable_iff_observed]
  constructor
  · rintro ⟨bytes, hobserved⟩
    unfold StatePatterns.observed at hobserved
    split at hobserved
    · rename_i offset found pattern hlatest
      subst hobserved
      exact StatePatterns.not_shadows_of_latest
        (StatePatterns.latest_patternOf hlatest)
    · subst hobserved
      exact absurd rfl hstate
  · intro h
    exact ⟨_, StatePatterns.observed_patternOf
      (StatePatterns.latest_of_unshadowed hstate h)⟩

/-! ## The required patterns -/

variable {profile : BoardProfile}

theorem utf8_ne_nil {s : String} (h : s.isEmpty = false) : utf8 s ≠ [] := by
  intro hnil
  rw [utf8_eq_nil_iff.mp hnil] at h
  cases h

/-- An accepted profile has the required patterns. -/
theorem BoardProfile.patternOf_ne_nil (h : profile.validate = .ok ())
    (hstate : state ∈ requiredStates) :
    profile.patterns.patternOf state ≠ [] := by
  simp only [BoardProfile.validate, invalid, bind, Except.bind] at h
  iterate 7 obtain ⟨-, h⟩ := check_eq_ok_iff.mp h
  obtain ⟨hpatterns, -⟩ := check_eq_ok_iff.mp h
  simp only [Bool.or_eq_true, not_or, Bool.not_eq_true] at hpatterns
  obtain ⟨⟨huboot, hlogin⟩, hshell⟩ := hpatterns
  simp only [requiredStates, List.mem_cons, List.not_mem_nil, or_false]
    at hstate
  rcases hstate with rfl | rfl | rfl
  · exact utf8_ne_nil huboot
  · exact utf8_ne_nil hlogin
  · exact utf8_ne_nil hshell

/-! ## Waits for a state -/

section Waits

variable {states : List BoardState} {console : Console}

theorem detectable_of_pollAfter {cursor : Nat}
    (h : pollAfter profile states cursor console.ring = some state) :
    profile.patterns.Detectable state := by
  rw [pollAfter, stateAfter_eq] at h
  obtain ⟨rfl, -⟩ := mem_of_requested h
  exact StatePatterns.detectable_iff_observed.mpr ⟨_, rfl⟩

theorem detectable_of_pollGeneration {generation : Option Nat}
    (h : pollGeneration profile states generation console.ring =
      some state) : profile.patterns.Detectable state := by
  rw [pollGeneration, generationState_eq] at h
  split at h
  · obtain ⟨rfl, -⟩ := mem_of_requested h
    exact StatePatterns.detectable_iff_observed.mpr ⟨_, rfl⟩
  · cases h

variable {ι : Type} [DecidableEq ι] {t : Thread ι} {w : World ι}

/--
In every run of any pool, a wait that reports a state reports one that can be
detected: a wait for a hidden state can only time out.
-/
theorem waits_detectable :
    (∀ {σ : Type} (check : σ → Prog BoardSig (Result Unit × σ)) (s s' : σ)
        (timeoutMs cursor : Nat),
      AnswersIn t (waitForStatesAfterChecked profile states timeoutMs cursor
        check s) (.ok state, s') w → profile.patterns.Detectable state) ∧
    (∀ timeoutMs cursor : Nat,
      AnswersIn t (waitForStatesAfter profile states timeoutMs cursor).run
        (.ok state) w → profile.patterns.Detectable state) ∧
    ∀ (timeoutMs : Nat) (generation : Option Nat),
      AnswersIn t (waitForStates profile states timeoutMs generation).run
        (.ok state) w → profile.patterns.Detectable state := by
  constructor
  · intro σ check s s' timeoutMs cursor h
    obtain ⟨_, _, -, hpoll⟩ :=
      (waitForStatesAfterChecked_last check s).result h.exec.1 state rfl
    exact detectable_of_pollAfter hpoll
  constructor
  · intro timeoutMs cursor h
    obtain ⟨_, _, -, hpoll⟩ := ((waitForStatesAfter_traces
      (lenient_permitted true) states timeoutMs cursor []).result
        h.exec.1).last state rfl
    exact detectable_of_pollAfter hpoll
  · intro timeoutMs generation h
    obtain ⟨_, _, -, hpoll⟩ := ((waitForStates_traces
      (lenient_permitted true) states timeoutMs generation []).result
        h.exec.1).last state rfl
    exact detectable_of_pollGeneration hpoll

theorem detectable_of_awaitable (h : Awaitable profile state) :
    profile.patterns.Detectable state := by
  obtain ⟨timeoutMs, cursor, w, hrun⟩ := h
  exact waits_detectable.2.1 timeoutMs cursor hrun

/-- A board that shows the pattern alone ends a wait for its state. -/
theorem awaitable_of_observed
    (hshort : (profile.patterns.patternOf state).length ≤ observationBytes)
    (h : profile.patterns.observed (profile.patterns.patternOf state) =
      state) : Awaitable profile state := by
  have hring : simulatedConsole.capacity = 256 * 1024 := rfl
  have hempty : simulatedConsole.stream = [] := rfl
  have hlimit : observationBytes = 65536 := rfl
  obtain ⟨d, hsends⟩ : ∃ d,
      simulatedConsole.Sends d (profile.patterns.patternOf state) :=
    simulatedConsole.exists_sends simulatedRegistry.ring_pos (by
      rw [hempty, List.nil_append]
      omega)
  have hpoll : pollAfter profile [state] simulatedConsole.ring.nextCursor
      d.ring = some state := by
    rw [pollAfter, stateAfter_eq, hsends.retainedAfter (by omega),
      List.take_of_length_le hshort, h]
    simp [requested]
  exact ⟨0, _, _, Performs.answersIn (waitForStatesAfter_acts
    (alive_main (w := World.initial simulatedConsole) ()) hsends hpoll) rfl⟩

end Waits

/--
For every accepted profile: the three required states can all be detected exactly
if no pattern hides one of theirs, and a wait for one of them, if its pattern is
not longer than what a poll looks at, can end exactly if it can be detected.
-/
theorem requiredStates_detectable_iff (hvalid : profile.validate = .ok ()) :
    ((∀ state ∈ requiredStates, profile.patterns.Detectable state) ↔
      ∀ state ∈ requiredStates, ∀ other,
        ¬profile.patterns.Shadows other state) ∧
    ∀ state ∈ requiredStates,
      (profile.patterns.patternOf state).length ≤ observationBytes →
        (Awaitable profile state ↔ profile.patterns.Detectable state) := by
  have hiff : ∀ state ∈ requiredStates, profile.patterns.Detectable state ↔
      ∀ other, ¬profile.patterns.Shadows other state := fun state hstate =>
    StatePatterns.detectable_iff
      (BoardProfile.patternOf_ne_nil hvalid hstate)
  constructor
  · constructor
    · intro h state hstate
      exact (hiff state hstate).mp (h state hstate)
    · intro h state hstate
      exact (hiff state hstate).mpr (h state hstate)
  · intro state hstate hshort
    constructor
    · exact detectable_of_awaitable
    · intro h
      exact awaitable_of_observed hshort (StatePatterns.observed_patternOf
        (StatePatterns.latest_of_unshadowed
          (BoardProfile.patternOf_ne_nil hvalid hstate)
          ((hiff state hstate).mp h)))

theorem requiredStates_detectable_iff_simulated :
    ((∀ state ∈ requiredStates, simulated.patterns.Detectable state) ↔
      ∀ state ∈ requiredStates, ∀ other,
        ¬simulated.patterns.Shadows other state) ∧
    ∀ state ∈ requiredStates,
      (simulated.patterns.patternOf state).length ≤ observationBytes →
        (Awaitable simulated state ↔ simulated.patterns.Detectable state) :=
  requiredStates_detectable_iff (by decide)

/-- A board whose U-Boot prompt is the last character of its shell prompt. -/
def hashPrompt : BoardProfile :=
  { simulated with
    patterns := { simulated.patterns with ubootPrompt := "#" } }

theorem hashPrompt_shadows :
    hashPrompt.patterns.Shadows .ubootPrompt .linuxShell where
  configured := by decide
  hides := .inl ⟨10, by decide, by decide⟩

/-- Its profile is accepted, and no output shows that Linux is up. -/
theorem hashPrompt_hides_shell :
    hashPrompt.validate = .ok () ∧ .linuxShell ∈ requiredStates ∧
      (∀ bytes timestamp generation,
        (hashPrompt.patterns.observe bytes timestamp generation).state ≠
          .linuxShell) ∧
      ¬Awaitable hashPrompt .linuxShell := by
  have hvalid : hashPrompt.validate = .ok () := by decide
  have hhidden : ¬hashPrompt.patterns.Detectable .linuxShell := by
    rw [StatePatterns.detectable_iff (by decide)]
    exact fun h => h _ hashPrompt_shadows
  refine ⟨hvalid, by decide, ?_, fun h => hhidden (detectable_of_awaitable h)⟩
  intro bytes timestamp generation hstate
  rw [StatePatterns.observe_state] at hstate
  exact hhidden (StatePatterns.detectable_iff_observed.mpr ⟨bytes, hstate⟩)

end PatternShadowing

end RpictlMcp
