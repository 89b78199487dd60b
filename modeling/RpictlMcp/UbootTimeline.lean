import RpictlMcp.UbootEntries

/-!
# rpictl-mcp: when the three ways into U-Boot agree

The timeline of a board is what it sends after its trigger as long as nothing
is typed.  A restart looks at it every 100 ms from the pause on that follows the
last byte of its command; `power_on_uboot`, whose timer runs before the relay
switches, looks at it at other moments, which are earlier by the latency of the
relay.

Each of the three succeeds if it sees what it waits for and the board answers
what is typed at that moment.  So a timeline leads all boards that send it,
however they react, to three successes or three failures only if none of the
waits sees anything, or if all see the countdown, and at the same moment.  A
prompt that has superseded the countdown is seen by `power_on_uboot` alone.
-/

namespace RpictlMcp

open Prog

/-- Where nothing has been received, nothing shows. -/
theorem StatePatterns.observed_nil (patterns : StatePatterns) :
    patterns.observed [] = .unknown := by
  by_contra hne
  obtain ⟨hpattern, hpiece⟩ := StatePatterns.occurs_of_observed hne
  exact hpattern (List.infix_nil.mp hpiece)

/-! ## Waits and the moments of their polls -/

/-- The first of some polls that shows one of some states. -/
structure FirstShown (states : List BoardState) (view : Nat → BoardState)
    (polls k : Nat) (state : BoardState) : Prop where
  intime : k ≤ polls
  shown : view k = state
  requested : state ∈ states
  first : ∀ j < k, view j ∉ states

namespace FirstShown

variable {states : List BoardState} {view : Nat → BoardState}
variable {polls k l : Nat} {state other : BoardState}

theorem unique (h : FirstShown states view polls k state)
    (h' : FirstShown states view polls l other) : k = l ∧ state = other := by
  have hle : ∀ {k l : Nat} {state other : BoardState},
      FirstShown states view polls k state →
      FirstShown states view polls l other → k ≤ l := by
    intro k l state other h h'
    by_contra hlt
    exact h.first l (by omega) (h'.shown ▸ h'.requested)
  obtain rfl : k = l := Nat.le_antisymm (hle h h') (hle h' h)
  exact ⟨rfl, h.shown.symm.trans h'.shown⟩

/-- The polls after one that does not show any of the states. -/
theorem succ_iff (hview : view 0 ∉ states) :
    FirstShown states view (polls + 1) (k + 1) state ↔
      FirstShown states (fun n => view (n + 1)) polls k state := by
  constructor
  · intro h
    exact ⟨by have := h.intime; omega, h.shown, h.requested,
      fun j hj => h.first (j + 1) (by omega)⟩
  · intro h
    refine ⟨by have := h.intime; omega, h.shown, h.requested, ?_⟩
    intro j hj
    cases j with
    | zero => exact hview
    | succ j => exact h.first j (by omega)

end FirstShown

namespace Scene

variable {device : Device} {profile : BoardProfile}
variable {states : List BoardState} {state : BoardState}
variable {x y : Scene device}

theorem wait_add (x : Scene device) (m n : Nat) :
    x.wait (m + n) = (x.wait m).wait n := by
  induction m generalizing x with
  | zero => rw [Nat.zero_add, wait]
  | succ m ih =>
      rw [Nat.succ_add, wait, wait, ih]

theorem type_append (pacing : Nat) (x : Scene device)
    (bytes more : List UInt8) :
    x.type pacing (bytes ++ more) =
      (x.type pacing bytes).type pacing more := by
  induction bytes generalizing x with
  | nil => rfl
  | cons byte bytes ih => exact ih _

/-- A wait ends at the first of its polls that shows what it waits for. -/
theorem await_eq_some_iff {n : Nat} :
    x.await profile states n = some (state, y) ↔
      ∃ k, FirstShown states (fun k => (x.wait (100 * k)).seen profile) n k
        state ∧ y = x.wait (100 * k) := by
  induction n generalizing x with
  | zero =>
      rw [await, Option.map_eq_some_iff]
      constructor
      · rintro ⟨found, hfound, heq⟩
        cases heq
        obtain ⟨hseen, hmem⟩ := mem_of_requested hfound
        exact ⟨0, ⟨le_rfl, hseen, hmem, by simp⟩, rfl⟩
      · rintro ⟨k, hfirst, rfl⟩
        obtain rfl := Nat.le_zero.mp hfirst.intime
        have hseen : x.seen profile = state := hfirst.shown
        exact ⟨state, by rw [requested, hseen, if_pos hfirst.requested], rfl⟩
  | succ n ih =>
      rw [await]
      by_cases hmem : x.seen profile ∈ states
      · rw [requested, if_pos hmem]
        constructor
        · intro heq
          cases heq
          exact ⟨0, ⟨Nat.zero_le _, rfl, hmem, by simp⟩, rfl⟩
        · rintro ⟨k, hfirst, rfl⟩
          cases k with
          | zero =>
              have hseen : x.seen profile = state := hfirst.shown
              rw [hseen]
              rfl
          | succ k => exact absurd hmem (hfirst.first 0 (by omega))
      · rw [requested, if_neg hmem, ih]
        have hlater : ∀ k, (x.wait 100).wait (100 * k) =
            x.wait (100 * (k + 1)) := by
          intro k
          rw [← wait_add]
          congr 1
          omega
        simp only [hlater]
        constructor
        · rintro ⟨k, hfirst, rfl⟩
          exact ⟨k + 1, (FirstShown.succ_iff hmem).mpr hfirst, rfl⟩
        · rintro ⟨k, hfirst, rfl⟩
          cases k with
          | zero =>
              have hseen : x.seen profile = state := hfirst.shown
              exact absurd (hseen ▸ hfirst.requested) hmem
          | succ k =>
              exact ⟨k, (FirstShown.succ_iff hmem).mp hfirst, rfl⟩

/-- What is typed is answered: a prompt is seen within ten seconds. -/
def Answered (profile : BoardProfile) (bytes : List UInt8)
    (x : Scene device) : Prop :=
  ∃ k ≤ 100, ((x.renew.type profile.timing.serialPacingMs bytes).wait
    (100 * k)).seen profile = .ubootPrompt

/-- A board that answers Enter and the interrupt, whenever they are typed. -/
def Responsive (profile : BoardProfile) (x : Scene device) : Prop :=
  ∀ n, (x.wait n).Answered profile (utf8 "\r") ∧
    (x.wait n).Answered profile (utf8 profile.uboot.interrupt)

theorem answers_iff {bytes : List UInt8} :
    x.answers profile bytes = true ↔ x.Answered profile bytes := by
  have hpolls : pollsWithin 10000 = 100 := rfl
  unfold answers Answered
  rw [hpolls]
  generalize x.renew.type profile.timing.serialPacingMs bytes = z
  constructor
  · intro hsome
    obtain ⟨⟨state, y⟩, hawait⟩ := Option.isSome_iff_exists.mp hsome
    obtain ⟨k, hfirst, -⟩ := await_eq_some_iff.mp hawait
    obtain rfl := List.mem_singleton.mp hfirst.requested
    exact ⟨k, hfirst.intime, hfirst.shown⟩
  · rintro ⟨k, hk, hseen⟩
    by_contra hnone
    rw [Bool.not_eq_true, Option.isSome_eq_false_iff,
      Option.isNone_iff_eq_none] at hnone
    -- The first poll that shows the prompt ends the wait.
    have hexists : ∃ k, (z.wait (100 * k)).seen profile = .ubootPrompt :=
      ⟨k, hseen⟩
    have hfirst : FirstShown [.ubootPrompt]
        (fun k => (z.wait (100 * k)).seen profile) 100 (Nat.find hexists)
        .ubootPrompt :=
      ⟨(Nat.find_min' hexists hseen).trans hk, Nat.find_spec hexists,
        List.mem_singleton_self _,
        fun j hj hmem => Nat.find_min hexists hj (List.mem_singleton.mp hmem)⟩
    rw [await_eq_some_iff.mpr ⟨_, hfirst, rfl⟩] at hnone
    cases hnone

/-! ## The trigger -/

/-- The trigger: the board is on, and nothing has been received yet. -/
def triggered (s : device.State) (capacity : Nat) : Scene device :=
  ⟨s, capacity, [], 0⟩

/-- Some milliseconds before the relay switches. -/
def before (x : Scene device) (latency : Nat) : Scene device :=
  { x with dark := latency }

theorem before_zero (hx : x.dark = 0) : x.before 0 = x := by
  rw [before, ← hx]

theorem tick_of_on (hx : x.dark = 0) : x.tick =
    { x with
      state := (device.tick x.state).1
      fresh := x.fresh ++ (device.tick x.state).2 } := by
  unfold tick
  rw [hx]

theorem feed_of_on (hx : x.dark = 0) (byte : UInt8) : x.feed byte =
    { x with state := device.input x.state byte } := by
  obtain ⟨state, capacity, fresh, dark⟩ := x
  obtain rfl : dark = 0 := hx
  rfl

theorem wait_on (hx : x.dark = 0) (n : Nat) : (x.wait n).dark = 0 := by
  induction n generalizing x with
  | zero => exact hx
  | succ n ih =>
      rw [wait, tick_of_on hx]
      exact ih hx

theorem wait_capacity (x : Scene device) (n : Nat) :
    (x.wait n).capacity = x.capacity := by
  induction n generalizing x with
  | zero => rfl
  | succ n ih =>
      rw [wait, ih]
      unfold tick
      split <;> rfl

/-- A board that is off shows nothing new; its timeline begins later. -/
theorem before_wait (hx : x.dark = 0) (latency n : Nat) :
    (x.before latency).wait n =
      (x.wait (n - latency)).before (latency - n) := by
  induction n generalizing x latency with
  | zero => simp [wait]
  | succ n ih =>
      cases latency with
      | zero =>
          rw [before_zero hx, Nat.sub_zero, Nat.zero_sub,
            before_zero (wait_on hx _)]
      | succ latency =>
          rw [wait]
          have htick : (x.before (latency + 1)).tick = x.before latency := rfl
          rw [htick, ih hx, Nat.succ_sub_succ, Nat.succ_sub_succ]

theorem seen_before (latency : Nat) :
    (x.before latency).seen profile = x.seen profile := rfl

theorem type_capacity (pacing : Nat) (x : Scene device)
    (bytes : List UInt8) : (x.type pacing bytes).capacity = x.capacity := by
  induction bytes generalizing x with
  | nil => rfl
  | cons byte bytes ih =>
      rw [type, ih, wait_capacity]
      unfold feed
      split <;> rfl

/-- What a scene shows whose bytes fit. -/
theorem seen_of_fits (hcapacity : x.fresh.length ≤ x.capacity)
    (hroom : x.fresh.length ≤ observationBytes) :
    x.seen profile = profile.patterns.observed x.fresh := by
  rw [seen, Nat.sub_eq_zero_of_le hcapacity, List.drop_zero,
    List.take_of_length_le hroom]

theorem seen_triggered (profile : BoardProfile) (s : device.State)
    (capacity : Nat) : (triggered s capacity).seen profile = .unknown := by
  rw [seen_of_fits (Nat.zero_le _) (Nat.zero_le _)]
  exact profile.patterns.observed_nil

end Scene

section Timeline

variable {device : Device} (profile : BoardProfile)
variable (timeoutMs latency : Nat) (x : Scene device)

/-- What a poll of `power_on_uboot` shows, whose timer has been started some
milliseconds before the relay switches. -/
def bootView (k : Nat) : BoardState :=
  (x.wait (100 * k - latency)).seen profile

/-- What a poll of a restart shows, which pauses after each byte it types. -/
def restartView (k : Nat) : BoardState :=
  (x.wait (profile.timing.serialPacingMs + 100 * k)).seen profile

/-- The boot phase of `power_on_uboot` sees the countdown or the prompt. -/
def BootSees (k : Nat) (state : BoardState) : Prop :=
  FirstShown [.ubootCountdown, .ubootPrompt] (bootView profile latency x)
    (pollsWithin timeoutMs) k state

/-- A restart sees the countdown. -/
def RestartSees (k : Nat) : Prop :=
  FirstShown [.ubootCountdown] (restartView profile x)
    (pollsWithin timeoutMs) k .ubootCountdown

/-- What `power_on_uboot` types when it sees a state. -/
def bootReply : BoardState → List UInt8
  | .ubootPrompt => utf8 "\r"
  | _ => utf8 profile.uboot.interrupt

variable {profile timeoutMs latency x}

namespace Scene

/-- When the boot phase of `power_on_uboot` succeeds. -/
theorem boots_iff (s : device.State) (capacity : Nat) :
    ((triggered s capacity).before latency).boots profile timeoutMs = true ↔
      ∃ k state,
        BootSees profile timeoutMs latency (triggered s capacity) k state ∧
        ((triggered s capacity).wait (100 * k - latency)).Answered profile
          (bootReply profile state) := by
  have hview : (fun k => (((triggered s capacity).before latency).wait
      (100 * k)).seen profile) =
        bootView profile latency (triggered s capacity) := by
    funext k
    rw [before_wait rfl, seen_before, bootView]
  unfold boots
  cases hawait : ((triggered s capacity).before latency).await profile
      [.ubootCountdown, .ubootPrompt] (pollsWithin timeoutMs) with
  | none =>
      refine iff_of_false Bool.false_ne_true ?_
      rintro ⟨k, state, hsees, -⟩
      rw [BootSees, ← hview] at hsees
      rw [await_eq_some_iff.mpr ⟨k, hsees, rfl⟩] at hawait
      cases hawait
  | some found =>
      obtain ⟨state, y⟩ := found
      obtain ⟨k, hsees, rfl⟩ := await_eq_some_iff.mp hawait
      rw [hview] at hsees
      -- Before the relay switches nothing is seen.
      have hon : latency ≤ 100 * k := by
        by_contra hoff
        have hzero : 100 * k - latency = 0 := by omega
        have hshown := hsees.shown
        rw [bootView, hzero, wait, seen_triggered] at hshown
        have hmem := hsees.requested
        simp [← hshown] at hmem
      have hscene : ((triggered s capacity).before latency).wait (100 * k) =
          (triggered s capacity).wait (100 * k - latency) := by
        rw [before_wait rfl, Nat.sub_eq_zero_of_le hon,
          before_zero (wait_on rfl _)]
      have hreply : (if state = .ubootPrompt then
          (((triggered s capacity).before latency).wait (100 * k)).answers
            profile (utf8 "\r")
          else (((triggered s capacity).before latency).wait (100 * k)).answers
            profile (utf8 profile.uboot.interrupt)) =
          ((triggered s capacity).wait (100 * k - latency)).answers profile
            (bootReply profile state) := by
        rw [hscene]
        rcases List.mem_cons.mp hsees.requested with rfl | hprompt
        · rfl
        · obtain rfl := List.mem_singleton.mp hprompt
          rfl
      simp only [hreply, answers_iff]
      constructor
      · intro hanswered
        exact ⟨k, state, hsees, hanswered⟩
      · rintro ⟨l, other, hother, hanswered⟩
        obtain ⟨rfl, rfl⟩ := FirstShown.unique hsees hother
        exact hanswered

/-- When a restart succeeds. -/
theorem restarts_iff :
    (x.wait profile.timing.serialPacingMs).restarts profile timeoutMs = true ↔
      ∃ k, RestartSees profile timeoutMs x k ∧
        (x.wait (profile.timing.serialPacingMs + 100 * k)).Answered profile
          (utf8 profile.uboot.interrupt) := by
  have hview : (fun k => ((x.wait profile.timing.serialPacingMs).wait
      (100 * k)).seen profile) = restartView profile x := by
    funext k
    rw [← wait_add, restartView]
  unfold restarts
  cases hawait : (x.wait profile.timing.serialPacingMs).await profile
      [.ubootCountdown] (pollsWithin timeoutMs) with
  | none =>
      refine iff_of_false Bool.false_ne_true ?_
      rintro ⟨k, hsees, -⟩
      rw [RestartSees, ← hview] at hsees
      rw [await_eq_some_iff.mpr ⟨k, hsees, rfl⟩] at hawait
      cases hawait
  | some found =>
      obtain ⟨state, y⟩ := found
      obtain ⟨k, hsees, rfl⟩ := await_eq_some_iff.mp hawait
      rw [hview] at hsees
      obtain rfl := List.mem_singleton.mp hsees.requested
      simp only [answers_iff, ← wait_add]
      constructor
      · intro hanswered
        exact ⟨k, hsees, hanswered⟩
      · rintro ⟨l, hother, hanswered⟩
        obtain ⟨rfl, -⟩ := FirstShown.unique hsees hother
        exact hanswered

end Scene

/-! ## Boards with the same timeline -/

variable {other : Device}

/-- As long as nothing is typed, two boards send the same. -/
def SameTimeline (x : Scene device) (y : Scene other) : Prop :=
  y.capacity = x.capacity ∧ ∀ n, (y.wait n).fresh = (x.wait n).fresh

variable {y : Scene other}

theorem SameTimeline.seen (h : SameTimeline x y) (n : Nat) :
    (y.wait n).seen profile = (x.wait n).seen profile := by
  unfold Scene.seen
  rw [h.2, Scene.wait_capacity, Scene.wait_capacity, h.1]

theorem SameTimeline.bootSees (h : SameTimeline x y) {k : Nat}
    {state : BoardState} :
    BootSees profile timeoutMs latency y k state ↔
      BootSees profile timeoutMs latency x k state := by
  have hview : bootView profile latency y = bootView profile latency x :=
    funext fun _ => h.seen _
  rw [BootSees, hview, BootSees]

theorem SameTimeline.restartSees (h : SameTimeline x y) {k : Nat} :
    RestartSees profile timeoutMs y k ↔ RestartSees profile timeoutMs x k := by
  have hview : restartView profile y = restartView profile x :=
    funext fun _ => h.seen _
  rw [RestartSees, hview, RestartSees]

/-- A ring of some capacity can come to show the prompt. -/
def PromptShows (profile : BoardProfile) (capacity : Nat) : Prop :=
  ∃ answer : List UInt8, answer.length ≤ capacity ∧
    answer.length ≤ observationBytes ∧
    profile.patterns.observed answer = .ubootPrompt

theorem promptShows_of_answered {bytes : List UInt8}
    (h : x.Answered profile bytes) : PromptShows profile x.capacity := by
  obtain ⟨k, -, hseen⟩ := h
  refine ⟨_, ?_, List.length_take_le _ _, hseen⟩
  have hcapacity : ((x.renew.type profile.timing.serialPacingMs bytes).wait
      (100 * k)).capacity = x.capacity := by
    rw [Scene.wait_capacity, Scene.type_capacity]
    rfl
  rw [List.length_take, List.length_drop, hcapacity]
  omega

end Timeline

/-! ## A board that reacts at one moment -/

/-- A board before its command is complete, while it runs, and after something
has been typed, with what it still has to send. -/
inductive Reacting (State : Type) where
  | armed (left : Nat) (s : State)
  | runs (elapsed : Nat) (s : State)
  | answers (bytes : List UInt8)

/--
A board that sends what another one sends until something is typed.  What is
typed at one moment it answers; at all others it falls silent.
-/
def Device.reacting (device : Device) (moment : Nat) (answer : List UInt8) :
    Device where
  State := Reacting device.State
  tick
    | .armed left s => (.armed left s, [])
    | .runs elapsed s =>
        (.runs (elapsed + 1) (device.tick s).1, (device.tick s).2)
    | .answers bytes => (.answers [], bytes)
  input
    | .armed 0 s, _ => .runs 0 s
    | .armed (left + 1) s, _ => .armed left s
    | .runs elapsed _, _ => .answers (if elapsed = moment then answer else [])
    | .answers bytes, _ => .answers bytes
  quota
    | .armed _ s => device.quota s + answer.length
    | .runs _ s => device.quota s + answer.length
    | .answers bytes => bytes.length
  tick_quota := by
    rintro (⟨left, s⟩ | ⟨elapsed, s⟩ | bytes)
    · simp
    · have hquota := device.tick_quota s
      simp only
      omega
    · simp
  input_quota := by
    rintro (⟨_ | left, s⟩ | ⟨elapsed, s⟩ | bytes) byte
    · exact le_rfl
    · exact le_rfl
    · simp only
      split
      · omega
      · simp
    · exact le_rfl

section Reacting

variable {device : Device} {profile : BoardProfile}
variable {moment elapsed : Nat} {answer bytes : List UInt8}

/-- A scene of a board, with the reacting board in its place. -/
def Scene.reacting (x : Scene device) (moment : Nat) (answer : List UInt8)
    (elapsed : Nat) : Scene (device.reacting moment answer) :=
  ⟨.runs elapsed x.state, x.capacity, x.fresh, x.dark⟩

theorem Scene.reacting_wait (moment elapsed : Nat) (answer : List UInt8)
    {x : Scene device} (hx : x.dark = 0) (n : Nat) :
    (x.reacting moment answer elapsed).wait n =
      (x.wait n).reacting moment answer (elapsed + n) := by
  induction n generalizing x elapsed with
  | zero => rfl
  | succ n ih =>
      have htick : (x.reacting moment answer elapsed).tick =
          x.tick.reacting moment answer (elapsed + 1) := by
        rw [tick_of_on hx, tick_of_on (x := x.reacting _ _ _) hx]
        rfl
      have hon : x.tick.dark = 0 := by
        rw [tick_of_on hx]
        exact hx
      rw [wait, htick, ih _ hon, wait, Nat.succ_add, Nat.add_succ]

theorem sameTimeline_reacting (s : device.State) (capacity moment : Nat)
    (answer : List UInt8) :
    SameTimeline (Scene.triggered s capacity)
      (Scene.triggered (Reacting.runs 0 s) capacity :
        Scene (device.reacting moment answer)) := by
  refine ⟨rfl, fun n => ?_⟩
  have hwait := Scene.reacting_wait moment 0 answer
    (x := Scene.triggered s capacity) rfl n
  exact congrArg Scene.fresh hwait

/-- The reacting board has been typed at, and sends what it answers. -/
structure TypedAt (bytes : List UInt8)
    (x : Scene (device.reacting moment answer)) : Prop where
  on : x.dark = 0
  reply : (x.state = .answers bytes ∧ x.fresh = []) ∨
    (x.state = .answers [] ∧ x.fresh = bytes)

variable {x : Scene (device.reacting moment answer)}

theorem tick_answers (hstate : x.state = .answers bytes) (hon : x.dark = 0) :
    x.tick = ⟨.answers [], x.capacity, x.fresh ++ bytes, 0⟩ := by
  obtain ⟨state, capacity, fresh, dark⟩ := x
  obtain rfl : state = .answers bytes := hstate
  obtain rfl : dark = 0 := hon
  rfl

theorem feed_answers (hstate : x.state = .answers bytes) (hon : x.dark = 0)
    (byte : UInt8) : x.feed byte = x := by
  obtain ⟨state, capacity, fresh, dark⟩ := x
  obtain rfl : state = .answers bytes := hstate
  obtain rfl : dark = 0 := hon
  rfl

theorem TypedAt.tick (h : TypedAt bytes x) :
    x.tick.state = .answers [] ∧ x.tick.fresh = bytes ∧ x.tick.dark = 0 := by
  rcases h.reply with ⟨hstate, hfresh⟩ | ⟨hstate, hfresh⟩
  · rw [tick_answers hstate h.on, hfresh]
    exact ⟨rfl, rfl, rfl⟩
  · rw [tick_answers hstate h.on, hfresh]
    exact ⟨rfl, List.append_nil _, rfl⟩

theorem TypedAt.wait (h : TypedAt bytes x) (n : Nat) :
    TypedAt bytes (x.wait n) := by
  induction n generalizing x with
  | zero => exact h
  | succ n ih =>
      obtain ⟨hstate, hfresh, hon⟩ := h.tick
      exact ih ⟨hon, .inr ⟨hstate, hfresh⟩⟩

/-- A board that has nothing to send is silent. -/
theorem wait_silent (hstate : x.state = .answers []) (hon : x.dark = 0)
    (n : Nat) : (x.wait n).fresh = x.fresh := by
  induction n generalizing x with
  | zero => rfl
  | succ n ih =>
      rw [Scene.wait, tick_answers hstate hon, ih rfl rfl]
      exact List.append_nil _

/-- After a millisecond the answer has been received. -/
theorem TypedAt.wait_fresh (h : TypedAt bytes x) (n : Nat) :
    (x.wait (n + 1)).fresh = bytes := by
  obtain ⟨hstate, hfresh, hon⟩ := h.tick
  rw [Scene.wait, wait_silent hstate hon, hfresh]

theorem TypedAt.type (pacing : Nat) (h : TypedAt bytes x)
    (more : List UInt8) : TypedAt bytes (x.type pacing more) := by
  induction more generalizing x with
  | nil => exact h
  | cons byte more ih =>
      have hsame : x.feed byte = x := by
        rcases h.reply with ⟨hstate, -⟩ | ⟨hstate, -⟩
        · exact feed_answers hstate h.on byte
        · exact feed_answers hstate h.on byte
      rw [Scene.type, hsame]
      exact ih (h.wait pacing)

/-- The reacting board answers exactly what is typed at its moment. -/
theorem reacting_answered_iff {y : Scene device} (hy : y.dark = 0)
    (hbytes : bytes ≠ []) (hcapacity : answer.length ≤ y.capacity)
    (hroom : answer.length ≤ observationBytes)
    (hshows : profile.patterns.observed answer = .ubootPrompt) :
    (y.reacting moment answer elapsed).Answered profile bytes ↔
      elapsed = moment := by
  obtain ⟨byte, more, rfl⟩ := List.exists_cons_of_ne_nil hbytes
  have hfed : (y.reacting moment answer elapsed).renew.feed byte =
      ⟨.answers (if elapsed = moment then answer else []), y.capacity, [],
        y.dark⟩ :=
    Scene.feed_of_on (x := (y.reacting moment answer elapsed).renew) hy byte
  have htyped : TypedAt (if elapsed = moment then answer else [])
      ((y.reacting moment answer elapsed).renew.type
        profile.timing.serialPacingMs (byte :: more)) := by
    refine TypedAt.type _ (TypedAt.wait ?_ _) more
    rw [hfed]
    exact ⟨hy, .inl ⟨rfl, rfl⟩⟩
  have hscene : ∀ n, (((y.reacting moment answer elapsed).renew.type
      profile.timing.serialPacingMs (byte :: more)).wait n).capacity =
        y.capacity := by
    intro n
    rw [Scene.wait_capacity, Scene.type_capacity]
    rfl
  constructor
  · rintro ⟨k, -, hseen⟩
    by_contra hne
    rw [if_neg hne] at htyped
    have hsilent := htyped.wait (100 * k)
    have hfresh := hsilent.reply.elim And.right And.right
    rw [Scene.seen_of_fits (by simp [hfresh]) (by simp [hfresh]), hfresh,
      StatePatterns.observed_nil] at hseen
    cases hseen
  · rintro rfl
    rw [if_pos rfl] at htyped
    refine ⟨1, by omega, ?_⟩
    have hfresh := htyped.wait_fresh 99
    rw [Scene.seen_of_fits (by rw [hfresh, hscene]; exact hcapacity)
      (by rw [hfresh]; exact hroom), hfresh, hshows]

end Reacting

/-! ## The three ways -/

section Triggers

variable {device : Device} {registry : BoardRegistry} {boardId : String}
variable {profile : BoardProfile} {s : device.State}
variable {capacity latency cursor timeoutMs : Nat} {u v w : Bench device}

/--
The three triggers lead to the same: the relay of `u` switches some milliseconds
after the timer has been started, and the last byte of a reset and of a reboot
brings `v` and `w` to the state that the relay brings `u` to.  Since the cursor
nothing has been received.
-/
structure Triggers (profile : BoardProfile) (s : device.State)
    (capacity latency cursor : Nat) (u v w : Bench device) : Prop where
  taken : cursor ≤ u.console.stream.length
  power : u.scene cursor = (Scene.triggered s capacity).before latency
  reset : ((v.scene v.console.ring.nextCursor).type
    profile.timing.serialPacingMs (utf8 "reset")).feed 13 =
      Scene.triggered s capacity
  reboot : ((w.scene w.console.ring.nextCursor).type
    profile.timing.serialPacingMs (utf8 "reboot")).feed 13 =
      Scene.triggered s capacity

/-- The scene in which the wait of a restart begins. -/
theorem scene_restarted (line : List UInt8) {command : List UInt8}
    {x y : Scene device}
    (hline : line = command ++ [13])
    (hscene : (x.type profile.timing.serialPacingMs command).feed 13 = y) :
    x.type profile.timing.serialPacingMs line =
      y.wait profile.timing.serialPacingMs := by
  rw [hline, Scene.type_append, ← hscene]
  rfl

/-- All three come to a result, and when these are successes. -/
theorem Triggers.yield (hprofile : registry.board boardId = .ok profile)
    (h : Triggers profile s capacity latency cursor u v w) (timeoutMs : Nat) :
    ∃ booted reset reboot,
      Yields (bootPhase profile timeoutMs cursor) u booted ∧
      Yields (resetIntoUboot registry boardId timeoutMs).run v reset ∧
      Yields (rebootIntoUboot registry boardId timeoutMs).run w reboot ∧
      (booted.1.isOk = true ↔ ∃ k state,
        BootSees profile timeoutMs latency (Scene.triggered s capacity) k
          state ∧
        ((Scene.triggered s capacity).wait (100 * k - latency)).Answered
          profile (bootReply profile state)) ∧
      (reset.isOk = true ↔ ∃ k,
        RestartSees profile timeoutMs (Scene.triggered s capacity) k ∧
        ((Scene.triggered s capacity).wait
          (profile.timing.serialPacingMs + 100 * k)).Answered profile
            (utf8 profile.uboot.interrupt)) ∧
      reboot.isOk = reset.isOk := by
  have hreset := scene_restarted (utf8 "reset\r") rfl h.reset
  have hreboot := scene_restarted (utf8 "reboot\r") rfl h.reboot
  obtain ⟨booted, hbooted, hbootedOk⟩ :=
    yields_of_ends (bootPhase_bench h.taken timeoutMs)
  obtain ⟨reset, hresetYields, hresetOk⟩ :=
    yields_of_ends (resetIntoUboot_bench hprofile hreset timeoutMs)
  obtain ⟨reboot, hrebootYields, hrebootOk⟩ :=
    yields_of_ends (rebootIntoUboot_bench hprofile hreboot timeoutMs)
  refine ⟨booted, reset, reboot, hbooted, hresetYields, hrebootYields, ?_, ?_,
    hrebootOk.trans hresetOk.symm⟩
  · rw [hbootedOk, h.power, Scene.boots_iff]
  · rw [hresetOk, Scene.restarts_iff]

/-- The three ways all succeed or all fail. -/
def Agree (registry : BoardRegistry) (boardId : String)
    (profile : BoardProfile) (timeoutMs cursor : Nat)
    (u v w : Bench device) : Prop :=
  ∀ booted reset reboot,
    Yields (bootPhase profile timeoutMs cursor) u booted →
    Yields (resetIntoUboot registry boardId timeoutMs).run v reset →
    Yields (rebootIntoUboot registry boardId timeoutMs).run w reboot →
    booted.1.isOk = reset.isOk ∧ reset.isOk = reboot.isOk

theorem Yields.unique {α : Type} {p : Prog BoardSig α} {a b : α}
    (ha : Yields p u a) (hb : Yields p u b) : a = b := by
  obtain ⟨w', hreturns⟩ := ha.1
  exact hb.2 a w' hreturns

/-- The three ways agree if they see the same to answer, or nothing. -/
theorem Triggers.agree_iff (hprofile : registry.board boardId = .ok profile)
    (h : Triggers profile s capacity latency cursor u v w) (timeoutMs : Nat) :
    Agree registry boardId profile timeoutMs cursor u v w ↔
      ((∃ k state,
        BootSees profile timeoutMs latency (Scene.triggered s capacity) k
          state ∧
        ((Scene.triggered s capacity).wait (100 * k - latency)).Answered
          profile (bootReply profile state)) ↔
      ∃ k,
        RestartSees profile timeoutMs (Scene.triggered s capacity) k ∧
        ((Scene.triggered s capacity).wait
          (profile.timing.serialPacingMs + 100 * k)).Answered profile
            (utf8 profile.uboot.interrupt)) := by
  obtain ⟨booted, reset, reboot, hbooted, hreset, hreboot, hbootedIff,
    hresetIff, hsame⟩ := h.yield hprofile timeoutMs
  rw [← hbootedIff, ← hresetIff, ← Bool.eq_iff_iff]
  constructor
  · exact fun hagree => (hagree booted reset reboot hbooted hreset hreboot).1
  · intro hequal b r r' hb hr hr'
    rw [hb.unique hbooted, hr.unique hreset, hr'.unique hreboot]
    exact ⟨hequal, hsame.symm⟩

/-! ### Boards to be triggered -/

/-- A board that has not sent anything yet, whose relay switches at some
moment. -/
def Device.bench (device : Device) (s : device.State) (capacity switched : Nat)
    (hcapacity : 0 < capacity) (hquota : device.quota s < 2 ^ 64) :
    Bench device where
  now := 0
  state := s
  console := .new capacity hcapacity
  switched := switched
  powered := switched
  verified := le_rfl
  fits := by simpa [Console.stream, Console.new] using hquota

variable {moment : Nat} {answer : List UInt8}

theorem armed_wait (x : Scene (device.reacting moment answer)) {left : Nat}
    (hstate : x.state = Reacting.armed left s) (hon : x.dark = 0) (n : Nat) :
    x.wait n = x := by
  induction n with
  | zero => rfl
  | succ n ih =>
      have htick : x.tick = x := by
        obtain ⟨state, capacity, fresh, dark⟩ := x
        obtain rfl : state = Reacting.armed left s := hstate
        obtain rfl : dark = 0 := hon
        exact congrArg (fun fresh => (⟨Reacting.armed left s, capacity, fresh,
          0⟩ : Scene (device.reacting moment answer))) (List.append_nil fresh)
      rw [Scene.wait, htick, ih]

/-- A board that waits for its command counts the bytes. -/
theorem armed_type (moment : Nat) (answer : List UInt8) (s : device.State)
    (pacing capacity left : Nat) (bytes : List UInt8)
    (hleft : bytes.length ≤ left) :
    Scene.type pacing (⟨Reacting.armed left s, capacity, [], 0⟩ :
        Scene (device.reacting moment answer)) bytes =
      ⟨Reacting.armed (left - bytes.length) s, capacity, [], 0⟩ := by
  induction bytes generalizing left with
  | nil => rfl
  | cons byte bytes ih =>
      obtain ⟨left, rfl⟩ := Nat.exists_eq_add_one.mpr
        (Nat.lt_of_lt_of_le (Nat.succ_pos _) hleft)
      have hfed : (⟨Reacting.armed (left + 1) s, capacity, [], 0⟩ :
          Scene (device.reacting moment answer)).feed byte =
            ⟨Reacting.armed left s, capacity, [], 0⟩ := rfl
      rw [Scene.type, hfed, armed_wait _ rfl rfl,
        ih _ (Nat.le_of_succ_le_succ hleft), List.length_cons,
        Nat.succ_sub_succ]

/-- The reacting board can be triggered in all three ways. -/
theorem exists_triggers (profile : BoardProfile) (s : device.State)
    (latency moment : Nat) (answer : List UInt8) (hcapacity : 0 < capacity)
    (hquota : device.quota s + answer.length < 2 ^ 64) :
    ∃ u v w : Bench (device.reacting moment answer),
      Triggers profile (Reacting.runs 0 s) capacity latency 0 u v w := by
  refine ⟨Device.bench _ (Reacting.runs 0 s) capacity latency hcapacity hquota,
    Device.bench _ (Reacting.armed 5 s) capacity 0 hcapacity hquota,
    Device.bench _ (Reacting.armed 6 s) capacity 0 hcapacity hquota,
    Nat.zero_le _, rfl, ?_, ?_⟩
  · have htyped := armed_type moment answer s profile.timing.serialPacingMs
      capacity 5 (utf8 "reset") (by decide)
    exact congrArg (Scene.feed · 13) htyped
  · have htyped := armed_type moment answer s profile.timing.serialPacingMs
      capacity 6 (utf8 "reboot") (by decide)
    exact congrArg (Scene.feed · 13) htyped

/-- What all boards with a timeline that react at one moment agree on. -/
theorem sees_of_agree (moment : Nat)
    (hprofile : registry.board boardId = .ok profile)
    (hinterrupt : profile.uboot.interrupt ≠ "")
    (hquota : device.quota s + observationBytes < 2 ^ 64)
    (hshows : PromptShows profile capacity)
    (hagree : ∀ (other : Device) (t : other.State),
      SameTimeline (Scene.triggered s capacity)
        (Scene.triggered t capacity) →
      ∀ cursor (u v w : Bench other),
        Triggers profile t capacity latency cursor u v w →
          Agree registry boardId profile timeoutMs cursor u v w) :
    (∃ k state,
      BootSees profile timeoutMs latency (Scene.triggered s capacity) k
        state ∧ 100 * k - latency = moment) ↔
    ∃ k, RestartSees profile timeoutMs (Scene.triggered s capacity) k ∧
      profile.timing.serialPacingMs + 100 * k = moment := by
  obtain ⟨answer, hfits, hroom, hprompt⟩ := hshows
  have hcapacity : 0 < capacity := by
    refine Nat.lt_of_lt_of_le (List.length_pos_of_ne_nil ?_) hfits
    rintro rfl
    rw [StatePatterns.observed_nil] at hprompt
    cases hprompt
  obtain ⟨u, v, w, htriggers⟩ := exists_triggers profile s latency moment answer
    hcapacity (by omega)
  have hsame := sameTimeline_reacting s capacity moment answer
  have hiff := (htriggers.agree_iff hprofile timeoutMs).mp
    (hagree _ _ hsame 0 u v w htriggers)
  have hanswered : ∀ n bytes, bytes ≠ [] →
      (((Scene.triggered (Reacting.runs 0 s) capacity :
        Scene (device.reacting moment answer)).wait n).Answered profile
          bytes ↔ n = moment) := by
    intro n bytes hbytes
    have hwait := Scene.reacting_wait moment 0 answer
      (x := Scene.triggered s capacity) rfl n
    have hrun : (Scene.triggered (Reacting.runs 0 s) capacity :
        Scene (device.reacting moment answer)).wait n =
          ((Scene.triggered s capacity).wait n).reacting moment answer n := by
      rw [Nat.zero_add] at hwait
      exact hwait
    rw [hrun]
    refine reacting_answered_iff (Scene.wait_on rfl n) hbytes ?_ hroom hprompt
    rw [Scene.wait_capacity]
    exact hfits
  have hkey : utf8 profile.uboot.interrupt ≠ [] :=
    mt utf8_eq_nil_iff.mp hinterrupt
  have hreply : ∀ state, bootReply profile state ≠ [] := by
    intro state
    cases state <;> first | exact hkey | exact List.cons_ne_nil _ _
  simpa only [hsame.bootSees, hsame.restartSees, hanswered _ _ (hreply _),
    hanswered _ _ hkey] using hiff

/--
For every board: all three ways come to results, `power_on_uboot` succeeds just
in case it sees the countdown or the prompt and what it types then is answered,
and a restart just in case it sees the countdown and the interrupt is answered
then; so with a board that answers whatever is typed all three succeed just in
case `power_on_uboot` sees one of both and a restart sees the countdown.  All
boards with the same timeline as this one, however they react, lead to three
successes or three failures if and only if the ring cannot show the prompt, or
no wait sees anything, or all see the countdown first, and at the same moment.
-/
theorem ubootEntries_agree_iff
    (hprofile : registry.board boardId = .ok profile) (s : device.State)
    (capacity latency timeoutMs : Nat) :
    (∀ cursor (u v w : Bench device),
      Triggers profile s capacity latency cursor u v w →
      ∃ booted reset reboot,
        Yields (bootPhase profile timeoutMs cursor) u booted ∧
        Yields (resetIntoUboot registry boardId timeoutMs).run v reset ∧
        Yields (rebootIntoUboot registry boardId timeoutMs).run w reboot ∧
        (booted.1.isOk = true ↔ ∃ k state,
          BootSees profile timeoutMs latency (Scene.triggered s capacity) k
            state ∧
          ((Scene.triggered s capacity).wait (100 * k - latency)).Answered
            profile (bootReply profile state)) ∧
        (reset.isOk = true ↔ ∃ k,
          RestartSees profile timeoutMs (Scene.triggered s capacity) k ∧
          ((Scene.triggered s capacity).wait
            (profile.timing.serialPacingMs + 100 * k)).Answered profile
              (utf8 profile.uboot.interrupt)) ∧
        reboot.isOk = reset.isOk ∧
        ((Scene.triggered s capacity).Responsive profile →
          ((booted.1.isOk = true ∧ reset.isOk = true ∧ reboot.isOk = true) ↔
            (∃ k state, BootSees profile timeoutMs latency
              (Scene.triggered s capacity) k state) ∧
            ∃ k, RestartSees profile timeoutMs
              (Scene.triggered s capacity) k))) ∧
    (profile.uboot.interrupt ≠ "" →
      device.quota s + observationBytes < 2 ^ 64 →
      ((∀ (other : Device) (t : other.State),
        SameTimeline (Scene.triggered s capacity)
          (Scene.triggered t capacity) →
        ∀ cursor (u v w : Bench other),
          Triggers profile t capacity latency cursor u v w →
            Agree registry boardId profile timeoutMs cursor u v w) ↔
        ¬PromptShows profile capacity ∨
        (∀ k, (∀ state, ¬BootSees profile timeoutMs latency
            (Scene.triggered s capacity) k state) ∧
          ¬RestartSees profile timeoutMs (Scene.triggered s capacity) k) ∨
        ∃ k l,
          BootSees profile timeoutMs latency (Scene.triggered s capacity) k
            .ubootCountdown ∧
          RestartSees profile timeoutMs (Scene.triggered s capacity) l ∧
          100 * k - latency = profile.timing.serialPacingMs + 100 * l)) := by
  refine ⟨fun cursor u v w h => ?_,
    fun hinterrupt hquota => ⟨fun hagree => ?_, fun hcondition => ?_⟩⟩
  · obtain ⟨booted, reset, reboot, hbooted, hreset, hreboot, hbootedIff,
      hresetIff, hsame⟩ := h.yield hprofile timeoutMs
    refine ⟨booted, reset, reboot, hbooted, hreset, hreboot, hbootedIff,
      hresetIff, hsame, fun hresponsive => ?_⟩
    rw [hsame, and_self, hbootedIff, hresetIff]
    have hreply : ∀ n state, ((Scene.triggered s capacity).wait n).Answered
        profile (bootReply profile state) := by
      intro n state
      cases state <;> first
        | exact (hresponsive n).2
        | exact (hresponsive n).1
    simp only [hreply, (hresponsive _).2, and_true]
  · by_cases hshows : PromptShows profile capacity
    · -- A board that answers at one moment is not led to different ends.
      have hsees := fun moment => sees_of_agree moment hprofile hinterrupt
        hquota hshows hagree
      refine .inr ?_
      by_cases hboot : ∃ k state, BootSees profile timeoutMs latency
          (Scene.triggered s capacity) k state
      · obtain ⟨k, state, hbootSees⟩ := hboot
        obtain ⟨l, hrestart, hmoment⟩ :=
          (hsees _).mp ⟨k, state, hbootSees, rfl⟩
        have hshown := hbootSees.shown
        rw [bootView, ← hmoment] at hshown
        obtain rfl : .ubootCountdown = state :=
          hrestart.shown.symm.trans hshown
        exact .inr ⟨k, l, hbootSees, hrestart, hmoment.symm⟩
      · refine .inl fun k => ⟨fun state h => hboot ⟨k, state, h⟩, fun h => ?_⟩
        obtain ⟨l, state, hbootSees, -⟩ := (hsees _).mpr ⟨k, h, rfl⟩
        exact hboot ⟨l, state, hbootSees⟩
    · exact .inl hshows
  · intro other t hsame cursor u v w h
    rw [h.agree_iff hprofile timeoutMs]
    simp only [hsame.bootSees, hsame.restartSees]
    rcases hcondition with hnever | hnothing | ⟨k, l, hboot, hrestart, hmoment⟩
    · refine iff_of_false ?_ ?_
      · rintro ⟨k, state, -, hanswered⟩
        refine hnever ?_
        have hshows := promptShows_of_answered hanswered
        rwa [Scene.wait_capacity] at hshows
      · rintro ⟨k, -, hanswered⟩
        refine hnever ?_
        have hshows := promptShows_of_answered hanswered
        rwa [Scene.wait_capacity] at hshows
    · refine iff_of_false ?_ ?_
      · rintro ⟨k, state, hsees, -⟩
        exact (hnothing k).1 state hsees
      · rintro ⟨k, hsees, -⟩
        exact (hnothing k).2 hsees
    · constructor
      · rintro ⟨k', state, hsees, hanswered⟩
        obtain ⟨rfl, rfl⟩ := FirstShown.unique hboot hsees
        rw [hmoment] at hanswered
        exact ⟨l, hrestart, hanswered⟩
      · rintro ⟨l', hsees, hanswered⟩
        obtain ⟨rfl, -⟩ := FirstShown.unique hrestart hsees
        rw [← hmoment] at hanswered
        exact ⟨k, _, hboot, hanswered⟩

end Triggers

section Schedule

/-- A board that answers each key that ends a line, or the interrupt, with its
next text. -/
def scripted : Device where
  State := List UInt8 × List (List UInt8)
  tick s := (([], s.2), s.1)
  input s byte :=
    if byte = 13 ∨ byte = 32 then
      (s.1 ++ s.2.headD [], s.2.tail)
    else s
  quota s := s.1.length + s.2.flatten.length
  tick_quota s := by
    simp
  input_quota s byte := by
    split
    · obtain ⟨sending, replies⟩ := s
      cases replies <;> simp [Nat.add_assoc]
    · exact le_rfl

/-- A reset, a reboot and the relay make the board send its next text. -/
theorem scripted_triggers (capacity latency : Nat) (first : List UInt8)
    (rest : List (List UInt8)) (hcapacity : 0 < capacity)
    (hquota : first.length + rest.flatten.length < 2 ^ 64) :
    ∃ u v w : Bench scripted,
      Triggers simulated (first, rest) capacity latency 0 u v w := by
  have hbefore : scripted.quota ([], first :: rest) < 2 ^ 64 := by
    simpa [scripted] using hquota
  exact ⟨scripted.bench (first, rest) capacity latency hcapacity hquota,
    scripted.bench ([], first :: rest) capacity 0 hcapacity hbefore,
    scripted.bench ([], first :: rest) capacity 0 hcapacity hbefore,
    ⟨Nat.zero_le _, rfl, rfl, rfl⟩⟩

/-- A board that is past the countdown when it is polled. -/
def superseded : scripted.State :=
  (utf8 "Hit any key U-Boot>", [utf8 "U-Boot>"])

/--
The countdown has been superseded by the prompt at the first poll that shows
anything: `power_on_uboot` synchronizes with the prompt, and both restarts fail.
-/
theorem restarts_miss_superseded_countdown :
    ∃ (u v w : Bench scripted) (booted : Result Booted × Bool)
        (reset reboot : Result OperationResult),
      Triggers simulated superseded 262144 40 0 u v w ∧
      Yields (bootPhase simulated 100 0) u booted ∧
      Yields (resetIntoUboot simulatedRegistry "simulated" 100).run v reset ∧
      Yields (rebootIntoUboot simulatedRegistry "simulated" 100).run w
        reboot ∧
      booted.1.isOk = true ∧ reset.isOk = false ∧ reboot.isOk = false := by
  obtain ⟨u, v, w, htriggers⟩ := scripted_triggers 262144 40
    (utf8 "Hit any key U-Boot>") [utf8 "U-Boot>"] (by decide) (by decide)
  obtain ⟨booted, reset, reboot, hbooted, hreset, hreboot, hbootedIff,
    hresetIff, hsame⟩ := htriggers.yield simulatedRegistry_board 100
  have hboots : ((Scene.triggered superseded 262144).before 40).boots simulated
      100 = true := by
    decide +kernel
  have hrestarts : ((Scene.triggered superseded 262144).wait
      simulated.timing.serialPacingMs).restarts simulated 100 = false := by
    decide +kernel
  have hmissed : reset.isOk = false := by
    rw [← Bool.not_eq_true, hresetIff, ← Scene.restarts_iff]
    exact Bool.not_eq_true _ ▸ hrestarts
  exact ⟨u, v, w, booted, reset, reboot, htriggers, hbooted, hreset, hreboot,
    hbootedIff.mpr ((Scene.boots_iff _ _).mp hboots), hmissed,
    hsame.trans hmissed⟩

/-- A board that shows the countdown until it is interrupted. -/
def counting : scripted.State :=
  (utf8 "Hit any key", [utf8 "U-Boot>"])

/-- The countdown is seen in all three ways, and at the same moment. -/
theorem ubootEntries_agree_iff_countdown :
    ∃ (u v w : Bench scripted) (booted : Result Booted × Bool),
      Triggers simulated counting 262144 100 0 u v w ∧
      Yields (bootPhase simulated 200 0) u booted ∧ booted.1.isOk = true ∧
      Agree simulatedRegistry "simulated" simulated 200 0 u v w := by
  obtain ⟨u, v, w, htriggers⟩ := scripted_triggers 262144 100
    (utf8 "Hit any key") [utf8 "U-Boot>"] (by decide) (by decide)
  obtain ⟨hyield, hagree⟩ := ubootEntries_agree_iff simulatedRegistry_board
    counting 262144 100 200
  obtain ⟨booted, -, -, hbooted, -, -, hbootedIff, -⟩ :=
    hyield 0 u v w htriggers
  have hboots : ((Scene.triggered counting 262144).before 100).boots simulated
      200 = true := by
    decide +kernel
  have hcountdown : ((Scene.triggered counting 262144).wait 100).seen
      simulated = .ubootCountdown := by
    decide +kernel
  have hdark := Scene.seen_triggered simulated counting 262144
  have hbootSees : BootSees simulated 200 100
      (Scene.triggered counting 262144) 2 .ubootCountdown := by
    refine ⟨by decide, hcountdown, by decide, fun j hj => ?_⟩
    have hzero : 100 * j - 100 = 0 := by omega
    rw [bootView, hzero, Scene.wait, hdark]
    decide
  have hrestartSees : RestartSees simulated 200
      (Scene.triggered counting 262144) 1 := by
    refine ⟨by decide, hcountdown, by decide, fun j hj => ?_⟩
    obtain rfl : j = 0 := by omega
    rw [restartView]
    exact hdark ▸ by decide
  refine ⟨u, v, w, booted, htriggers, hbooted,
    hbootedIff.mpr ((Scene.boots_iff _ _).mp hboots), ?_⟩
  exact (hagree (by decide) (by decide)).mpr
    (.inr (.inr ⟨2, 1, hbootSees, hrestartSees, by decide⟩)) scripted counting
    ⟨rfl, fun _ => rfl⟩ 0 u v w htriggers

end Schedule

end RpictlMcp
