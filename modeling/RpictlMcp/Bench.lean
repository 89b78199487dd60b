import RpictlMcp.StateWait

/-!
# rpictl-mcp: a board on a bench

On the bench time passes only while a program sleeps, a board is a device that
is connected to the serial port, every write succeeds, and so does the power
worker once its time has come.  The relay of the board switches at some moment,
which is not later than that; before it the board is off: it sends nothing, and
what is written to it is lost.  What a program does is then determined by the
state of the board and by what it has received.

`Scene` keeps of all this what a wait with a cursor can notice: the state of the
board, the capacity of the ring, the bytes since the cursor, and how long it takes
until the relay switches.
-/

namespace RpictlMcp

open Prog

/--
A device at a serial port: in each millisecond it sends some bytes and comes to
a new state, and each byte that it receives changes its state at once.  It sends
finitely much: its state has a quota, which sending uses up and nothing
increases.
-/
structure Device where
  State : Type
  tick : State → State × List UInt8
  input : State → UInt8 → State
  quota : State → Nat
  tick_quota : ∀ s, (tick s).2.length + quota (tick s).1 ≤ quota s
  input_quota : ∀ s byte, quota (input s byte) ≤ quota s

namespace Console

theorem capacity_pos (console : Console) : 0 < console.capacity := by
  by_contra hzero
  have hrun := console.run
  have hnew : SerialRing.new console.capacity = .error .assertionFailed :=
    if_neg hzero
  simp only [runNewRing, hnew, Bind.bind, Except.bind] at hrun
  cases hrun

/-- The console after one more read of the serial port. -/
def receive (console : Console) (timestamp : SystemTime) (input : List UInt8)
    (hfits : (console.stream ++ input).length < 2 ^ 64) : Console :=
  match hrun : runNewRing console.capacity
      (console.history ++ [.append timestamp input]) with
  | .ok ring => ⟨console.capacity, _, ring, hrun⟩
  | .error _ => False.elim (by
      obtain ⟨ring, hring, -⟩ := runNewRing_retains console.capacity_pos
        (console.history ++ [.append timestamp input]) (by
          simpa [stream, RingOp.input] using hfits)
      rw [hring] at hrun
      cases hrun)

variable {console : Console} {timestamp : SystemTime} {input : List UInt8}
variable {hfits : (console.stream ++ input).length < 2 ^ 64}

theorem receive_sends :
    console.Sends (console.receive timestamp input hfits) input := by
  unfold receive
  split
  · exact ⟨rfl, timestamp, rfl⟩
  · rename_i hrun
    obtain ⟨ring, hring, -⟩ := runNewRing_retains console.capacity_pos
      (console.history ++ [.append timestamp input]) (by
        simpa [stream, RingOp.input] using hfits)
    rw [hring] at hrun
    cases hrun

@[simp] theorem receive_stream :
    (console.receive timestamp input hfits).stream = console.stream ++ input :=
  receive_sends.stream

@[simp] theorem receive_capacity :
    (console.receive timestamp input hfits).capacity = console.capacity :=
  receive_sends.1

@[simp] theorem mark_stream : console.mark.stream = console.stream := by
  simp [stream, mark, RingOp.input]

end Console

/-- A board at some moment, when its relay switches, when the power worker is
done with it, and what the service knows of it. -/
structure Bench (device : Device) where
  now : Nat
  state : device.State
  console : Console
  switched : Nat
  powered : Nat
  verified : switched ≤ powered
  fits : console.stream.length + device.quota state < 2 ^ 64

namespace Bench

variable {device : Device}

/-- What the board comes to in the next millisecond, and what it sends. -/
def step (w : Bench device) : device.State × List UInt8 :=
  if w.now < w.switched then (w.state, []) else device.tick w.state

theorem step_quota (w : Bench device) :
    w.step.2.length + device.quota w.step.1 ≤ device.quota w.state := by
  unfold step
  split
  · simp
  · exact device.tick_quota w.state

/-- One millisecond later. -/
def tick (w : Bench device) : Bench device :=
  { w with
    now := w.now + 1
    state := w.step.1
    console := w.console.receive w.now w.step.2 (by
      have hfits := w.fits
      have hquota := w.step_quota
      rw [List.length_append]
      omega)
    fits := by
      have hfits := w.fits
      have hquota := w.step_quota
      rw [Console.receive_stream, List.length_append]
      omega }

/-- Some milliseconds later. -/
def wait (w : Bench device) : Nat → Bench device
  | 0 => w
  | n + 1 => w.tick.wait n

/-- A byte has been written; a board that is on has received it. -/
def feed (w : Bench device) (byte : UInt8) : Bench device :=
  { w with
    state := if w.now < w.switched then w.state else device.input w.state byte
    fits := by
      have hfits := w.fits
      have hquota := device.input_quota w.state byte
      split
      · exact hfits
      · omega }

/-- The board has received some bytes, each followed by a pause. -/
def type (pacing : Nat) (w : Bench device) : List UInt8 → Bench device
  | [] => w
  | byte :: bytes => type pacing ((w.feed byte).wait pacing) bytes

/-- A generation boundary. -/
def mark (w : Bench device) : Bench device :=
  { w with
    console := w.console.mark
    fits := by
      have hfits := w.fits
      rwa [Console.mark_stream] }

end Bench

/-- What a power query reports of a board that has been switched on. -/
def poweredOn : PowerObservation :=
  ⟨"on", true, utf8 "OnOff: TRUE"⟩

/-- What an action does on the bench. -/
def benchSem {device : Device} (o : BoardSig.Op) (w : Bench device)
    (r : BoardSig.Resp o) (w' : Bench device) : Prop :=
  match o, r with
  | .newUuid, uuid => uuid = "" ∧ w' = w
  | .nowMs, now => now = w.now ∧ w' = w
  | .instantNow, now => now = w.now ∧ w' = w
  | .sleep ms, _ => w' = w.wait ms
  | .acquireLease _ _, heldBy => heldBy = none ∧ w' = w
  | .releaseLease _, _ => w' = w
  | .lockSerial, ring => ring = w.console.ring ∧ w' = w
  | .markGeneration, generation =>
      generation = w.mark.console.ring.generation ∧ w' = w.mark
  | .lockWriter, lock => lock = .opened ∧ w' = w
  | .writeByte byte, error => error = none ∧ w' = w.feed byte
  | .flush, error => error = none ∧ w' = w
  | .workerFinished, finished =>
      finished = decide (w.powered ≤ w.now) ∧ w' = w
  | .joinWorker, outcome =>
      outcome = .returned (.ok poweredOn) ∧ w.powered ≤ w.now ∧ w' = w
  | _, _ => False

section Bench

variable {device : Device}

/-- The bench answers every action in one way. -/
theorem benchSem_unique (o : BoardSig.Op) (w : Bench device)
    (r : BoardSig.Resp o) (w' : Bench device) (r' : BoardSig.Resp o)
    (w'' : Bench device) (h : benchSem o w r w') (h' : benchSem o w r' w'') :
    r = r' ∧ w' = w'' := by
  cases o with
  | joinWorker =>
      obtain ⟨rfl, -, rfl⟩ := h
      obtain ⟨rfl, -, rfl⟩ := h'
      exact ⟨rfl, rfl⟩
  | sleep ms => exact ⟨rfl, h.trans h'.symm⟩
  | releaseLease owner => exact ⟨rfl, h.trans h'.symm⟩
  | _ =>
      first
        | exact h.elim
        | (obtain ⟨rfl, rfl⟩ := h
           obtain ⟨rfl, rfl⟩ := h'
           exact ⟨rfl, rfl⟩)

end Bench

/-- What a wait with a cursor can notice of a board, and for how many
milliseconds the board is still off. -/
structure Scene (device : Device) where
  state : device.State
  capacity : Nat
  fresh : List UInt8
  dark : Nat

namespace Scene

variable {device : Device}

/-- One millisecond later. -/
def tick (x : Scene device) : Scene device :=
  match x.dark with
  | 0 =>
      { x with
        state := (device.tick x.state).1
        fresh := x.fresh ++ (device.tick x.state).2 }
  | n + 1 => { x with dark := n }

/-- Some milliseconds later. -/
def wait (x : Scene device) : Nat → Scene device
  | 0 => x
  | n + 1 => x.tick.wait n

/-- A byte has been written; a board that is on has received it. -/
def feed (x : Scene device) (byte : UInt8) : Scene device :=
  match x.dark with
  | 0 => { x with state := device.input x.state byte }
  | _ + 1 => x

/-- The board has received some bytes, each followed by a pause. -/
def type (pacing : Nat) (x : Scene device) : List UInt8 → Scene device
  | [] => x
  | byte :: bytes => type pacing ((x.feed byte).wait pacing) bytes

/-- A new cursor has been taken. -/
def renew (x : Scene device) : Scene device :=
  { x with fresh := [] }

/-- The state that the fresh bytes show. -/
def seen (profile : BoardProfile) (x : Scene device) : BoardState :=
  profile.patterns.observed
    ((x.fresh.drop (x.fresh.length - x.capacity)).take observationBytes)

/--
A wait for one of some states: the state that is seen first at one of the polls,
and how the board is then.  There are as many polls as the number says, and one.
-/
def await (profile : BoardProfile) (states : List BoardState) :
    Nat → Scene device → Option (BoardState × Scene device)
  | 0, x => (requested states (x.seen profile)).map fun state => (state, x)
  | n + 1, x =>
      match requested states (x.seen profile) with
      | some state => some (state, x)
      | none => await profile states n (x.wait 100)

end Scene

/-- How often a wait polls after its first poll. -/
def pollsWithin (timeoutMs : Nat) : Nat :=
  (timeoutMs + 99) / 100

/-- What a wait with a cursor can notice. -/
def Bench.scene {device : Device} (w : Bench device) (cursor : Nat) :
    Scene device :=
  ⟨w.state, w.console.capacity, w.console.stream.drop cursor,
    w.switched - w.now⟩

section Scene

variable {device : Device} {w : Bench device} {cursor : Nat}

/-- A cursor that has been taken. -/
def Bench.Taken (w : Bench device) (cursor : Nat) : Prop :=
  cursor ≤ w.console.stream.length

theorem Bench.Taken.tick (h : w.Taken cursor) : w.tick.Taken cursor := by
  unfold Bench.Taken at h ⊢
  rw [Bench.tick, Console.receive_stream, List.length_append]
  omega

theorem Bench.Taken.wait (h : w.Taken cursor) (n : Nat) :
    (w.wait n).Taken cursor := by
  induction n generalizing w with
  | zero => exact h
  | succ n ih => exact ih h.tick

theorem Bench.scene_tick (h : w.Taken cursor) :
    w.tick.scene cursor = (w.scene cursor).tick := by
  have hfresh : w.tick.console.stream.drop cursor =
      w.console.stream.drop cursor ++ w.step.2 := by
    rw [Bench.tick, Console.receive_stream, List.drop_append_of_le_length h]
  have hnext : w.tick.scene cursor = ⟨w.step.1, w.console.capacity,
      w.console.stream.drop cursor ++ w.step.2,
      w.switched - (w.now + 1)⟩ := by
    rw [← hfresh]
    simp only [Bench.scene, Bench.tick, Console.receive_capacity]
  rw [hnext]
  unfold Bench.step Scene.tick
  by_cases hdark : w.now < w.switched
  · obtain ⟨n, hn⟩ := Nat.exists_eq_add_of_lt hdark
    have hleft : w.switched - w.now = n + 1 := by omega
    have hthen : w.switched - (w.now + 1) = n := by omega
    simp [Bench.scene, hdark, hleft, hthen]
  · have hleft : w.switched - w.now = 0 := by omega
    have hthen : w.switched - (w.now + 1) = 0 := by omega
    simp [Bench.scene, hdark, hleft, hthen]

theorem Bench.scene_wait (h : w.Taken cursor) (n : Nat) :
    (w.wait n).scene cursor = (w.scene cursor).wait n := by
  induction n generalizing w with
  | zero => rfl
  | succ n ih =>
      rw [Bench.wait, ih h.tick, Bench.scene_tick h]
      rfl

theorem Bench.scene_feed (byte : UInt8) :
    (w.feed byte).scene cursor = (w.scene cursor).feed byte := by
  unfold Bench.feed Scene.feed
  by_cases hdark : w.now < w.switched
  · obtain ⟨n, hn⟩ := Nat.exists_eq_add_of_lt hdark
    have hleft : w.switched - w.now = n + 1 := by omega
    simp [Bench.scene, hdark, hleft]
  · have hleft : w.switched - w.now = 0 := by omega
    simp [Bench.scene, hdark, hleft]

theorem Bench.Taken.type (pacing : Nat) (h : w.Taken cursor)
    (bytes : List UInt8) : (w.type pacing bytes).Taken cursor := by
  induction bytes generalizing w with
  | nil => exact h
  | cons byte bytes ih => exact ih (Bench.Taken.wait (w := w.feed byte) h _)

theorem Bench.scene_type (pacing : Nat) (h : w.Taken cursor)
    (bytes : List UInt8) :
    (w.type pacing bytes).scene cursor =
      (w.scene cursor).type pacing bytes := by
  induction bytes generalizing w with
  | nil => rfl
  | cons byte bytes ih =>
      have hfed : (w.feed byte).Taken cursor := h
      rw [Bench.type, ih (hfed.wait pacing), Bench.scene_wait hfed,
        Bench.scene_feed]
      rfl

/-- What a new cursor makes of a scene. -/
theorem Bench.scene_nextCursor (w : Bench device) (cursor : Nat) :
    w.scene w.console.ring.nextCursor = (w.scene cursor).renew := by
  unfold Bench.scene Scene.renew
  rw [w.console.nextCursor_ring, List.drop_length]

theorem Bench.taken_nextCursor (w : Bench device) :
    w.Taken w.console.ring.nextCursor :=
  w.console.nextCursor_ring.le

/-- A poll sees what the scene shows. -/
theorem Bench.stateAfter_scene (profile : BoardProfile) (w : Bench device)
    (cursor : Nat) :
    stateAfter profile w.console.ring cursor =
      (w.scene cursor).seen profile := by
  rw [stateAfter_eq, Console.retainedAfter, Scene.seen]
  simp only [Bench.scene, List.drop_drop, List.length_drop]
  congr 3
  omega

end Scene

section Runs

variable {device : Device} {w v w' : Bench device} {α β σ : Type}

/-- On the bench an action comes to a result. -/
abbrev BenchActs (action : Action α) (w : Bench device) (r : Result α)
    (w' : Bench device) : Prop :=
  Returns benchSem action.run w r w'

theorem BenchActs.bind {x : Action α} {f : α → Action β} {a : α}
    {r : Result β} (hx : BenchActs x w (.ok a) v)
    (hf : BenchActs (f a) v r w') : BenchActs (x >>= f) w r w' :=
  Returns.bind hx hf

theorem BenchActs.fail {x : Action α} {f : α → Action β} {e : Error}
    (hx : BenchActs x w (.error e) v) : BenchActs (x >>= f) w (.error e) v :=
  Returns.bind hx (Returns.pure _ _)

theorem BenchActs.step {o : BoardOp} {f : o.Resp → Action β} {r : o.Resp}
    {result : Result β} (h : benchSem o w r v)
    (hrest : BenchActs (f r) v result w') :
    BenchActs (act o >>= f) w result w' :=
  BenchActs.bind (Returns.bind (Returns.perform h) (Returns.pure _ _)) hrest

theorem benchSem_sleep (w : Bench device) (ms : Nat) :
    benchSem (.sleep ms) w () (w.wait ms) := rfl

variable {profile : BoardProfile}

theorem writeBytes_bench (w : Bench device) (bytes : List UInt8) :
    BenchActs (writeBytes profile bytes) w (.ok ())
      (w.type profile.timing.serialPacingMs bytes) := by
  induction bytes generalizing w with
  | nil => exact Returns.pure _ _
  | cons byte bytes ih =>
      refine BenchActs.step (o := .writeByte byte) (r := (none : Option Text))
        ⟨rfl, rfl⟩ ?_
      simp only
      split
      · exact BenchActs.step (benchSem_sleep _ _) (ih _)
      · rename_i hpacing
        have hnone : profile.timing.serialPacingMs = 0 :=
          Nat.eq_zero_of_not_pos hpacing
        have hrest := ih (w.feed byte)
        rw [Bench.type, hnone, Bench.wait]
        rwa [hnone] at hrest

theorem writeConsole_bench (w : Bench device) (bytes : List UInt8) :
    BenchActs (writeConsole profile bytes) w (.ok ())
      (w.type profile.timing.serialPacingMs bytes) := by
  refine BenchActs.step (o := .lockWriter) (r := WriterLock.opened)
    ⟨rfl, rfl⟩ ?_
  refine BenchActs.bind (writeBytes_bench w bytes) ?_
  exact BenchActs.step (o := .flush) (r := (none : Option Text)) ⟨rfl, rfl⟩
    (Returns.pure _ _)

theorem nextCursor_bench (w : Bench device) :
    BenchActs nextCursor w (.ok w.console.ring.nextCursor) w :=
  BenchActs.step (o := .lockSerial) ⟨rfl, rfl⟩ (Returns.pure _ _)

/-- A check before a poll that lets the wait go on. -/
def Idle (device : Device) (check : σ → Prog BoardSig (Result Unit × σ)) :
    Prop :=
  ∀ s (w : Bench device), ∃ s', Returns benchSem (check s) w (.ok (), s') w

theorem idle_pure : Idle device fun () => return (.ok (), ()) :=
  fun _ _ => ⟨(), Returns.pure _ _⟩

theorem idle_checkPower : Idle device checkPower := by
  intro pending w
  cases pending with
  | false => exact ⟨false, Returns.pure _ _⟩
  | true =>
      by_cases hpowered : w.powered ≤ w.now
      · have hfinished : benchSem .workerFinished w true w :=
          ⟨(decide_eq_true hpowered).symm, rfl⟩
        refine ⟨false, Returns.bind (Returns.perform hfinished) ?_⟩
        refine Returns.bind ?_ (Returns.pure _ _)
        exact Returns.bind (Returns.perform ⟨rfl, hpowered, rfl⟩)
          (Returns.pure _ _)
      · have hrunning : benchSem .workerFinished w false w :=
          ⟨(decide_eq_false hpowered).symm, rfl⟩
        exact ⟨true, Returns.bind (Returns.perform hrunning)
          (Returns.pure _ _)⟩

theorem Bench.wait_now (w : Bench device) (n : Nat) :
    (w.wait n).now = w.now + n := by
  induction n generalizing w with
  | zero => rfl
  | succ n ih =>
      rw [Bench.wait, ih]
      simp only [Bench.tick]
      omega

/-- What a wait makes of the state that it has seen. -/
def awaited (seen : Option (BoardState × Scene device)) : Result BoardState :=
  match seen with
  | some (state, _) => .ok state
  | none => .error (stateTimeout
      "fresh requested state was not observed before timeout")

/-- How a wait ends. -/
structure WaitEnds (cursor : Nat) (seen : Option (BoardState × Scene device))
    (r : Result BoardState) (w : Bench device) : Prop where
  result : r = awaited seen
  taken : w.Taken cursor
  scene : ∀ state x, seen = some (state, x) → w.scene cursor = x

theorem WaitEnds.found {cursor : Nat} {w : Bench device} (h : w.Taken cursor)
    (state : BoardState) :
    WaitEnds cursor (some (state, w.scene cursor)) (.ok state) w where
  result := rfl
  taken := h
  scene := by
    rintro _ _ ⟨⟩
    rfl

theorem WaitEnds.late {cursor : Nat} {w : Bench device} (h : w.Taken cursor) :
    WaitEnds cursor none
      (awaited (none : Option (BoardState × Scene device))) w where
  result := rfl
  taken := h
  scene := by
    rintro _ _ ⟨⟩

/-- The answer of a poll. -/
theorem Bench.pollAfter_scene (profile : BoardProfile)
    (states : List BoardState) (w : Bench device) (cursor : Nat) :
    pollAfter profile states cursor w.console.ring =
      requested states ((w.scene cursor).seen profile) := by
  rw [pollAfter, Bench.stateAfter_scene]

/-- A wait that has so many polls left still has time for all but the last. -/
structure PollsLeft (started timeoutMs n : Nat) (w : Bench device) : Prop where
  enough : started + timeoutMs ≤ w.now + 100 * n
  early : ∀ m, n = m + 1 → w.now + 100 * m < started + timeoutMs

/-- On the bench a wait with a cursor ends, as its scene says. -/
theorem waitForStatesAfterChecked_bench {states : List BoardState}
    {cursor : Nat} {check : σ → Prog BoardSig (Result Unit × σ)}
    (hcheck : Idle device check) (htaken : w.Taken cursor) (timeoutMs : Nat)
    (s : σ) :
    Ends benchSem (waitForStatesAfterChecked profile states timeoutMs cursor
      check s) w fun r w' => WaitEnds cursor ((w.scene cursor).await profile
        states (pollsWithin timeoutMs)) r.1 w' := by
  refine Returns.bind_ends (a := w.now) (v := w)
    (Returns.perform ⟨rfl, rfl⟩) ?_
  refine Ends.iterate (fun n _ v => v.Taken cursor ∧
    (v.scene cursor).await profile states n = (w.scene cursor).await profile
      states (pollsWithin timeoutMs) ∧ PollsLeft w.now timeoutMs n v) ?_
    (n := pollsWithin timeoutMs) ⟨htaken, rfl, ?_, ?_⟩
  · rintro n s v ⟨hv, hawait, hleft⟩
    obtain ⟨s', hchecked⟩ := hcheck s v
    refine Returns.bind_ends hchecked ?_
    refine Returns.bind_ends (a := v.console.ring) (v := v)
      (Returns.perform ⟨rfl, rfl⟩) ?_
    rw [Bench.pollAfter_scene]
    cases hpoll : requested states ((v.scene cursor).seen profile) with
    | some state =>
        have hseen : (v.scene cursor).await profile states n =
            some (state, v.scene cursor) := by
          cases n <;> simp [Scene.await, hpoll]
        rw [← hawait, hseen]
        exact (Returns.pure _ _).ends (.found hv state)
    | none =>
        refine Returns.bind_ends (a := v.now) (v := v)
          (Returns.perform ⟨rfl, rfl⟩) ?_
        cases n with
        | zero =>
            have hseen : (v.scene cursor).await profile states 0 = none := by
              simp [Scene.await, hpoll]
            have hlate : w.now + timeoutMs ≤ v.now := by
              simpa using hleft.enough
            rw [if_pos hlate, ← hawait, hseen]
            exact (Returns.pure _ _).ends (.late hv)
        | succ n =>
            have hleast := hleft.early n rfl
            have henough := hleft.enough
            have hearly : ¬ w.now + timeoutMs ≤ v.now := by omega
            rw [if_neg hearly]
            refine Returns.bind_ends (Returns.perform
              (benchSem_sleep v 100)) ?_
            refine (Returns.pure _ _).ends ⟨n, Nat.lt_succ_self n,
              hv.wait 100, ?_, ?_, ?_⟩
            · rw [Bench.scene_wait hv, ← hawait]
              simp [Scene.await, hpoll]
            · rw [Bench.wait_now]
              omega
            · intro m hm
              rw [Bench.wait_now]
              omega
  · simp only [pollsWithin]
    omega
  · intro m hm
    simp only [pollsWithin] at hm
    omega

end Runs

end RpictlMcp
