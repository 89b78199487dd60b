import RpictlMcp.Error
import Mathlib.Logic.Relation
import Mathlib.Logic.Function.Basic

/-!
# rpictl-mcp: the board lease

This module embeds `lease.rs`.  `BoardLease` is a mutex around the stored owner
and a condition variable.  The mutex makes each locked section one step, so the
code is given by what one locked section does: `acquireCheck` is one evaluation
of the loop condition of `acquire` together with what follows it before the
mutex is released again, `guardDrop` is the body of `drop`.

`LeaseStep` runs any number of calls side by side.  A party is one call of
`acquire` and the guard it may return; its phase says where it stands.  The wait
of `wait_timeout` may end by a notification, by its timeout or spuriously, and
`notify_one` may pick a party whose wait has already ended in another way but
which has not yet looked at the lease again.

`LeaseSpec` is the purpose of the component: a cell that holds at most one
party with its owner record.  `Represents` connects a state of the protocol to
the cell, and every protocol step is a step of the cell or leaves it alone.
-/

namespace RpictlMcp

/-- The operation that holds a lease. -/
structure LeaseOwner where
  operationId : String
  operation : String
deriving DecidableEq, Repr

/-- The error of an `acquire` whose time ran out. -/
def leaseBusy (heldBy : String) : Error :=
  Error.new .boardBusy "lease"
    (utf8 "board lease is held by operation " ++ utf8 heldBy)

/-- How one locked section of `acquire` ends. -/
inductive LeaseCheck where
  | acquired
  | failed (error : Error)
  | waiting
deriving DecidableEq, Repr

/--
One locked section of `acquire`: the loop test on the stored owner, and then
taking the lease, failing or starting the next wait.
-/
def acquireCheck (current : Option LeaseOwner) (owner : LeaseOwner)
    (remainingIsZero : Bool) : Option LeaseOwner × LeaseCheck :=
  match current with
  | none => (some owner, .acquired)
  | some held =>
      if remainingIsZero then
        (current, .failed (leaseBusy held.operationId))
      else
        (current, .waiting)

/-- `drop`: the new stored owner, and whether a waiter is notified. -/
def guardDrop (current : Option LeaseOwner) (own : LeaseOwner) :
    Option LeaseOwner × Bool :=
  if current = some own then (none, true) else (current, false)

/-- Where one call of `acquire` stands. -/
inductive LeasePhase where
  | idle
  | entering (owner : LeaseOwner)
  | blocked (owner : LeaseOwner)
  | woken (owner : LeaseOwner)
  | holding (owner : LeaseOwner)
deriving DecidableEq, Repr

/-- The owner of a party that is about to run a locked section of `acquire`. -/
def LeasePhase.checking : LeasePhase → Option LeaseOwner
  | .entering owner => some owner
  | .woken owner => some owner
  | _ => none

/-- The owner of a party whose `wait_timeout` has not returned yet. -/
def LeasePhase.inWait : LeasePhase → Option LeaseOwner
  | .blocked owner => some owner
  | .woken owner => some owner
  | _ => none

/-- The stored owner and the phase of every party. -/
structure LeaseState (P : Type) where
  stored : Option LeaseOwner
  phase : P → LeasePhase

/-- A lease nobody has asked for. -/
def LeaseState.initial (P : Type) : LeaseState P :=
  ⟨none, fun _ => .idle⟩

/-- What a step does, as the parties see it. -/
inductive LeaseEvent (P : Type) where
  | enter (p : P) (owner : LeaseOwner)
  | acquired (p : P) (owner : LeaseOwner)
  | failed (p : P) (error : Error)
  | waiting (p : P)
  | wake (p : P)
  | drop (p : P) (owner : LeaseOwner)
  | readOwner (value : Option LeaseOwner)

section BoardLease

variable {P : Type}

/-- The stored owner changes. -/
def LeaseState.setStored (s : LeaseState P) (stored : Option LeaseOwner) :
    LeaseState P :=
  { s with stored := stored }

@[simp] theorem LeaseState.setStored_stored (s : LeaseState P)
    (stored : Option LeaseOwner) : (s.setStored stored).stored = stored := rfl

@[simp] theorem LeaseState.setStored_phase (s : LeaseState P)
    (stored : Option LeaseOwner) : (s.setStored stored).phase = s.phase := rfl

variable [DecidableEq P]

/-- One party changes its phase. -/
def LeaseState.setPhase (s : LeaseState P) (p : P) (phase : LeasePhase) :
    LeaseState P :=
  { s with phase := Function.update s.phase p phase }

/--
`notify_one`: some party inside `wait_timeout` is woken, or nobody is inside.
-/
inductive Notified : LeaseState P → LeaseState P → Prop
  | one {s : LeaseState P} {q : P} {owner : LeaseOwner}
      (hq : (s.phase q).inWait = some owner) :
      Notified s (s.setPhase q (.woken owner))
  | nobody {s : LeaseState P} (hs : ∀ q, (s.phase q).inWait = none) :
      Notified s s

/-- The steps of any number of parties around one lease. -/
inductive LeaseStep : LeaseState P → LeaseEvent P → LeaseState P → Prop
  | enter {s : LeaseState P} {p : P} (owner : LeaseOwner)
      (hp : s.phase p = .idle) :
      LeaseStep s (.enter p owner) (s.setPhase p (.entering owner))
  | acquired {s : LeaseState P} {p : P} {owner : LeaseOwner}
      {stored : Option LeaseOwner} (remainingIsZero : Bool)
      (hp : (s.phase p).checking = some owner)
      (hcheck : acquireCheck s.stored owner remainingIsZero =
        (stored, .acquired)) :
      LeaseStep s (.acquired p owner)
        ((s.setStored stored).setPhase p (.holding owner))
  | failed {s : LeaseState P} {p : P} {owner : LeaseOwner}
      {stored : Option LeaseOwner} {error : Error} (remainingIsZero : Bool)
      (hp : (s.phase p).checking = some owner)
      (hcheck : acquireCheck s.stored owner remainingIsZero =
        (stored, .failed error)) :
      LeaseStep s (.failed p error) ((s.setStored stored).setPhase p .idle)
  | waiting {s : LeaseState P} {p : P} {owner : LeaseOwner}
      {stored : Option LeaseOwner} (remainingIsZero : Bool)
      (hp : (s.phase p).checking = some owner)
      (hcheck : acquireCheck s.stored owner remainingIsZero =
        (stored, .waiting)) :
      LeaseStep s (.waiting p)
        ((s.setStored stored).setPhase p (.blocked owner))
  | wake {s : LeaseState P} {p : P} {owner : LeaseOwner}
      (hp : s.phase p = .blocked owner) :
      LeaseStep s (.wake p) (s.setPhase p (.woken owner))
  | drop {s s' : LeaseState P} {p : P} {owner : LeaseOwner}
      {stored : Option LeaseOwner}
      (hp : s.phase p = .holding owner)
      (hdrop : guardDrop s.stored owner = (stored, true))
      (hnotify : Notified ((s.setStored stored).setPhase p .idle) s') :
      LeaseStep s (.drop p owner) s'
  | dropForeign {s : LeaseState P} {p : P} {owner : LeaseOwner}
      {stored : Option LeaseOwner}
      (hp : s.phase p = .holding owner)
      (hdrop : guardDrop s.stored owner = (stored, false)) :
      LeaseStep s (.drop p owner) ((s.setStored stored).setPhase p .idle)
  | readOwner {s : LeaseState P} :
      LeaseStep s (.readOwner s.stored) s

/-- A finite run, with the events of its steps in order. -/
inductive LeaseRun : LeaseState P → List (LeaseEvent P) → LeaseState P → Prop
  | nil {s : LeaseState P} : LeaseRun s [] s
  | snoc {s s' s'' : LeaseState P} {events : List (LeaseEvent P)}
      {event : LeaseEvent P} (hrun : LeaseRun s events s')
      (hstep : LeaseStep s' event s'') :
      LeaseRun s (events ++ [event]) s''

@[simp] theorem LeaseState.setPhase_stored (s : LeaseState P) (p : P)
    (phase : LeasePhase) : (s.setPhase p phase).stored = s.stored := rfl

@[simp] theorem LeaseState.setPhase_self (s : LeaseState P) (p : P)
    (phase : LeasePhase) : (s.setPhase p phase).phase p = phase := by
  simp [LeaseState.setPhase]

theorem LeaseState.setPhase_of_ne (s : LeaseState P) {p q : P}
    (phase : LeasePhase) (hne : q ≠ p) :
    (s.setPhase p phase).phase q = s.phase q := by
  simp [LeaseState.setPhase, hne]

/-- A phase other than the new one stands where it stood before. -/
theorem LeaseState.setPhase_eq_iff {s : LeaseState P} {p q : P}
    {phase target : LeasePhase} (hne : phase ≠ target) :
    (s.setPhase p phase).phase q = target ↔ q ≠ p ∧ s.phase q = target := by
  by_cases hq : q = p
  · subst hq
    simp [hne]
  · simp [s.setPhase_of_ne phase hq, hq]

/-- A lease is taken only when it was free. -/
theorem acquireCheck_acquired {current stored : Option LeaseOwner}
    {owner : LeaseOwner} {remainingIsZero : Bool}
    (h : acquireCheck current owner remainingIsZero = (stored, .acquired)) :
    current = none ∧ stored = some owner := by
  cases current with
  | none =>
      simp only [acquireCheck, Prod.mk.injEq, and_true] at h
      exact ⟨rfl, h.symm⟩
  | some held =>
      simp only [acquireCheck] at h
      split at h <;> simp at h

/-- A failing test leaves the lease alone and names its holder. -/
theorem acquireCheck_failed {current stored : Option LeaseOwner}
    {owner : LeaseOwner} {remainingIsZero : Bool} {error : Error}
    (h : acquireCheck current owner remainingIsZero =
      (stored, .failed error)) :
    stored = current ∧
      ∃ held, current = some held ∧ error = leaseBusy held.operationId := by
  cases current with
  | none => simp [acquireCheck] at h
  | some held =>
      simp only [acquireCheck] at h
      split at h
      · simp only [Prod.mk.injEq, LeaseCheck.failed.injEq] at h
        exact ⟨h.1.symm, held, rfl, h.2.symm⟩
      · simp at h

/-- A wait leaves the lease alone and starts only when it is held. -/
theorem acquireCheck_waiting {current stored : Option LeaseOwner}
    {owner : LeaseOwner} {remainingIsZero : Bool}
    (h : acquireCheck current owner remainingIsZero = (stored, .waiting)) :
    stored = current ∧ current ≠ none := by
  cases current with
  | none => simp [acquireCheck] at h
  | some held =>
      simp only [acquireCheck] at h
      split at h
      · simp at h
      · simp only [Prod.mk.injEq, and_true] at h
        exact ⟨h.symm, by simp⟩

/-- The lease as a cell that holds at most one party with its owner record. -/
inductive LeaseSpec :
    Option (P × LeaseOwner) → LeaseEvent P → Option (P × LeaseOwner) → Prop
  | acquired (p : P) (owner : LeaseOwner) :
      LeaseSpec none (.acquired p owner) (some (p, owner))
  | failed (p holder : P) (owner : LeaseOwner) :
      LeaseSpec (some (holder, owner))
        (.failed p (leaseBusy owner.operationId)) (some (holder, owner))
  | waiting (p holder : P) (owner : LeaseOwner) :
      LeaseSpec (some (holder, owner)) (.waiting p) (some (holder, owner))
  | drop (p : P) (owner : LeaseOwner) :
      LeaseSpec (some (p, owner)) (.drop p owner) none
  | readOwner (cell : Option (P × LeaseOwner)) :
      LeaseSpec cell (.readOwner (cell.map Prod.snd)) cell
  | enter (p : P) (owner : LeaseOwner) (cell : Option (P × LeaseOwner)) :
      LeaseSpec cell (.enter p owner) cell
  | wake (p : P) (cell : Option (P × LeaseOwner)) :
      LeaseSpec cell (.wake p) cell

/--
A state of the protocol shows a cell: the stored owner is the cell's, and the
cell's party is the only one that holds a guard.
-/
structure Represents (s : LeaseState P)
    (cell : Option (P × LeaseOwner)) : Prop where
  stored : s.stored = cell.map Prod.snd
  holding : ∀ p owner, s.phase p = .holding owner ↔ cell = some (p, owner)

omit [DecidableEq P] in
theorem represents_initial : Represents (LeaseState.initial P) none where
  stored := rfl
  holding := by
    simp [LeaseState.initial]

/-- Moving a party between phases without a guard keeps the cell. -/
theorem Represents.setPhase {s : LeaseState P}
    {cell : Option (P × LeaseOwner)} (h : Represents s cell) {p : P}
    {phase : LeasePhase} (hp : ∀ owner, s.phase p ≠ .holding owner)
    (hphase : ∀ owner, phase ≠ .holding owner) :
    Represents (s.setPhase p phase) cell where
  stored := h.stored
  holding := by
    intro q owner
    rw [LeaseState.setPhase_eq_iff (hphase owner), ← h.holding]
    constructor
    · exact And.right
    · intro hq
      refine ⟨?_, hq⟩
      rintro rfl
      exact hp owner hq

/-- A notification moves no guard and leaves the stored owner alone. -/
theorem Notified.represents {s s' : LeaseState P}
    {cell : Option (P × LeaseOwner)} (hnotify : Notified s s')
    (h : Represents s cell) : Represents s' cell := by
  cases hnotify with
  | @one q owner hq =>
      refine h.setPhase ?_ (by simp)
      intro other hother
      simp [hother, LeasePhase.inWait] at hq
  | nobody => exact h

/-- A party that is about to test the lease holds no guard. -/
theorem LeasePhase.not_holding_of_checking {phase : LeasePhase}
    {owner : LeaseOwner} (h : phase.checking = some owner) :
    ∀ other, phase ≠ .holding other := by
  rintro other rfl
  simp [LeasePhase.checking] at h

/-- Every step of the protocol is a step of the cell it shows. -/
theorem LeaseStep.spec {s s' : LeaseState P} {event : LeaseEvent P}
    {cell : Option (P × LeaseOwner)} (hstep : LeaseStep s event s')
    (h : Represents s cell) :
    ∃ cell', LeaseSpec cell event cell' ∧ Represents s' cell' := by
  cases hstep with
  | enter owner hp =>
      exact ⟨cell, .enter _ owner cell,
        h.setPhase (by simp [hp]) (by simp)⟩
  | @acquired p owner _ _ hp hcheck =>
      obtain ⟨hfree, rfl⟩ := acquireCheck_acquired hcheck
      have hcell : cell = none := by
        simpa [hfree] using h.stored.symm
      subst hcell
      refine ⟨some (p, owner), .acquired p owner, rfl, ?_⟩
      intro q other
      by_cases hq : q = p
      · subst hq
        simp
      · rw [LeaseState.setPhase_of_ne _ _ hq, LeaseState.setStored_phase,
          h.holding]
        simp [Ne.symm hq]
  | @failed p owner _ error _ hp hcheck =>
      obtain ⟨rfl, held, hheld, rfl⟩ := acquireCheck_failed hcheck
      obtain ⟨⟨holder, _⟩, hcell, rfl⟩ :=
        Option.map_eq_some_iff.mp (h.stored ▸ hheld)
      subst hcell
      exact ⟨_, .failed p holder _,
        h.setPhase (LeasePhase.not_holding_of_checking hp) (by simp)⟩
  | @waiting p owner _ _ hp hcheck =>
      obtain ⟨rfl, hheld⟩ := acquireCheck_waiting hcheck
      cases cell with
      | none => exact absurd h.stored hheld
      | some held =>
          exact ⟨_, .waiting p held.1 held.2,
            h.setPhase (LeasePhase.not_holding_of_checking hp) (by simp)⟩
  | wake hp =>
      exact ⟨cell, .wake _ cell, h.setPhase (by simp [hp]) (by simp)⟩
  | @drop _ p owner stored hp hdrop hnotify =>
      have hcell := (h.holding p owner).mp hp
      subst hcell
      obtain rfl : none = stored := by
        simpa [guardDrop, h.stored] using hdrop
      refine ⟨none, .drop p owner, hnotify.represents ⟨rfl, ?_⟩⟩
      intro q other
      rw [LeaseState.setPhase_eq_iff (by simp), LeaseState.setStored_phase,
        h.holding]
      simp only [Option.some.injEq, Prod.mk.injEq, reduceCtorEq, iff_false,
        not_and]
      exact fun hne hq => absurd hq.symm hne
  | @dropForeign p owner stored hp hdrop =>
      have hcell := (h.holding p owner).mp hp
      simp [guardDrop, h.stored, hcell] at hdrop
  | readOwner =>
      exact ⟨cell, h.stored ▸ .readOwner cell, h⟩

/--
Every party that is still blocked while the lease is free has another party
to count on: one whose wait is over and which has not looked again yet.
-/
def NoLostWakeup (s : LeaseState P) : Prop :=
  s.stored = none → ∀ p owner, s.phase p = .blocked owner →
    ∃ q, q ≠ p ∧ ∃ other, s.phase q = .woken other

omit [DecidableEq P] in
theorem NoLostWakeup.of_held {s : LeaseState P} (h : s.stored ≠ none) :
    NoLostWakeup s :=
  fun hfree => absurd hfree h

/-- A step that blocks nobody and un-wakes nobody loses no wake-up. -/
theorem NoLostWakeup.setPhase {s : LeaseState P} (h : NoLostWakeup s) {p : P}
    {phase : LeasePhase} (hp : ∀ owner, s.phase p ≠ .woken owner)
    (hphase : ∀ owner, phase ≠ .blocked owner) :
    NoLostWakeup (s.setPhase p phase) := by
  intro hfree q owner hq
  rw [LeaseState.setPhase_eq_iff (hphase owner)] at hq
  obtain ⟨r, hr, other, hother⟩ := h hfree q owner hq.2
  refine ⟨r, hr, other, ?_⟩
  rw [s.setPhase_of_ne, hother]
  rintro rfl
  exact hp other hother

/-- After a notification nobody is blocked without a woken party. -/
theorem Notified.noLostWakeup {s s' : LeaseState P}
    (hnotify : Notified s s') : NoLostWakeup s' := by
  intro _ p owner hp
  cases hnotify with
  | @one q woken hq =>
      refine ⟨q, ?_, woken, by simp⟩
      rintro rfl
      simp at hp
  | nobody hs =>
      simpa [hp, LeasePhase.inWait] using hs p

/-- No step loses a wake-up. -/
theorem LeaseStep.noLostWakeup {s s' : LeaseState P} {event : LeaseEvent P}
    (hstep : LeaseStep s event s') (h : NoLostWakeup s) :
    NoLostWakeup s' := by
  cases hstep with
  | enter owner hp => exact h.setPhase (by simp [hp]) (by simp)
  | acquired _ hp hcheck =>
      obtain ⟨-, rfl⟩ := acquireCheck_acquired hcheck
      exact .of_held (by simp)
  | failed _ hp hcheck =>
      obtain ⟨rfl, held, hheld, -⟩ := acquireCheck_failed hcheck
      exact .of_held (by simp [hheld])
  | waiting _ hp hcheck =>
      obtain ⟨rfl, hheld⟩ := acquireCheck_waiting hcheck
      exact .of_held hheld
  | @wake p owner hp =>
      exact h.setPhase (by simp [hp]) (by simp)
  | drop hp hdrop hnotify => exact hnotify.noLostWakeup
  | @dropForeign p owner stored hp hdrop =>
      have hstored : s.stored = stored := by
        unfold guardDrop at hdrop
        split at hdrop
        · simp at hdrop
        · exact (Prod.mk.inj hdrop).1
      subst hstored
      exact NoLostWakeup.setPhase (s := s) h (by simp [hp]) (by simp)
  | readOwner => exact h

/-- Along a run the protocol shows the cell of its specification. -/
theorem LeaseRun.represents {s s' : LeaseState P}
    {events : List (LeaseEvent P)} (hrun : LeaseRun s events s')
    {cell : Option (P × LeaseOwner)} (h : Represents s cell) :
    ∃ cell', Represents s' cell' := by
  induction hrun with
  | nil => exact ⟨cell, h⟩
  | snoc hrun hstep ih =>
      obtain ⟨middle, hmiddle⟩ := ih
      obtain ⟨cell', -, hcell'⟩ := hstep.spec hmiddle
      exact ⟨cell', hcell'⟩

/-- Along a run no wake-up is lost. -/
theorem LeaseRun.noLostWakeup {s s' : LeaseState P}
    {events : List (LeaseEvent P)} (hrun : LeaseRun s events s')
    (h : NoLostWakeup s) : NoLostWakeup s' := by
  induction hrun with
  | nil => exact h
  | snoc _ hstep ih => exact hstep.noLostWakeup ih

/-- What holds of the lease between any two steps. -/
structure LeaseSafe (s : LeaseState P) : Prop where
  /-- At most one guard is live. -/
  unique : ∀ p q owner other, s.phase p = .holding owner →
    s.phase q = .holding other → p = q
  /-- The stored owner is the owner of the live guard. -/
  stored_iff : ∀ owner,
    s.stored = some owner ↔ ∃ p, s.phase p = .holding owner
  /-- A drop finds its own entry, clears it and touches no other guard. -/
  drop : ∀ p owner s', LeaseStep s (.drop p owner) s' →
    s.stored = some owner ∧ s'.stored = none ∧
    ∀ q other, s'.phase q = .holding other ↔
      q ≠ p ∧ s.phase q = .holding other
  /-- A failed call leaves the lease alone and names its holder. -/
  failed : ∀ p error s', LeaseStep s (.failed p error) s' →
    s'.stored = s.stored ∧
    (∀ q other, s'.phase q = .holding other ↔ s.phase q = .holding other) ∧
    ∃ holder owner, s.phase holder = .holding owner ∧
      error = leaseBusy owner.operationId
  /-- A call that finds the lease free neither fails nor waits. -/
  free : s.stored = none → ∀ p s', ¬ LeaseStep s (.waiting p) s' ∧
    ∀ error, ¬ LeaseStep s (.failed p error) s'
  noLostWakeup : NoLostWakeup s

omit [DecidableEq P] in
/-- A cell has one party, so the guards of a state that shows it have too. -/
theorem Represents.unique {s : LeaseState P} {cell : Option (P × LeaseOwner)}
    (h : Represents s cell) {p q : P} {owner other : LeaseOwner}
    (hp : s.phase p = .holding owner) (hq : s.phase q = .holding other) :
    p = q := by
  have hcell := (h.holding p owner).mp hp
  rw [(h.holding q other).mp hq] at hcell
  simp only [Option.some.injEq, Prod.mk.injEq] at hcell
  exact hcell.1.symm

omit [DecidableEq P] in
theorem Represents.stored_iff {s : LeaseState P}
    {cell : Option (P × LeaseOwner)} (h : Represents s cell)
    (owner : LeaseOwner) :
    s.stored = some owner ↔ ∃ p, s.phase p = .holding owner := by
  simp only [h.holding, h.stored, Option.map_eq_some_iff, Prod.exists]
  constructor
  · rintro ⟨p, held, hcell, rfl⟩
    exact ⟨p, hcell⟩
  · rintro ⟨p, hcell⟩
    exact ⟨p, owner, hcell, rfl⟩

/-- A drop empties the cell. -/
theorem Represents.drop {s s' : LeaseState P}
    {cell : Option (P × LeaseOwner)} (h : Represents s cell) {p : P}
    {owner : LeaseOwner} (hstep : LeaseStep s (.drop p owner) s') :
    s.stored = some owner ∧ s'.stored = none ∧
      ∀ q other, s'.phase q = .holding other ↔
        q ≠ p ∧ s.phase q = .holding other := by
  obtain ⟨cell', hspec, h'⟩ := hstep.spec h
  cases hspec with
  | drop =>
      refine ⟨h.stored, h'.stored, ?_⟩
      intro q other
      rw [h'.holding, h.holding]
      simp only [reduceCtorEq, Option.some.injEq, Prod.mk.injEq, false_iff,
        not_and]
      exact fun hne hq => absurd hq.symm hne

/-- A failure names the party in the cell. -/
theorem Represents.failed {s s' : LeaseState P}
    {cell : Option (P × LeaseOwner)} (h : Represents s cell) {p : P}
    {error : Error} (hstep : LeaseStep s (.failed p error) s') :
    s'.stored = s.stored ∧
      (∀ q other, s'.phase q = .holding other ↔ s.phase q = .holding other) ∧
      ∃ holder owner, s.phase holder = .holding owner ∧
        error = leaseBusy owner.operationId := by
  obtain ⟨cell', hspec, h'⟩ := hstep.spec h
  cases hspec with
  | failed _ holder owner =>
      refine ⟨by rw [h'.stored, h.stored], ?_, holder, owner, ?_, rfl⟩
      · intro q other
        rw [h'.holding, h.holding]
      · rw [h.holding]

/-- An empty cell makes nobody fail or wait. -/
theorem Represents.free {s : LeaseState P} {cell : Option (P × LeaseOwner)}
    (h : Represents s cell) (hfree : s.stored = none) (p : P)
    (s' : LeaseState P) :
    ¬ LeaseStep s (.waiting p) s' ∧
      ∀ error, ¬ LeaseStep s (.failed p error) s' := by
  have hcell : cell = none := by
    simpa [hfree] using h.stored.symm
  subst hcell
  constructor
  · intro hstep
    obtain ⟨_, hspec, -⟩ := hstep.spec h
    cases hspec
  · intro error hstep
    obtain ⟨_, hspec, -⟩ := hstep.spec h
    cases hspec

/--
Whatever the parties do in whatever order, the lease has at most one guard, its
stored owner is that guard's, failures name the holder and no wake-up is lost.
-/
theorem leaseRun_safe {s : LeaseState P} {events : List (LeaseEvent P)}
    (hrun : LeaseRun (LeaseState.initial P) events s) : LeaseSafe s := by
  obtain ⟨cell, h⟩ := hrun.represents represents_initial
  have hwake : NoLostWakeup s :=
    hrun.noLostWakeup (by simp [NoLostWakeup, LeaseState.initial])
  exact
    { unique := fun _ _ _ _ hp hq => h.unique hp hq
      stored_iff := h.stored_iff
      drop := fun _ _ _ hstep => h.drop hstep
      failed := fun _ _ _ hstep => h.failed hstep
      free := h.free
      noLostWakeup := hwake }

/--
Two parties with one owner record: the second waits while the first holds the
lease, and is woken when the first lets go.
-/
theorem leaseRun_safe_two :
    ∃ s : LeaseState Bool,
      s.phase true = .woken ⟨"op", "power_on"⟩ ∧ LeaseSafe s := by
  have henter := LeaseRun.nil.snoc
    (LeaseStep.enter (s := LeaseState.initial Bool) (p := false)
      ⟨"op", "power_on"⟩ rfl)
  have hacquired := henter.snoc
    (.acquired false (p := false) rfl rfl)
  have hsecond := hacquired.snoc (.enter (p := true) ⟨"op", "power_on"⟩ rfl)
  have hwaiting := hsecond.snoc
    (.waiting false (p := true) rfl rfl)
  have hdrop := hwaiting.snoc
    (.drop (p := false) rfl rfl (.one (q := true) rfl))
  exact ⟨_, by simp, leaseRun_safe hdrop⟩

end BoardLease
end RpictlMcp
