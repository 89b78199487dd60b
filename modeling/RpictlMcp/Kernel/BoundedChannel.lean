import RpictlMcp.Kernel.LabelledRun

/-!
# rpictl-mcp kernel: subscriptions over bounded channels

A bounded channel is a queue between a sender that never waits and a receiver that
may go away.  An attempt to send is refused when the queue is full or when the
receiver is gone.  A subscription is a channel that a broadcaster offers each of
its values in turn, and that it gives up when it finds the receiver gone.

Whatever the order of the steps, the receiver gets the accepted values in order;
an offer is refused for lack of room only if the queue is as long as it may be;
and the broadcaster gives up a subscription if and only if the receiver has gone.
-/

namespace RpictlMcp

section BoundedChannel

variable {α : Type}

/-- What an attempt to send comes to. -/
inductive Offered where
  | sent
  | full
  | disconnected
deriving DecidableEq, Repr

/-- A channel: the values on their way, and whether there is a receiver. -/
structure Channel (α : Type) where
  queue : List α
  connected : Bool
deriving DecidableEq, Repr

namespace Channel

/-- The channel of a new receiver. -/
def new : Channel α := ⟨[], true⟩

/-- An attempt to send, which does not wait for room. -/
def trySend (capacity : Nat) (channel : Channel α) (a : α) :
    Offered × Channel α :=
  if channel.connected then
    if channel.queue.length < capacity then
      (.sent, { channel with queue := channel.queue ++ [a] })
    else (.full, channel)
  else (.disconnected, channel)

/-- The next value for the receiver. -/
def receive (channel : Channel α) : Option (α × Channel α) :=
  match channel.connected, channel.queue with
  | true, a :: queue => some (a, { channel with queue })
  | _, _ => none

/-- The receiver goes away, and with it what was on its way. -/
def dropReceiver (_ : Channel α) : Channel α := ⟨[], false⟩

end Channel

/-- A subscription, as the broadcaster and the receiver see it. -/
structure Subscription (α : Type) where
  channel : Channel α
  listed : Bool
  waiting : Option α

/-- A subscription as it is made. -/
def Subscription.new : Subscription α := ⟨.new, true, none⟩

/-- The steps in the life of a subscription. -/
inductive SubscriptionEvent (α : Type) where
  | broadcast (a : α)
  | offer (a : α) (outcome : Offered)
  | finished
  | receive (a : α)
  | drop
deriving DecidableEq

/-- A step of the broadcaster or of the receiver. -/
inductive SubscriptionStep (capacity : Nat) :
    Subscription α → SubscriptionEvent α → Subscription α → Prop
  | broadcast {channel : Channel α} {listed : Bool} (a : α) :
      SubscriptionStep capacity ⟨channel, listed, none⟩ (.broadcast a)
        ⟨channel, listed, if listed then some a else none⟩
  | offer {channel channel' : Channel α} {a : α} {outcome : Offered}
      (h : channel.trySend capacity a = (outcome, channel')) :
      SubscriptionStep capacity ⟨channel, true, some a⟩ (.offer a outcome)
        ⟨channel', decide (outcome ≠ .disconnected), none⟩
  | finished {channel : Channel α} {listed : Bool} :
      SubscriptionStep capacity ⟨channel, listed, none⟩ .finished
        ⟨channel, listed, none⟩
  | receive {channel channel' : Channel α} {listed : Bool}
      {waiting : Option α} {a : α} (h : channel.receive = some (a, channel')) :
      SubscriptionStep capacity ⟨channel, listed, waiting⟩ (.receive a)
        ⟨channel', listed, waiting⟩
  | drop {channel : Channel α} {listed : Bool} {waiting : Option α}
      (h : channel.connected = true) :
      SubscriptionStep capacity ⟨channel, listed, waiting⟩ .drop
        ⟨channel.dropReceiver, listed, waiting⟩

namespace SubscriptionEvent

/-- The value that is broadcast. -/
def broadcast? : SubscriptionEvent α → Option α
  | .broadcast a => some a
  | _ => none

/-- The value that is offered. -/
def offered? : SubscriptionEvent α → Option α
  | .offer a _ => some a
  | _ => none

/-- The value that is accepted. -/
def accepted? : SubscriptionEvent α → Option α
  | .offer a .sent => some a
  | _ => none

/-- The value that is received. -/
def received? : SubscriptionEvent α → Option α
  | .receive a => some a
  | _ => none

end SubscriptionEvent

open SubscriptionEvent

/-- The values that have been received and that are on their way. -/
structure Conveyed (t : List (SubscriptionEvent α)) (σ : Subscription α) :
    Prop where
  queued : σ.channel.connected = true →
    t.filterMap accepted? = t.filterMap received? ++ σ.channel.queue
  received : t.filterMap received? <+: t.filterMap accepted?

/-- The values that have been offered and that are about to be. -/
structure Presented (t : List (SubscriptionEvent α)) (σ : Subscription α) :
    Prop where
  current : σ.listed = true →
    t.filterMap offered? ++ σ.waiting.toList = t.filterMap broadcast?
  offered : t.filterMap offered? ++ σ.waiting.toList <+:
    t.filterMap broadcast?

/-- What a subscription is like in itself. -/
structure Maintained (capacity : Nat) (σ : Subscription α) : Prop where
  listed : σ.channel.connected = true → σ.listed = true
  bounded : σ.channel.queue.length ≤ capacity

variable {capacity : Nat} {t u v w : List (SubscriptionEvent α)}
variable {σ σ' : Subscription α} {channel channel' : Channel α} {a : α}
variable {e : SubscriptionEvent α}

/-- What an attempt to send comes to, and what it does. -/
theorem Channel.trySend_cases {outcome : Offered}
    (h : channel.trySend capacity a = (outcome, channel')) :
    (outcome = .sent ∧ channel.connected = true ∧
        channel.queue.length < capacity ∧
        channel' = { channel with queue := channel.queue ++ [a] }) ∨
      (outcome = .full ∧ channel.connected = true ∧
        capacity ≤ channel.queue.length ∧ channel' = channel) ∨
      (outcome = .disconnected ∧ channel.connected = false ∧
        channel' = channel) := by
  unfold Channel.trySend at h
  split at h
  · rename_i hconnected
    split at h
    · rename_i hroom
      cases h
      exact .inl ⟨rfl, hconnected, hroom, rfl⟩
    · rename_i hfull
      cases h
      exact .inr (.inl ⟨rfl, hconnected, by omega, rfl⟩)
  · rename_i hgone
    cases h
    exact .inr (.inr ⟨rfl, by simpa using hgone, rfl⟩)

/-- What the receiver takes out of a channel. -/
theorem Channel.receive_eq_some
    (h : channel.receive = some (a, channel')) :
    channel.connected = true ∧ channel.queue = a :: channel'.queue ∧
      channel'.connected = true := by
  unfold Channel.receive at h
  split at h
  · rename_i hconnected hqueue
    cases h
    exact ⟨hconnected, hqueue, hconnected⟩
  · cases h

theorem filterMap_snoc {ε φ : Type} (f : ε → Option φ) (t : List ε) (e : ε) :
    (t ++ [e]).filterMap f = t.filterMap f ++ (f e).toList := by
  rw [List.filterMap_append]
  cases h : f e with
  | none => simp [h]
  | some x => simp [h]

theorem SubscriptionStep.maintained
    (hstep : SubscriptionStep capacity σ e σ')
    (h : Maintained capacity σ) : Maintained capacity σ' := by
  obtain ⟨hlisted, hbounded⟩ := h
  cases hstep with
  | broadcast a => exact ⟨hlisted, hbounded⟩
  | finished => exact ⟨hlisted, hbounded⟩
  | offer hsend =>
      rcases Channel.trySend_cases hsend with ⟨rfl, -, hroom, rfl⟩ |
        ⟨rfl, -, -, rfl⟩ | ⟨rfl, hgone, rfl⟩
      · exact ⟨fun _ => rfl, by simpa using Nat.succ_le_of_lt hroom⟩
      · exact ⟨fun _ => rfl, hbounded⟩
      · constructor
        · intro hlive
          rw [hgone] at hlive
          cases hlive
        · exact hbounded
  | receive hreceive =>
      obtain ⟨hlive, hqueue, -⟩ := Channel.receive_eq_some hreceive
      refine ⟨fun _ => hlisted hlive, ?_⟩
      rw [hqueue, List.length_cons] at hbounded
      exact Nat.le_of_succ_le hbounded
  | drop => exact ⟨nofun, Nat.zero_le capacity⟩

theorem SubscriptionStep.connected_iff
    (hstep : SubscriptionStep capacity σ e σ') :
    σ'.channel.connected = true ↔
      σ.channel.connected = true ∧ e ≠ .drop := by
  cases hstep with
  | broadcast a => simp
  | finished => simp
  | offer hsend =>
      rcases Channel.trySend_cases hsend with ⟨-, -, -, rfl⟩ |
        ⟨-, -, -, rfl⟩ | ⟨-, -, rfl⟩
      all_goals simp
  | receive hreceive =>
      obtain ⟨hlive, -, hlive'⟩ := Channel.receive_eq_some hreceive
      simp [hlive, hlive']
  | drop => simp [Channel.dropReceiver]

/-- A step that conveys nothing. -/
theorem Conveyed.idle (h : Conveyed t σ) (haccepted : accepted? e = none)
    (hreceived : received? e = none) (hchannel : σ'.channel = σ.channel) :
    Conveyed (t ++ [e]) σ' := by
  constructor
  · rw [hchannel, filterMap_snoc, filterMap_snoc, haccepted, hreceived]
    simpa using h.queued
  · rw [filterMap_snoc, filterMap_snoc, haccepted, hreceived]
    simpa using h.received

theorem SubscriptionStep.conveyed
    (hstep : SubscriptionStep capacity σ e σ') (h : Conveyed t σ) :
    Conveyed (t ++ [e]) σ' := by
  cases hstep with
  | broadcast => exact h.idle rfl rfl rfl
  | finished => exact h.idle rfl rfl rfl
  | offer hsend =>
      rcases Channel.trySend_cases hsend with ⟨rfl, hlive, -, rfl⟩ |
        ⟨rfl, -, -, rfl⟩ | ⟨rfl, -, rfl⟩
      · constructor
        · intro _
          rw [filterMap_snoc, filterMap_snoc, h.queued hlive]
          simp [accepted?, received?]
        · rw [filterMap_snoc, filterMap_snoc]
          simpa [received?] using h.received.trans (List.prefix_append _ _)
      · exact h.idle rfl rfl rfl
      · exact h.idle rfl rfl rfl
  | receive hreceive =>
      obtain ⟨hlive, hqueue, -⟩ := Channel.receive_eq_some hreceive
      have hall := h.queued hlive
      dsimp only at hall
      rw [hqueue] at hall
      constructor
      · intro _
        rw [filterMap_snoc, filterMap_snoc, hall]
        simp [accepted?, received?]
      · rw [filterMap_snoc, filterMap_snoc, hall]
        simp [accepted?, received?]
  | drop =>
      constructor
      · simp [Channel.dropReceiver]
      · rw [filterMap_snoc, filterMap_snoc]
        simpa [accepted?, received?] using h.received

/-- A step that presents nothing. -/
theorem Presented.idle (h : Presented t σ) (hoffered : offered? e = none)
    (hbroadcast : broadcast? e = none) (hlisted : σ'.listed = σ.listed)
    (hwaiting : σ'.waiting = σ.waiting) : Presented (t ++ [e]) σ' := by
  constructor
  · rw [hlisted, hwaiting, filterMap_snoc, filterMap_snoc, hoffered,
      hbroadcast]
    simpa using h.current
  · rw [hwaiting, filterMap_snoc, filterMap_snoc, hoffered, hbroadcast]
    simpa using h.offered

theorem SubscriptionStep.presented
    (hstep : SubscriptionStep capacity σ e σ') (h : Presented t σ) :
    Presented (t ++ [e]) σ' := by
  cases hstep with
  | @broadcast channel listed a =>
      obtain ⟨hcurrent, hoffered⟩ := h
      cases listed with
      | true =>
          have hall : t.filterMap offered? = t.filterMap broadcast? := by
            simpa using hcurrent rfl
          constructor
          · intro _
            rw [filterMap_snoc, filterMap_snoc, hall]
            simp [offered?, broadcast?]
          · rw [filterMap_snoc, filterMap_snoc, hall]
            simp [offered?, broadcast?]
      | false =>
          constructor
          · nofun
          · rw [filterMap_snoc, filterMap_snoc]
            simpa [offered?] using hoffered.trans (List.prefix_append _ _)
  | finished => exact h.idle rfl rfl rfl rfl
  | offer hsend =>
      obtain ⟨hcurrent, hoffered⟩ := h
      constructor
      · intro _
        rw [filterMap_snoc, filterMap_snoc, ← hcurrent rfl]
        simp [offered?, broadcast?]
      · rw [filterMap_snoc, filterMap_snoc]
        simpa [offered?, broadcast?] using hoffered
  | receive => exact h.idle rfl rfl rfl rfl
  | drop => exact h.idle rfl rfl rfl rfl

/-- A subscription whose receiver has gone is on its way out. -/
def Leaving (σ : Subscription α) : Prop :=
  σ.channel.connected = false ∧ (σ.listed = true → σ.waiting.isSome = true)

theorem SubscriptionStep.leaving
    (hstep : SubscriptionStep capacity σ e σ') (h : Leaving σ) :
    Leaving σ' := by
  obtain ⟨hgone, hwaiting⟩ := h
  cases hstep with
  | @broadcast channel listed a => simp_all [Leaving]
  | finished => exact ⟨hgone, hwaiting⟩
  | offer hsend =>
      rcases Channel.trySend_cases hsend with ⟨-, hlive, -, -⟩ |
        ⟨-, hlive, -, -⟩ | ⟨rfl, -, rfl⟩
      · rw [hgone] at hlive
        cases hlive
      · rw [hgone] at hlive
        cases hlive
      · exact ⟨hgone, nofun⟩
  | receive hreceive =>
      have hlive := (Channel.receive_eq_some hreceive).1
      rw [hgone] at hlive
      cases hlive
  | drop hlive =>
      rw [hgone] at hlive
      cases hlive

theorem SubscriptionStep.unlisted
    (hstep : SubscriptionStep capacity σ e σ') (h : σ.listed = false) :
    σ'.listed = false := by
  cases hstep with
  | offer => cases h
  | broadcast => exact h
  | finished => exact h
  | receive => exact h
  | drop => exact h

/-- A run from a new subscription. -/
abbrev SubscriptionRun (capacity : Nat) (t : List (SubscriptionEvent α))
    (σ : Subscription α) : Prop :=
  LabelledRun (SubscriptionStep capacity) .new t σ

/-- The receiver is there until it goes away. -/
theorem SubscriptionRun.connected_iff (h : SubscriptionRun capacity t σ) :
    σ.channel.connected = true ↔ .drop ∉ t := by
  refine h.recorded (J := fun t σ => σ.channel.connected = true ↔ .drop ∉ t)
    (by simp [Subscription.new, Channel.new]) ?_
  intro t σ e σ' hstep hconnected
  rw [hstep.connected_iff, hconnected, List.mem_append, List.mem_singleton,
    not_or]
  exact and_congr_right fun _ => ne_comm

theorem SubscriptionRun.maintained (h : SubscriptionRun capacity t σ) :
    Maintained capacity σ :=
  h.invariant ⟨fun _ => rfl, Nat.zero_le capacity⟩
    fun _ _ _ hstep => hstep.maintained

theorem SubscriptionRun.conveyed (h : SubscriptionRun capacity t σ) :
    Conveyed t σ :=
  h.recorded (J := Conveyed) ⟨fun _ => rfl, List.prefix_rfl⟩
    fun _ _ _ _ hstep => hstep.conveyed

theorem SubscriptionRun.presented (h : SubscriptionRun capacity t σ) :
    Presented t σ :=
  h.recorded (J := Presented) ⟨fun _ => rfl, List.prefix_rfl⟩
    fun _ _ _ _ hstep => hstep.presented

/-- Only what is offered can be accepted. -/
theorem accepted_sublist (t : List (SubscriptionEvent α)) :
    (t.filterMap accepted?).Sublist (t.filterMap offered?) := by
  induction t with
  | nil => exact List.Sublist.refl _
  | cons e t ih =>
      rw [List.filterMap_cons, List.filterMap_cons]
      match e with
      | .offer a .sent => exact ih.cons_cons a
      | .offer a .full => exact ih.cons a
      | .offer a .disconnected => exact ih.cons a
      | .broadcast a => exact ih
      | .finished => exact ih
      | .receive a => exact ih
      | .drop => exact ih

/-- The receiver gets some of what is broadcast, in order. -/
theorem SubscriptionRun.inOrder (h : SubscriptionRun capacity t σ) :
    (t.filterMap received?).Sublist (t.filterMap broadcast?) := by
  have hoffered : (t.filterMap offered?).Sublist (t.filterMap broadcast?) :=
    (List.sublist_append_left _ _).trans h.presented.offered.sublist
  exact (h.conveyed.received.sublist.trans (accepted_sublist t)).trans hoffered

/-- Room is lacking only in a full queue. -/
theorem SubscriptionRun.full
    (h : SubscriptionRun capacity (u ++ .offer a .full :: v) σ) :
    (u.filterMap accepted?).length =
      (u.filterMap received?).length + capacity := by
  obtain ⟨σ', hu, hrest⟩ := labelledRun_append_iff.mp h
  obtain ⟨σ'', hstep, -⟩ := labelledRun_cons_iff.mp hrest
  cases hstep with
  | offer hsend =>
      rcases Channel.trySend_cases hsend with ⟨hsent, -⟩ |
        ⟨-, hlive, hfull, -⟩ | ⟨hgone, -⟩
      · cases hsent
      · have hqueue := (SubscriptionRun.conveyed hu).queued hlive
        have hbounded := (SubscriptionRun.maintained hu).bounded
        dsimp only at hqueue hbounded
        rw [hqueue, List.length_append]
        omega
      · cases hgone

/-- The receiver is found gone only if it is. -/
theorem SubscriptionRun.disconnected
    (h : SubscriptionRun capacity (u ++ .offer a .disconnected :: v) σ) :
    .drop ∈ u := by
  obtain ⟨σ', hu, hrest⟩ := labelledRun_append_iff.mp h
  obtain ⟨σ'', hstep, -⟩ := labelledRun_cons_iff.mp hrest
  cases hstep with
  | offer hsend =>
      rcases Channel.trySend_cases hsend with ⟨hsent, -⟩ | ⟨hfull, -⟩ |
        ⟨-, hgone, -⟩
      · cases hsent
      · cases hfull
      · by_contra hdrop
        have hlive := (SubscriptionRun.connected_iff hu).mpr hdrop
        rw [hgone] at hlive
        cases hlive

/-- A receiver that has gone is given up in the next round. -/
theorem SubscriptionRun.removed
    (h : SubscriptionRun capacity
      (u ++ .broadcast a :: v ++ .finished :: w) σ)
    (hdrop : .drop ∈ u) : σ.listed = false := by
  rw [List.append_assoc, List.cons_append] at h
  obtain ⟨σ₁, hu, hrest⟩ := labelledRun_append_iff.mp h
  obtain ⟨σ₂, hbroadcast, hrest⟩ := labelledRun_cons_iff.mp hrest
  obtain ⟨σ₃, hv, hrest⟩ := labelledRun_append_iff.mp hrest
  obtain ⟨σ₄, hfinished, hw⟩ := labelledRun_cons_iff.mp hrest
  have hgone : σ₁.channel.connected = false := by
    rw [Bool.eq_false_iff]
    exact fun hlive => (SubscriptionRun.connected_iff hu).mp hlive hdrop
  have hleaving : Leaving σ₂ := by
    cases hbroadcast with
    | broadcast => simp_all [Leaving]
  have hleaves : Leaving σ₃ :=
    hv.invariant hleaving fun _ _ _ hstep => hstep.leaving
  have hunlisted : σ₄.listed = false := by
    cases hfinished with
    | finished => simpa [Leaving] using hleaves.2
  exact hw.invariant (J := fun σ => σ.listed = false) hunlisted
    fun _ _ _ hstep => hstep.unlisted

end BoundedChannel

end RpictlMcp
