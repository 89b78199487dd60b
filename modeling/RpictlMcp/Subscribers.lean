import RpictlMcp.Kernel.BoundedChannel
import RpictlMcp.SerialRing
import Mathlib.Data.List.Nodup
import Mathlib.Logic.Function.Basic

/-!
# rpictl-mcp: the subscribers of a serial console

The reader thread of a board appends every read to the ring and then offers it to
each subscriber, in one pass that holds the lock of their list.  A subscriber that
has no room misses the read, and one whose receiver has gone is taken off the
list.  Clients subscribe, receive and go away at any time, except that nobody can
subscribe while the pass holds the lock.
-/

namespace RpictlMcp

variable {ι : Type}

/-- What the reader thread of a board is doing. -/
inductive Reader (ι : Type) where
  | reading
  | appended (chunk : List UInt8)
  | fanning (chunk : List UInt8) (kept todo : List ι)
  | stopped
deriving DecidableEq, Repr

/-- The capacity of `sync_channel` in `subscribe_serial`. -/
def subscriberCapacity : Nat := 128

/-- The length of the buffer that the reader thread reads into. -/
def readBufferBytes : Nat := 4096

/-- The serial part of a board.  A subscription that has not been made yet has no
channel; while the pass over the list runs, the list itself is empty. -/
structure SerialHub (ι : Type) where
  ring : SerialRing
  reader : Reader ι
  senders : List ι
  channel : ι → Option (Channel (List UInt8))

/-- The serial part of a board without subscribers. -/
def SerialHub.initial (ring : SerialRing) : SerialHub ι where
  ring := ring
  reader := .reading
  senders := []
  channel := fun _ => none

/-- The steps of the reader thread, of the operations and of the clients. -/
inductive SerialEvent (ι : Type) where
  | read (timestamp : SystemTime) (chunk : List UInt8)
  | readFailed
  | mark
  | fanOut (chunk : List UInt8)
  | offer (i : ι) (chunk : List UInt8) (outcome : Offered)
  | finished
  | subscribe (i : ι)
  | receive (i : ι) (chunk : List UInt8)
  | drop (i : ι)
deriving DecidableEq

/-- Whether the pass over the subscribers holds the lock of their list. -/
def Reader.locks : Reader ι → Bool
  | .fanning _ _ _ => true
  | _ => false

namespace SerialHub

variable [DecidableEq ι]

/-- The channel of a subscriber after a step. -/
def setChannel (s : SerialHub ι) (i : ι) (channel : Channel (List UInt8)) :
    SerialHub ι :=
  { s with channel := Function.update s.channel i (some channel) }

/-- The list of subscribers that `retain` goes through, and what it keeps. -/
def listed (s : SerialHub ι) : List ι :=
  match s.reader with
  | .fanning _ kept todo => kept ++ todo
  | _ => s.senders

/-- The read that is still to be offered to a subscriber. -/
def waiting (s : SerialHub ι) (i : ι) : Option (List UInt8) :=
  match s.reader with
  | .fanning chunk _ todo => if i ∈ todo then some chunk else none
  | _ => none

end SerialHub

variable [DecidableEq ι]

/-- One step: the loop of `start_serial_readers`, an operation that marks a
generation, `subscribe_serial`, or a client with its receiver. -/
inductive SerialStep : SerialHub ι → SerialEvent ι → SerialHub ι → Prop
  | read {s : SerialHub ι} {timestamp : SystemTime} {chunk : List UInt8}
      {ring : SerialRing} {cursor : Nat} (hreader : s.reader = .reading)
      (hchunk : chunk ≠ []) (hlength : chunk.length ≤ readBufferBytes)
      (happend : s.ring.append timestamp chunk = .ok (ring, cursor)) :
      SerialStep s (.read timestamp chunk)
        { s with ring, reader := .appended chunk }
  | readFailed {s : SerialHub ι} (hreader : s.reader = .reading) :
      SerialStep s .readFailed { s with reader := .stopped }
  | mark {s : SerialHub ι} :
      SerialStep s .mark { s with ring := s.ring.markGeneration.1 }
  | fanOut {s : SerialHub ι} {chunk : List UInt8}
      (hreader : s.reader = .appended chunk) :
      SerialStep s (.fanOut chunk)
        { s with reader := .fanning chunk [] s.senders, senders := [] }
  | offer {s : SerialHub ι} {chunk : List UInt8} {kept todo : List ι} {i : ι}
      {channel channel' : Channel (List UInt8)} {outcome : Offered}
      (hreader : s.reader = .fanning chunk kept (i :: todo))
      (hchannel : s.channel i = some channel)
      (hsend : channel.trySend subscriberCapacity chunk =
        (outcome, channel')) :
      SerialStep s (.offer i chunk outcome)
        { s.setChannel i channel' with
          reader := .fanning chunk
            (if outcome = .disconnected then kept else kept ++ [i]) todo }
  | finished {s : SerialHub ι} {chunk : List UInt8} {kept : List ι}
      (hreader : s.reader = .fanning chunk kept []) :
      SerialStep s .finished { s with reader := .reading, senders := kept }
  | subscribe {s : SerialHub ι} {i : ι} (hlock : s.reader.locks = false)
      (hnew : s.channel i = none) :
      SerialStep s (.subscribe i)
        { s.setChannel i .new with senders := s.senders ++ [i] }
  | receive {s : SerialHub ι} {i : ι} {chunk : List UInt8}
      {channel channel' : Channel (List UInt8)}
      (hchannel : s.channel i = some channel)
      (hreceive : channel.receive = some (chunk, channel')) :
      SerialStep s (.receive i chunk) (s.setChannel i channel')
  | drop {s : SerialHub ι} {i : ι} {channel : Channel (List UInt8)}
      (hchannel : s.channel i = some channel)
      (hconnected : channel.connected = true) :
      SerialStep s (.drop i) (s.setChannel i channel.dropReceiver)

namespace SerialEvent

/-- The subscriber that a step is about. -/
def subscriber? : SerialEvent ι → Option ι
  | .offer i _ _ => some i
  | .subscribe i => some i
  | .receive i _ => some i
  | .drop i => some i
  | _ => none

/-- What a step is to the subscription of a subscriber. -/
def seenBy (i : ι) : SerialEvent ι → Option (SubscriptionEvent (List UInt8))
  | .fanOut chunk => some (.broadcast chunk)
  | .offer j chunk outcome => if j = i then some (.offer chunk outcome) else none
  | .finished => some .finished
  | .receive j chunk => if j = i then some (.receive chunk) else none
  | .drop j => if j = i then some .drop else none
  | _ => none

end SerialEvent

/-- The steps in which a subscriber has no part. -/
def withoutSubscriber (i : ι) (t : List (SerialEvent ι)) :
    List (SerialEvent ι) :=
  t.filter fun e => decide (e.subscriber? ≠ some i)

/-- The reader as it would be if a subscriber did not exist. -/
def Reader.without (i : ι) : Reader ι → Reader ι
  | .fanning chunk kept todo =>
      .fanning chunk (kept.filter (· ≠ i)) (todo.filter (· ≠ i))
  | .reading => .reading
  | .appended chunk => .appended chunk
  | .stopped => .stopped

/-- The board as it would be if a subscriber did not exist. -/
def SerialHub.without (i : ι) (s : SerialHub ι) : SerialHub ι where
  ring := s.ring
  reader := s.reader.without i
  senders := s.senders.filter (· ≠ i)
  channel := Function.update s.channel i none

/-- Every listed subscriber has a channel, and is listed once. -/
structure SerialHub.Consistent (s : SerialHub ι) : Prop where
  nodup : s.listed.Nodup
  channel : ∀ i ∈ s.listed, s.channel i ≠ none

/-- What the board shows of a subscription. -/
structure SerialHub.Shows (s : SerialHub ι) (i : ι)
    (σ : Subscription (List UInt8)) : Prop where
  channel : s.channel i = some σ.channel
  listed : σ.listed = true ↔ i ∈ s.listed
  waiting : σ.waiting = s.waiting i

/-- The reads that have been fanned out. -/
def fannedOut (t : List (SerialEvent ι)) : List (List UInt8) :=
  t.filterMap fun e =>
    match e with
    | .fanOut chunk => some chunk
    | _ => none

/-- The reads that a subscriber has been offered. -/
def offeredTo (i : ι) (t : List (SerialEvent ι)) : List (List UInt8) :=
  t.filterMap fun e =>
    match e with
    | .offer j chunk _ => if j = i then some chunk else none
    | _ => none

/-- The reads that have been put into the queue of a subscriber. -/
def queuedFor (i : ι) (t : List (SerialEvent ι)) : List (List UInt8) :=
  t.filterMap fun e =>
    match e with
    | .offer j chunk .sent => if j = i then some chunk else none
    | _ => none

/-- The reads that a subscriber has received. -/
def receivedBy (i : ι) (t : List (SerialEvent ι)) : List (List UInt8) :=
  t.filterMap fun e =>
    match e with
    | .receive j chunk => if j = i then some chunk else none
    | _ => none

/--
What a subscriber gets since it has subscribed.  What it receives are reads that
have been fanned out, in order.  While it is there, every such read has been
offered to it or is about to be, those that had room have been received or are in
its queue, and it is listed.  A read has no room only if 128 of them are queued,
and it finds the receiver gone only if it is.  A subscriber that has gone is not
listed after the next pass over the list.
-/
structure Serves (i : ι) (t : List (SerialEvent ι)) (s : SerialHub ι) :
    Prop where
  inOrder : (receivedBy i t).Sublist (fannedOut t)
  offered : .drop i ∉ t → offeredTo i t ++ (s.waiting i).toList = fannedOut t
  conveyed : .drop i ∉ t → ∃ channel, s.channel i = some channel ∧
    queuedFor i t = receivedBy i t ++ channel.queue
  full : ∀ u chunk v, t = u ++ .offer i chunk .full :: v →
    (queuedFor i u).length = (receivedBy i u).length + 128
  disconnected : ∀ u chunk v, t = u ++ .offer i chunk .disconnected :: v →
    .drop i ∈ u
  listed : .drop i ∉ t → i ∈ s.listed
  removed : ∀ u chunk v w, t = u ++ .fanOut chunk :: v ++ .finished :: w →
    .drop i ∈ u → i ∉ s.listed

/-- Apart from one subscriber, two runs come to the same: the ring, the list, and
what the others have received and have in their queues. -/
structure SameApart (i : ι) (t t' : List (SerialEvent ι))
    (s s' : SerialHub ι) : Prop where
  ring : s'.ring = s.ring
  listed : s'.listed = s.listed.filter (· ≠ i)
  channel : ∀ j, j ≠ i → s'.channel j = s.channel j
  received : ∀ j, j ≠ i → receivedBy j t' = receivedBy j t

section Erasure

variable {s s' : SerialHub ι} {e : SerialEvent ι} {i j : ι}

theorem setChannel_without (channel : Channel (List UInt8)) :
    (s.setChannel i channel).without i = s.without i := by
  simp [SerialHub.setChannel, SerialHub.without]

theorem setChannel_without_of_ne (channel : Channel (List UInt8))
    (hne : j ≠ i) :
    (s.setChannel j channel).without i =
      (s.without i).setChannel j channel := by
  simp [SerialHub.setChannel, SerialHub.without, Function.update_comm hne]

theorem without_channel_of_ne (hne : j ≠ i) :
    (s.without i).channel j = s.channel j :=
  Function.update_of_ne hne _ _

theorem Reader.locks_without (reader : Reader ι) :
    (reader.without i).locks = reader.locks := by
  cases reader <;> rfl

/-- A step of a subscriber does not show without it. -/
theorem SerialStep.without_eq (hstep : SerialStep s e s')
    (he : e.subscriber? = some i) : s'.without i = s.without i := by
  cases hstep with
  | read => cases he
  | readFailed => cases he
  | mark => cases he
  | fanOut => cases he
  | finished => cases he
  | offer hreader hchannel hsend =>
      obtain rfl := Option.some.inj he
      split
      · simp [SerialHub.without, SerialHub.setChannel, Reader.without, hreader]
      · simp [SerialHub.without, SerialHub.setChannel, Reader.without, hreader]
  | subscribe hlock hnew =>
      obtain rfl := Option.some.inj he
      simp [SerialHub.without, SerialHub.setChannel]
  | receive =>
      obtain rfl := Option.some.inj he
      exact setChannel_without _
  | drop =>
      obtain rfl := Option.some.inj he
      exact setChannel_without _

/-- The other steps are possible without the subscriber. -/
theorem SerialStep.without_step (hstep : SerialStep s e s')
    (he : e.subscriber? ≠ some i) :
    SerialStep (s.without i) e (s'.without i) := by
  cases hstep with
  | read hreader hchunk hlength happend =>
      exact .read (congrArg (Reader.without i) hreader) hchunk hlength happend
  | readFailed hreader =>
      exact .readFailed (congrArg (Reader.without i) hreader)
  | mark => exact .mark
  | fanOut hreader => exact .fanOut (congrArg (Reader.without i) hreader)
  | finished hreader => exact .finished (congrArg (Reader.without i) hreader)
  | @offer chunk kept todo j channel channel' outcome hreader hchannel hsend =>
      have hne : j ≠ i := fun h => he (congrArg some h)
      have hreader' : (s.without i).reader = .fanning chunk
          (kept.filter (· ≠ i)) (j :: todo.filter (· ≠ i)) := by
        simp [SerialHub.without, Reader.without, hreader, hne]
      have hnext := SerialStep.offer hreader'
        ((without_channel_of_ne hne).trans hchannel) hsend
      have hkept : (if outcome = .disconnected then kept
          else kept ++ [j]).filter (· ≠ i) =
            if outcome = .disconnected then kept.filter (· ≠ i)
            else kept.filter (· ≠ i) ++ [j] := by
        split
        · rfl
        · simp [hne]
      rw [← hkept, ← setChannel_without_of_ne _ hne] at hnext
      exact hnext
  | @subscribe j hlock hnew =>
      have hne : j ≠ i := fun h => he (congrArg some h)
      have hnext := SerialStep.subscribe ((Reader.locks_without _).trans hlock)
        ((without_channel_of_ne hne).trans hnew)
      have hsenders : (s.without i).senders ++ [j] =
          (s.senders ++ [j]).filter (· ≠ i) := by
        simp [SerialHub.without, hne]
      rw [hsenders, ← setChannel_without_of_ne _ hne] at hnext
      exact hnext
  | @receive j chunk channel channel' hchannel hreceive =>
      have hne : j ≠ i := fun h => he (congrArg some h)
      rw [setChannel_without_of_ne _ hne]
      exact .receive ((without_channel_of_ne hne).trans hchannel) hreceive
  | @drop j channel hchannel hconnected =>
      have hne : j ≠ i := fun h => he (congrArg some h)
      rw [setChannel_without_of_ne _ hne]
      exact .drop ((without_channel_of_ne hne).trans hchannel) hconnected

end Erasure

section Subscriptions

variable {s s' : SerialHub ι} {e : SerialEvent ι} {i j : ι}
variable {σ : Subscription (List UInt8)}

omit [DecidableEq ι] in
theorem listed_of_unlocked (h : s.reader.locks = false) :
    s.listed = s.senders := by
  unfold SerialHub.listed
  split
  · rename_i hreader
    rw [hreader] at h
    cases h
  · rfl

theorem waiting_of_unlocked (h : s.reader.locks = false) :
    s.waiting i = none := by
  unfold SerialHub.waiting
  split
  · rename_i hreader
    rw [hreader] at h
    cases h
  · rfl

/-- What a step does to the list. -/
theorem SerialStep.listed_cases (hstep : SerialStep s e s') :
    s'.listed = s.listed ∨
      (∃ i, e = .subscribe i ∧ s.channel i = none ∧
        s'.listed = s.listed ++ [i]) ∨
      ∃ i chunk front back, e = .offer i chunk .disconnected ∧
        s.listed = front ++ i :: back ∧ s'.listed = front ++ back := by
  cases hstep with
  | read hreader => left; simp [SerialHub.listed, hreader]
  | readFailed hreader => left; simp [SerialHub.listed, hreader]
  | mark => left; rfl
  | fanOut hreader => left; simp [SerialHub.listed, hreader]
  | finished hreader => left; simp [SerialHub.listed, hreader]
  | @offer chunk kept todo j channel channel' outcome hreader hchannel hsend =>
      by_cases hgone : outcome = .disconnected
      · subst hgone
        exact .inr (.inr ⟨j, chunk, kept, todo, rfl,
          by simp [SerialHub.listed, hreader], by simp [SerialHub.listed]⟩)
      · left
        simp [SerialHub.listed, hreader, hgone]
  | @subscribe j hlock hnew =>
      refine .inr (.inl ⟨j, rfl, hnew, ?_⟩)
      rw [listed_of_unlocked hlock]
      exact listed_of_unlocked hlock
  | receive => left; rfl
  | drop => left; rfl

/-- A channel that has been made stays. -/
theorem SerialStep.channel_ne_none (hstep : SerialStep s e s')
    (h : s.channel i ≠ none) : s'.channel i ≠ none := by
  have hset : ∀ j channel, (s.setChannel j channel).channel i ≠ none := by
    intro j channel
    rw [SerialHub.setChannel]
    by_cases hij : i = j
    · simp [hij]
    · simpa [hij] using h
  cases hstep with
  | read => exact h
  | readFailed => exact h
  | mark => exact h
  | fanOut => exact h
  | finished => exact h
  | offer => exact hset _ _
  | subscribe => exact hset _ _
  | receive => exact hset _ _
  | drop => exact hset _ _

theorem SerialStep.consistent (hstep : SerialStep s e s')
    (h : s.Consistent) : s'.Consistent := by
  obtain ⟨hnodup, hchannel⟩ := h
  rcases hstep.listed_cases with hsame | ⟨i, rfl, hnew, hadded⟩ |
    ⟨i, chunk, front, back, rfl, hlisted, hremoved⟩
  · constructor
    · rwa [hsame]
    · intro j hj
      rw [hsame] at hj
      exact hstep.channel_ne_none (hchannel j hj)
  · have hfresh : i ∉ s.listed := fun hmem => hchannel i hmem hnew
    constructor
    · rw [hadded, List.nodup_append_comm]
      exact List.nodup_cons.mpr ⟨hfresh, hnodup⟩
    · intro j hj
      rw [hadded, List.mem_append, List.mem_singleton] at hj
      rcases hj with hj | rfl
      · exact hstep.channel_ne_none (hchannel j hj)
      · cases hstep
        simp [SerialHub.setChannel]
  · rw [hlisted] at hnodup hchannel
    have hsub : (front ++ back).Sublist (front ++ i :: back) :=
      (List.sublist_cons_self i back).append_left front
    constructor
    · rw [hremoved]
      exact hnodup.sublist hsub
    · intro j hj
      rw [hremoved] at hj
      exact hstep.channel_ne_none (hchannel j (hsub.subset hj))

theorem setChannel_channel_self (channel : Channel (List UInt8)) :
    (s.setChannel i channel).channel i = some channel :=
  Function.update_self _ _ _

theorem setChannel_channel_of_ne (channel : Channel (List UInt8))
    (hne : i ≠ j) : (s.setChannel j channel).channel i = s.channel i :=
  Function.update_of_ne hne _ _

theorem SerialHub.Shows.setChannel_self {channel channel' : Channel (List UInt8)}
    {listed : Bool} {waiting : Option (List UInt8)}
    (h : s.Shows i ⟨channel, listed, waiting⟩) :
    (s.setChannel i channel').Shows i ⟨channel', listed, waiting⟩ :=
  ⟨setChannel_channel_self _, h.listed, h.waiting⟩

/-- The channel of another subscriber is nothing to a subscription. -/
theorem SerialHub.Shows.setChannel_of_ne {channel : Channel (List UInt8)}
    (h : s.Shows i σ) (hne : i ≠ j) : (s.setChannel j channel).Shows i σ :=
  ⟨(setChannel_channel_of_ne _ hne).trans h.channel, h.listed, h.waiting⟩

theorem SerialHub.Shows.channel_eq {channel channel' : Channel (List UInt8)}
    {listed : Bool} {waiting : Option (List UInt8)}
    (h : s.Shows i ⟨channel, listed, waiting⟩)
    (hchannel : s.channel i = some channel') : channel' = channel :=
  Option.some.inj (hchannel.symm.trans h.channel)

/-- What an offer is to the subscription it is made to. -/
theorem SerialStep.shows_offer_self {chunk : List UInt8} {outcome : Offered}
    (hstep : SerialStep s (.offer i chunk outcome) s') (h : s.Consistent)
    (hσ : s.Shows i σ) :
    ∃ σ', SubscriptionStep subscriberCapacity σ (.offer chunk outcome) σ' ∧
      s'.Shows i σ' := by
  obtain ⟨channel, listed, waiting⟩ := σ
  cases hstep with
  | @offer _ kept todo _ channel' channel'' _ hreader hchannel' hsend =>
      obtain rfl := hσ.channel_eq hchannel'
      obtain ⟨-, hlisted, hwaiting⟩ := hσ
      have hnodup := h.nodup
      simp only [SerialHub.listed, hreader] at hlisted hnodup
      simp only [SerialHub.waiting, hreader] at hwaiting
      obtain rfl : listed = true := by simpa using hlisted
      obtain rfl : waiting = some chunk := by simpa using hwaiting
      obtain ⟨hothers, -⟩ := List.nodup_cons.mp (List.nodup_middle.mp hnodup)
      obtain ⟨hkept, htodo⟩ : i ∉ kept ∧ i ∉ todo := by simpa using hothers
      refine ⟨_, .offer hsend, setChannel_channel_self _, ?_, ?_⟩
      · by_cases hgone : outcome = .disconnected
        · simp [SerialHub.listed, hgone, hkept, htodo]
        · simp [SerialHub.listed, hgone]
      · simp [SerialHub.waiting, htodo]

/-- An offer is nothing to the subscription of another subscriber. -/
theorem SerialStep.shows_offer_of_ne {chunk : List UInt8} {outcome : Offered}
    (hstep : SerialStep s (.offer j chunk outcome) s') (hσ : s.Shows i σ)
    (hne : i ≠ j) : s'.Shows i σ := by
  obtain ⟨hchannel, hlisted, hwaiting⟩ := hσ
  cases hstep with
  | offer hreader =>
      simp only [SerialHub.listed, hreader] at hlisted
      simp only [SerialHub.waiting, hreader] at hwaiting
      refine ⟨(setChannel_channel_of_ne _ hne).trans hchannel, ?_, ?_⟩
      · by_cases hgone : outcome = .disconnected
        · simpa [SerialHub.listed, hgone, hne] using hlisted
        · simpa [SerialHub.listed, hgone, hne] using hlisted
      · simpa [SerialHub.waiting, hne] using hwaiting

/-- A new subscription is nothing to the others. -/
theorem SerialStep.shows_subscribe
    (hstep : SerialStep s (.subscribe j) s') (hσ : s.Shows i σ) :
    s'.Shows i σ := by
  obtain ⟨hchannel, hlisted, hwaiting⟩ := hσ
  cases hstep with
  | subscribe hlock hnew =>
      have hne : i ≠ j := by
        rintro rfl
        rw [hchannel] at hnew
        cases hnew
      have hadded : SerialHub.listed
          { s.setChannel j .new with senders := s.senders ++ [j] } =
            s.senders ++ [j] :=
        listed_of_unlocked hlock
      refine ⟨(setChannel_channel_of_ne _ hne).trans hchannel, ?_, hwaiting⟩
      rw [hadded, ← listed_of_unlocked hlock]
      simpa [hne] using hlisted

/-- What a step is to a subscription. -/
theorem SerialStep.shows (hstep : SerialStep s e s') (h : s.Consistent)
    (hσ : s.Shows i σ) :
    (e.seenBy i = none ∧ s'.Shows i σ) ∨
      ∃ u σ', e.seenBy i = some u ∧
        SubscriptionStep subscriberCapacity σ u σ' ∧ s'.Shows i σ' := by
  obtain ⟨channel, listed, waiting⟩ := σ
  obtain ⟨hchannel, hlisted, hwaiting⟩ := id hσ
  dsimp only at hchannel hlisted hwaiting
  cases id hstep with
  | read hreader =>
      left
      refine ⟨rfl, hchannel, ?_, ?_⟩
      · simpa [SerialHub.listed, hreader] using hlisted
      · simpa [SerialHub.waiting, hreader] using hwaiting
  | readFailed hreader =>
      left
      refine ⟨rfl, hchannel, ?_, ?_⟩
      · simpa [SerialHub.listed, hreader] using hlisted
      · simpa [SerialHub.waiting, hreader] using hwaiting
  | mark => exact .inl ⟨rfl, hchannel, hlisted, hwaiting⟩
  | @fanOut chunk hreader =>
      right
      obtain rfl : waiting = none := by
        simpa [SerialHub.waiting, hreader] using hwaiting
      have hlisted' : listed = true ↔ i ∈ s.senders := by
        simpa [SerialHub.listed, hreader] using hlisted
      refine ⟨_, _, rfl, .broadcast chunk, hchannel, hlisted', ?_⟩
      simp only [SerialHub.waiting, hlisted']
  | finished hreader =>
      right
      obtain rfl : waiting = none := by
        simpa [SerialHub.waiting, hreader] using hwaiting
      refine ⟨_, _, rfl, .finished, hchannel, ?_, rfl⟩
      simpa [SerialHub.listed, hreader] using hlisted
  | @offer chunk kept todo j =>
      by_cases hij : j = i
      · subst hij
        obtain ⟨σ', hmirror, hshows⟩ := hstep.shows_offer_self h hσ
        exact .inr ⟨_, σ', if_pos rfl, hmirror, hshows⟩
      · exact .inl ⟨if_neg hij, hstep.shows_offer_of_ne hσ (Ne.symm hij)⟩
  | subscribe => exact .inl ⟨rfl, hstep.shows_subscribe hσ⟩
  | @receive j chunk channel' channel'' hchannel' hreceive =>
      by_cases hij : j = i
      · subst hij
        obtain rfl := hσ.channel_eq hchannel'
        exact .inr ⟨_, _, if_pos rfl, .receive hreceive, hσ.setChannel_self⟩
      · exact .inl ⟨if_neg hij, hσ.setChannel_of_ne (Ne.symm hij)⟩
  | @drop j channel' hchannel' hconnected =>
      by_cases hij : j = i
      · subst hij
        obtain rfl := hσ.channel_eq hchannel'
        exact .inr ⟨_, _, if_pos rfl, .drop hconnected, hσ.setChannel_self⟩
      · exact .inl ⟨if_neg hij, hσ.setChannel_of_ne (Ne.symm hij)⟩

/-- Who subscribes has a new subscription. -/
theorem SerialStep.shows_new (hstep : SerialStep s (.subscribe i) s') :
    s'.Shows i .new := by
  cases hstep with
  | subscribe hlock hnew =>
      have hadded : SerialHub.listed
          { s.setChannel i .new with senders := s.senders ++ [i] } =
            s.senders ++ [i] :=
        listed_of_unlocked hlock
      refine ⟨setChannel_channel_self _, ?_, ?_⟩
      · rw [hadded]
        simp [Subscription.new]
      · exact (waiting_of_unlocked (s := s) hlock).symm

variable {ring : SerialRing} {t u v w : List (SerialEvent ι)}

omit [DecidableEq ι] in
theorem consistent_initial : (SerialHub.initial (ι := ι) ring).Consistent :=
  ⟨List.nodup_nil, fun _ hmem => absurd hmem List.not_mem_nil⟩

/-- A run from a subscription on is a run of the subscription. -/
theorem subscriptionRun (h : LabelledRun SerialStep s t s')
    (hs : s.Consistent) (hnew : s.Shows i .new) :
    ∃ σ, SubscriptionRun subscriberCapacity (t.filterMap (·.seenBy i)) σ ∧
      s'.Shows i σ := by
  obtain ⟨σ, hruns, -, hshows⟩ := h.simulate
    (R := fun s σ => s.Consistent ∧ s.Shows i σ) ⟨hs, hnew⟩ (by
      rintro s e s' σ hstep ⟨hs, hshows⟩
      have hs' := hstep.consistent hs
      rcases hstep.shows hs hshows with ⟨hnone, hshows'⟩ |
        ⟨u, σ', hsome, hmirror, hshows'⟩
      · exact .inl ⟨hnone, hs', hshows'⟩
      · exact .inr ⟨u, σ', hsome, hmirror, hs', hshows'⟩)
  exact ⟨σ, hruns, hshows⟩

theorem filterMap_seenBy {φ : Type} {f : SerialEvent ι → Option φ}
    {g : SubscriptionEvent (List UInt8) → Option φ}
    (h : ∀ e : SerialEvent ι, (e.seenBy i).bind g = f e) :
    (t.filterMap (·.seenBy i)).filterMap g = t.filterMap f := by
  rw [List.filterMap_filterMap]
  exact List.filterMap_congr fun e _ => h e

theorem drop_seenBy_iff :
    .drop ∈ t.filterMap (·.seenBy i) ↔ .drop i ∈ t := by
  rw [List.mem_filterMap]
  constructor
  · rintro ⟨e, he, hseen⟩
    cases e <;> simp only [SerialEvent.seenBy, Option.ite_none_right_eq_some,
      Option.some.injEq, reduceCtorEq, and_false] at hseen
    obtain rfl := hseen.1
    exact he
  · intro he
    exact ⟨_, he, if_pos rfl⟩

open SubscriptionEvent in
/-- The histories of a subscriber are those of its subscription. -/
theorem seenBy_histories (i : ι) (t : List (SerialEvent ι)) :
    (t.filterMap (·.seenBy i)).filterMap broadcast? = fannedOut t ∧
      (t.filterMap (·.seenBy i)).filterMap offered? = offeredTo i t ∧
      (t.filterMap (·.seenBy i)).filterMap accepted? = queuedFor i t ∧
      (t.filterMap (·.seenBy i)).filterMap received? = receivedBy i t := by
  refine ⟨filterMap_seenBy fun e => ?_, filterMap_seenBy fun e => ?_,
    filterMap_seenBy fun e => ?_, filterMap_seenBy fun e => ?_⟩
  all_goals
    cases e with
    | offer j chunk outcome =>
        by_cases hij : j = i
        · cases outcome <;> simp [SerialEvent.seenBy, hij, broadcast?,
            offered?, accepted?, received?]
        · cases outcome <;> simp [SerialEvent.seenBy, hij]
    | receive j chunk =>
        by_cases hij : j = i
        · simp [SerialEvent.seenBy, hij, broadcast?, offered?, accepted?,
            received?]
        · simp [SerialEvent.seenBy, hij]
    | drop j =>
        by_cases hij : j = i
        · simp [SerialEvent.seenBy, hij, broadcast?, offered?, accepted?,
            received?]
        · simp [SerialEvent.seenBy, hij]
    | read => rfl
    | readFailed => rfl
    | mark => rfl
    | fanOut => rfl
    | finished => rfl
    | subscribe => rfl

theorem seenBy_offer_self {chunk : List UInt8} {outcome : Offered} :
    (SerialEvent.offer i chunk outcome).seenBy i =
      some (.offer chunk outcome) :=
  if_pos rfl

theorem seenBy_cons {u : SubscriptionEvent (List UInt8)}
    (h : e.seenBy i = some u) : (e :: t).filterMap (·.seenBy i) =
      u :: t.filterMap (·.seenBy i) :=
  List.filterMap_cons_some h

/-- What a subscriber gets in a run from its subscription on. -/
theorem serves_of_run (h : LabelledRun SerialStep s t s')
    (hs : s.Consistent) (hnew : s.Shows i .new) : Serves i t s' := by
  obtain ⟨σ, hrun, hshows⟩ := subscriptionRun h hs hnew
  have hlive : .drop i ∉ t → σ.channel.connected = true := by
    intro hdrop
    rw [hrun.connected_iff, drop_seenBy_iff]
    exact hdrop
  have hlisted : .drop i ∉ t → σ.listed = true :=
    fun hdrop => hrun.maintained.listed (hlive hdrop)
  obtain ⟨hfanned, hoffered, hqueued, hreceived⟩ := seenBy_histories i t
  constructor
  · rw [← hreceived, ← hfanned]
    exact hrun.inOrder
  · intro hdrop
    rw [← hoffered, ← hfanned, ← hshows.waiting]
    exact hrun.presented.current (hlisted hdrop)
  · intro hdrop
    rw [← hqueued, ← hreceived]
    exact ⟨σ.channel, hshows.channel, hrun.conveyed.queued (hlive hdrop)⟩
  · rintro u chunk v rfl
    obtain ⟨-, -, hqueued, hreceived⟩ := seenBy_histories i u
    rw [← hqueued, ← hreceived]
    rw [List.filterMap_append, seenBy_cons seenBy_offer_self] at hrun
    exact hrun.full
  · rintro u chunk v rfl
    rw [← drop_seenBy_iff]
    rw [List.filterMap_append, seenBy_cons seenBy_offer_self] at hrun
    exact hrun.disconnected
  · exact fun hdrop => hshows.listed.mp (hlisted hdrop)
  · rintro u chunk v w rfl hdrop
    rw [List.filterMap_append, List.filterMap_append, seenBy_cons rfl,
      seenBy_cons rfl] at hrun
    have hunlisted := hrun.removed (drop_seenBy_iff.mpr hdrop)
    rw [← hshows.listed, hunlisted]
    exact Bool.false_ne_true

/-- A run without a subscriber. -/
theorem run_without (h : LabelledRun SerialStep (SerialHub.initial ring) t s)
    (i : ι) :
    LabelledRun SerialStep (SerialHub.initial ring) (withoutSubscriber i t)
      (s.without i) := by
  have hinitial : (SerialHub.initial ring).without i =
      SerialHub.initial (ι := ι) ring := by
    simp [SerialHub.without, SerialHub.initial, Reader.without]
  have herased : ∃ s', LabelledRun SerialStep (SerialHub.initial ring)
      (t.filterMap (Option.guard fun e => decide (e.subscriber? ≠ some i)))
      s' ∧ s' = s.without i := by
    refine h.simulate (R := fun s u => u = s.without i) hinitial.symm ?_
    rintro s e s' u hstep rfl
    by_cases he : e.subscriber? = some i
    · exact .inl ⟨by simp [he], (hstep.without_eq he).symm⟩
    · exact .inr ⟨e, _, by simp [he], hstep.without_step he, rfl⟩
  obtain ⟨s', hrun, rfl⟩ := herased
  rwa [List.filterMap_eq_filter] at hrun

theorem listed_without (s : SerialHub ι) (i : ι) :
    (s.without i).listed = s.listed.filter (· ≠ i) := by
  cases hreader : s.reader with
  | fanning =>
      simp [SerialHub.listed, SerialHub.without, Reader.without, hreader]
  | reading =>
      simp [SerialHub.listed, SerialHub.without, Reader.without, hreader]
  | appended =>
      simp [SerialHub.listed, SerialHub.without, Reader.without, hreader]
  | stopped =>
      simp [SerialHub.listed, SerialHub.without, Reader.without, hreader]

theorem receivedBy_without (hne : j ≠ i) :
    receivedBy j (withoutSubscriber i t) = receivedBy j t := by
  unfold receivedBy withoutSubscriber
  rw [List.filterMap_filter]
  refine List.filterMap_congr fun e _ => ?_
  split
  · rfl
  · rename_i he
    have hsubscriber : e.subscriber? = some i := by simpa using he
    cases e with
    | receive k chunk =>
        obtain rfl : k = i := Option.some.inj hsubscriber
        exact (if_neg (Ne.symm hne)).symm
    | _ => rfl

/--
In every run of the reader thread and its clients, a subscriber gets what is
fanned out from its subscription on, except what does not fit, and stays on the
list until it goes away; and the same steps without those of the subscriber are a
run with the same ring and the same reads for the others.
-/
theorem serialHub_serves
    (h : LabelledRun SerialStep (SerialHub.initial ring) t s) (i : ι) :
    (∀ before after, t = before ++ .subscribe i :: after → Serves i after s) ∧
      ∃ s', LabelledRun SerialStep (SerialHub.initial ring)
          (withoutSubscriber i t) s' ∧
        SameApart i t (withoutSubscriber i t) s s' := by
  constructor
  · rintro before after rfl
    obtain ⟨s₁, hbefore, hrest⟩ := labelledRun_append_iff.mp h
    obtain ⟨s₂, hsubscribe, hafter⟩ := labelledRun_cons_iff.mp hrest
    have hs₁ : s₁.Consistent := hbefore.invariant consistent_initial
      fun _ _ _ hstep => hstep.consistent
    exact serves_of_run hafter (hsubscribe.consistent hs₁)
      hsubscribe.shows_new
  · refine ⟨s.without i, run_without h i, ?_⟩
    constructor
    · rfl
    · exact listed_without s i
    · exact fun j hne => without_channel_of_ne hne
    · exact fun j hne => receivedBy_without hne

end Subscriptions

section Brief

/-- An empty ring. -/
def smallRing : SerialRing :=
  { capacity := 16, bytes := 0, nextCursor := 0, generation := 0, chunks := [] }

/-- A subscriber receives a read. -/
def oneDelivery : List (SerialEvent Nat) :=
  [.subscribe 0, .read 0 [0x4F], .fanOut [0x4F], .offer 0 [0x4F] .sent,
    .finished, .receive 0 [0x4F]]

theorem serialHub_serves_one :
    ∃ s, LabelledRun SerialStep (SerialHub.initial smallRing) oneDelivery s ∧
      (∀ before after, oneDelivery = before ++ .subscribe 0 :: after →
        Serves 0 after s) ∧
      ∃ s', LabelledRun SerialStep (SerialHub.initial smallRing)
          (withoutSubscriber 0 oneDelivery) s' ∧
        SameApart 0 oneDelivery (withoutSubscriber 0 oneDelivery) s s' := by
  have hrun : ∃ s, LabelledRun SerialStep (SerialHub.initial smallRing)
      oneDelivery s := by
    simp only [oneDelivery, labelledRun_cons_iff, labelledRun_nil_iff]
    refine ⟨_, _, .subscribe rfl rfl, _, .read rfl (by simp) (by decide) rfl,
      _, .fanOut rfl, _, .offer rfl rfl rfl, _, .finished rfl, _,
      .receive rfl rfl, rfl⟩
  obtain ⟨s, h⟩ := hrun
  exact ⟨s, h, serialHub_serves h 0⟩

end Brief

end RpictlMcp
