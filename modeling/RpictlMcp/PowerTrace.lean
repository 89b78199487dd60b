import RpictlMcp.BoardTrace

/-!
# rpictl-mcp: traces of the power subsystem

What a power query and a call of `set_power` do, in the trace logic.  A query is
passive up to its end, where it reports what it has observed.  A call of
`set_power` launches at most one relay command; it does so after a query of its
own has verified the identity, and it succeeds only when that command was
successful and a later query has observed the requested state.

A rejection can only come from the power identity, before anything is launched.
-/

namespace RpictlMcp

open Prog

section PowerTrace

variable {allowed : List Event → Event → Prop} {profile : BoardProfile}

/-- A profile whose relay the service can address. -/
structure HasRelay (profile : BoardProfile) (identity : Identity) : Prop where
  backend : profile.power.backend = "matter"
  parsed : parseIdentity profile.power.identity = .ok identity

/-- A profile whose relay the service would address, but for its identity. -/
structure BadIdentity (profile : BoardProfile) (e : Error) : Prop where
  backend : profile.power.backend = "matter"
  parsed : parseIdentity profile.power.identity = .error e

theorem HasRelay.not_bad {profile : BoardProfile} {identity : Identity}
    (h : HasRelay profile identity) (e : Error) : ¬BadIdentity profile e := by
  intro hbad
  have hparsed := hbad.parsed
  rw [h.parsed] at hparsed
  cases hparsed

/-- An identity that some table of neighbours confirms. -/
def Verifiable (identity : Identity) : Prop :=
  ∀ mac, identity.mac = some mac →
    ∃ neighbors : Output, neighbors.Bounded ∧ namesMac neighbors mac = true

/-- A profile whose relay the service can switch. -/
def Switchable (profile : BoardProfile) : Prop :=
  ∃ identity, HasRelay profile identity ∧ Verifiable identity

/-- What a power query does. -/
def QueryTrace (profile : BoardProfile) (r : Result PowerObservation)
    (t : List Event) : Prop :=
  match r with
  | .ok observation =>
      ∃ q identity, t = q ++ [.noted (.queried observation)] ∧ Passive q ∧
        HasRelay profile identity ∧
        (observation.identityVerified = true → Verifiable identity)
  | .error e =>
      Passive t ∧ (e.code.isRejection = true → t = [] ∧ BadIdentity profile e)

theorem verifyIdentity_quiet (hlenient : Lenient allowed)
    (identity : Identity) (deadline : Nat) :
    Confined .passive allowed (verifyIdentity identity deadline)
      fun verified => verified = true → Verifiable identity := by
  unfold verifyIdentity
  split
  · rename_i hmac
    exact .ret fun _ mac hsome => by simp [hmac] at hsome
  · rename_i mac hmac
    refine .andThen (runPowerCommand_quiet hlenient rfl deadline _)
      fun neighbors hbounded => .ret fun hnames mac' hsome => ?_
    obtain rfl := Option.some.inj (hmac.symm.trans hsome)
    exact ⟨neighbors, hbounded, hnames⟩

/-- A power query reports what it has observed, or fails quietly. -/
theorem powerStateUntil_traces (hlenient : Lenient allowed)
    (deadline : Nat) (base : List Event) :
    Traces BoardOp.emits allowed (powerStateUntil profile deadline).run base
      (QueryTrace profile) := by
  unfold powerStateUntil
  split
  · exact Traces.throwError ⟨passive_nil, by simp [ErrorCode.isRejection]⟩
  · rename_i hbackend
    have hbackend := Decidable.not_not.mp hbackend
    refine Traces.resultBind ?_ ?_
    · intro identity hidentity
      -- From here on nothing is rejected.
      refine Traces.mono (Φ := fun r t => QueryTrace profile r t ∧ Accepted r)
        ?_ fun _ _ h => h.1
      refine Traces.bindE ((runPowerCommand_quiet hlenient
        (readRelay_relay? identity) deadline _).quiet _) ?_ ?_
      · rintro output t ⟨ht, -⟩
        split
        · exact Traces.throwError
            ⟨⟨by simpa using ht.2, by simp [ErrorCode.isRejection]⟩,
              accepted_error.mpr rfl⟩
        · refine Traces.bindE ((verifyIdentity_quiet hlenient identity
            deadline).quiet _) ?_ ?_
          · rintro verified t' ⟨ht', hverified⟩
            refine Traces.eventBind (fun _ _ => rfl)
              (hlenient.queried _ _) fun _ => ?_
            refine Traces.done ⟨⟨t ++ t', identity, by simp,
              passive_append.mpr ⟨ht.2, ht'.2⟩, ⟨hbackend, hidentity⟩, ?_⟩,
              accepted_ok _⟩
            exact hverified verified rfl
          · rintro e t' ⟨ht', -⟩
            have haccepted := accepted_error.mp ht'.1
            exact ⟨⟨passive_append.mpr ⟨ht.2, ht'.2⟩, by simp [haccepted]⟩,
              accepted_error.mpr haccepted⟩
      · rintro e t ⟨ht, -⟩
        have haccepted := accepted_error.mp ht.1
        exact ⟨⟨ht.2, by simp [haccepted]⟩, accepted_error.mpr haccepted⟩
    · intro e he
      exact ⟨passive_nil, fun _ => ⟨rfl, hbackend, he⟩⟩

/-- Events inside a call of `set_power`, apart from its one launch. -/
def Event.isCalm : Event → Bool
  | .noted (.queried _) => true
  | .noted (.switched _ _) => true
  | e => e.isPassive

/-- A trace of calm events. -/
def Calm (t : List Event) : Prop :=
  ∀ e ∈ t, e.isCalm = true

@[simp] theorem calm_nil : Calm [] := by
  simp [Calm]

@[simp] theorem calm_cons {e : Event} {t : List Event} :
    Calm (e :: t) ↔ e.isCalm = true ∧ Calm t := by
  simp [Calm]

@[simp] theorem calm_append {s t : List Event} :
    Calm (s ++ t) ↔ Calm s ∧ Calm t := by
  simp [Calm, or_imp, forall_and]

theorem Passive.calm {t : List Event} (h : Passive t) : Calm t := by
  intro e he
  have := h e he
  cases e <;> simp_all [Event.isCalm, Event.isPassive]

/-- The point of a run that an event marks. -/
def Event.note? : Event → Option Note
  | .noted point => some point
  | _ => none

/-- The points that a trace marks. -/
def notes (t : List Event) : List Note :=
  t.filterMap Event.note?

@[simp] theorem notes_nil : notes [] = [] := rfl

@[simp] theorem notes_cons_noted (point : Note) (t : List Event) :
    notes (.noted point :: t) = point :: notes t := rfl

@[simp] theorem notes_append (s t : List Event) :
    notes (s ++ t) = notes s ++ notes t := by
  simp [notes]

@[simp] theorem Passive.notes {t : List Event} (h : Passive t) :
    notes t = [] := by
  rw [RpictlMcp.notes, List.filterMap_eq_nil_iff]
  intro e he
  have := h e he
  cases e <;> first | rfl | simp [Event.isPassive] at this

/--
What is known after the launch of a relay command: how it ended, and then what a
query observed.  The switch is confirmed when the command was successful and
the requested state was observed.
-/
def Confirmed (on : Bool) (after : PowerObservation) (points : List Note) :
    Prop :=
  ∃ output more, points = .switched on output :: .queried after :: more ∧
    output.success = true ∧ contains output.raw (utf8 "SUCCESS") = true ∧
    after.state = relayState on

/-- What follows the launch of a relay command, up to the end of its call. -/
structure Switched (on : Bool) (r : Result PowerObservation)
    (t : List Event) : Prop where
  calm : Calm t
  confirmed : ∀ after, r = .ok after ↔ Confirmed on after (notes t)
  last : ∀ after, r = .ok after →
    ∃ output, notes t = [.switched on output, .queried after]

theorem Switched.of_ok {on : Bool} {after : PowerObservation}
    {output : Output} {t : List Event} (hcalm : Calm t)
    (hnotes : notes t = [.switched on output, .queried after])
    (hsuccess : output.success = true)
    (hreported : contains output.raw (utf8 "SUCCESS") = true)
    (hstate : after.state = relayState on) : Switched on (.ok after) t where
  calm := hcalm
  confirmed := by
    intro other
    constructor
    · rintro ⟨⟩
      exact ⟨output, [], hnotes, hsuccess, hreported, hstate⟩
    · rintro ⟨output', more, hother, -⟩
      rw [hnotes] at hother
      cases hother
      rfl
  last := by
    rintro _ ⟨⟩
    exact ⟨output, hnotes⟩

theorem Switched.of_error {on : Bool} {e : Error} {t : List Event}
    (hcalm : Calm t) (h : ∀ after, ¬Confirmed on after (notes t)) :
    Switched on (.error e) t where
  calm := hcalm
  confirmed after := ⟨by simp, fun hafter => absurd hafter (h after)⟩
  last := by simp

/-- What a call of `set_power` does. -/
inductive SetPowerTrace (profile : BoardProfile) (on : Bool) :
    Result PowerObservation → List Event → Prop
  | refused {e : Error} {q : List Event} (hq : Calm q)
      (hreject : e.code.isRejection = true → q = [] ∧ BadIdentity profile e) :
      SetPowerTrace profile on (.error e) (.noted (.setPower on) :: q)
  | launched {r : Result PowerObservation} {q rest : List Event}
      {before : PowerObservation} {identity : Identity} (hq : Passive q)
      (hverified : before.identityVerified = true)
      (hrelay : HasRelay profile identity) (hverifiable : Verifiable identity)
      (haccepted : Accepted r) (hrest : Switched on r rest) :
      SetPowerTrace profile on r
        (.noted (.setPower on) :: q ++ [.noted (.queried before)] ++
          .launched (switchRelay identity on) :: rest)

/-- A trace of a call that launched, written in another way. -/
theorem SetPowerTrace.of_launched {on : Bool} {r : Result PowerObservation}
    {q rest t : List Event} {before : PowerObservation} {identity : Identity}
    (hq : Passive q) (hverified : before.identityVerified = true)
    (hrelay : HasRelay profile identity) (hverifiable : Verifiable identity)
    (haccepted : Accepted r) (hrest : Switched on r rest)
    (ht : t = .noted (.setPower on) :: q ++ [.noted (.queried before)] ++
      .launched (switchRelay identity on) :: rest) :
    SetPowerTrace profile on r t :=
  ht ▸ .launched hq hverified hrelay hverifiable haccepted hrest

/-- What the switching part of `set_power` does. -/
def SwitchTrace (profile : BoardProfile) (on : Bool) (r : Result Unit)
    (t : List Event) : Prop :=
  (∃ e, r = .error e ∧ t = [] ∧ (e.code.isRejection = true →
      parseIdentity profile.power.identity = .error e)) ∨
    ∃ identity q output rest,
      parseIdentity profile.power.identity = .ok identity ∧ Accepted r ∧
      t = .launched (switchRelay identity on) :: q ++ rest ∧ Passive q ∧
      match r with
      | .ok () => rest = [.noted (.switched on output)] ∧
          output.success = true ∧
          contains output.raw (utf8 "SUCCESS") = true
      | .error _ => rest = [] ∨ rest = [.noted (.switched on output)]

/-- The relay is switched by one launch; success was reported by its output. -/
theorem switchPower_traces (hlenient : Lenient allowed) (on : Bool)
    (deadline : Nat) {base : List Event}
    (hlaunch : ∀ identity, allowed base (.launched (switchRelay identity on))) :
    Traces BoardOp.emits allowed (switchPower profile on deadline).run base
      (SwitchTrace profile on) := by
  refine Traces.resultBind ?_ ?_
  · intro identity hidentity
    refine Traces.bindE (runPowerCommand_traces hlenient (hlaunch identity)
      deadline _) ?_ ?_
    · rintro output t ⟨-, -, ⟨e, he, -⟩ | ⟨q, rfl, hq⟩⟩
      · cases he
      · refine Traces.eventBind (fun _ _ => rfl)
          (hlenient.switched _ _ _) fun _ => ?_
        split
        · exact Traces.throwError (.inr ⟨identity, q, output,
            [.noted (.switched on output)], hidentity, accepted_error.mpr rfl,
            rfl, hq, .inr rfl⟩)
        · rename_i hsuccess
          simp only [Bool.or_eq_true, Bool.not_eq_eq_eq_not, Bool.not_true,
            not_or, Bool.not_eq_false] at hsuccess
          exact Traces.done (.inr ⟨identity, q, output, _, hidentity,
            accepted_ok (), rfl, hq, rfl, hsuccess.1, hsuccess.2⟩)
    · rintro e t ⟨haccepted, -, ⟨e', he, rfl⟩ | ⟨q, rfl, hq⟩⟩
      · have haccepted := accepted_error.mp haccepted
        exact .inl ⟨e, rfl, rfl, by simp [haccepted]⟩
      · exact .inr ⟨identity, q, ⟨false, [], []⟩, [], hidentity,
          accepted_error.mpr (accepted_error.mp haccepted), by simp, hq,
          .inl rfl⟩
  · intro e he
    exact .inl ⟨e, rfl, rfl, fun _ => he⟩

/-- A relay command that fails confirms nothing: nothing is queried after it. -/
theorem Switched.of_failed {on : Bool} {e : Error} {q rest : List Event}
    {output : Output} (hq : Passive q)
    (hfailed : rest = [] ∨ rest = [.noted (.switched on output)]) :
    Switched on (.error e) (q ++ rest) := by
  refine .of_error ?_ fun other => ?_
  · rcases hfailed with rfl | rfl <;> simp [hq.calm, Event.isCalm]
  · rintro ⟨output', more, hother, -⟩
    rcases hfailed with rfl | rfl <;> simp [hq.notes] at hother

/-- What a successful relay command has done is confirmed by one query. -/
theorem verifySwitched_traces (hlenient : Lenient allowed) {on : Bool}
    {identity : Identity} (hrelay : HasRelay profile identity)
    {q : List Event} (hq : Passive q) {output : Output}
    (hsuccess : output.success = true)
    (hreported : contains output.raw (utf8 "SUCCESS") = true)
    (deadline : Nat) {mismatch : PowerObservation → Error}
    (hmismatch : ∀ after, (mismatch after).code.isRejection = false)
    (base : List Event) :
    Traces BoardOp.emits allowed
      (do
        let after ← powerStateUntil profile deadline
        if after.state ≠ relayState on then throw (mismatch after)
        else return after : Action PowerObservation).run base
      fun r t => Accepted r ∧
        Switched on r (q ++ .noted (.switched on output) :: t) := by
  refine Traces.bindE (powerStateUntil_traces hlenient _ _) ?_ ?_
  · rintro after t ⟨q', -, rfl, hq', -⟩
    have hrest : Calm (q ++ .noted (.switched on output) :: q' ++
        [.noted (.queried after)]) := by
      simp [hq.calm, hq'.calm, Event.isCalm]
    have hnotes : notes (q ++ .noted (.switched on output) :: q' ++
        [.noted (.queried after)]) =
          [.switched on output, .queried after] := by
      simp [hq.notes, hq'.notes]
    split
    · rename_i hstate
      refine Traces.throwError ⟨accepted_error.mpr (hmismatch after), ?_⟩
      rw [List.append_nil, ← List.cons_append, ← List.append_assoc]
      refine .of_error hrest fun other => ?_
      rintro ⟨output', more, hother, -, -, hconfirmed⟩
      rw [hnotes] at hother
      cases hother
      exact hstate hconfirmed
    · rename_i hstate
      refine Traces.done ⟨accepted_ok after, ?_⟩
      rw [List.append_nil, ← List.cons_append, ← List.append_assoc]
      exact .of_ok hrest hnotes hsuccess hreported (Decidable.not_not.mp hstate)
  · rintro e t ⟨ht, hreject⟩
    have haccepted : e.code.isRejection = false := by
      by_contra hne
      exact hrelay.not_bad e (hreject (by simpa using hne)).2
    refine ⟨accepted_error.mpr haccepted, .of_error ?_ fun other => ?_⟩
    · simp [hq.calm, ht.calm, Event.isCalm]
    · rintro ⟨output', more, hother, -⟩
      simp [hq.notes, ht.notes] at hother

/-- A call of `set_power` launches at most once, after its own verification. -/
theorem setPower_traces (hlenient : Lenient allowed) (on : Bool)
    {base : List Event} (hcall : allowed base (.noted (.setPower on)))
    (hlaunch : ∀ q before identity, Passive q →
      before.identityVerified = true →
      allowed (base ++ (.noted (.setPower on) :: q ++
        [.noted (.queried before)])) (.launched (switchRelay identity on))) :
    Traces BoardOp.emits allowed (setPower profile on).run base
      (SetPowerTrace profile on) := by
  refine Traces.eventBind (fun _ _ => rfl) hcall fun _ =>
    Traces.silentBind (fun _ _ => rfl) fun now => ?_
  refine Traces.bindE (powerStateUntil_traces hlenient _ _) ?_ ?_
  · rintro before t ⟨q, known, rfl, hq, hknown, hverifiable⟩
    have hcalm : Calm (q ++ [.noted (.queried before)]) :=
      calm_append.mpr ⟨hq.calm, by simp [Event.isCalm]⟩
    split
    · refine Traces.throwError ?_
      rw [List.append_nil]
      exact .refused hcalm (by simp [ErrorCode.isRejection])
    · rename_i hverified
      simp only [Bool.not_eq_eq_eq_not, Bool.not_true,
        Bool.not_eq_false] at hverified
      have hverifiable := hverifiable hverified
      refine Traces.bindE (switchPower_traces hlenient on _ ?_) ?_ ?_
      · intro identity
        simpa using hlaunch q before identity hq hverified
      · rintro ⟨⟩ t (⟨e, he, -⟩ |
          ⟨identity, q₁, output, rest, hidentity, -, rfl, hq₁, rfl, hsuccess,
            hreported⟩)
        · cases he
        · obtain rfl : known = identity :=
            Except.ok.inj (hknown.parsed.symm.trans hidentity)
          refine (verifySwitched_traces hlenient hknown hq₁ hsuccess hreported
            _ (fun _ => rfl) _).mono ?_
          rintro r t ⟨haccepted, hswitched⟩
          exact .of_launched hq hverified hknown hverifiable haccepted
            hswitched (by simp)
      · rintro e t (⟨e', he, rfl, hreject⟩ |
          ⟨identity, q₁, output, rest, hidentity, haccepted, rfl, hq₁,
            hfailed⟩)
        · cases he
          simp only [List.append_nil]
          refine .refused hcalm fun h => ?_
          exact absurd ⟨hknown.backend, hreject h⟩ (hknown.not_bad e)
        · obtain rfl : known = identity :=
            Except.ok.inj (hknown.parsed.symm.trans hidentity)
          exact .of_launched hq hverified hknown hverifiable
            (accepted_error.mpr (accepted_error.mp haccepted))
            (.of_failed hq₁ hfailed) (by simp)
  · rintro e t ⟨ht, hreject⟩
    exact .refused ht.calm hreject

end PowerTrace

end RpictlMcp
