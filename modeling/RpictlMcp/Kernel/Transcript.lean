import RpictlMcp.Kernel.TraceLogic

/-!
# rpictl-mcp kernel: transcripts and the rounds of a loop

The most detailed log of a run is its transcript: every operation that was
performed, with the response it had.  `calls` makes a program log its
transcript; the rules of the trace logic then take the form `Traces.callE`, where
an operation may be answered in any way.

A loop is observed from the inside by its rounds: `ComesRound` relates the state
of the loop at the beginning of one turn, and the world then, to those at the
beginning of a later turn.  An invariant of the turns holds in every round
(`ComesRound.invariant`).
-/

namespace RpictlMcp
namespace Prog

section Transcript

variable {S : Signature} {α β σ ε W : Type}

/-- An operation with the response it had. -/
abbrev Call (S : Signature) : Type := (o : S.Op) × S.Resp o

/-- The event of an operation in a transcript. -/
def calls (o : S.Op) (r : S.Resp o) (es : List (Call S)) : Prop :=
  es = [⟨o, r⟩]

variable {allowed : List (Call S) → Call S → Prop} {base : List (Call S)}

/-- The rule for an operation that begins a program. -/
theorem Traces.callE {o : S.Op} {f : S.Resp o → ExceptT ε (Prog S) β}
    {Ψ : Except ε β → List (Call S) → Prop}
    (h : ∀ r, allowed base ⟨o, r⟩ ∧ Traces calls allowed (f r).run
      (base ++ [⟨o, r⟩]) fun b t => Ψ b (⟨o, r⟩ :: t)) :
    Traces calls allowed (ExceptT.lift (Prog.perform o) >>= f).run base Ψ := by
  refine Traces.bindE (Φ := fun r es => ∃ a, r = .ok a ∧ es = [⟨o, a⟩])
    ?_ ?_ ?_
  · refine Traces.lift (Traces.perform ?_)
    rintro r es rfl
    exact ⟨⟨(h r).1, trivial⟩, r, rfl, rfl⟩
  · rintro r es ⟨a, ⟨⟩, rfl⟩
    exact (h r).2
  · rintro e es ⟨a, ⟨⟩, -⟩

end Transcript

section Rounds

variable {S : Signature} {α β σ ε W : Type}
variable {sem may : (o : S.Op) → W → S.Resp o → W → Prop}

/-- From the beginning of one turn of a loop to that of a later one. -/
def ComesRound (sem : (o : S.Op) → W → S.Resp o → W → Prop)
    (body : σ → ExceptT ε (Prog S) (σ ⊕ β)) : σ × W → σ × W → Prop :=
  Relation.ReflTransGen fun c c' =>
    Returns sem (body c.1).run c.2 (.ok (.inl c'.1)) c'.2

variable {body : σ → ExceptT ε (Prog S) (σ ⊕ β)} {s s' : σ} {w w' : W}

/-- What one turn keeps holds in every round. -/
theorem ComesRound.invariant {J : σ → W → Prop}
    (hturn : ∀ s w s' w', J s w →
      Returns sem (body s).run w (.ok (.inl s')) w' → J s' w')
    (h : ComesRound sem body (s, w) (s', w')) (hinit : J s w) : J s' w' := by
  generalize hc : (s', w') = c at h
  induction h generalizing s' w' with
  | refl =>
      cases hc
      exact hinit
  | @tail b c _ hstep ih =>
      subst hc
      exact hturn b.1 b.2 s' w' (ih rfl) hstep

/-- A run of a sequence whose first part succeeds. -/
theorem Returns.bindE {x : ExceptT ε (Prog S) α}
    {f : α → ExceptT ε (Prog S) β} {a : α} {r : Except ε β} {w v u : W}
    (hx : Returns sem x.run w (.ok a) v) (hf : Returns sem (f a).run v r u) :
    Returns sem (x >>= f).run w r u :=
  Returns.bind hx hf

/-- An operation with some response. -/
theorem Returns.answer {o : S.Op} {r : S.Resp o} {log : List (Call S)} :
    Returns (logSem calls)
      (ExceptT.lift (Prog.perform o) : ExceptT ε (Prog S) (S.Resp o)).run log
      (.ok r) (log ++ [⟨o, r⟩]) := by
  have hop : logSem calls o log r (log ++ [⟨o, r⟩]) := ⟨_, rfl, rfl⟩
  exact Returns.bind (Returns.perform hop) (Returns.pure _ _)

/-- A run that begins with one operation. -/
theorem Returns.call {o : S.Op} {f : S.Resp o → ExceptT ε (Prog S) β}
    {r : S.Resp o} {b : Except ε β} {log log' : List (Call S)}
    (h : Returns (logSem calls) (f r).run (log ++ [⟨o, r⟩]) b log') :
    Returns (logSem calls) (ExceptT.lift (Prog.perform o) >>= f).run log b
      log' :=
  Returns.bindE Returns.answer h

/-- A loop that goes on after its first turn. -/
theorem Returns.iterateE_next {s'' : σ} {r : Except ε β} {v : W}
    (h : Returns sem (body s).run w (.ok (.inl s'')) w')
    (hrest : Returns sem (Prog.iterateE body s'').run w' r v) :
    Returns sem (Prog.iterateE body s).run w r v :=
  Returns.iterate_next (Returns.bind h (Returns.pure _ _)) hrest

/-- A loop that is left in its first turn. -/
theorem Returns.iterateE_done {b : β}
    (h : Returns sem (body s).run w (.ok (.inr b)) w') :
    Returns sem (Prog.iterateE body s).run w (.ok b) w' :=
  Returns.iterate_done (Returns.bind h (Returns.pure _ _))

end Rounds

end Prog
end RpictlMcp
