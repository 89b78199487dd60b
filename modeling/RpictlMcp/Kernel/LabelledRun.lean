import Mathlib.Data.List.Induction

/-!
# rpictl-mcp kernel: runs of labelled systems

A labelled system moves from state to state, and every step has a label.  A run
is known by the labels of its steps.  An invariant is kept by every run if it is
kept by every step, and a system that mirrors each step of another one, or leaves
it out, mirrors its runs.
-/

namespace RpictlMcp

section LabelledRun

variable {σ τ ε φ : Type} {step : σ → ε → σ → Prop} {step' : τ → φ → τ → Prop}

/-- The runs of a system, with the labels of their steps. -/
inductive LabelledRun (step : σ → ε → σ → Prop) : σ → List ε → σ → Prop
  | nil {s : σ} : LabelledRun step s [] s
  | snoc {s s' s'' : σ} {t : List ε} {e : ε} (h : LabelledRun step s t s')
      (hstep : step s' e s'') : LabelledRun step s (t ++ [e]) s''

variable {s s' s'' : σ} {t t' : List ε} {e : ε}

theorem labelledRun_nil_iff : LabelledRun step s [] s' ↔ s = s' := by
  constructor
  · intro h
    generalize ht : ([] : List ε) = t at h
    cases h with
    | nil => rfl
    | snoc => simp at ht
  · rintro rfl
    exact .nil

/-- The last step of a run. -/
theorem labelledRun_snoc_iff :
    LabelledRun step s (t ++ [e]) s'' ↔
      ∃ s', LabelledRun step s t s' ∧ step s' e s'' := by
  constructor
  · intro h
    generalize ht : t ++ [e] = u at h
    cases h with
    | nil => simp at ht
    | snoc h hstep =>
        obtain ⟨rfl, rfl⟩ := List.append_inj' ht rfl |>.imp id
          List.singleton_inj.mp
        exact ⟨_, h, hstep⟩
  · rintro ⟨s', h, hstep⟩
    exact h.snoc hstep

/-- A run passes through a state between any two parts of it. -/
theorem labelledRun_append_iff :
    LabelledRun step s (t ++ t') s'' ↔
      ∃ s', LabelledRun step s t s' ∧ LabelledRun step s' t' s'' := by
  induction t' using List.reverseRecOn generalizing s'' with
  | nil => simp [labelledRun_nil_iff]
  | append_singleton t' e ih =>
      rw [← List.append_assoc]
      simp only [labelledRun_snoc_iff, ih]
      constructor
      · rintro ⟨u, ⟨s', h, h'⟩, hstep⟩
        exact ⟨s', h, u, h', hstep⟩
      · rintro ⟨s', h, u, h', hstep⟩
        exact ⟨u, ⟨s', h, h'⟩, hstep⟩

/-- The first step of a run. -/
theorem labelledRun_cons_iff :
    LabelledRun step s (e :: t) s'' ↔
      ∃ s', step s e s' ∧ LabelledRun step s' t s'' := by
  rw [← List.singleton_append, labelledRun_append_iff]
  have hone : ∀ s', LabelledRun step s [e] s' ↔ step s e s' := by
    intro s'
    rw [← List.nil_append [e], labelledRun_snoc_iff]
    simp [labelledRun_nil_iff]
  simp only [hone]

/-- What every step keeps is kept by every run. -/
theorem LabelledRun.invariant {J : σ → Prop} (h : LabelledRun step s t s') (hs : J s)
    (hkeep : ∀ s e s', step s e s' → J s → J s') : J s' := by
  induction h with
  | nil => exact hs
  | snoc _ hstep ih => exact hkeep _ _ _ hstep ih

/-- What every step keeps with the labels so far is kept by every run. -/
theorem LabelledRun.recorded {J : List ε → σ → Prop} (h : LabelledRun step s t s')
    (hs : J [] s)
    (hkeep : ∀ t s e s', step s e s' → J t s → J (t ++ [e]) s') : J t s' := by
  induction h with
  | nil => exact hs
  | snoc _ hstep ih => exact hkeep _ _ _ _ hstep ih

/-- A system whose steps are mirrored or left out has its runs mirrored. -/
theorem LabelledRun.simulate {R : σ → τ → Prop} {f : ε → Option φ} {u : τ}
    (h : LabelledRun step s t s') (hs : R s u)
    (hstep : ∀ s e s' u, step s e s' → R s u →
      (f e = none ∧ R s' u) ∨
        ∃ e' u', f e = some e' ∧ step' u e' u' ∧ R s' u') :
    ∃ u', LabelledRun step' u (t.filterMap f) u' ∧ R s' u' := by
  induction h with
  | nil => exact ⟨u, .nil, hs⟩
  | snoc _ hlast ih =>
      obtain ⟨u', hruns, hrel⟩ := ih
      rw [List.filterMap_append]
      rcases hstep _ _ _ _ hlast hrel with ⟨hnone, hrel'⟩ |
        ⟨e', u'', hsome, hmirror, hrel'⟩
      · refine ⟨u', ?_, hrel'⟩
        simpa [hnone] using hruns
      · refine ⟨u'', ?_, hrel'⟩
        simpa [hsome] using hruns.snoc hmirror

end LabelledRun

end RpictlMcp
