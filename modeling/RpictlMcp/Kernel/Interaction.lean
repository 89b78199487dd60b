import Mathlib.Logic.Relation

/-!
# rpictl-mcp kernel: interactive programs

A program that talks to its surroundings is a tree: it stops with a result,
performs an operation and continues with the response, or runs a loop whose
body decides at each turn to go on or to leave.  The operations and the types of
their responses form a `Signature`; what an operation does is given later, by a
relation `sem o w r w'` that says which responses `r` it may have in the world
`w` and which world `w'` it leaves.  The same program can so be run against an
adversary, against a log of its own actions or inside a pool of other programs.

`Exec` is the small-step meaning of a program.  `wp` is its weakest
precondition: `wp sem may p Q w` says that every operation which `p` performs
while it runs from `w` is one that `may` permits, and that every result it stops
with satisfies `Q`.  Loops are met by an invariant of the loop.  `wp_exec` is the
soundness of the rules, `Exec.bind` and its companions build runs.
-/

namespace RpictlMcp

/-- Operations and the responses they may have. -/
structure Signature where
  Op : Type
  Resp : Op → Type

/-- Programs over a signature. -/
inductive Prog (S : Signature) : Type → Type 1
  | pure {α : Type} (a : α) : Prog S α
  | op {α : Type} (o : S.Op) (next : S.Resp o → Prog S α) : Prog S α
  | loop {σ β α : Type} (body : σ → Prog S (σ ⊕ β)) (state : σ)
      (next : β → Prog S α) : Prog S α

namespace Prog

section Interaction

variable {S : Signature} {α β σ W : Type}

/-- Run a program and continue with its result. -/
def bind : {α : Type} → Prog S α → (α → Prog S β) → Prog S β
  | _, .pure a, f => f a
  | _, .op o next, f => .op o fun r => bind (next r) f
  | _, .loop body s next, f => .loop body s fun b => bind (next b) f

instance : Monad (Prog S) where
  pure := .pure
  bind := bind

/-- Perform one operation and return its response. -/
def perform (o : S.Op) : Prog S (S.Resp o) :=
  .op o .pure

/-- Run a loop and return the value it is left with. -/
def iterate (body : σ → Prog S (σ ⊕ β)) (s : σ) : Prog S β :=
  .loop body s .pure

theorem bind_eq (p : Prog S α) (f : α → Prog S β) : p >>= f = bind p f := rfl

theorem bind_assoc {γ : Type} (p : Prog S α) (f : α → Prog S β)
    (g : β → Prog S γ) :
    bind (bind p f) g = bind p fun a => bind (f a) g := by
  induction p with
  | pure a => rfl
  | op o next ih =>
      simp only [bind, ih]
  | loop body s next _ ih =>
      simp only [bind, ih]

theorem bind_pure (p : Prog S α) : bind p .pure = p := by
  induction p with
  | pure a => rfl
  | op o next ih =>
      simp only [bind, ih]
  | loop body s next _ ih =>
      simp only [bind, ih]

instance : LawfulMonad (Prog S) :=
  LawfulMonad.mk' (Prog S) bind_pure (fun _ _ => rfl)
    fun p f g => bind_assoc p f g

/-- One step: an operation is performed or a loop is entered once more. -/
inductive Step (sem : (o : S.Op) → W → S.Resp o → W → Prop) :
    Prog S α × W → Prog S α × W → Prop
  | op {o : S.Op} {next : S.Resp o → Prog S α} {w w' : W} {r : S.Resp o}
      (h : sem o w r w') : Step sem (.op o next, w) (next r, w')
  | enter {σ β : Type} {body : σ → Prog S (σ ⊕ β)} {s : σ}
      {next : β → Prog S α} {w : W} :
      Step sem (.loop body s next, w)
        (bind (body s) (Sum.elim (fun s' => .loop body s' next) next), w)

/-- Finitely many steps. -/
def Exec (sem : (o : S.Op) → W → S.Resp o → W → Prop) :
    Prog S α × W → Prog S α × W → Prop :=
  Relation.ReflTransGen (Step sem)

/-- A run from `w` that stops with the result `a` in `w'`. -/
def Returns (sem : (o : S.Op) → W → S.Resp o → W → Prop) (p : Prog S α)
    (w : W) (a : α) (w' : W) : Prop :=
  Exec sem (p, w) (.pure a, w')

section WeakestPrecondition

variable (sem may : (o : S.Op) → W → S.Resp o → W → Prop)

/-- The weakest precondition of a program that keeps to permitted steps. -/
def wp : {α : Type} → Prog S α → (α → W → Prop) → W → Prop
  | _, .pure a, Q => Q a
  | _, .op o next, Q => fun w =>
      ∀ r w', sem o w r w' → may o w r w' ∧ wp (next r) Q w'
  | _, .loop (σ := σ) body s next, Q => fun w =>
      ∃ J : σ → W → Prop, J s w ∧ ∀ s w, J s w →
        wp (body s) (fun r w => r.elim (fun s' => J s' w)
          fun b => wp (next b) Q w) w

variable {sem may}

@[simp] theorem wp_pure (a : α) (Q : α → W → Prop) (w : W) :
    wp sem may (Pure.pure a : Prog S α) Q w ↔ Q a w := Iff.rfl

/-- The rule for sequencing. -/
theorem wp_bind (p : Prog S α) (f : α → Prog S β) (Q : β → W → Prop)
    (w : W) :
    wp sem may (p >>= f) Q w ↔
      wp sem may p (fun a w => wp sem may (f a) Q w) w := by
  rw [bind_eq]
  induction p generalizing w with
  | pure a => rfl
  | op o next ih =>
      simp only [bind, wp, ih]
  | loop body s next _ ih =>
      simp only [bind, wp, ih]

/-- The rule of consequence. -/
theorem wp_mono {p : Prog S α} {Q Q' : α → W → Prop} {w : W}
    (h : wp sem may p Q w) (hQ : ∀ a w, Q a w → Q' a w) :
    wp sem may p Q' w := by
  induction p generalizing w with
  | pure a => exact hQ a w h
  | op o next ih =>
      intro r w' hr
      exact ⟨(h r w' hr).1, ih r (h r w' hr).2 hQ⟩
  | loop body s next ihbody ihnext =>
      obtain ⟨J, hinit, hturn⟩ := h
      refine ⟨J, hinit, fun s w hJ => ihbody s (hturn s w hJ) ?_⟩
      rintro (s' | b) w' hr
      · exact hr
      · exact ihnext b hr hQ

/-- The rule for a loop: an invariant of its turns. -/
theorem wp_iterate {body : σ → Prog S (σ ⊕ β)} {s : σ} {Q : β → W → Prop}
    {w : W} (J : σ → W → Prop) (hinit : J s w)
    (hturn : ∀ s w, J s w →
      wp sem may (body s) (fun r w => r.elim (fun s' => J s' w)
        fun b => Q b w) w) :
    wp sem may (iterate body s) Q w :=
  ⟨J, hinit, hturn⟩

/-- One step keeps the precondition, and any invariant of permitted steps. -/
theorem wp_step {p p' : Prog S α} {w w' : W} {Q : α → W → Prop}
    {inv : W → Prop}
    (hkeep : ∀ o w r w', inv w → sem o w r w' → may o w r w' → inv w')
    (hstep : Step sem (p, w) (p', w')) (hinv : inv w)
    (h : wp sem may p Q w) : inv w' ∧ wp sem may p' Q w' := by
  cases hstep with
  | op hr =>
      obtain ⟨hmay, h'⟩ := h _ _ hr
      exact ⟨hkeep _ _ _ _ hinv hr hmay, h'⟩
  | enter =>
      obtain ⟨J, hinit, hturn⟩ := h
      refine ⟨hinv, ?_⟩
      rw [← bind_eq, wp_bind]
      refine wp_mono (hturn _ _ hinit) ?_
      rintro (s' | b) w hr
      · exact ⟨J, hr, hturn⟩
      · exact hr

/-- A run keeps the precondition, and any invariant of permitted steps. -/
theorem wp_exec {p p' : Prog S α} {w w' : W} {Q : α → W → Prop}
    {inv : W → Prop}
    (hkeep : ∀ o w r w', inv w → sem o w r w' → may o w r w' → inv w')
    (hexec : Exec sem (p, w) (p', w')) (hinv : inv w)
    (h : wp sem may p Q w) : inv w' ∧ wp sem may p' Q w' := by
  generalize hc : (p', w') = c at hexec
  induction hexec generalizing p' w' with
  | refl =>
      cases hc
      exact ⟨hinv, h⟩
  | @tail b c hsteps hstep ih =>
      subst hc
      obtain ⟨hinv', h'⟩ := ih (rfl : (b.1, b.2) = b)
      exact wp_step hkeep hstep hinv' h'

end WeakestPrecondition

section Runs

variable {sem : (o : S.Op) → W → S.Resp o → W → Prop}

/-- A turn of a loop that begins a program. -/
theorem bind_turn {γ : Type} (turn : Prog S (σ ⊕ γ)) (again : σ → Prog S α)
    (next : γ → Prog S α) (f : α → Prog S β) :
    Prog.bind (Prog.bind turn (Sum.elim again next)) f =
      Prog.bind turn (Sum.elim (fun s => Prog.bind (again s) f)
        fun b => Prog.bind (next b) f) := by
  rw [bind_assoc]
  congr 1
  funext r
  cases r <;> rfl

/-- Steps of a program are steps of any program that it begins. -/
theorem Step.bind {p p' : Prog S α} {w w' : W} (f : α → Prog S β)
    (h : Step sem (p, w) (p', w')) :
    Step sem (Prog.bind p f, w) (Prog.bind p' f, w') := by
  cases h with
  | op hr => exact .op hr
  | enter =>
      rw [bind_turn]
      exact .enter

theorem Exec.bind {p p' : Prog S α} {w w' : W} (f : α → Prog S β)
    (h : Exec sem (p, w) (p', w')) :
    Exec sem (Prog.bind p f, w) (Prog.bind p' f, w') :=
  Relation.ReflTransGen.lift
    (fun c : Prog S α × W => (Prog.bind c.1 f, c.2))
    (fun _ _ hstep => Step.bind f hstep) _ _ h

/-- The postcondition of the beginning of a program may speak of the run that
has led to it. -/
theorem wp_withExec {γ : Type} {may : (o : S.Op) → W → S.Resp o → W → Prop}
    {p : Prog S α} {w : W} {Q : α → W → Prop} (h : wp sem may p Q w)
    {f : α → Prog S γ} {c : Prog S γ × W}
    (hexec : Exec sem c (Prog.bind p f, w)) :
    wp sem may p (fun a w' => Q a w' ∧ Exec sem c (f a, w')) w := by
  induction p generalizing γ w with
  | pure a => exact ⟨h, hexec⟩
  | op o next ih =>
      intro r w' hr
      obtain ⟨hmay, hnext⟩ := h r w' hr
      exact ⟨hmay, ih r hnext (hexec.tail (.op hr))⟩
  | loop body s next ihbody ihnext =>
      obtain ⟨J, hinit, hturn⟩ := h
      refine ⟨fun s w => J s w ∧
        Exec sem c (Prog.bind (.loop body s next) f, w), ⟨hinit, hexec⟩, ?_⟩
      rintro s w ⟨hJ, hexec⟩
      have hturned := hexec.tail .enter
      refine wp_mono (ihbody s (hturn s w hJ) hturned) ?_
      rintro (s' | b) w' ⟨hr, hturned⟩
      · exact ⟨hr, hturned⟩
      · exact ihnext b hr hturned

/-- The postcondition may speak of the run that has led to the result. -/
theorem wp_withRun {may : (o : S.Op) → W → S.Resp o → W → Prop}
    {p : Prog S α} {w : W} {Q : α → W → Prop} (h : wp sem may p Q w) :
    wp sem may p (fun a w' => Q a w' ∧ Returns sem p w a w') w := by
  have hstart : Exec sem (p, w) (Prog.bind p .pure, w) := by
    rw [bind_pure]
    exact .refl
  exact wp_withExec h hstart

/-- What every operation keeps is kept by a run. -/
theorem Exec.invariant {p p' : Prog S α} {w w' : W}
    (h : Exec sem (p, w) (p', w')) (inv : W → Prop)
    (hkeep : ∀ o w r w', inv w → sem o w r w' → inv w') (hinit : inv w) :
    inv w' := by
  generalize hc : (p', w') = c at h
  induction h generalizing p' w' with
  | refl =>
      cases hc
      exact hinit
  | @tail b _ _ hstep ih =>
      subst hc
      have hb := ih (rfl : (b.1, b.2) = b)
      cases hstep with
      | op hr => exact hkeep _ _ _ _ hb hr
      | enter => exact hb

theorem Returns.pure (a : α) (w : W) :
    Returns sem (Pure.pure a : Prog S α) w a w :=
  .refl

theorem Returns.perform {o : S.Op} {r : S.Resp o} {w w' : W}
    (h : sem o w r w') : Returns sem (Prog.perform o) w r w' :=
  .single (.op h)

/-- Two complete runs, one after the other. -/
theorem Returns.bind {p : Prog S α} {f : α → Prog S β} {a : α} {b : β}
    {w w' w'' : W} (hp : Returns sem p w a w')
    (hf : Returns sem (f a) w' b w'') : Returns sem (p >>= f) w b w'' :=
  (Exec.bind f hp).trans hf

/-- A complete run of a sequence consists of complete runs of its parts. -/
theorem Returns.of_bind {p : Prog S α} {f : α → Prog S β} {b : β}
    {w v : W} (h : Returns sem (p >>= f) w b v) :
    ∃ a u, Returns sem p w a u ∧ Returns sem (f a) u b v := by
  suffices hall : ∀ c, Exec sem c (.pure b, v) → ∀ p w,
      c = (Prog.bind p f, w) →
        ∃ a u, Returns sem p w a u ∧ Returns sem (f a) u b v from
    hall _ h p w rfl
  intro c h
  induction h using Relation.ReflTransGen.head_induction_on with
  | refl =>
      intro p w hc
      cases p with
      | pure a =>
          have hstart : (f a, w) = (.pure b, v) := hc.symm
          refine ⟨a, w, .refl, ?_⟩
          rw [Returns, hstart]
          exact .refl
      | op o next => cases hc
      | loop body s next => cases hc
  | head hstep hrest ih =>
      rintro p w rfl
      cases p with
      | pure a => exact ⟨a, w, .refl, .head hstep hrest⟩
      | op o next =>
          cases hstep with
          | op hr =>
              obtain ⟨a, u, hp, hf⟩ := ih _ _ rfl
              exact ⟨a, u, .head (.op hr) hp, hf⟩
      | loop body s next =>
          cases hstep with
          | enter =>
              obtain ⟨a, u, hp, hf⟩ := ih (Prog.bind (body s)
                (Sum.elim (fun s' => .loop body s' next) next)) w
                (by rw [bind_turn]; rfl)
              exact ⟨a, u, .head .enter hp, hf⟩

/-- A world that some run of a program comes to, complete or not. -/
def Visits (sem : (o : S.Op) → W → S.Resp o → W → Prop) (p : Prog S α)
    (w w' : W) : Prop :=
  ∃ p', Exec sem (p, w) (p', w')

theorem Returns.visits {p : Prog S α} {a : α} {w w' : W}
    (h : Returns sem p w a w') : Visits sem p w w' :=
  ⟨_, h⟩

/-- What the beginning of a program visits. -/
theorem Visits.bind {p : Prog S α} {w w' : W} (h : Visits sem p w w')
    (f : α → Prog S β) : Visits sem (p >>= f) w w' := by
  obtain ⟨p', hexec⟩ := h
  exact ⟨_, Exec.bind f hexec⟩

theorem Visits.map {p : Prog S α} {w w' : W} (h : Visits sem p w w')
    (f : α → β) : Visits sem (f <$> p) w w' :=
  h.bind _

/-- What the rest of a program visits. -/
theorem Returns.bind_visits {p : Prog S α} {f : α → Prog S β} {a : α}
    {w w' w'' : W} (hp : Returns sem p w a w')
    (hf : Visits sem (f a) w' w'') : Visits sem (p >>= f) w w'' := by
  obtain ⟨q, hexec⟩ := hf
  exact ⟨q, (Exec.bind f hp).trans hexec⟩

/-- A complete run that is interrupted in `v` and goes on from `v'`. -/
def Resumes (sem : (o : S.Op) → W → S.Resp o → W → Prop) (p : Prog S α)
    (w v v' : W) (a : α) (w' : W) : Prop :=
  ∃ q, Exec sem (p, w) (q, v) ∧ Returns sem q v' a w'

/-- A run may be interrupted before it begins. -/
theorem Returns.resumes {p : Prog S α} {a : α} {v v' w' : W}
    (h : Returns sem p v' a w') : Resumes sem p v v v' a w' :=
  ⟨p, .refl, h⟩

/-- A run that goes on from where it was interrupted. -/
theorem Resumes.returns {p : Prog S α} {a : α} {w v w' : W}
    (h : Resumes sem p w v v a w') : Returns sem p w a w' := by
  obtain ⟨q, hfirst, hrest⟩ := h
  exact hfirst.trans hrest

/-- An interruption of the beginning of a program. -/
theorem Resumes.bind {p : Prog S α} {f : α → Prog S β} {a : α} {b : β}
    {w v v' u w' : W} (hp : Resumes sem p w v v' a u)
    (hf : Returns sem (f a) u b w') : Resumes sem (p >>= f) w v v' b w' := by
  obtain ⟨q, hfirst, hrest⟩ := hp
  exact ⟨Prog.bind q f, Exec.bind f hfirst, Returns.bind hrest hf⟩

theorem Resumes.map {p : Prog S α} {a : α} {w v v' w' : W}
    (hp : Resumes sem p w v v' a w') (f : α → β) :
    Resumes sem (f <$> p) w v v' (f a) w' :=
  hp.bind (Returns.pure _ _)

/-- An interruption of the rest of a program. -/
theorem Returns.bind_resumes {p : Prog S α} {f : α → Prog S β} {a : α}
    {b : β} {w u v v' w' : W} (hp : Returns sem p w a u)
    (hf : Resumes sem (f a) u v v' b w') :
    Resumes sem (p >>= f) w v v' b w' := by
  obtain ⟨q, hfirst, hrest⟩ := hf
  exact ⟨q, (Exec.bind f hp).trans hfirst, hrest⟩

/--
A run that is about to perform an operation in `v`, and comes to its result
once the operation has led to `v'` with the response `r`.
-/
def Around (sem : (o : S.Op) → W → S.Resp o → W → Prop) (p : Prog S α)
    (w : W) (o : S.Op) (v : W) (r : S.Resp o) (v' : W) (a : α) (w' : W) :
    Prop :=
  ∃ next, Exec sem (p, w) (.op o next, v) ∧ Returns sem (next r) v' a w'

/-- A program that begins with the operation. -/
theorem Returns.around {o : S.Op} {f : S.Resp o → Prog S α} {r : S.Resp o}
    {a : α} {w v' w' : W} (h : Returns sem (f r) v' a w') :
    Around sem (Prog.perform o >>= f) w o w r v' a w' :=
  ⟨f, .refl, h⟩

/-- The operation is performed in the beginning of a program. -/
theorem Around.bind {p : Prog S α} {f : α → Prog S β} {o : S.Op}
    {r : S.Resp o} {a : α} {b : β} {w v v' u w' : W}
    (hp : Around sem p w o v r v' a u) (hf : Returns sem (f a) u b w') :
    Around sem (p >>= f) w o v r v' b w' := by
  obtain ⟨next, hfirst, hrest⟩ := hp
  exact ⟨fun r => Prog.bind (next r) f, Exec.bind f hfirst,
    Returns.bind hrest hf⟩

/-- The operation is performed in the rest of a program. -/
theorem Returns.bind_around {p : Prog S α} {f : α → Prog S β} {o : S.Op}
    {r : S.Resp o} {a : α} {b : β} {w u v v' w' : W}
    (hp : Returns sem p w a u) (hf : Around sem (f a) u o v r v' b w') :
    Around sem (p >>= f) w o v r v' b w' := by
  obtain ⟨next, hfirst, hrest⟩ := hf
  exact ⟨next, (Exec.bind f hp).trans hfirst, hrest⟩

/-- Where the operation leads from `v` to `v'`, the run is a complete one. -/
theorem Around.returns {p : Prog S α} {o : S.Op} {r : S.Resp o} {a : α}
    {w v v' w' : W} (h : Around sem p w o v r v' a w') (hop : sem o v r v') :
    Returns sem p w a w' := by
  obtain ⟨next, hfirst, hrest⟩ := h
  exact (hfirst.tail (.op hop)).trans hrest

/--
A run that is about to perform an operation in `v`, and goes on from `v'` with
the response `r` until it visits `w'`.
-/
def Passes (sem : (o : S.Op) → W → S.Resp o → W → Prop) (p : Prog S α)
    (w : W) (o : S.Op) (v : W) (r : S.Resp o) (v' w' : W) : Prop :=
  ∃ next, Exec sem (p, w) (.op o next, v) ∧ Visits sem (next r) v' w'

/-- The operation is performed in the beginning, the visit is made later. -/
theorem Around.passes {p : Prog S α} {f : α → Prog S β} {o : S.Op}
    {r : S.Resp o} {a : α} {w v v' u w' : W}
    (hp : Around sem p w o v r v' a u) (hf : Visits sem (f a) u w') :
    Passes sem (p >>= f) w o v r v' w' := by
  obtain ⟨next, hfirst, hrest⟩ := hp
  exact ⟨fun r => Prog.bind (next r) f, Exec.bind f hfirst,
    Returns.bind_visits hrest hf⟩

/-- What the beginning of a program passes. -/
theorem Passes.bind {p : Prog S α} {o : S.Op} {r : S.Resp o}
    {w v v' w' : W} (hp : Passes sem p w o v r v' w') (f : α → Prog S β) :
    Passes sem (p >>= f) w o v r v' w' := by
  obtain ⟨next, hfirst, hrest⟩ := hp
  exact ⟨fun r => Prog.bind (next r) f, Exec.bind f hfirst, hrest.bind f⟩

theorem Passes.map {p : Prog S α} {o : S.Op} {r : S.Resp o}
    {w v v' w' : W} (hp : Passes sem p w o v r v' w') (f : α → β) :
    Passes sem (f <$> p) w o v r v' w' :=
  hp.bind _

/-- What the rest of a program passes. -/
theorem Returns.bind_passes {p : Prog S α} {f : α → Prog S β} {o : S.Op}
    {r : S.Resp o} {a : α} {w u v v' w' : W} (hp : Returns sem p w a u)
    (hf : Passes sem (f a) u o v r v' w') :
    Passes sem (p >>= f) w o v r v' w' := by
  obtain ⟨next, hfirst, hrest⟩ := hf
  exact ⟨next, (Exec.bind f hp).trans hfirst, hrest⟩

/-- A loop that is left in its first turn. -/
theorem Returns.iterate_done {body : σ → Prog S (σ ⊕ β)} {s : σ} {b : β}
    {w w' : W} (h : Returns sem (body s) w (.inr b) w') :
    Returns sem (iterate body s) w b w' :=
  .head .enter (Exec.bind _ h)

/-- A loop that goes on after its first turn. -/
theorem Returns.iterate_next {body : σ → Prog S (σ ⊕ β)} {s s' : σ} {b : β}
    {w w' w'' : W} (h : Returns sem (body s) w (.inl s') w')
    (hrest : Returns sem (iterate body s') w' b w'') :
    Returns sem (iterate body s) w b w'' :=
  .head .enter ((Exec.bind _ h).trans hrest)

/-- Total correctness: a run comes to a result, which satisfies `Q`. -/
def Ends (sem : (o : S.Op) → W → S.Resp o → W → Prop) (p : Prog S α)
    (w : W) (Q : α → W → Prop) : Prop :=
  ∃ a w', Returns sem p w a w' ∧ Q a w'

theorem Returns.ends {p : Prog S α} {a : α} {w w' : W}
    {Q : α → W → Prop} (h : Returns sem p w a w') (hQ : Q a w') :
    Ends sem p w Q :=
  ⟨a, w', h, hQ⟩

theorem Ends.bind {p : Prog S α} {f : α → Prog S β} {w : W}
    {Φ : α → W → Prop} {Q : β → W → Prop} (hp : Ends sem p w Φ)
    (hf : ∀ a v, Φ a v → Ends sem (f a) v Q) : Ends sem (p >>= f) w Q := by
  obtain ⟨a, v, hreturns, hΦ⟩ := hp
  obtain ⟨b, w', hrest, hQ⟩ := hf a v hΦ
  exact ⟨b, w', Returns.bind hreturns hrest, hQ⟩

/-- A complete run, and then the rest. -/
theorem Returns.bind_ends {p : Prog S α} {f : α → Prog S β} {a : α}
    {w v : W} {Q : β → W → Prop} (hp : Returns sem p w a v)
    (hf : Ends sem (f a) v Q) : Ends sem (p >>= f) w Q := by
  obtain ⟨b, w', hrest, hQ⟩ := hf
  exact ⟨b, w', Returns.bind hp hrest, hQ⟩

/-- A loop with a variant: each turn leaves the loop or comes closer to it. -/
theorem Ends.iterate {body : σ → Prog S (σ ⊕ β)} {Q : β → W → Prop}
    (J : Nat → σ → W → Prop)
    (hturn : ∀ n s w, J n s w → Ends sem (body s) w fun r w' =>
      r.elim (fun s' => ∃ m < n, J m s' w') fun b => Q b w')
    {n : Nat} {s : σ} {w : W} (hinit : J n s w) :
    Ends sem (Prog.iterate body s) w Q := by
  induction n using Nat.strongRecOn generalizing s w with
  | ind n ih =>
      obtain ⟨r, w', hbody, hr⟩ := hturn n s w hinit
      cases r with
      | inl s' =>
          obtain ⟨m, hlt, hJ⟩ := hr
          obtain ⟨b, w'', hrest, hQ⟩ := ih m hlt hJ
          exact ⟨b, w'', Returns.iterate_next hbody hrest, hQ⟩
      | inr b => exact ⟨b, w', Returns.iterate_done hbody, hr⟩

section Determined

variable (hsem : ∀ o w r w' r' w'', sem o w r w' → sem o w r' w'' →
  r = r' ∧ w' = w'')

include hsem

/-- The step of a program is determined by what its operation does. -/
theorem Step.unique {c d d' : Prog S α × W} (h : Step sem c d)
    (h' : Step sem c d') : d = d' := by
  cases h with
  | op hr =>
      cases h' with
      | op hr' =>
          obtain ⟨rfl, rfl⟩ := hsem _ _ _ _ _ _ hr hr'
          rfl
  | enter =>
      cases h'
      rfl

/-- What a program returns is then determined, too. -/
theorem Returns.unique {p : Prog S α} {a b : α} {w v v' : W}
    (h : Returns sem p w a v) (h' : Returns sem p w b v') : a = b := by
  have hstop : ∀ c : Prog S α × W, Exec sem c (.pure a, v) →
      Exec sem c (.pure b, v') → a = b := by
    intro c h h'
    induction h using Relation.ReflTransGen.head_induction_on with
    | refl =>
        rcases h'.cases_head with hsame | ⟨d, hstep, -⟩
        · cases hsame
          rfl
        · cases hstep
    | head hstep _ ih =>
        rcases h'.cases_head with hsame | ⟨d, hstep', hrest⟩
        · rw [hsame] at hstep
          cases hstep
        · exact ih (Step.unique hsem hstep hstep' ▸ hrest)
  exact hstop (p, w) h h'

end Determined

end Runs

section Fallible

variable {ε : Type}

/-- A loop whose turns may fail; a failure leaves the loop. -/
def iterateE (body : σ → ExceptT ε (Prog S) (σ ⊕ β)) (s : σ) :
    ExceptT ε (Prog S) β :=
  iterate (fun s => do
    match ← (body s).run with
    | .ok (.inl s') => return .inl s'
    | .ok (.inr b) => return .inr (.ok b)
    | .error e => return .inr (.error e)) s

variable {sem may : (o : S.Op) → W → S.Resp o → W → Prop}

@[simp] theorem wp_run_pure (a : α) (Q : Except ε α → W → Prop) (w : W) :
    wp sem may (Pure.pure a : ExceptT ε (Prog S) α).run Q w ↔ Q (.ok a) w :=
  Iff.rfl

@[simp] theorem wp_run_throw (e : ε) (Q : Except ε α → W → Prop) (w : W) :
    wp sem may (throw e : ExceptT ε (Prog S) α).run Q w ↔ Q (.error e) w :=
  Iff.rfl

theorem wp_run_lift (p : Prog S α) (Q : Except ε α → W → Prop) (w : W) :
    wp sem may (ExceptT.lift p : ExceptT ε (Prog S) α).run Q w ↔
      wp sem may p (fun a w => Q (.ok a) w) w := by
  exact wp_bind p (fun a => Pure.pure (Except.ok a)) Q w

/-- What a program does that has stopped. -/
theorem Returns.of_pure {a b : α} {w v : W}
    (h : Returns sem (.pure a) w b v) : b = a ∧ v = w := by
  rcases Relation.ReflTransGen.cases_head h with hsame | ⟨c, hstep, -⟩
  · cases hsame
    exact ⟨rfl, rfl⟩
  · cases hstep

/-- A complete run of a sequence of programs that may fail. -/
theorem Returns.of_bindE {x : ExceptT ε (Prog S) α}
    {f : α → ExceptT ε (Prog S) β} {r : Except ε β} {w v : W}
    (h : Returns sem (x >>= f).run w r v) :
    (∃ e, Returns sem x.run w (.error e) v ∧ r = .error e) ∨
      ∃ a u, Returns sem x.run w (.ok a) u ∧ Returns sem (f a).run u r v := by
  rw [ExceptT.run_bind] at h
  obtain ⟨first, u, hx, hf⟩ := Returns.of_bind h
  cases first with
  | error e =>
      obtain ⟨rfl, rfl⟩ := Returns.of_pure hf
      exact .inl ⟨e, hx, rfl⟩
  | ok a => exact .inr ⟨a, u, hx, hf⟩

end Fallible

end Interaction
end Prog
end RpictlMcp
