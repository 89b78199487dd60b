import RpictlMcp.Kernel.Interaction
import Mathlib.Logic.Function.Basic

/-!
# rpictl-mcp kernel: pools of threads

A pool runs any number of programs over one shared world.  A step of the pool
is a step of one thread, whose operations act on the world in a way that may
depend on the thread, or a step of the environment.

A thread is verified alone, against a semantics of its own in which everything
the others do between its operations is already accounted for.  `Sees` relates
what such a thread knows to the shared world; `Reaches.project` says that in
every run of the pool each thread performs a run of its own semantics, as long
as the steps of the others and of the environment do not disturb what it sees.
In the other direction `reaches_of_exec` turns a run of one thread, with steps of
the environment between its operations, into a run of the pool.
-/

namespace RpictlMcp

section ThreadPool

variable {T : Type} {S : Signature} {A : T → Type} {W V : Type}

/-- What every thread has left to do, and the shared world. -/
structure Pool (S : Signature) (A : T → Type) (W : Type) where
  prog : (t : T) → Prog S (A t)
  world : W

variable (sem : T → (o : S.Op) → W → S.Resp o → W → Prop)
variable (env : W → W → Prop)

/-- A pool in which one thread has moved. -/
def Pool.move [DecidableEq T] (c : Pool S A W) (t : T) (p : Prog S (A t))
    (w : W) : Pool S A W :=
  ⟨Function.update c.prog t p, w⟩

/-- One step of some thread or of the environment. -/
inductive Pool.Step [DecidableEq T] : Pool S A W → Pool S A W → Prop
  | thread {c : Pool S A W} (t : T) {p : Prog S (A t)} {w : W}
      (h : Prog.Step (sem t) (c.prog t, c.world) (p, w)) :
      Step c (c.move t p w)
  | env {c : Pool S A W} {w : W} (h : env c.world w) :
      Step c { c with world := w }

/-- Finitely many steps of a pool. -/
def Pool.Reaches [DecidableEq T] : Pool S A W → Pool S A W → Prop :=
  Relation.ReflTransGen (Pool.Step sem env)

variable {sem env} [DecidableEq T]

@[simp] theorem Pool.move_world (c : Pool S A W) (t : T) (p : Prog S (A t))
    (w : W) : (c.move t p w).world = w := rfl

@[simp] theorem Pool.move_prog_self (c : Pool S A W) (t : T)
    (p : Prog S (A t)) (w : W) : (c.move t p w).prog t = p := by
  simp [Pool.move]

theorem Pool.move_prog_of_ne (c : Pool S A W) {t u : T} (p : Prog S (A t))
    (w : W) (hne : u ≠ t) : (c.move t p w).prog u = c.prog u := by
  simp [Pool.move, hne]

@[simp] theorem Pool.move_self (c : Pool S A W) (t : T) :
    c.move t (c.prog t) c.world = c := by
  simp [Pool.move]

@[simp] theorem Pool.move_move (c : Pool S A W) (t : T) (p q : Prog S (A t))
    (w v : W) : (c.move t p w).move t q v = c.move t q v := by
  simp [Pool.move]

/-- What a step does to the world: nothing, an operation, or the environment. -/
theorem Pool.Step.world_cases {c c' : Pool S A W}
    (h : Pool.Step sem env c c') :
    c'.world = c.world ∨ (∃ t o r, sem t o c.world r c'.world) ∨
      env c.world c'.world := by
  cases h with
  | thread t hthread =>
      generalize c.prog t = q at hthread
      cases hthread with
      | op hr => exact .inr (.inl ⟨t, _, _, hr⟩)
      | enter => exact .inl rfl
  | env henv => exact .inr (.inr henv)

/--
A property of the world that is kept by every operation and by the environment
between worlds that are known to be reachable.
-/
theorem Pool.Reaches.invariant_of {c c' : Pool S A W}
    (h : Pool.Reaches sem env c c') (known inv : W → Prop)
    (hknown : ∀ d, Pool.Reaches sem env c d → known d.world)
    (hop : ∀ t o w r w', known w → known w' → inv w → sem t o w r w' →
      inv w')
    (henv : ∀ w w', known w → known w' → inv w → env w w' → inv w')
    (hinit : inv c.world) : inv c'.world := by
  induction h with
  | refl => exact hinit
  | @tail b d hsteps hstep ih =>
      have hb := hknown b hsteps
      have hd := hknown d (hsteps.tail hstep)
      cases hstep with
      | thread t hthread =>
          generalize b.prog t = q at hthread
          cases hthread with
          | op hr => exact hop _ _ _ _ _ hb hd ih hr
          | enter => exact ih
      | env henvStep => exact henv _ _ hb hd ih henvStep

/-- A property of the world that every operation and the environment keep. -/
theorem Pool.Reaches.invariant {c c' : Pool S A W}
    (h : Pool.Reaches sem env c c') (inv : W → Prop)
    (hop : ∀ t o w r w', inv w → sem t o w r w' → inv w')
    (henv : ∀ w w', inv w → env w w' → inv w') (hinit : inv c.world) :
    inv c'.world :=
  h.invariant_of (fun _ => True) inv (fun _ _ => trivial)
    (fun t o w r w' _ _ => hop t o w r w') (fun w w' _ _ => henv w w') hinit

/-- A run in which every operation may do more. -/
theorem Pool.Reaches.mono {sem' : T → (o : S.Op) → W → S.Resp o → W → Prop}
    {c c' : Pool S A W}
    (hsem : ∀ t o w r w', sem t o w r w' → sem' t o w r w')
    (h : Pool.Reaches sem env c c') : Pool.Reaches sem' env c c' := by
  induction h with
  | refl => exact .refl
  | @tail b d _ hstep ih =>
      refine ih.tail ?_
      cases hstep with
      | thread t hthread =>
          refine .thread t ?_
          generalize b.prog t = q at hthread
          cases hthread with
          | op hr => exact .op (hsem _ _ _ _ _ hr)
          | enter => exact .enter
      | env henv => exact .env henv

/-- A pool whose world is seen through a function. -/
def Pool.view (f : W → V) (c : Pool S A W) : Pool S A V :=
  ⟨c.prog, f c.world⟩

/-- A run is seen as a run, if its operations and its environment are. -/
theorem Pool.Reaches.view {semV : T → (o : S.Op) → V → S.Resp o → V → Prop}
    {envV : V → V → Prop} {c c' : Pool S A W} (f : W → V)
    (hsem : ∀ t o w r w', sem t o w r w' → semV t o (f w) r (f w'))
    (henv : ∀ w w', env w w' → envV (f w) (f w'))
    (h : Pool.Reaches sem env c c') :
    Pool.Reaches semV envV (c.view f) (c'.view f) := by
  induction h with
  | refl => exact .refl
  | @tail b d _ hstep ih =>
      refine ih.tail ?_
      cases hstep with
      | @thread t p w hthread =>
          have hseen : Prog.Step (semV t) (b.prog t, f b.world) (p, f w) := by
            generalize b.prog t = q at hthread
            cases hthread with
            | op hr => exact .op (hsem _ _ _ _ _ hr)
            | enter => exact .enter
          exact .thread (c := b.view f) t hseen
      | env h => exact .env (c := b.view f) (henv _ _ h)

/-- In a run of the pool every thread performs a run of its own semantics. -/
theorem Pool.Reaches.project {c c' : Pool S A W}
    (h : Pool.Reaches sem env c c') (t : T)
    {own : (o : S.Op) → V → S.Resp o → V → Prop} {Sees : V → W → Prop}
    (hown : ∀ o v w r w', Sees v w → sem t o w r w' →
      ∃ v', own o v r v' ∧ Sees v' w')
    (hother : ∀ u o v w r w', u ≠ t → Sees v w → sem u o w r w' → Sees v w')
    (henv : ∀ v w w', Sees v w → env w w' → Sees v w')
    {v : V} (hsees : Sees v c.world) :
    ∃ v', Prog.Exec own (c.prog t, v) (c'.prog t, v') ∧ Sees v' c'.world := by
  induction h with
  | refl => exact ⟨v, .refl, hsees⟩
  | @tail b _ _ hstep ih =>
      obtain ⟨v', hexec, hsees'⟩ := ih
      cases hstep with
      | thread u hthread =>
          by_cases hu : u = t
          · subst hu
            rw [Pool.move_prog_self, Pool.move_world]
            generalize b.prog u = q at hthread hexec
            cases hthread with
            | op hr =>
                obtain ⟨v'', hv, hsees''⟩ := hown _ _ _ _ _ hsees' hr
                exact ⟨v'', hexec.tail (.op hv), hsees''⟩
            | enter => exact ⟨v', hexec.tail .enter, hsees'⟩
          · rw [Pool.move_prog_of_ne _ _ _ (Ne.symm hu), Pool.move_world]
            refine ⟨v', hexec, ?_⟩
            generalize b.prog u = q at hthread
            cases hthread with
            | op hr => exact hother _ _ _ _ _ _ hu hsees' hr
            | enter => exact hsees'
      | env henvStep => exact ⟨v', hexec, henv _ _ _ hsees' henvStep⟩

/-- The operations of one thread, each after some steps of the environment. -/
def afterEnv (sem : T → (o : S.Op) → W → S.Resp o → W → Prop)
    (env : W → W → Prop) (t : T) (o : S.Op) (w : W) (r : S.Resp o) (w' : W) :
    Prop :=
  ∃ v, Relation.ReflTransGen env w v ∧ sem t o v r w'

theorem Pool.reaches_env {c : Pool S A W} {w : W}
    (h : Relation.ReflTransGen env c.world w) :
    Pool.Reaches sem env c { c with world := w } := by
  induction h with
  | refl => exact .refl
  | tail _ hstep ih => exact ih.tail (.env hstep)

theorem Pool.reaches_of_step {c : Pool S A W} {t : T} {p q : Prog S (A t)}
    {v w : W} (h : Prog.Step (afterEnv sem env t) (q, v) (p, w)) :
    Pool.Reaches sem env (c.move t q v) (c.move t p w) := by
  cases h with
  | @op o next _ _ r hr =>
      obtain ⟨middle, henv, hr⟩ := hr
      refine (Pool.reaches_env (c := c.move t _ v) henv).tail ?_
      rw [← Pool.move_move c t (.op o next) (next r) middle w]
      refine .thread t (c := c.move t _ middle) ?_
      rw [Pool.move_prog_self]
      exact .op hr
  | @enter _ _ body s next _ =>
      refine .single ?_
      rw [← Pool.move_move c t (.loop body s next) (Prog.bind _ _) v v]
      refine .thread t ?_
      rw [Pool.move_prog_self]
      exact .enter

/-- A run of one thread is a run of the pool. -/
theorem Pool.reaches_of_exec {c : Pool S A W} {t : T} {p : Prog S (A t)}
    {w : W}
    (h : Prog.Exec (afterEnv sem env t) (c.prog t, c.world) (p, w)) :
    Pool.Reaches sem env c (c.move t p w) := by
  generalize hstop : (p, w) = stop at h
  induction h generalizing p w with
  | refl =>
      cases hstop
      rw [Pool.move_self]
      exact .refl
  | @tail b _ _ hstep ih =>
      subst hstop
      exact (ih (rfl : (b.1, b.2) = b)).trans
        (Pool.reaches_of_step hstep)

/-- A run of one thread that a run of another one interrupts. -/
theorem Pool.reaches_of_resumes {c : Pool S A W} {t u : T} (hne : u ≠ t)
    {a : A t} {b : A u} {v v' w : W}
    (ht : Prog.Resumes (afterEnv sem env t) (c.prog t) c.world v v' a w)
    (hu : Prog.Returns (afterEnv sem env u) (c.prog u) v b v') :
    ∃ d, Pool.Reaches sem env c d ∧ d.prog t = .pure a ∧ d.world = w := by
  obtain ⟨q, hfirst, hrest⟩ := ht
  have hinterrupted : Pool.Reaches sem env c (c.move t q v) :=
    Pool.reaches_of_exec hfirst
  have hother : Pool.Reaches sem env (c.move t q v)
      ((c.move t q v).move u (.pure b) v') := by
    refine Pool.reaches_of_exec ?_
    rw [Pool.move_prog_of_ne c q v hne]
    exact hu
  have hresumed : Pool.Reaches sem env ((c.move t q v).move u (.pure b) v')
      (((c.move t q v).move u (.pure b) v').move t (.pure a) w) := by
    refine Pool.reaches_of_exec ?_
    rw [Pool.move_prog_of_ne _ _ _ hne.symm, Pool.move_prog_self]
    exact hrest
  exact ⟨_, (hinterrupted.trans hother).trans hresumed,
    Pool.move_prog_self _ _ _ _, rfl⟩

/-- A run of one thread, split at one of its operations. -/
theorem Pool.reaches_of_passes {c : Pool S A W} {t : T} {o : S.Op}
    {r : S.Resp o} {v u v' w : W}
    (h : Prog.Passes (afterEnv sem env t) (c.prog t) c.world o v r v' w)
    (henv : Relation.ReflTransGen env v u) (hop : sem t o u r v') :
    ∃ b d e, Pool.Reaches sem env c b ∧ Pool.Step sem env b d ∧
      Pool.Reaches sem env d e ∧ b.world = u ∧ d.world = v' ∧
      e.world = w := by
  obtain ⟨next, hfirst, q, hrest⟩ := h
  have hbefore := (Pool.reaches_of_exec hfirst).trans
    (Pool.reaches_env (c := c.move t (.op o next) v) henv)
  have hstep : Pool.Step sem env (c.move t (.op o next) u)
      (c.move t (next r) v') := by
    rw [← Pool.move_move c t (.op o next) (next r) u v']
    refine .thread t ?_
    rw [Pool.move_prog_self]
    exact .op hop
  have hafter : Pool.Reaches sem env (c.move t (next r) v')
      (c.move t q w) := by
    rw [← Pool.move_move c t (next r) q v' w]
    refine Pool.reaches_of_exec ?_
    rw [Pool.move_prog_self]
    exact hrest
  exact ⟨_, _, _, hbefore, hstep, hafter, rfl, rfl, rfl⟩

end ThreadPool

end RpictlMcp
