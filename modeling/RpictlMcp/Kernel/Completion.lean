import RpictlMcp.Kernel.ThreadPool

/-!
# rpictl-mcp kernel: programs that can always be finished

A thread of a pool must never come to a point from which it cannot be finished.
Its operations are answered by an adversary, who may choose any response the
world admits; only time is on the side of the thread: `late o T r` says that the
response `r` of a clock `o` is not earlier than `T`, and the thread may wait
until the clock is late enough.

`Forced goal c` is the game on the pool: some of the threads move, all others
rest, and whatever is answered, the pool comes to a state that satisfies `goal`.
`leaves` and `lives` are the rules for one program against what it knows of the
world.  `leaves p R v` says that `p` comes to a result, which satisfies `R`,
once the clocks are late enough; a loop is left in its next turn.  `lives p Q v`
says that every operation `p` performs is possible when its turn comes, whatever
happened before, and that each turn of each of its loops can be the last one.
So a program that lives can be finished wherever it stands.
-/

namespace RpictlMcp

open Prog

/--
What a program knows of the world: when an operation is possible, how it moves,
and which responses of it are late.
-/
structure Arena (S : Signature) (V : Type) where
  able : S.Op → V → Prop
  moves : (o : S.Op) → V → S.Resp o → V → Prop
  late : (o : S.Op) → Nat → S.Resp o → Prop

section Completion

variable {S : Signature} {α β σ V : Type}

/-- The program comes to a result once the clocks are late enough. -/
def Arena.leaves (a : Arena S V) :
    {α : Type} → Prog S α → (α → V → Prop) → V → Prop
  | _, .pure x, R => R x
  | _, .op o next, R => fun v =>
      a.able o v ∧ ∃ T, ∀ r v', a.late o T r → a.moves o v r v' →
        a.leaves (next r) R v'
  | _, .loop body s next, R =>
      a.leaves (body s) fun r v =>
        r.elim (fun _ => False) fun b => a.leaves (next b) R v

/-- Every operation is possible in its turn, and every loop can be left. -/
def Arena.lives (a : Arena S V) :
    {α : Type} → Prog S α → (α → V → Prop) → V → Prop
  | _, .pure x, Q => Q x
  | _, .op o next, Q => fun v =>
      a.able o v ∧ ∀ r v', a.moves o v r v' → a.lives (next r) Q v'
  | _, .loop (σ := σ) body s next, Q => fun v =>
      ∃ J : σ → V → Prop, J s v ∧ ∀ s v, J s v →
        a.lives (body s) (fun r v => r.elim (fun s' => J s' v)
          fun b => a.lives (next b) Q v) v ∧
        a.leaves (body s) (fun r _ => r.isRight) v

variable {a : Arena S V}

namespace Arena

/-! ## Rules for programs that come to a result -/

theorem leaves_bind (p : Prog S α) (f : α → Prog S β) (R : β → V → Prop)
    (v : V) :
    a.leaves (p >>= f) R v ↔
      a.leaves p (fun x v => a.leaves (f x) R v) v := by
  rw [bind_eq]
  induction p generalizing v with
  | pure x => rfl
  | op o next ih =>
      simp only [Prog.bind, leaves, ih]
  | loop body s next _ ih =>
      simp only [Prog.bind, leaves, ih]

theorem leaves_mono {p : Prog S α} {R R' : α → V → Prop} {v : V}
    (h : a.leaves p R v) (hR : ∀ x v, R x v → R' x v) : a.leaves p R' v := by
  induction p generalizing v with
  | pure x => exact hR x v h
  | op o next ih =>
      obtain ⟨hable, T, hnext⟩ := h
      exact ⟨hable, T, fun r v' hlate hmoves =>
        ih r (hnext r v' hlate hmoves) hR⟩
  | loop body s next ihbody ihnext =>
      refine ihbody s h ?_
      rintro (s' | b) v' hr
      · exact hr
      · exact ihnext b hr hR

/-! ## Rules for programs that live -/

theorem lives_bind (p : Prog S α) (f : α → Prog S β) (Q : β → V → Prop)
    (v : V) :
    a.lives (p >>= f) Q v ↔
      a.lives p (fun x v => a.lives (f x) Q v) v := by
  rw [bind_eq]
  induction p generalizing v with
  | pure x => rfl
  | op o next ih =>
      simp only [Prog.bind, lives, ih]
  | loop body s next _ ih =>
      simp only [Prog.bind, lives, ih]

theorem lives_mono {p : Prog S α} {Q Q' : α → V → Prop} {v : V}
    (h : a.lives p Q v) (hQ : ∀ x v, Q x v → Q' x v) : a.lives p Q' v := by
  induction p generalizing v with
  | pure x => exact hQ x v h
  | op o next ih =>
      exact ⟨h.1, fun r v' hmoves => ih r (h.2 r v' hmoves) hQ⟩
  | loop body s next ihbody ihnext =>
      obtain ⟨J, hinit, hturn⟩ := h
      refine ⟨J, hinit, fun s v hJ => ⟨ihbody s (hturn s v hJ).1 ?_,
        (hturn s v hJ).2⟩⟩
      rintro (s' | b) v' hr
      · exact hr
      · exact ihnext b hr hQ

/-- The rule for a loop: an invariant of its turns, each of which may leave. -/
theorem lives_iterate {body : σ → Prog S (σ ⊕ β)} {s : σ} {Q : β → V → Prop}
    {v : V} (J : σ → V → Prop) (hinit : J s v)
    (hturn : ∀ s v, J s v →
      a.lives (body s) (fun r v => r.elim (fun s' => J s' v)
        fun b => Q b v) v)
    (hleave : ∀ s v, J s v → a.leaves (body s) (fun r _ => r.isRight) v) :
    a.lives (iterate body s) Q v :=
  ⟨J, hinit, fun s v hJ => ⟨hturn s v hJ, hleave s v hJ⟩⟩

/-- A program that lives and comes to a result: both hold of the result. -/
theorem lives_and_leaves {p : Prog S α} {Q R : α → V → Prop} {v : V}
    (h : a.lives p Q v) (hleaves : a.leaves p R v) :
    a.leaves p (fun x v => Q x v ∧ R x v) v := by
  induction p generalizing v with
  | pure x => exact ⟨h, hleaves⟩
  | op o next ih =>
      obtain ⟨hable, T, hnext⟩ := hleaves
      exact ⟨hable, T, fun r v' hlate hmoves =>
        ih r (h.2 r v' hmoves) (hnext r v' hlate hmoves)⟩
  | loop body s next ihbody ihnext =>
      obtain ⟨J, hinit, hturn⟩ := h
      refine leaves_mono (p := body s)
        (ihbody s (hturn s v hinit).1 hleaves) ?_
      rintro (s' | b) v' ⟨hlives, hr⟩
      · exact hr
      · exact ihnext b hlives hr

/-- A program that lives comes to a result. -/
theorem leaves_of_lives {p : Prog S α} {Q : α → V → Prop} {v : V}
    (h : a.lives p Q v) : a.leaves p Q v := by
  induction p generalizing v with
  | pure x => exact h
  | op o next ih =>
      exact ⟨h.1, 0, fun r v' _ hmoves => ih r (h.2 r v' hmoves)⟩
  | loop body s next _ ihnext =>
      obtain ⟨J, hinit, hturn⟩ := h
      obtain ⟨hlives, hleaves⟩ := hturn s v hinit
      refine leaves_mono (p := body s) (lives_and_leaves hlives hleaves) ?_
      rintro (s' | b) v' ⟨hr, hright⟩
      · cases hright
      · exact ihnext b hr

/-- One step of a program that lives. -/
theorem lives_step {p p' : Prog S α} {Q : α → V → Prop} {v v' : V}
    (hstep : Step a.moves (p, v) (p', v')) (h : a.lives p Q v) :
    a.lives p' Q v' := by
  cases hstep with
  | op hr => exact h.2 _ _ hr
  | enter =>
      obtain ⟨J, hinit, hturn⟩ := h
      rw [← bind_eq, lives_bind]
      refine lives_mono (hturn _ _ hinit).1 ?_
      rintro (s' | b) v hr
      · exact ⟨J, hr, hturn⟩
      · exact hr

/-- A program that lives goes on living. -/
theorem lives_exec {p p' : Prog S α} {Q : α → V → Prop} {v v' : V}
    (hexec : Exec a.moves (p, v) (p', v')) (h : a.lives p Q v) :
    a.lives p' Q v' := by
  generalize hc : (p', v') = c at hexec
  induction hexec generalizing p' v' with
  | refl =>
      cases hc
      exact h
  | @tail b c _ hstep ih =>
      subst hc
      exact lives_step hstep (ih (rfl : (b.1, b.2) = b))

/-! ## Programs that may fail -/

section Fallible

variable {ε : Type}

theorem lives_bindE {x : ExceptT ε (Prog S) α}
    {f : α → ExceptT ε (Prog S) β} {Φ : Except ε α → V → Prop}
    {Q : Except ε β → V → Prop} {v : V} (hx : a.lives x.run Φ v)
    (hok : ∀ b v', Φ (.ok b) v' → a.lives (f b).run Q v')
    (herror : ∀ e v', Φ (.error e) v' → Q (.error e) v') :
    a.lives (x >>= f).run Q v := by
  rw [ExceptT.run_bind, lives_bind]
  refine lives_mono hx ?_
  rintro (e | b) v' hr
  · exact herror e v' hr
  · exact hok b v' hr

theorem lives_lift (p : Prog S α) (Q : Except ε α → V → Prop) (v : V) :
    a.lives (ExceptT.lift p : ExceptT ε (Prog S) α).run Q v ↔
      a.lives p (fun x v => Q (.ok x) v) v :=
  lives_bind p (fun x => Pure.pure (Except.ok x)) Q v

/-- A program that cannot fail, before one that may. -/
theorem lives_liftBind {p : Prog S α} {f : α → ExceptT ε (Prog S) β}
    {Φ : α → V → Prop} {Q : Except ε β → V → Prop} {v : V}
    (hp : a.lives p Φ v)
    (h : ∀ x v', Φ x v' → a.lives (f x).run Q v') :
    a.lives (ExceptT.lift p >>= f).run Q v := by
  refine lives_bindE (Φ := fun r v' => ∃ x, r = .ok x ∧ Φ x v')
    ((lives_lift _ _ _).mpr (lives_mono hp ?_)) ?_ ?_
  · exact fun x v' hx => ⟨x, rfl, hx⟩
  · rintro _ v' ⟨_, hr, hx⟩
    cases hr
    exact h _ v' hx
  · rintro e v' ⟨x, hr, -⟩
    cases hr

theorem leaves_bindE {x : ExceptT ε (Prog S) α}
    {f : α → ExceptT ε (Prog S) β} {Φ : Except ε α → V → Prop}
    {R : Except ε β → V → Prop} {v : V} (hx : a.leaves x.run Φ v)
    (hok : ∀ b v', Φ (.ok b) v' → a.leaves (f b).run R v')
    (herror : ∀ e v', Φ (.error e) v' → R (.error e) v') :
    a.leaves (x >>= f).run R v := by
  rw [ExceptT.run_bind, leaves_bind]
  refine leaves_mono hx ?_
  rintro (e | b) v' hr
  · exact herror e v' hr
  · exact hok b v' hr

/-- A turn that does not go on. -/
def Stops (r : Except ε (σ ⊕ β)) : Prop :=
  ∀ s', r ≠ .ok (.inl s')

/-- The rule for a loop whose turns may fail. -/
theorem lives_iterateE {body : σ → ExceptT ε (Prog S) (σ ⊕ β)} {s : σ}
    {Q : Except ε β → V → Prop} {v : V} (J : σ → V → Prop) (hinit : J s v)
    (hturn : ∀ s v, J s v → a.lives (body s).run (fun r v => match r with
      | .ok (.inl s') => J s' v
      | .ok (.inr b) => Q (.ok b) v
      | .error e => Q (.error e) v) v)
    (hleave : ∀ s v, J s v →
      a.leaves (body s).run (fun r _ => Stops r) v) :
    a.lives (iterateE body s).run Q v := by
  refine lives_iterate J hinit (fun s v hJ => ?_) fun s v hJ => ?_
  · rw [lives_bind]
    refine lives_mono (hturn s v hJ) ?_
    rintro (e | s' | b) v' hr <;> exact hr
  · rw [leaves_bind]
    refine leaves_mono (hleave s v hJ) ?_
    rintro (e | s' | b) v' hr
    · rfl
    · exact absurd rfl (hr s')
    · rfl

end Fallible

end Arena

/-! ## The game on a pool -/

variable {T : Type} [DecidableEq T] {A : T → Type} {W : Type}

/-- Whatever is answered, the moving threads bring the pool to the goal. -/
inductive Pool.Forced (sem : T → (o : S.Op) → W → S.Resp o → W → Prop)
    (late : (o : S.Op) → Nat → S.Resp o → Prop) (mine : T → Prop)
    (goal : Pool S A W → Prop) : Pool S A W → Prop
  | done {c : Pool S A W} (h : goal c) : Forced sem late mine goal c
  | op {c : Pool S A W} (t : T) (ht : mine t) {o : S.Op}
      {next : S.Resp o → Prog S (A t)} (hprog : c.prog t = .op o next)
      (patience : Nat)
      (hable : ∃ r w, late o patience r ∧ sem t o c.world r w)
      (hall : ∀ r w, late o patience r → sem t o c.world r w →
        Forced sem late mine goal (c.move t (next r) w)) :
      Forced sem late mine goal c
  | enter {c : Pool S A W} (t : T) (ht : mine t) {σ β : Type}
      {body : σ → Prog S (σ ⊕ β)} {s : σ} {next : β → Prog S (A t)}
      (hprog : c.prog t = .loop body s next)
      (h : Forced sem late mine goal (c.move t
        (Prog.bind (body s) (Sum.elim (fun s' => .loop body s' next) next))
        c.world)) :
      Forced sem late mine goal c

variable {sem : T → (o : S.Op) → W → S.Resp o → W → Prop}
variable {late : (o : S.Op) → Nat → S.Resp o → Prop} {mine : T → Prop}
variable {goal goal' : Pool S A W → Prop} {c : Pool S A W}

/-- One goal after another. -/
theorem Pool.Forced.trans (h : Pool.Forced sem late mine goal c)
    (hgoal : ∀ d, goal d → Pool.Forced sem late mine goal' d) :
    Pool.Forced sem late mine goal' c := by
  induction h with
  | done h => exact hgoal _ h
  | op t ht hprog patience hable _ ih =>
      exact .op t ht hprog patience hable ih
  | enter t ht hprog _ ih => exact .enter t ht hprog ih

/-- More threads move. -/
theorem Pool.Forced.mono {mine' : T → Prop}
    (h : Pool.Forced sem late mine goal c)
    (hmine : ∀ t, mine t → mine' t) :
    Pool.Forced sem late mine' goal c := by
  induction h with
  | done h => exact .done h
  | op t ht hprog patience hable _ ih =>
      exact .op t (hmine t ht) hprog patience hable ih
  | enter t ht hprog _ ih => exact .enter t (hmine t ht) hprog ih

/-- What the steps of the moving threads keep holds at the goal, too. -/
theorem Pool.Forced.keeps (h : Pool.Forced sem late mine goal c)
    (inv : Pool S A W → Prop)
    (hkeep : ∀ c t p w, mine t →
      Prog.Step (sem t) (c.prog t, c.world) (p, w) → inv c →
        inv (c.move t p w))
    (hinit : inv c) :
    Pool.Forced sem late mine (fun d => goal d ∧ inv d) c := by
  induction h with
  | done h => exact .done ⟨h, hinit⟩
  | op t ht hprog patience hable _ ih =>
      exact .op t ht hprog patience hable fun r w hlate hsem =>
        ih r w hlate hsem (hkeep _ t _ w ht (hprog ▸ .op hsem) hinit)
  | enter t ht hprog _ ih =>
      exact .enter t ht hprog (ih (hkeep _ t _ _ ht (hprog ▸ .enter) hinit))

/--
A thread whose program comes to a result is forced to it, if each operation that
it knows to be possible can be made ready by the moving threads.
-/
theorem Pool.forced_of_leaves {a : Arena S V} {t : T} (Sees : V → W → Prop)
    (K : Pool S A W → Prop) (ht : mine t)
    (hready : ∀ c v o next, K c → Sees v c.world → a.able o v →
      c.prog t = .op o next →
      Pool.Forced sem a.late mine (fun d => K d ∧ Sees v d.world ∧
        d.prog t = .op o next ∧
        ∀ T, ∃ r w, a.late o T r ∧ sem t o d.world r w) c)
    (hmoves : ∀ c v o next r w, K c → Sees v c.world → a.able o v →
      c.prog t = .op o next → sem t o c.world r w →
      ∃ v', a.moves o v r v' ∧ Sees v' w ∧ K (c.move t (next r) w))
    (henter : ∀ c p, K c → K (c.move t p c.world))
    {α : Type} {p : Prog S α} {R : α → V → Prop} {v : V}
    (h : a.leaves p R v) {f : α → Prog S (A t)} {c : Pool S A W}
    (hprog : c.prog t = Prog.bind p f) (hK : K c) (hsees : Sees v c.world)
    (hrest : ∀ x v d, R x v → K d → Sees v d.world → d.prog t = f x →
      Pool.Forced sem a.late mine goal d) :
    Pool.Forced sem a.late mine goal c := by
  induction p generalizing v c with
  | pure x => exact hrest x v c h hK hsees hprog
  | op o next ih =>
      obtain ⟨hable, patience, hnext⟩ := h
      refine (hready c v o _ hK hsees hable hprog).trans ?_
      rintro d ⟨hKd, hseesd, hprogd, hsem⟩
      refine .op t ht hprogd patience (hsem patience) fun r w hlate hr => ?_
      obtain ⟨v', hv, hsees', hK'⟩ :=
        hmoves d v o _ r w hKd hseesd hable hprogd hr
      exact ih r (hnext r v' hlate hv) (Pool.move_prog_self _ _ _ _) hK'
        hsees' hrest
  | loop body s next ihbody ihnext =>
      refine .enter t ht hprog ?_
      refine ihbody s h (Pool.move_prog_self _ _ _ _) (henter c _ hK) hsees ?_
      rintro (s' | b) v' d hr hKd hseesd hprogd
      · cases hr
      · exact ihnext b hr hprogd hKd hseesd hrest

end Completion

end RpictlMcp
