import RpictlMcp.Kernel.ThreadPool

/-!
# rpictl-mcp kernel: programs that run other programs

A host program performs operations of its own and, in between, the operations
of guest programs, one after the other or interleaved.  The operations of a host
are those of its own signature and, for each guest `k`, those of the guests'
signature.  `embed k p` runs `p` as guest `k`.

`hosts p Q v P` says that `p` performs operations of a guest `k` that is its own
only as the program `P k` prescribes them, where `v` is what the host knows from
its own operations; the guests may be left in the middle, and their programs at
the end are those that `Q` speaks about.  Of programs that the host runs as
other guests nothing is said.

A pool of hosts is then a pool of guests, seen from the world that the guests
share: every run of the hosts, with their own operations left out, is a run of a
pool whose threads are the guests (`Shows.reaches`).
-/

namespace RpictlMcp

open Prog

/-- The operations of the guests, and operations of the host. -/
abbrev Signature.host (K : Type) (S H : Signature) : Signature :=
  ⟨(K × S.Op) ⊕ H.Op, Sum.elim (fun o => S.Resp o.2) H.Resp⟩

section Layering

variable {K : Type} {S H : Signature} {α β σ V : Type} {B : K → Type}

namespace Prog

/-- Run a program as a guest. -/
def embed (k : K) : {α : Type} → Prog S α → Prog (Signature.host K S H) α
  | _, .pure a => .pure a
  | _, .op o next => .op (.inl (k, o)) fun r => embed k (next r)
  | _, .loop body s next =>
      .loop (fun s => embed k (body s)) s fun b => embed k (next b)

/-- An operation of the host. -/
def own (K : Type) (S : Signature) {H : Signature} (o : H.Op) :
    Prog (Signature.host K S H) (H.Resp o) :=
  perform (S := Signature.host K S H) (.inr o)

theorem embed_bind (k : K) (p : Prog S α) (f : α → Prog S β) :
    embed (H := H) k (Prog.bind p f) =
      Prog.bind (embed k p) fun a => embed k (f a) := by
  induction p with
  | pure a => rfl
  | op o next ih => exact congrArg (Prog.op _) (funext fun r => ih r f)
  | loop body s next _ ih =>
      exact congrArg (Prog.loop _ s) (funext fun b => ih b f)

theorem embed_turn (k : K) (again : σ → Prog S α) (next : β → Prog S α) :
    (fun r => embed (H := H) k (Sum.elim again next r)) =
      Sum.elim (fun s => embed k (again s)) fun b => embed k (next b) := by
  funext r
  cases r <;> rfl

/-- A run of a guest is a run of its host. -/
theorem Exec.embed {W W' : Type}
    {guestSem : (o : S.Op) → W' → S.Resp o → W' → Prop}
    {sem : (o : (Signature.host K S H).Op) → W →
      (Signature.host K S H).Resp o → W → Prop} {k : K} (lift : W' → W)
    (hlift : ∀ o w r w', guestSem o w r w' →
      sem (.inl (k, o)) (lift w) r (lift w')) {p q : Prog S α} {w w' : W'}
    (h : Exec guestSem (p, w) (q, w')) :
    Exec sem (Prog.embed k p, lift w) (Prog.embed k q, lift w') := by
  generalize hstop : (q, w') = stop at h
  induction h generalizing q w' with
  | refl =>
      cases hstop
      exact .refl
  | @tail b _ _ hstep ih =>
      subst hstop
      refine (ih (rfl : (b.1, b.2) = b)).tail ?_
      obtain ⟨p', v⟩ := b
      cases hstep with
      | op hr => exact .op (hlift _ _ _ _ hr)
      | enter =>
          rw [embed_bind, embed_turn]
          exact .enter

/-- The rule for a guest that is run: what its operations keep. -/
theorem wp_embed {W : Type}
    {sem may : (o : (Signature.host K S H).Op) → W →
      (Signature.host K S H).Resp o → W → Prop} {k : K} {p : Prog S α}
    {Q : α → W → Prop} {w : W} (J : W → Prop) (hinit : J w)
    (hop : ∀ o w r w', J w → sem (.inl (k, o)) w r w' →
      may (.inl (k, o)) w r w' ∧ J w')
    (hQ : ∀ a w, J w → Q a w) : wp sem may (embed k p) Q w := by
  induction p generalizing w with
  | pure a => exact hQ a w hinit
  | op o next ih =>
      intro r w' hr
      obtain ⟨hmay, hJ⟩ := hop o w r w' hinit hr
      exact ⟨hmay, ih r hJ hQ⟩
  | loop body s next ihbody ihnext =>
      refine ⟨fun _ => J, hinit, fun s w hJ => ihbody s hJ ?_⟩
      rintro (s' | b) w hJ
      · exact hJ
      · exact ihnext b hJ hQ

/-- What the first turn of a loop visits. -/
theorem Visits.iterate {W : Type}
    {sem : (o : S.Op) → W → S.Resp o → W → Prop}
    {body : σ → Prog S (σ ⊕ β)} {s : σ} {w w' : W}
    (h : Visits sem (body s) w w') : Visits sem (iterate body s) w w' := by
  obtain ⟨p, hexec⟩ := h
  exact ⟨_, .head .enter (Exec.bind _ hexec)⟩

/-- A loop is entered. -/
inductive Enter : Prog S α → Prog S α → Prop
  | loop {σ β : Type} {body : σ → Prog S (σ ⊕ β)} {s : σ}
      {next : β → Prog S α} :
      Enter (.loop body s next)
        (Prog.bind (body s) (Sum.elim (fun s' => .loop body s' next) next))

/-- Some loops are entered. -/
def Enters : Prog S α → Prog S α → Prop :=
  Relation.ReflTransGen Enter

/-- Entering loops needs nothing of the world. -/
theorem Enters.exec {W : Type} {sem : (o : S.Op) → W → S.Resp o → W → Prop}
    {p q : Prog S α} (h : Enters p q) (w : W) : Exec sem (p, w) (q, w) := by
  induction h with
  | refl => exact .refl
  | tail _ hstep ih =>
      cases hstep
      exact ih.tail .enter

end Prog

/-- The programs of the guests. -/
abbrev Guests (S : Signature) (B : K → Type) : Type 1 :=
  (k : K) → Prog S (B k)

/-- What a host may do: its own operations, and the guests it may run. -/
structure Stage (K : Type) (H : Signature) (V : Type) where
  moves : (o : H.Op) → V → H.Resp o → V → Prop
  mine : K → Prop

namespace Stage

variable [DecidableEq K] (a : Stage K H V)

/-- What an operation of the host has to satisfy, for what comes after it. -/
def step (o : (Signature.host K S H).Op)
    (after : (Signature.host K S H).Resp o → V → Guests S B → Prop) :
    V → Guests S B → Prop :=
  match o, after with
  | .inl (k, o), after => fun v P =>
      (a.mine k → ∃ next, Enters (P k) (.op o next) ∧
        ∀ r, after r v (Function.update P k (next r))) ∧
      (¬a.mine k → ∀ r, after r v P)
  | .inr o, after => fun v P => ∀ r v', a.moves o v r v' → after r v' P

/-- The host performs operations of the guests as their programs prescribe. -/
def hosts : {α : Type} → Prog (Signature.host K S H) α →
    (α → V → Guests S B → Prop) → V → Guests S B → Prop
  | _, .pure x, Q => Q x
  | _, .op o next, Q => a.step o fun r => hosts (next r) Q
  | _, .loop (σ := σ) body s next, Q => fun v P =>
      ∃ J : σ → V → Guests S B → Prop, J s v P ∧ ∀ s v P, J s v P →
        hosts (body s) (fun r => r.elim J fun b => hosts (next b) Q) v P

variable {a}

theorem step_mono {o : (Signature.host K S H).Op}
    {after after' :
      (Signature.host K S H).Resp o → V → Guests S B → Prop}
    {v : V} {P : Guests S B} (h : a.step o after v P)
    (hafter : ∀ r v P, after r v P → after' r v P) : a.step o after' v P := by
  cases o with
  | inl o =>
      refine ⟨fun hmine => ?_, fun hmine r => hafter r _ _ (h.2 hmine r)⟩
      obtain ⟨next, henters, hnext⟩ := h.1 hmine
      exact ⟨next, henters, fun r => hafter r _ _ (hnext r)⟩
  | inr o => exact fun r v' hmoves => hafter r _ _ (h r v' hmoves)

/-- The rule of consequence. -/
theorem hosts_mono {p : Prog (Signature.host K S H) α}
    {Q Q' : α → V → Guests S B → Prop} {v : V} {P : Guests S B}
    (h : a.hosts p Q v P) (hQ : ∀ x v P, Q x v P → Q' x v P) :
    a.hosts p Q' v P := by
  induction p generalizing v P with
  | pure x => exact hQ x v P h
  | op o next ih => exact step_mono h fun r v P hr => ih r hr hQ
  | loop body s next ihbody ihnext =>
      obtain ⟨J, hinit, hturn⟩ := h
      refine ⟨J, hinit, fun s v P hJ => ihbody s (hturn s v P hJ) ?_⟩
      rintro (s' | b) v P hr
      · exact hr
      · exact ihnext b hr hQ

/-- The rule for sequencing. -/
theorem hosts_bind (p : Prog (Signature.host K S H) α)
    (f : α → Prog (Signature.host K S H) β)
    (Q : β → V → Guests S B → Prop) (v : V) (P : Guests S B) :
    a.hosts (p >>= f) Q v P ↔
      a.hosts p (fun x => a.hosts (f x) Q) v P := by
  rw [bind_eq]
  suffices h : a.hosts (Prog.bind p f) Q =
      a.hosts p (fun x => a.hosts (f x) Q) by rw [h]
  clear v P
  induction p with
  | pure x => rfl
  | op o next ih =>
      simp only [Prog.bind, hosts, ih]
  | loop body s next _ ih =>
      simp only [Prog.bind, hosts, ih]

/-- The rule for a loop: an invariant of its turns. -/
theorem hosts_iterate {body : σ → Prog (Signature.host K S H) (σ ⊕ β)}
    {s : σ} {Q : β → V → Guests S B → Prop} {v : V} {P : Guests S B}
    (J : σ → V → Guests S B → Prop) (hinit : J s v P)
    (hturn : ∀ s v P, J s v P → a.hosts (body s) (fun r => r.elim J Q) v P) :
    a.hosts (iterate body s) Q v P :=
  ⟨J, hinit, hturn⟩

/-- A host that enters a loop. -/
theorem hosts_enter {body : σ → Prog (Signature.host K S H) (σ ⊕ β)} {s : σ}
    {next : β → Prog (Signature.host K S H) α}
    {Q : α → V → Guests S B → Prop} {v : V} {P : Guests S B}
    (h : a.hosts (.loop body s next) Q v P) :
    a.hosts (Prog.bind (body s)
      (Sum.elim (fun s' => .loop body s' next) next)) Q v P := by
  obtain ⟨J, hinit, hturn⟩ := h
  rw [← bind_eq, hosts_bind]
  refine hosts_mono (hturn s v P hinit) ?_
  rintro (s' | b) v P hr
  · exact ⟨J, hr, hturn⟩
  · exact hr

/-- The rule for a guest that is run: its program goes on with the result. -/
theorem hosts_embed {k : K} {p : Prog S α} {f : α → Prog S (B k)}
    {Q : α → V → Guests S B → Prop} {v : V} {P : Guests S B}
    (henters : a.mine k → Enters (P k) (Prog.bind p f))
    (hQ : ∀ x P', (∀ j, j ≠ k → P' j = P j) →
      (a.mine k → Enters (P' k) (f x)) → Q x v P') :
    a.hosts (embed k p) Q v P := by
  induction p generalizing P with
  | pure x => exact hQ x P (fun _ _ => rfl) henters
  | op o next ih =>
      refine ⟨fun hk => ⟨fun r => Prog.bind (next r) f, henters hk,
        fun r => ?_⟩, fun hk r => ?_⟩
      · refine ih r (P := Function.update P k _)
          (fun _ => by rw [Function.update_self]; exact .refl) ?_
        intro x P' hsame
        refine hQ x P' fun j hj => ?_
        rw [hsame j hj, Function.update_of_ne hj]
      · exact ih r (fun h => absurd h hk) hQ
  | loop body s next ihbody ihnext =>
      refine ⟨fun s v' P' => v' = v ∧ (∀ j, j ≠ k → P' j = P j) ∧
        (a.mine k → Enters (P' k) (Prog.bind (.loop body s next) f)),
        ⟨rfl, fun _ _ => rfl, henters⟩, ?_⟩
      rintro s v' P' ⟨rfl, hsame, henters'⟩
      refine ihbody s (fun hk => (henters' hk).tail .loop) ?_
      rintro (s' | b) P'' hsame' henters''
      · exact ⟨rfl, fun j hj => (hsame' j hj).trans (hsame j hj), henters''⟩
      · refine ihnext b henters'' fun x P''' hsame'' henters''' => ?_
        exact hQ x P''' (fun j hj => (hsame'' j hj).trans
          ((hsame' j hj).trans (hsame j hj))) henters'''

end Stage

/-! ## Pools of hosts -/

section Pools

variable {T U W W' : Type} {A : T → Type} {G : U → Type}
variable [DecidableEq K] [DecidableEq T] [DecidableEq U]

/--
How the threads of a pool of hosts run the threads of a pool of guests.  Each
guest has one host, the operations of a host that are not those of its guests
leave the world of the guests alone, and nobody else changes what a host knows
from its own operations.
-/
structure Layering (K : Type) (S H : Signature) (T U V W W' : Type)
    (sem : T → (o : (Signature.host K S H).Op) → W →
      (Signature.host K S H).Resp o → W → Prop) (env : W → W → Prop)
    (guestSem : U → (o : S.Op) → W' → S.Resp o → W' → Prop)
    (guestEnv : W' → W' → Prop) where
  stage : T → Stage K H V
  guest : T → K → U
  lower : W → W'
  Sees : T → V → W → Prop
  unique : ∀ {t t' k k'}, (stage t).mine k → (stage t').mine k' →
    guest t k = guest t' k' → t = t' ∧ k = k'
  op : ∀ {t k o w r w'}, (stage t).mine k → sem t (.inl (k, o)) w r w' →
    guestSem (guest t k) o (lower w) r (lower w')
  foreign : ∀ {t k o w r w'}, ¬(stage t).mine k →
    sem t (.inl (k, o)) w r w' → lower w' = lower w
  sees_op : ∀ {t t' k o v w r w'}, sem t (.inl (k, o)) w r w' →
    Sees t' v w → Sees t' v w'
  own : ∀ {t o w r w'}, sem t (.inr o) w r w' → lower w' = lower w
  sees_own : ∀ {t o v w r w'}, sem t (.inr o) w r w' → Sees t v w →
    ∃ v', (stage t).moves o v r v' ∧ Sees t v' w'
  sees_other : ∀ {t t' o v w r w'}, t' ≠ t → sem t (.inr o) w r w' →
    Sees t' v w → Sees t' v w'
  env_step : ∀ {w w'}, env w w' →
    lower w' = lower w ∨ guestEnv (lower w) (lower w')
  sees_env : ∀ {t v w w'}, env w w' → Sees t v w → Sees t v w'

namespace Layering

variable {sem : T → (o : (Signature.host K S H).Op) → W →
  (Signature.host K S H).Resp o → W → Prop} {env : W → W → Prop}
variable {guestSem : U → (o : S.Op) → W' → S.Resp o → W' → Prop}
variable {guestEnv : W' → W' → Prop}
variable (l : Layering K S H T U V W W' sem env guestSem guestEnv)

variable (Q : (t : T) → A t → V → (Guests S fun k => G (l.guest t k)) → Prop)

/-- A host runs its guests, which stand as they do in the pool of guests. -/
def Runs (t : T) (p : Prog (Signature.host K S H) (A t)) (w : W)
    (prog : (u : U) → Prog S (G u)) : Prop :=
  ∃ v, ∃ P : Guests S fun k => G (l.guest t k),
    (l.stage t).hosts p (Q t) v P ∧ l.Sees t v w ∧
      ∀ k, (l.stage t).mine k → P k = prog (l.guest t k)

/-- A pool of hosts, which come to `Q`, and the pool of their guests. -/
structure Shows (c : Pool (Signature.host K S H) A W) (d : Pool S G W') :
    Prop where
  world : d.world = l.lower c.world
  runs : ∀ t, l.Runs Q t (c.prog t) c.world d.prog

variable {l Q} {c c' : Pool (Signature.host K S H) A W} {d : Pool S G W'}

omit [DecidableEq U] in
/-- An operation that leaves the guests and their world alone. -/
theorem Shows.quietStep (h : l.Shows Q c d) {t : T}
    {p : Prog (Signature.host K S H) (A t)} {w : W}
    (hworld : l.lower w = l.lower c.world)
    (hself : l.Runs Q t p w d.prog)
    (hother : ∀ t' v, t' ≠ t → l.Sees t' v c.world → l.Sees t' v w) :
    l.Shows Q (c.move t p w) d := by
  refine ⟨h.world.trans hworld.symm, fun t' => ?_⟩
  by_cases ht : t' = t
  · subst ht
    rw [Pool.move_prog_self]
    exact hself
  · obtain ⟨v, P, hhosts, hsees, hP⟩ := h.runs t'
    rw [Pool.move_prog_of_ne _ _ _ ht]
    exact ⟨v, P, hhosts, hother t' v ht hsees, hP⟩

/-- An operation of a guest. -/
theorem Shows.guestStep (h : l.Shows Q c d) {t : T} {k : K} {o : S.Op}
    {next : S.Resp o → Prog (Signature.host K S H) (A t)} {r : S.Resp o}
    {w : W} (hprog : c.prog t = .op (.inl (k, o)) next)
    (hsem : sem t (.inl (k, o)) c.world r w) (hmine : (l.stage t).mine k) :
    ∃ d', Pool.Reaches guestSem guestEnv d d' ∧
      l.Shows Q (c.move t (next r) w) d' := by
  obtain ⟨v, P, hhosts, hsees, hP⟩ := h.runs t
  rw [hprog] at hhosts
  obtain ⟨cont, henters, hnext⟩ := hhosts.1 hmine
  have hmove : ∀ t' j, (l.stage t').mine j → (t', j) ≠ (t, k) →
      (d.move (l.guest t k) (cont r) (l.lower w)).prog (l.guest t' j) =
        d.prog (l.guest t' j) := by
    intro t' j hj hne
    refine Pool.move_prog_of_ne _ _ _ fun hsame => hne ?_
    obtain ⟨rfl, rfl⟩ := l.unique hj hmine hsame
    rfl
  refine ⟨d.move (l.guest t k) (cont r) (l.lower w), ?_, rfl, ?_⟩
  · rw [hP k hmine] at henters
    refine (Pool.reaches_of_exec (henters.exec d.world)).tail ?_
    rw [← Pool.move_move d (l.guest t k) (.op o cont) (cont r) d.world]
    refine .thread (l.guest t k) ?_
    rw [Pool.move_prog_self, Pool.move_world, h.world]
    exact .op (l.op hmine hsem)
  · intro t'
    by_cases ht : t' = t
    · subst ht
      rw [Pool.move_prog_self]
      refine ⟨v, Function.update P k (cont r), hnext r,
        l.sees_op hsem hsees, fun j hj => ?_⟩
      by_cases hjk : j = k
      · subst hjk
        rw [Function.update_self, Pool.move_prog_self]
      · rw [Function.update_of_ne hjk, hmove t' j hj (by simp [hjk])]
        exact hP j hj
    · obtain ⟨v', P', hhosts', hsees', hP'⟩ := h.runs t'
      rw [Pool.move_prog_of_ne _ _ _ ht]
      refine ⟨v', P', hhosts', l.sees_op hsem hsees', fun j hj => ?_⟩
      rw [hmove t' j hj (by simp [ht])]
      exact hP' j hj

/-- A step of the hosts is some steps of the guests. -/
theorem Shows.step (h : l.Shows Q c d) (hstep : Pool.Step sem env c c') :
    ∃ d', Pool.Reaches guestSem guestEnv d d' ∧ l.Shows Q c' d' := by
  cases hstep with
  | @thread t p w hthread =>
      generalize hprog : c.prog t = q at hthread
      cases hthread with
      | @op o next _ _ r hsem =>
          obtain ⟨v, P, hhosts, hsees, hP⟩ := h.runs t
          rw [hprog] at hhosts
          cases o with
          | inl o =>
              by_cases hmine : (l.stage t).mine o.1
              · exact h.guestStep hprog hsem hmine
              · exact ⟨d, .refl, h.quietStep (l.foreign hmine hsem)
                  ⟨v, P, hhosts.2 hmine r, l.sees_op hsem hsees, hP⟩
                  fun _ _ _ => l.sees_op hsem⟩
          | inr o =>
              obtain ⟨v', hmoves, hsees'⟩ := l.sees_own hsem hsees
              exact ⟨d, .refl, h.quietStep (l.own hsem)
                ⟨v', P, hhosts r v' hmoves, hsees', hP⟩
                fun _ _ ht => l.sees_other ht hsem⟩
      | enter =>
          obtain ⟨v, P, hhosts, hsees, hP⟩ := h.runs t
          rw [hprog] at hhosts
          exact ⟨d, .refl, h.quietStep rfl
            ⟨v, P, Stage.hosts_enter hhosts, hsees, hP⟩
            fun _ _ _ hsees => hsees⟩
  | @env w henv =>
      have hruns : ∀ t, l.Runs Q t (c.prog t) w d.prog := by
        intro t
        obtain ⟨v, P, hhosts, hsees, hP⟩ := h.runs t
        exact ⟨v, P, hhosts, l.sees_env henv hsees, hP⟩
      rcases l.env_step henv with hlower | hguest
      · exact ⟨d, .refl, h.world.trans hlower.symm, hruns⟩
      · rw [← h.world] at hguest
        exact ⟨_, .single (.env hguest), rfl, hruns⟩

/-- A run of the hosts is a run of the guests. -/
theorem Shows.reaches (h : l.Shows Q c d)
    (hreaches : Pool.Reaches sem env c c') :
    ∃ d', Pool.Reaches guestSem guestEnv d d' ∧ l.Shows Q c' d' := by
  induction hreaches with
  | refl => exact ⟨d, .refl, h⟩
  | tail _ hstep ih =>
      obtain ⟨d', hreaches, hd'⟩ := ih
      obtain ⟨d'', hreaches', hd''⟩ := hd'.step hstep
      exact ⟨d'', hreaches.trans hreaches', hd''⟩

end Layering

end Pools

end Layering

end RpictlMcp
