import RpictlMcp.Kernel.ThreadPool

/-!
# rpictl-mcp kernel: pools with a pact

Every thread of a pool may keep a record of what it has done, which is not part
of the world and which no program can see.  A pact ties the records of all
threads to the shared world by an invariant, which no thread could keep alone:
it is kept by the operations that the threads promise to confine themselves to.

Each thread is verified alone, against its own record.  `Pact.Holds.reaches`
says that in every run the invariant holds and that every thread can still keep
its promise.
-/

namespace RpictlMcp

open Prog

section Pact

variable {T : Type} {S : Signature} {A : T → Type} {V W : Type}
variable [DecidableEq T]

/--
What the threads of a pool record, what they promise, and the invariant that the
promises keep.
-/
structure Pact (T : Type) [DecidableEq T] (S : Signature) (V W : Type)
    (sem : T → (o : S.Op) → W → S.Resp o → W → Prop)
    (env : W → W → Prop) where
  records : T → (o : S.Op) → V → S.Resp o → V → Prop
  may : T → (o : S.Op) → V → S.Resp o → V → Prop
  inv : (T → V) → W → Prop
  op : ∀ {t o v w r w'}, inv v w → sem t o w r w' →
    ∃ x, records t o (v t) r x ∧
      (may t o (v t) r x → inv (Function.update v t x) w')
  env_step : ∀ {v w w'}, inv v w → env w w' → inv v w'

namespace Pact

variable {sem : T → (o : S.Op) → W → S.Resp o → W → Prop}
variable {env : W → W → Prop} (p : Pact T S V W sem env)
variable (Q : (t : T) → A t → V → Prop)

/-- The invariant holds, and every thread keeps its promise from now on. -/
def Holds (c : Pool S A W) (v : T → V) : Prop :=
  p.inv v c.world ∧
    ∀ t, wp (p.records t) (p.may t) (c.prog t) (Q t) (v t)

/-- A thread whose operations are all permitted, whatever it does. -/
theorem wp_of_may {α : Type}
    {records may : (o : S.Op) → V → S.Resp o → V → Prop}
    (hmay : ∀ o v r v', records o v r v' → may o v r v') {q : Prog S α}
    {Q : α → V → Prop} {v : V} (hQ : ∀ a v, Q a v) :
    wp records may q Q v := by
  induction q generalizing v with
  | pure a => exact hQ a v
  | op o next ih => exact fun r v' hr => ⟨hmay o v r v' hr, ih r hQ⟩
  | loop body s next ihbody ihnext =>
      refine ⟨fun _ _ => True, trivial, fun s v _ => ihbody s ?_⟩
      rintro (s' | b) v
      · trivial
      · exact ihnext b hQ

variable {p Q} {c c' : Pool S A W} {v : T → V}

theorem Holds.step (h : p.Holds Q c v) (hstep : Pool.Step sem env c c') :
    ∃ v', p.Holds Q c' v' := by
  obtain ⟨hinv, hwp⟩ := h
  cases hstep with
  | thread t hthread =>
      have hother : ∀ (u : T) (q : Prog S (A t)) (x : V) (w : W), u ≠ t →
          wp (p.records u) (p.may u) ((c.move t q w).prog u) (Q u)
            (Function.update v t x u) := by
        intro u q x w hu
        rw [Pool.move_prog_of_ne _ _ _ hu, Function.update_of_ne hu]
        exact hwp u
      have hprog := hwp t
      generalize c.prog t = q at hthread hprog
      cases hthread with
      | op hsem =>
          obtain ⟨x, hrecords, hkeeps⟩ := p.op hinv hsem
          obtain ⟨hmay, hnext⟩ := hprog _ _ hrecords
          refine ⟨Function.update v t x, hkeeps hmay, fun u => ?_⟩
          by_cases hu : u = t
          · subst hu
            rw [Pool.move_prog_self, Function.update_self]
            exact hnext
          · exact hother u _ x _ hu
      | enter =>
          refine ⟨v, hinv, fun u => ?_⟩
          by_cases hu : u = t
          · subst hu
            rw [Pool.move_prog_self]
            have hnext : True ∧ wp (p.records u) (p.may u) _ (Q u) (v u) :=
              wp_step (fun _ _ _ _ _ _ _ => trivial) .enter trivial hprog
            exact hnext.2
          · simpa using hother u _ (v t) _ hu
  | env henv => exact ⟨v, p.env_step hinv henv, hwp⟩

/-- In every run the threads keep the pact. -/
theorem Holds.reaches (h : p.Holds Q c v)
    (hreaches : Pool.Reaches sem env c c') : ∃ v', p.Holds Q c' v' := by
  induction hreaches with
  | refl => exact ⟨v, h⟩
  | tail _ hstep ih =>
      obtain ⟨v', hv'⟩ := ih
      exact hv'.step hstep

end Pact

end Pact

end RpictlMcp
