import RpictlMcp.Kernel.Interaction

/-!
# rpictl-mcp kernel: a logic for traces

Here an operation is known by the events it emits: `emits o r es` says that `o`
may respond with `r` while the events `es` happen.  Everything else about the
surroundings is left open, so a program is run against every order of responses.

`Traces` is the judgement of the logic.  `Traces emits allowed p base Φ` says,
of a program that starts after the events `base`, that each of its events is
allowed where it happens and that its result and its own events satisfy `Φ`.  The
rules follow the constructs of programs.  `Lawful` is what they guarantee of
every prefix of a run, `Traces.lawful` and `Traces.result` say so.
-/

namespace RpictlMcp
namespace Prog

section TraceLogic

variable {S : Signature} {E α β σ ε : Type}

/-- The events so far are extended by those of one operation. -/
def logSem (emits : (o : S.Op) → S.Resp o → List E → Prop) (o : S.Op)
    (log : List E) (r : S.Resp o) (log' : List E) : Prop :=
  ∃ es, emits o r es ∧ log' = log ++ es

/-- The new events are allowed, one after the other. -/
def AllowedAfter (allowed : List E → E → Prop) :
    List E → List E → Prop
  | _, [] => True
  | log, e :: es => allowed log e ∧ AllowedAfter allowed (log ++ [e]) es

/-- Every event was allowed when it happened. -/
def Lawful (allowed : List E → E → Prop) (log : List E) : Prop :=
  ∀ before e after, log = before ++ e :: after → allowed before e

/-- The permission that belongs to allowed events. -/
def mayLog (allowed : List E → E → Prop) (o : S.Op) (log : List E)
    (_ : S.Resp o) (log' : List E) : Prop :=
  ∀ es, log' = log ++ es → AllowedAfter allowed log es

variable (emits : (o : S.Op) → S.Resp o → List E → Prop)
variable (allowed : List E → E → Prop)

/-- The events of a program are allowed, its result and events satisfy `Φ`. -/
def Traces (p : Prog S α) (base : List E) (Φ : α → List E → Prop) : Prop :=
  wp (logSem emits) (mayLog allowed) p
    (fun a log => ∃ t, log = base ++ t ∧ Φ a t) base

variable {emits allowed}

theorem lawful_nil : Lawful allowed [] := by
  intro before e after h
  simp at h

/-- Allowed events extend a lawful log. -/
theorem Lawful.append {log es : List E} (h : Lawful allowed log)
    (hes : AllowedAfter allowed log es) : Lawful allowed (log ++ es) := by
  induction es generalizing log with
  | nil => simpa using h
  | cons e es ih =>
      obtain ⟨he, hes⟩ := hes
      rw [List.append_cons]
      refine ih ?_ hes
      intro before x after hlog
      rcases List.eq_nil_or_concat after with rfl | ⟨after, y, rfl⟩
      · obtain ⟨rfl, hx⟩ := List.append_inj' hlog rfl
        obtain rfl := List.singleton_inj.mp hx
        exact he
      · refine h before x after ?_
        rw [List.concat_eq_append, ← List.cons_append,
          ← List.append_assoc] at hlog
        exact (List.append_inj' hlog rfl).1

theorem Traces.pure {a : α} {base : List E} {Φ : α → List E → Prop}
    (h : Φ a []) : Traces emits allowed (Pure.pure a) base Φ :=
  ⟨[], by simp, h⟩

/-- The rule of consequence. -/
theorem Traces.mono {p : Prog S α} {base : List E} {Φ Φ' : α → List E → Prop}
    (h : Traces emits allowed p base Φ) (hΦ : ∀ a t, Φ a t → Φ' a t) :
    Traces emits allowed p base Φ' := by
  refine wp_mono h ?_
  rintro a log ⟨t, rfl, ht⟩
  exact ⟨t, rfl, hΦ a t ht⟩

/-- The rule for one operation. -/
theorem Traces.perform {o : S.Op} {base : List E}
    {Φ : S.Resp o → List E → Prop}
    (h : ∀ r es, emits o r es → AllowedAfter allowed base es ∧ Φ r es) :
    Traces emits allowed (Prog.perform o) base Φ := by
  rintro r log' ⟨es, hes, rfl⟩
  obtain ⟨hallowed, hΦ⟩ := h r es hes
  refine ⟨?_, es, rfl, hΦ⟩
  intro es' hlog
  obtain rfl := List.append_cancel_left hlog
  exact hallowed

/-- The rule for sequencing. -/
theorem Traces.bind {p : Prog S α} {f : α → Prog S β} {base : List E}
    {Φ : α → List E → Prop} {Ψ : β → List E → Prop}
    (hp : Traces emits allowed p base Φ)
    (hf : ∀ a t, Φ a t →
      Traces emits allowed (f a) (base ++ t) fun b t' => Ψ b (t ++ t')) :
    Traces emits allowed (p >>= f) base Ψ := by
  rw [Traces, wp_bind]
  refine wp_mono hp ?_
  rintro a log ⟨t, rfl, ht⟩
  refine wp_mono (hf a t ht) ?_
  rintro b log ⟨t', rfl, hΨ⟩
  exact ⟨t ++ t', by rw [List.append_assoc], hΨ⟩

/-- The rule for sequencing programs that may fail. -/
theorem Traces.bindE {x : ExceptT ε (Prog S) α}
    {f : α → ExceptT ε (Prog S) β} {base : List E}
    {Φ : Except ε α → List E → Prop} {Ψ : Except ε β → List E → Prop}
    (hx : Traces emits allowed x.run base Φ)
    (hok : ∀ a t, Φ (.ok a) t →
      Traces emits allowed (f a).run (base ++ t) fun b t' => Ψ b (t ++ t'))
    (herror : ∀ e t, Φ (.error e) t → Ψ (.error e) t) :
    Traces emits allowed (x >>= f).run base Ψ := by
  rw [ExceptT.run_bind]
  refine Traces.bind hx ?_
  rintro (e | a) t ht
  · exact Traces.pure (by rw [List.append_nil]; exact herror e t ht)
  · exact hok a t ht

/-- A program that cannot fail, among programs that may. -/
theorem Traces.lift {p : Prog S α} {base : List E}
    {Φ : Except ε α → List E → Prop}
    (h : Traces emits allowed p base fun a t => Φ (.ok a) t) :
    Traces emits allowed (ExceptT.lift p : ExceptT ε (Prog S) α).run base Φ :=
  (wp_run_lift p _ base).mpr h

/-- The rule for a loop: an invariant of its turns. -/
theorem Traces.iterate {body : σ → Prog S (σ ⊕ β)} {s : σ} {base : List E}
    {Φ : β → List E → Prop} (J : σ → List E → Prop) (hinit : J s [])
    (hturn : ∀ s t, J s t →
      Traces emits allowed (body s) (base ++ t) fun r t' =>
        r.elim (fun s' => J s' (t ++ t')) fun b => Φ b (t ++ t')) :
    Traces emits allowed (Prog.iterate body s) base Φ := by
  refine wp_iterate (fun s log => ∃ t, log = base ++ t ∧ J s t)
    ⟨[], by simp, hinit⟩ ?_
  rintro s log ⟨t, rfl, hJ⟩
  refine wp_mono (hturn s t hJ) ?_
  rintro (s' | b) log ⟨t', rfl, hr⟩
  · exact ⟨t ++ t', by rw [List.append_assoc], hr⟩
  · exact ⟨t ++ t', by rw [List.append_assoc], hr⟩

/-- The rule for a loop whose turns may fail. -/
theorem Traces.iterateE {body : σ → ExceptT ε (Prog S) (σ ⊕ β)} {s : σ}
    {base : List E} {Φ : Except ε β → List E → Prop}
    (J : σ → List E → Prop) (hinit : J s [])
    (hturn : ∀ s t, J s t →
      Traces emits allowed (body s).run (base ++ t) fun r t' => match r with
        | .ok (.inl s') => J s' (t ++ t')
        | .ok (.inr b) => Φ (.ok b) (t ++ t')
        | .error e => Φ (.error e) (t ++ t')) :
    Traces emits allowed (Prog.iterateE body s).run base Φ := by
  refine Traces.iterate J hinit fun s t hJ => ?_
  refine Traces.bind (hturn s t hJ) ?_
  rintro (e | s' | b) t' hr <;>
    exact Traces.pure (by rw [List.append_nil]; exact hr)

theorem allowedAfter_of {log es : List E} (h : ∀ t e, allowed (log ++ t) e) :
    AllowedAfter allowed log es := by
  induction es generalizing log with
  | nil => exact trivial
  | cons e es ih =>
      refine ⟨by simpa using h [] e, ih fun t e' => ?_⟩
      rw [List.append_assoc]
      exact h _ e'

/-- Where everything is allowed from now on, every program has some trace. -/
theorem Traces.always (p : Prog S α) {base : List E}
    (h : ∀ t e, allowed (base ++ t) e) :
    Traces emits allowed p base fun _ _ => True := by
  suffices hall : ∀ log, (∃ t, log = base ++ t) →
      wp (logSem emits) (mayLog allowed) p
        (fun _ log => ∃ t, log = base ++ t ∧ True) log from
    hall base ⟨[], by simp⟩
  induction p with
  | pure a =>
      intro log hlog
      obtain ⟨t, rfl⟩ := hlog
      exact ⟨t, rfl, trivial⟩
  | op o next ih =>
      intro log hlog r log' hr
      obtain ⟨t, rfl⟩ := hlog
      obtain ⟨es, -, rfl⟩ := hr
      refine ⟨fun es' _ => allowedAfter_of fun u e => ?_, ih r _ ⟨t ++ es, ?_⟩⟩
      · rw [List.append_assoc]
        exact h _ e
      · rw [List.append_assoc]
  | loop body s next ihbody ihnext =>
      intro log hlog
      refine ⟨fun _ log => ∃ t, log = base ++ t, hlog, fun s log hlog => ?_⟩
      refine wp_mono (ihbody s log hlog) ?_
      intro r log' hr
      obtain ⟨t, rfl, -⟩ := hr
      cases r with
      | inl s' => exact ⟨t, rfl⟩
      | inr b => exact ihnext b _ ⟨t, rfl⟩

/-- Every program has some trace. -/
theorem Traces.anything (p : Prog S α) (base : List E) :
    Traces emits (fun _ _ => True) p base fun _ _ => True :=
  Traces.always p fun _ _ => trivial

/-- The postcondition may speak of the run that has led to the result. -/
theorem Traces.withRun {p : Prog S α} {base : List E}
    {Φ : α → List E → Prop} (h : Traces emits allowed p base Φ) :
    Traces emits allowed p base fun a t =>
      Φ a t ∧ Returns (logSem emits) p base a (base ++ t) := by
  refine wp_mono (wp_withRun h) ?_
  rintro a log ⟨⟨t, rfl, ht⟩, hreturns⟩
  exact ⟨t, rfl, ht, hreturns⟩

/-- The result and the new events of a complete run, whatever came before. -/
theorem Traces.returns {p : Prog S α} {a : α} {base log : List E}
    {Φ : α → List E → Prop} (h : Traces emits allowed p base Φ)
    (hexec : Returns (logSem emits) p base a log) :
    ∃ t, log = base ++ t ∧ Φ a t :=
  (wp_exec (fun _ _ _ _ _ _ _ => trivial) hexec trivial h).2

/-- A run keeps the log lawful and what is left of the program correct. -/
theorem Traces.exec {p p' : Prog S α} {base log : List E}
    {Φ : α → List E → Prop} (h : Traces emits allowed p base Φ)
    (hbase : Lawful allowed base)
    (hexec : Exec (logSem emits) (p, base) (p', log)) :
    Lawful allowed log ∧ wp (logSem emits) (mayLog allowed) p'
      (fun a log => ∃ t, log = base ++ t ∧ Φ a t) log := by
  refine wp_exec ?_ hexec hbase h
  rintro o log r log' hlog ⟨es, -, rfl⟩ hmay
  exact hlog.append (hmay es rfl)

/-- Every event of a run, complete or not, was allowed when it happened. -/
theorem Traces.lawful {p p' : Prog S α} {log : List E}
    {Φ : α → List E → Prop} (h : Traces emits allowed p [] Φ)
    (hexec : Exec (logSem emits) (p, []) (p', log)) : Lawful allowed log :=
  (h.exec lawful_nil hexec).1

/-- The result and the events of a complete run. -/
theorem Traces.result {p : Prog S α} {a : α} {log : List E}
    {Φ : α → List E → Prop} (h : Traces emits allowed p [] Φ)
    (hexec : Exec (logSem emits) (p, []) (.pure a, log)) : Φ a log := by
  obtain ⟨t, rfl, ht⟩ := (h.exec lawful_nil hexec).2
  exact ht

/-- A semantics that emits events lets every thread run through its log. -/
theorem Exec.log {W : Type} {sem : (o : S.Op) → W → S.Resp o → W → Prop}
    (log : W → List E)
    (hemits : ∀ o w r w', sem o w r w' →
      ∃ es, emits o r es ∧ log w' = log w ++ es)
    {p p' : Prog S α} {w w' : W} (h : Exec sem (p, w) (p', w')) :
    Exec (logSem emits) (p, log w) (p', log w') := by
  generalize hc : (p', w') = c at h
  induction h generalizing p' w' with
  | refl =>
      cases hc
      exact .refl
  | @tail b _ _ hstep ih =>
      subst hc
      refine (ih (rfl : (b.1, b.2) = b)).tail ?_
      obtain ⟨q, v⟩ := b
      cases hstep with
      | op hr => exact .op (hemits _ _ _ _ hr)
      | enter => exact .enter

end TraceLogic

end Prog
end RpictlMcp
