import RpictlMcp.LeaseDiscipline
import RpictlMcp.StateWindow

/-!
# rpictl-mcp: what the holder of the lease can rely on

Only the holder of the lease begins a new generation.  Between two looks of a
request that keeps the lease, and does not begin a generation itself, the
console has therefore only received more bytes: everything that it has seen is
still in the current generation, whatever the other clients do.

The entries of a log tell who held the lease; they agree with what the events of
the threads say.
-/

namespace RpictlMcp

open Prog

/-- Between two consoles the board has sent more, and no generation began. -/
def Console.Grows (c d : Console) : Prop :=
  d.capacity = c.capacity ∧
    ∃ ops, d.history = c.history ++ ops ∧ .markGeneration ∉ ops

section Grows

variable {a b c : Console}

theorem Console.Grows.refl (c : Console) : c.Grows c :=
  ⟨rfl, [], by simp, by simp⟩

theorem Console.Grows.trans (hab : a.Grows b) (hbc : b.Grows c) :
    a.Grows c := by
  obtain ⟨hcapacity, ops, hops, hnone⟩ := hab
  obtain ⟨hcapacity', ops', hops', hnone'⟩ := hbc
  refine ⟨hcapacity'.trans hcapacity, ops ++ ops', ?_, ?_⟩
  · rw [hops', hops, List.append_assoc]
  · intro hmem
    rcases List.mem_append.mp hmem with hleft | hright
    · exact hnone hleft
    · exact hnone' hright

theorem sinceMark_append_unmarked (history ops : List RingOp)
    (h : .markGeneration ∉ ops) :
    sinceMark (history ++ ops) =
      sinceMark history ++ ops.flatMap RingOp.input := by
  induction ops using List.reverseRecOn with
  | nil => simp
  | append_singleton ops op ih =>
      rw [List.mem_append, not_or] at h
      cases op with
      | markGeneration => simp at h
      | append timestamp input =>
          rw [← List.append_assoc, sinceMark_append, ih h.1,
            List.flatMap_append, List.append_assoc]
          simp [RingOp.input]

/-- What has been received belongs to the stream and to the generation. -/
theorem Console.Grows.received (h : a.Grows b) :
    ∃ more, b.stream = a.stream ++ more ∧
      sinceMark b.history = sinceMark a.history ++ more := by
  obtain ⟨-, ops, hops, hnone⟩ := h
  refine ⟨ops.flatMap RingOp.input, ?_, ?_⟩
  · rw [Console.stream, Console.stream, hops, List.flatMap_append]
  · rw [hops, sinceMark_append_unmarked _ _ hnone]

end Grows

/-- Events that neither move the lease nor begin a new generation. -/
def Event.keepsTenure : Event → Bool
  | .marked _ => false
  | e => e.isNeutral

/-- A trace of such events. -/
def Tenured (t : List Event) : Prop :=
  ∀ e ∈ t, e.keepsTenure = true

@[simp] theorem tenured_nil : Tenured [] := by
  simp [Tenured]

@[simp] theorem tenured_cons {e : Event} {t : List Event} :
    Tenured (e :: t) ↔ e.keepsTenure = true ∧ Tenured t := by
  simp [Tenured]

@[simp] theorem tenured_append {s t : List Event} :
    Tenured (s ++ t) ↔ Tenured s ∧ Tenured t := by
  simp [Tenured, or_imp, forall_and]

theorem Tenured.neutral {t : List Event} (h : Tenured t) : Neutral t := by
  intro e he
  have := h e he
  cases e <;> first | exact this | cases this

/--
Since a look of a holder of the lease the console has only grown, and so it had
at every later look of the same tenure.
-/
structure World.Tenure {ι : Type} [DecidableEq ι] (w : World ι) : Prop where
  current : ∀ i front c rest,
    w.threadLog (i, .main) = front ++ .looked c :: rest →
      holds front = true → Tenured rest → c.Grows w.console
  earlier : ∀ i front c mid d rest,
    w.threadLog (i, .main) =
        front ++ .looked c :: (mid ++ .looked d :: rest) →
      holds front = true → Tenured mid → c.Grows d

section Tenure

variable {ι : Type} [DecidableEq ι] {w w' : World ι}
variable {registry : BoardRegistry} {reqs : ι → ClientRequest} {t : Thread ι}

/-- Only a holder of the lease begins a new generation. -/
theorem holder_of_marked {o : BoardOp} {r : o.Resp} {c : Console}
    (hw : w.Disciplined registry reqs) (hw' : w'.Disciplined registry reqs)
    (h : boardSem t o w r w')
    (he : .marked c ∈ BoardOp.events o r w'.console) : w.holder = some t := by
  obtain ⟨i, role⟩ := t
  cases role with
  | main =>
      have hholds := permitted_of_boardSem hw' h he
      exact (hw.logged.lease (i, .main)).mp hholds
  | worker => exact (workerPermitted_of_boardSem hw' h he).elim

/-- An action changes the console only when it begins a new generation. -/
theorem BoardOp.OnConsole.marked_or_same {o : BoardOp} {c c' : Console}
    {r : o.Resp} (h : BoardOp.OnConsole o c r c') :
    c' = c ∨ .marked c' ∈ BoardOp.events o r c' := by
  cases o with
  | markGeneration => exact .inr (by simp [BoardOp.events])
  | lockSerial => exact .inl h.2
  | _ => exact .inl h

/-- A thread that has looked under the lease and kept it still holds it. -/
theorem holds_of_tenured {front rest : List Event} {c : Console}
    (hfront : holds front = true) (hrest : Tenured rest) :
    holds (front ++ .looked c :: rest) = true := by
  rw [holds_append (t := .looked c :: rest) (by
    simp [Event.isNeutral, hrest.neutral]), hfront]

/-- The other threads leave the console of a holder of the lease alone. -/
theorem console_of_other {o : BoardOp} {r : o.Resp} {i : ι} {c : Console}
    {front rest : List Event} (hw : w.Disciplined registry reqs)
    (hw' : w'.Disciplined registry reqs) (h : boardSem t o w r w')
    (hlog : w.threadLog (i, .main) = front ++ .looked c :: rest)
    (hne : t ≠ (i, .main)) (hfront : holds front = true)
    (hrest : Tenured rest) : w'.console = w.console := by
  rcases h.1.marked_or_same with hsame | hmarked
  · exact hsame
  · have hholder := holder_of_marked hw hw' h hmarked
    have hholds : holds (w.threadLog (i, .main)) = true := by
      rw [hlog]
      exact holds_of_tenured hfront hrest
    rw [(hw.logged.lease (i, .main)).mp hholds] at hholder
    exact absurd (Option.some.inj hholder).symm hne

/-- An action causes no event or one. -/
theorem BoardOp.events_cases (o : BoardOp) (r : o.Resp) (c : Console) :
    BoardOp.events o r c = [] ∨ ∃ e, BoardOp.events o r c = [e] := by
  cases h : BoardOp.events o r c with
  | nil => exact .inl rfl
  | cons e es =>
      have hmem : e ∈ BoardOp.events o r c := by simp [h]
      exact .inr ⟨e, h ▸ BoardOp.events_eq hmem⟩

omit [DecidableEq ι] in
/-- Where one more event stands when a log is split at an event. -/
theorem split_concat {α : Type} {log front rest : List α} {e x : α}
    (h : log ++ [e] = front ++ x :: rest) :
    (rest = [] ∧ x = e ∧ log = front) ∨
      ∃ rest', rest = rest' ++ [e] ∧ log = front ++ x :: rest' := by
  rcases List.eq_nil_or_concat rest with rfl | ⟨rest', y, rfl⟩
  · obtain ⟨hlog, hx⟩ := List.append_inj' h rfl
    exact .inl ⟨rfl, (List.singleton_inj.mp hx).symm, hlog⟩
  · rw [List.concat_eq_append, ← List.cons_append,
      ← List.append_assoc] at h
    obtain ⟨hlog, hy⟩ := List.append_inj' h rfl
    obtain rfl := List.singleton_inj.mp hy
    exact .inr ⟨rest', List.concat_eq_append, hlog⟩

theorem World.Tenure.current_step {o : BoardOp} {r : o.Resp} {i : ι}
    {c : Console} {front rest : List Event}
    (hw : w.Disciplined registry reqs) (hw' : w'.Disciplined registry reqs)
    (hinv : w.Tenure) (h : boardSem t o w r w')
    (hlog : w'.threadLog (i, .main) = front ++ .looked c :: rest)
    (hfront : holds front = true) (hrest : Tenured rest) :
    c.Grows w'.console := by
  by_cases ht : t = (i, .main)
  · subst ht
    rw [threadLog_self h] at hlog
    rcases BoardOp.events_cases o r w'.console with hnone | ⟨e, he⟩
    · -- Without an event the console is the old one.
      rw [hnone, List.append_nil] at hlog
      rcases h.1.marked_or_same with hsame | hmarked
      · rw [hsame]
        exact hinv.current i front c rest hlog hfront hrest
      · simp [hnone] at hmarked
    · rw [he] at hlog
      rcases split_concat hlog with ⟨rfl, hx, hold⟩ | ⟨rest', rfl, hold⟩
      · -- The look is the new event.
        have hconsole : c = w'.console :=
          BoardOp.console_of_mem_events (he ▸ List.mem_singleton_self e)
            (hx ▸ rfl)
        rw [hconsole]
        exact .refl _
      · rw [tenured_append, tenured_cons] at hrest
        rcases h.1.marked_or_same with hsame | hmarked
        · rw [hsame]
          exact hinv.current i front c rest' hold hfront hrest.1
        · rw [he] at hmarked
          obtain rfl := List.mem_singleton.mp hmarked
          simp [Event.keepsTenure] at hrest
  · rw [threadLog_of_boardSem h, if_neg ht, List.append_nil] at hlog
    rw [console_of_other hw hw' h hlog ht hfront hrest]
    exact hinv.current i front c rest hlog hfront hrest

theorem World.Tenure.earlier_step {o : BoardOp} {r : o.Resp} {i : ι}
    {c d : Console} {front mid rest : List Event}
    (hinv : w.Tenure) (h : boardSem t o w r w')
    (hlog : w'.threadLog (i, .main) =
      front ++ .looked c :: (mid ++ .looked d :: rest))
    (hfront : holds front = true) (hmid : Tenured mid) : c.Grows d := by
  by_cases ht : t = (i, .main)
  · subst ht
    rw [threadLog_self h] at hlog
    rcases BoardOp.events_cases o r w'.console with hnone | ⟨e, he⟩
    · rw [hnone, List.append_nil] at hlog
      exact hinv.earlier i front c mid d rest hlog hfront hmid
    · rw [he, ← List.cons_append, ← List.append_assoc] at hlog
      rcases split_concat hlog with ⟨rfl, hx, hold⟩ | ⟨rest', rfl, hold⟩
      · -- The later look is the new event.
        have hconsole : d = w'.console :=
          BoardOp.console_of_mem_events (he ▸ List.mem_singleton_self e)
            (hx ▸ rfl)
        rcases h.1.marked_or_same with hsame | hmarked
        · rw [hconsole, hsame]
          exact hinv.current i front c mid hold hfront hmid
        · rw [he, ← hx] at hmarked
          simp at hmarked
      · rw [List.append_assoc, List.cons_append] at hold
        exact hinv.earlier i front c mid d rest' hold hfront hmid
  · rw [threadLog_of_boardSem h, if_neg ht, List.append_nil] at hlog
    exact hinv.earlier i front c mid d rest hlog hfront hmid

/-- In every reachable world the holder of the lease has seen output grow. -/
theorem BoardReaches.tenure {console : Console}
    {c : Pool BoardSig (Answer (ι := ι)) (World ι)}
    (h : BoardReaches (start registry console reqs) c) : c.world.Tenure := by
  refine h.invariant_of (World.Disciplined · registry reqs) World.Tenure
    (fun _ hd => BoardReaches.disciplined hd) ?_ ?_ ?_
  · intro t o w r w' hw hw' hinv hsem
    exact ⟨fun i front c rest => hinv.current_step hw hw' hsem,
      fun i front c mid d rest => hinv.earlier_step hsem⟩
  · intro w w' _ _ hinv henv
    refine ⟨?_, ?_⟩
    · intro i front c rest hlog hfront hrest
      rw [threadLog_of_env henv] at hlog
      have hgrows := hinv.current i front c rest hlog hfront hrest
      cases henv with
      | receive timestamp input hcapacity hhistory =>
          exact hgrows.trans ⟨hcapacity, _, hhistory, by simp⟩
      | panic => exact hgrows
    · intro i front c mid d rest hlog
      rw [threadLog_of_env henv] at hlog
      exact hinv.earlier i front c mid d rest hlog
  · have hnone : ∀ t : Thread ι,
        (start registry console reqs).world.threadLog t = [] := fun _ => rfl
    exact ⟨by simp [hnone], by simp [hnone]⟩

/-- The events of a thread in a log. -/
def ownLog (log : List (Entry ι)) (t : Thread ι) : List Event :=
  (log.filter fun entry => entry.thread = t).map Entry.event

theorem ownLog_append (before after : List (Entry ι)) (t : Thread ι) :
    ownLog (before ++ after) t = ownLog before t ++ ownLog after t := by
  simp [ownLog]

theorem ownLog_cons_self (entry : Entry ι) (after : List (Entry ι)) :
    ownLog (entry :: after) entry.thread =
      entry.event :: ownLog after entry.thread := by
  simp [ownLog]

/-- Every entry names the thread that held the lease according to the log. -/
def HolderLogged (log : List (Entry ι)) : Prop :=
  Lawful (fun before entry =>
    ∀ u, holds (ownLog before u) = true ↔ entry.holder = some u) log

/-- In every reachable world the entries name the holder of the lease. -/
theorem BoardReaches.holderLogged {console : Console}
    {c : Pool BoardSig (Answer (ι := ι)) (World ι)}
    (h : BoardReaches (start registry console reqs) c) :
    HolderLogged c.world.log := by
  refine h.invariant_of (World.Disciplined · registry reqs)
    (fun w => HolderLogged w.log) (fun _ hd => BoardReaches.disciplined hd)
    ?_ ?_ lawful_nil
  · intro t o w r w' hw _ hinv hsem
    rw [HolderLogged, hsem.2.2.2]
    refine Lawful.append hinv ?_
    rcases BoardOp.events_cases o r w'.console with hnone | ⟨e, he⟩
    · rw [hnone]
      exact trivial
    · rw [he]
      exact ⟨hw.logged.lease, trivial⟩
  · intro w w' _ _ hinv henv
    cases henv <;> exact hinv

end Tenure

end RpictlMcp
