import RpictlMcp.ConnectionRefinement
import RpictlMcp.Kernel.Pact

/-!
# rpictl-mcp: console sessions one after the other

A board has at most one interactive console.  The flag that says so is set by
`claim_console`, and cleared when the claim is dropped; this module shows what
that means for the board.  A session holds its claim whenever it acts on the
board, and acts on no other board, the claim is dropped however the session
ends, and the actions of two sessions on one board are never interleaved.

The connections keep a pact.  Each of them records how far its session has come
and which of its requests it has come to, and promises to act on its own board,
in its session only, and never for an earlier request.
-/

namespace RpictlMcp

open Prog

/-- How far the session of a connection has come. -/
inductive Phase where
  | before
  | during (boardId : String)
  | after
deriving DecidableEq, Repr

/-- The claim that a session has. -/
def Phase.claim : Phase → Option String
  | .during boardId => some boardId
  | _ => none

/-- What a connection records: its phase, and the number of its request. -/
structure Record where
  phase : Phase
  floor : Nat

section Pact

variable {κ : Type}

/-- What the thread of a connection records. -/
def sessionRecords (clients : κ → Client) (t : ConnectionThread κ)
    (o : ConnectionSig.Op) (v : Record) (r : ConnectionSig.Resp o)
    (v' : Record) : Prop :=
  match o, r with
  | .inl (key, _), _ => v' = { v with floor := key.number }
  | .inr .readLine, line => line = (clients t.1).line ∧ v' = v
  | .inr (.claimConsole boardId), true =>
      v' = { v with phase := .during boardId }
  | .inr .dropClaim, _ => v' = { v with phase := .after }
  | .inr _, _ => v' = v

/-- What the main thread of a connection promises. -/
def sessionMay (clients : κ → Client) (t : ConnectionThread κ)
    (o : ConnectionSig.Op) (v : Record) (r : ConnectionSig.Resp o)
    (_ : Record) : Prop :=
  t.2 = .main → match o, r with
    | .inl (key, _), _ => v.floor ≤ key.number ∧
        ∀ boardId, (clients t.1).console? = some boardId →
          v.phase = .during boardId ∧ key.board? = some boardId
    | .inr (.claimConsole boardId), _ => v.phase = .before ∧
        (clients t.1).console? = some boardId
    | .inr .dropClaim, _ => ∃ boardId, v.phase = .during boardId
    | .inr _, _ => True

/-- An event that the main thread of a connection has caused. -/
def Entry.IsOf (e : Entry (κ × Nat)) (i : κ) : Prop :=
  e.thread.1.1 = i ∧ e.thread.2 = .main

/-- The number of the request that has caused an event. -/
def Entry.number (e : Entry (κ × Nat)) : Nat := e.thread.1.2

/-- What one connection has done comes before what another one has done. -/
def Before (i j : κ) (log : List (Entry (κ × Nat))) : Prop :=
  log.Pairwise fun e later => ¬(e.IsOf j ∧ later.IsOf i)

/-- A board has a console exactly when one connection has claimed it. -/
structure Daemon.Exclusive (w : Daemon κ) : Prop where
  active : ∀ boardId, w.consoleActive boardId = true ↔
    ∃ i, w.claim i = some boardId
  unique : ∀ i j boardId, w.claim i = some boardId →
    w.claim j = some boardId → i = j

/-- The claims are those of the sessions. -/
structure ClaimsRecorded (clients : κ → Client) (u : κ → Record)
    (w : Daemon κ) : Prop where
  claim : ∀ i, w.claim i = (u i).phase.claim
  console : ∀ i boardId, (u i).phase = .during boardId →
    (clients i).console? = some boardId
  exclusive : w.Exclusive

/-- The log of a board shows its sessions one after the other. -/
structure SessionsLogged (clients : κ → Client) (b : String) (u : κ → Record)
    (log : List (Entry (κ × Nat))) : Prop where
  own : ∀ e ∈ log, ∀ i boardId, e.IsOf i →
    (clients i).console? = some boardId → boardId = b
  numbered : ∀ e ∈ log, ∀ i, e.IsOf i → e.number ≤ (u i).floor
  ordered : log.Pairwise fun e later =>
    ∀ i, e.IsOf i → later.IsOf i → e.number ≤ later.number
  begun : ∀ e ∈ log, ∀ i, e.IsOf i → (clients i).console? ≠ none →
    (u i).phase ≠ .before
  current : ∀ i j boardId, i ≠ j → (u i).phase = .during boardId →
    (clients j).console? = some boardId → Before j i log
  apart : ∀ i j boardId, i ≠ j → (clients i).console? = some boardId →
    (clients j).console? = some boardId → Before i j log ∨ Before j i log

section Log

variable {clients : κ → Client} {b : String} {u u' : κ → Record}
variable {log new : List (Entry (κ × Nat))}

/-- New events of one thread, which its promise permits. -/
structure Promised (clients : κ → Client) (b : String) (u u' : κ → Record)
    (new : List (Entry (κ × Nat))) : Prop where
  phase : ∀ i, (u' i).phase = (u i).phase
  floor : ∀ i, (u i).floor ≤ (u' i).floor
  thread : ∀ e ∈ new, ∀ later ∈ new, e.thread = later.thread
  number : ∀ e ∈ new, ∀ i, e.IsOf i →
    (u i).floor ≤ e.number ∧ e.number ≤ (u' i).floor
  session : ∀ e ∈ new, ∀ i boardId, e.IsOf i →
    (clients i).console? = some boardId →
      (u i).phase = .during boardId ∧ boardId = b

/-- Two connections whose events come one after the other, and new events. -/
theorem Before.append {i j : κ} (h : Before i j log)
    (hnew : ∀ e ∈ new, ¬e.IsOf i) : Before i j (log ++ new) := by
  refine List.pairwise_append.mpr ⟨h, ?_, ?_⟩
  · refine List.pairwise_of_forall_mem_list ?_
    exact fun e he later hlater hboth => hnew later hlater hboth.2
  · exact fun e he later hlater hboth => hnew later hlater hboth.2

theorem before_of_none {i j : κ} (h : ∀ e ∈ log, ¬e.IsOf j) :
    Before i j log :=
  List.pairwise_of_forall_mem_list
    fun e he _ _ hboth => h e he hboth.1

/-- A connection acts on the board. -/
theorem SessionsLogged.append (h : SessionsLogged clients b u log)
    (hnew : Promised clients b u u' new)
    (hunique : ∀ i j boardId, (u i).phase = .during boardId →
      (u j).phase = .during boardId → i = j) :
    SessionsLogged clients b u' (log ++ new) where
  own := by
    intro e he i boardId hi hconsole
    rcases List.mem_append.mp he with hold | hnew'
    · exact h.own e hold i boardId hi hconsole
    · exact (hnew.session e hnew' i boardId hi hconsole).2
  numbered := by
    intro e he i hi
    rcases List.mem_append.mp he with hold | hnew'
    · exact (h.numbered e hold i hi).trans (hnew.floor i)
    · exact (hnew.number e hnew' i hi).2
  ordered := by
    refine List.pairwise_append.mpr ⟨h.ordered, ?_, ?_⟩
    · refine List.pairwise_of_forall_mem_list ?_
      intro e he later hlater i _ _
      rw [Entry.number, Entry.number, hnew.thread e he later hlater]
    · intro e he later hlater i hi hi'
      exact (h.numbered e he i hi).trans (hnew.number later hlater i hi').1
  begun := by
    intro e he i hi hconsole
    rw [hnew.phase]
    rcases List.mem_append.mp he with hold | hnew'
    · exact h.begun e hold i hi hconsole
    · obtain ⟨boardId, hboardId⟩ := Option.ne_none_iff_exists'.mp hconsole
      rw [(hnew.session e hnew' i boardId hi hboardId).1]
      simp
  current := by
    intro i j boardId hij hphase hconsole
    rw [hnew.phase] at hphase
    refine (h.current i j boardId hij hphase hconsole).append ?_
    intro e he hj
    exact hij (hunique i j boardId hphase
      (hnew.session e he j boardId hj hconsole).1)
  apart := by
    intro i j boardId hij hi hj
    by_cases hphase : (u i).phase = .during boardId
    · refine .inr ((h.current i j boardId hij hphase hj).append ?_)
      intro e he hof
      exact hij (hunique i j boardId hphase
        (hnew.session e he j boardId hof hj).1)
    · have hidle : ∀ e ∈ new, ¬e.IsOf i := fun e he hof =>
        hphase (hnew.session e he i boardId hof hi).1
      by_cases hphase' : (u j).phase = .during boardId
      · exact .inl ((h.current j i boardId hij.symm hphase' hi).append hidle)
      · rcases h.apart i j boardId hij hi hj with hbefore | hbefore
        · exact .inl (hbefore.append hidle)
        · refine .inr (hbefore.append fun e he hof => hphase' ?_)
          exact (hnew.session e he j boardId hof hj).1

/-- A session is claimed, or its claim is dropped. -/
theorem SessionsLogged.turn [DecidableEq κ] {i : κ} {phase : Phase}
    (h : SessionsLogged clients b u log) (hphase : phase ≠ .before)
    (hsession : ∀ boardId, phase = .during boardId →
      (u i).phase = .before ∧ (clients i).console? ≠ none) :
    SessionsLogged clients b (Function.update u i { u i with phase }) log where
  own := h.own
  numbered := by
    intro e he j hj
    by_cases hji : j = i
    · subst hji
      rw [Function.update_self]
      exact h.numbered e he j hj
    · rw [Function.update_of_ne hji]
      exact h.numbered e he j hj
  ordered := h.ordered
  begun := by
    intro e he j hj hconsole
    by_cases hji : j = i
    · subst hji
      rwa [Function.update_self]
    · rw [Function.update_of_ne hji]
      exact h.begun e he j hj hconsole
  current := by
    intro j k boardId hjk hduring hk
    by_cases hji : j = i
    · -- A session that has just been claimed has not done anything yet.
      subst hji
      rw [Function.update_self] at hduring
      obtain ⟨hbefore, hconsole⟩ := hsession boardId hduring
      exact before_of_none fun e he hof => h.begun e he j hof hconsole hbefore
    · rw [Function.update_of_ne hji] at hduring
      exact h.current j k boardId hjk hduring hk
  apart := h.apart

end Log

section Claims

variable {clients : κ → Client} {u u' : κ → Record} {w w' : Daemon κ}

theorem ClaimsRecorded.unique (h : ClaimsRecorded clients u w) {i j : κ}
    {boardId : String} (hi : (u i).phase = .during boardId)
    (hj : (u j).phase = .during boardId) : i = j := by
  refine h.exclusive.unique i j boardId ?_ ?_
  · rw [h.claim, hi, Phase.claim]
  · rw [h.claim, hj, Phase.claim]

theorem ClaimsRecorded.congr (h : ClaimsRecorded clients u w)
    (hphase : ∀ i, (u' i).phase = (u i).phase) (hclaim : w'.claim = w.claim)
    (hactive : w'.consoleActive = w.consoleActive) :
    ClaimsRecorded clients u' w' where
  claim := by
    intro i
    rw [hclaim, hphase]
    exact h.claim i
  console := by
    intro i boardId
    rw [hphase]
    exact h.console i boardId
  exclusive := by
    refine ⟨?_, ?_⟩
    · rw [hactive, hclaim]
      exact h.exclusive.active
    · rw [hclaim]
      exact h.exclusive.unique

variable [DecidableEq κ] {i : κ} {boardId : String}

/-- A console that is free is claimed. -/
theorem Daemon.Exclusive.claimed (h : w.Exclusive)
    (hfree : w.consoleActive boardId = false) (hnone : w.claim i = none) :
    { w with
      consoleActive := Function.update w.consoleActive boardId true
      claim := Function.update w.claim i (some boardId) }.Exclusive where
  active := by
    intro other
    by_cases hother : other = boardId
    · subst hother
      simp only [Function.update_self, true_iff]
      exact ⟨i, Function.update_self ..⟩
    · simp only [Function.update_of_ne hother, h.active]
      refine exists_congr fun j => ?_
      by_cases hj : j = i
      · subst hj
        simp [hnone, Ne.symm hother]
      · rw [Function.update_of_ne hj]
  unique := by
    have hfresh : ∀ j, w.claim j ≠ some boardId := by
      intro j hj
      have hactive := (h.active boardId).mpr ⟨j, hj⟩
      simp [hfree] at hactive
    intro j k other hj hk
    dsimp only at hj hk
    by_cases hji : j = i <;> by_cases hki : k = i
    · rw [hji, hki]
    · subst hji
      rw [Function.update_self] at hj
      rw [Function.update_of_ne hki, ← hj] at hk
      exact absurd hk (hfresh k)
    · subst hki
      rw [Function.update_self] at hk
      rw [Function.update_of_ne hji, ← hk] at hj
      exact absurd hj (hfresh j)
    · rw [Function.update_of_ne hji] at hj
      rw [Function.update_of_ne hki] at hk
      exact h.unique j k other hj hk

/-- A claim is dropped. -/
theorem Daemon.Exclusive.dropped (h : w.Exclusive)
    (hclaim : w.claim i = some boardId) :
    { w with
      consoleActive := Function.update w.consoleActive boardId false
      claim := Function.update w.claim i none }.Exclusive where
  active := by
    intro other
    by_cases hother : other = boardId
    · subst hother
      simp only [Function.update_self, Bool.false_eq_true, false_iff,
        not_exists]
      intro j hj
      by_cases hji : j = i
      · subst hji
        rw [Function.update_self] at hj
        cases hj
      · rw [Function.update_of_ne hji] at hj
        exact hji (h.unique j i other hj hclaim)
    · simp only [Function.update_of_ne hother, h.active]
      refine exists_congr fun j => ?_
      by_cases hj : j = i
      · subst hj
        simp [hclaim, Ne.symm hother]
      · rw [Function.update_of_ne hj]
  unique := by
    have hkept : ∀ j other, Function.update w.claim i none j = some other →
        w.claim j = some other := by
      intro j other hj
      by_cases hji : j = i
      · subst hji
        rw [Function.update_self] at hj
        cases hj
      · rwa [Function.update_of_ne hji] at hj
    intro j k other hj hk
    exact h.unique j k other (hkept j other hj) (hkept k other hk)

/-- The session of a connection turns to another phase. -/
theorem ClaimsRecorded.turn {phase : Phase}
    (h : ClaimsRecorded clients u w)
    (hu' : u' = Function.update u i { u i with phase })
    (hclaim : w'.claim = Function.update w.claim i phase.claim)
    (hconsole : ∀ boardId, phase = .during boardId →
      (clients i).console? = some boardId) (hexclusive : w'.Exclusive) :
    ClaimsRecorded clients u' w' where
  claim := by
    intro j
    by_cases hj : j = i
    · subst hj
      rw [hclaim, hu', Function.update_self, Function.update_self]
    · rw [hclaim, hu', Function.update_of_ne hj, Function.update_of_ne hj]
      exact h.claim j
  console := by
    intro j boardId hphase
    by_cases hj : j = i
    · subst hj
      rw [hu', Function.update_self] at hphase
      exact hconsole boardId hphase
    · rw [hu', Function.update_of_ne hj] at hphase
      exact h.console j boardId hphase
  exclusive := hexclusive

end Claims

/-! ## The pact of the connections -/

section Promises

variable [DecidableEq κ] {clients : κ → Client}

/-- The records of the main threads. -/
abbrev mainRecords (v : ConnectionThread κ → Record) (i : κ) : Record :=
  v (i, .main)

theorem mainRecords_update_main (v : ConnectionThread κ → Record) (i : κ)
    (x : Record) :
    mainRecords (Function.update v (i, .main) x) =
      Function.update (mainRecords v) i x := by
  funext j
  by_cases hj : j = i
  · subst hj
    rw [Function.update_self, mainRecords, Function.update_self]
  · rw [Function.update_of_ne hj, mainRecords,
      Function.update_of_ne (by simp [hj])]

/-- What the connections keep. -/
structure SessionsKept (clients : κ → Client)
    (v : ConnectionThread κ → Record) (w : Daemon κ) : Prop where
  claims : ClaimsRecorded clients (mainRecords v) w
  logged : ∀ boardId,
    SessionsLogged clients boardId (mainRecords v) (w.boards boardId).log

variable {v : ConnectionThread κ → Record} {w w' : Daemon κ}
variable {t : ConnectionThread κ}

/-- What an action of a request adds to the log of a board. -/
theorem RequestKey.OnBoards.logged {key : RequestKey} {t : Thread (κ × Nat)}
    {o : BoardOp} {r : o.Resp} {boards boards' : String → World (κ × Nat)}
    (h : key.OnBoards t o boards r boards') (boardId : String) :
    ∃ new, (boards' boardId).log = (boards boardId).log ++ new ∧
      ∀ e ∈ new, e.thread = t ∧
        ∀ boardId', key.board? = some boardId' → boardId' = boardId := by
  by_cases hb : key.board? = some boardId
  · obtain ⟨board, hsem, rfl⟩ : ∃ board,
        boardSem t o (boards boardId) r board ∧
          boards' = Function.update boards boardId board := by
      simpa only [RequestKey.OnBoards, hb] using h
    refine ⟨_, by rw [Function.update_self, hsem.2.2.2], ?_⟩
    intro e he
    obtain ⟨_, -, rfl⟩ := List.mem_map.mp he
    exact ⟨rfl, fun boardId' hb' => Option.some.inj (hb'.symm.trans hb)⟩
  · exact ⟨[], by rw [h.other hb, List.append_nil], by simp⟩

/-- A connection acts on a board. -/
theorem SessionsKept.boardStep (h : SessionsKept clients v w)
    {key : RequestKey} {o : BoardOp} {r : o.Resp}
    (hsem : daemonSem clients t (.inl (key, o)) w r w')
    (hmay : sessionMay clients t (.inl (key, o)) (v t) r
      { v t with floor := key.number }) :
    SessionsKept clients
      (Function.update v t { v t with floor := key.number }) w' := by
  obtain ⟨i, role⟩ := t
  obtain ⟨onBoard, honBoard, hboards, hw'⟩ := hsem
  have hphase : ∀ j, (mainRecords (Function.update v (i, role)
      { v (i, role) with floor := key.number }) j).phase =
        (mainRecords v j).phase := by
    intro j
    by_cases hj : (j, ConnectionRole.main) = (i, role)
    · rw [mainRecords, mainRecords, hj, Function.update_self]
    · rw [mainRecords, mainRecords, Function.update_of_ne hj]
  refine ⟨h.claims.congr hphase (by rw [hw']) (by rw [hw']), fun b => ?_⟩
  obtain ⟨new, hlog, hnew⟩ := hboards.logged b
  have hentries : ∀ e ∈ new, ∀ j, e.IsOf j →
      i = j ∧ role = .main ∧ e.number = key.number := by
    rintro e he j ⟨hj, hmain⟩
    rw [(hnew e he).1] at hj hmain
    obtain rfl : onBoard = .main := hmain
    refine ⟨hj, ?_, by rw [Entry.number, (hnew e he).1]⟩
    cases role <;> first | rfl | simp [ConnectionRole.onBoard] at honBoard
  rw [hlog]
  refine (h.logged b).append ⟨hphase, ?_, ?_, ?_, ?_⟩
    fun _ _ _ => h.claims.unique
  · intro j
    by_cases hj : (j, ConnectionRole.main) = (i, role)
    · have hmain : role = .main := congrArg Prod.snd hj.symm
      rw [mainRecords, mainRecords, hj, Function.update_self]
      exact (hmay hmain).1
    · rw [mainRecords, mainRecords, Function.update_of_ne hj]
  · intro e he later hlater
    rw [(hnew e he).1, (hnew later hlater).1]
  · intro e he j hof
    obtain ⟨hj, hmain, hnumber⟩ := hentries e he j hof
    subst hj hmain
    rw [mainRecords, mainRecords, Function.update_self, hnumber]
    exact ⟨(hmay rfl).1, le_rfl⟩
  · intro e he j boardId hof hconsole
    obtain ⟨hj, hmain, -⟩ := hentries e he j hof
    subst hj hmain
    obtain ⟨hduring, hkey⟩ := (hmay rfl).2 boardId hconsole
    exact ⟨hduring, (hnew e he).2 boardId hkey⟩

/-- A session claims its console. -/
theorem SessionsKept.claimStep (h : SessionsKept clients v w) {boardId : String}
    {claimed : Bool}
    (hsem : daemonSem clients t (.inr (.claimConsole boardId)) w claimed w') :
    ∃ x, sessionRecords clients t (.inr (.claimConsole boardId)) (v t)
        claimed x ∧
      (sessionMay clients t (.inr (.claimConsole boardId)) (v t) claimed x →
        SessionsKept clients (Function.update v t x) w') := by
  obtain ⟨i, role⟩ := t
  obtain ⟨hallowed, hsem⟩ := hsem
  obtain rfl := StreamOp.role_of_isMain hallowed rfl
  cases hactive : w.consoleActive boardId with
  | true =>
      simp only [StreamOp.OnDaemon, hactive, if_true] at hsem
      obtain ⟨rfl, rfl⟩ := hsem
      refine ⟨v (i, .main), rfl, fun _ => ?_⟩
      rwa [Function.update_eq_self]
  | false =>
      simp only [StreamOp.OnDaemon, hactive, Bool.false_eq_true,
        if_false] at hsem
      obtain ⟨rfl, rfl⟩ := hsem
      refine ⟨{ v (i, .main) with phase := .during boardId }, rfl, ?_⟩
      intro hmay
      obtain ⟨hbefore, hconsole⟩ := hmay rfl
      have hnone : w.claim i = none := by
        rw [h.claims.claim, mainRecords, hbefore]
        rfl
      refine ⟨h.claims.turn (mainRecords_update_main _ _ _) rfl ?_
        (h.claims.exclusive.claimed hactive hnone), ?_⟩
      · rintro other ⟨⟩
        exact hconsole
      · intro b
        rw [mainRecords_update_main]
        refine (h.logged b).turn (by simp) fun _ _ => ⟨hbefore, ?_⟩
        rw [hconsole]
        simp

/-- A session drops its claim. -/
theorem SessionsKept.dropStep (h : SessionsKept clients v w)
    (hsem : daemonSem clients t (.inr .dropClaim) w () w')
    (hmay : sessionMay clients t (.inr .dropClaim) (v t) ()
      { v t with phase := .after }) :
    SessionsKept clients (Function.update v t { v t with phase := .after })
      w' := by
  obtain ⟨i, role⟩ := t
  obtain ⟨hallowed, hsem⟩ := hsem
  obtain rfl := StreamOp.role_of_isMain hallowed rfl
  obtain ⟨boardId, hduring⟩ := hmay rfl
  have hclaim : w.claim i = some boardId := by
    rw [h.claims.claim, mainRecords, hduring]
    rfl
  simp only [StreamOp.OnDaemon, hclaim] at hsem
  subst hsem
  refine ⟨h.claims.turn (mainRecords_update_main _ _ _) rfl (by simp)
    (h.claims.exclusive.dropped hclaim), fun b => ?_⟩
  rw [mainRecords_update_main]
  exact (h.logged b).turn (by simp) (by simp)

/-- A connection acts on its stream. -/
theorem SessionsKept.streamStep (h : SessionsKept clients v w) {i : κ}
    {o : StreamOp} {r : o.Resp} (hsem : StreamOp.OnDaemon clients i o w r w')
    (hclaim : ∀ boardId, o ≠ .claimConsole boardId) (hdrop : o ≠ .dropClaim) :
    SessionsKept clients v w' := by
  obtain ⟨hclaims, hactive⟩ := hsem.kept.consoles hclaim hdrop
  refine ⟨h.claims.congr (fun _ => rfl) hclaims hactive, ?_⟩
  rw [hsem.kept.boards]
  exact h.logged

/-- The connections promise to act on the board in their sessions only. -/
def sessionPact (clients : κ → Client) :
    Pact (ConnectionThread κ) ConnectionSig Record (Daemon κ)
      (daemonSem clients) DaemonEnv where
  records := sessionRecords clients
  may := sessionMay clients
  inv := SessionsKept clients
  op := by
    intro t o v w r w' h hsem
    cases o with
    | inl o => exact ⟨_, rfl, h.boardStep hsem⟩
    | inr o =>
        cases o with
        | claimConsole boardId => exact h.claimStep hsem
        | dropClaim => exact ⟨_, rfl, h.dropStep hsem⟩
        | readLine =>
            refine ⟨v t, ⟨hsem.2.1, rfl⟩, fun _ => ?_⟩
            rw [Function.update_eq_self]
            exact h.streamStep hsem.2 (by simp) (by simp)
        | _ =>
            refine ⟨v t, rfl, fun _ => ?_⟩
            rw [Function.update_eq_self]
            exact h.streamStep hsem.2 (by simp) (by simp)
  env_step := by
    rintro v w w' h ⟨boardId, board, henv, rfl⟩
    have hlog : board.log = (w.boards boardId).log := by
      cases henv <;> rfl
    refine ⟨h.claims.congr (fun _ => rfl) rfl rfl, fun b => ?_⟩
    dsimp only
    by_cases hb : b = boardId
    · subst hb
      rw [Function.update_self, hlog]
      exact h.logged b
    · rw [Function.update_of_ne hb]
      exact h.logged b

end Promises

/-! ## What a connection promises -/

section Program

variable {registry : BoardRegistry} {serde : Serde} {clients : κ → Client}
variable {i : κ} {v : Record}

/-- The main thread of a connection keeps its promise. -/
abbrev Promises (clients : κ → Client) (i : κ) {α : Type} (p : Connection α)
    (Q : α → Record → Prop) (v : Record) : Prop :=
  wp (sessionRecords clients (i, .main)) (sessionMay clients (i, .main)) p Q v

/-- An action that has nothing to do with the claim. -/
theorem promises_stream {o : StreamOp} {Q : o.Resp → Record → Prop}
    (hline : o ≠ .readLine) (hclaim : ∀ boardId, o ≠ .claimConsole boardId)
    (hdrop : o ≠ .dropClaim) (hQ : ∀ r, Q r v) :
    Promises clients i (stream o) Q v := by
  intro r v' hrecords
  cases o with
  | readLine => exact absurd rfl hline
  | claimConsole boardId => exact absurd rfl (hclaim boardId)
  | dropClaim => exact absurd rfl hdrop
  | _ =>
      obtain rfl := hrecords
      exact ⟨fun _ => trivial, hQ r⟩

theorem promises_sendAll {bytes : Text} {Q : Unit → Record → Prop}
    (hQ : Q () v) : Promises clients i (sendAll bytes) Q v :=
  (wp_bind _ _ _ _).mpr
    (promises_stream (by simp) (by simp) (by simp) fun _ => hQ)

theorem promises_sendResponse {response : Text} {Q : Unit → Record → Prop}
    (hQ : Q () v) : Promises clients i (sendResponse response) Q v := by
  refine (wp_bind _ _ _ _).mpr ?_
  refine promises_stream (by simp) (by simp) (by simp) fun sent => ?_
  cases sent with
  | false => exact hQ
  | true =>
      refine (wp_bind _ _ _ _).mpr ?_
      refine promises_stream (by simp) (by simp) (by simp) fun sent => ?_
      cases sent with
      | false => exact hQ
      | true => exact promises_sendAll hQ

/-- A connection that may make its request with a number. -/
structure MayRequest (clients : κ → Client) (i : κ) (now : Phase)
    (key : RequestKey) (v : Record) : Prop where
  phase : v.phase = now
  floor : v.floor ≤ key.number
  session : ∀ boardId, (clients i).console? = some boardId →
    now = .during boardId ∧ key.board? = some boardId

theorem MayRequest.next {phase : Phase} {board? : Option String} {k k' : Nat}
    (h : MayRequest clients i phase ⟨board?, k⟩ v) (hk : k ≤ k') :
    MayRequest clients i phase ⟨board?, k'⟩ v :=
  ⟨h.phase, h.floor.trans hk, h.session⟩

theorem promises_request {α : Type} {phase : Phase} {key : RequestKey}
    {p : Prog BoardSig α} {Q : α → Record → Prop}
    (h : MayRequest clients i phase key v)
    (hQ : ∀ a v', MayRequest clients i phase key v' → Q a v') :
    Promises clients i (request key p) Q v := by
  refine wp_embed (MayRequest clients i phase key) h ?_ hQ
  rintro o v r v' hv rfl
  refine ⟨fun _ => ⟨hv.floor, fun boardId hconsole => ?_⟩, ?_⟩
  · rw [hv.phase]
    exact hv.session boardId hconsole
  · exact ⟨hv.phase, le_rfl, hv.session⟩

variable {phase : Phase} {k : Nat} {boardId : String}

theorem forwardInput_promises {bytes : List UInt8}
    (h : MayRequest clients i phase ⟨some boardId, k⟩ v) :
    Promises clients i (forwardInput registry k boardId bytes)
      (fun _ v' => MayRequest clients i phase ⟨some boardId, k⟩ v') v := by
  unfold forwardInput
  split
  · exact h
  · refine (wp_bind _ _ _ _).mpr ?_
    refine promises_request h fun uuid v h => ?_
    refine (wp_bind _ _ _ _).mpr ?_
    refine promises_request h fun heldBy v h => ?_
    cases heldBy with
    | some owner => exact promises_sendAll h
    | none =>
        refine (wp_bind _ _ _ _).mpr ?_
        refine promises_request h fun written v h => ?_
        cases written with
        | error error =>
            refine (wp_bind _ _ _ _).mpr (promises_sendAll ?_)
            exact promises_request h fun _ _ h => h
        | ok _ => exact promises_request h fun _ _ h => h

theorem completeCommand_promises {command : List UInt8}
    (h : MayRequest clients i phase ⟨some boardId, k⟩ v) :
    Promises clients i (completeCommand registry boardId command k)
      (fun s v' => MayRequest clients i phase ⟨some boardId, s.requests⟩ v')
      v := by
  unfold completeCommand
  split
  · exact (wp_bind _ _ _ _).mpr (promises_sendResponse h)
  · dsimp only
    split
    · refine (wp_bind _ _ _ _).mpr ?_
      exact promises_stream (by simp) (by simp) (by simp) fun _ => h
    · split
      · refine (wp_bind _ _ _ _).mpr ?_
        exact promises_stream (by simp) (by simp) (by simp) fun _ => h
      · rename_i command _ _ _
        generalize String.ofList (trim command.toList) = cmd
        refine (wp_bind _ _ _ _).mpr ?_
        refine promises_request h fun response v h => ?_
        refine (wp_bind _ _ _ _).mpr (promises_sendResponse ?_)
        exact h.next (Nat.le_succ k)

variable {s : SessionVars}

theorem sessionByte_promises {byte : UInt8}
    (h : MayRequest clients i phase ⟨some boardId, s.requests⟩ v) :
    Promises clients i (sessionByte registry boardId s byte)
      (fun s' v' => MayRequest clients i phase ⟨some boardId, s'.requests⟩ v')
      v := by
  unfold sessionByte
  split
  · split
    · exact completeCommand_promises h
    · exact h
  · split
    · exact h
    · refine (wp_bind _ _ _ _).mpr ?_
      refine wp_mono (forwardInput_promises h) fun _ v h => ?_
      exact h.next (Nat.le_succ _)

theorem sessionBytes_promises {bytes : List UInt8}
    (h : MayRequest clients i phase ⟨some boardId, s.requests⟩ v) :
    Promises clients i (sessionBytes registry boardId s bytes)
      (fun s' v' => MayRequest clients i phase ⟨some boardId, s'.requests⟩ v')
      v := by
  induction bytes generalizing s v with
  | nil => exact h
  | cons byte bytes ih =>
      refine (wp_bind _ _ _ _).mpr ?_
      exact wp_mono (sessionByte_promises h) fun _ _ h => ih h

theorem sessionTurn_promises
    (h : MayRequest clients i phase ⟨some boardId, s.requests⟩ v) :
    Promises clients i (sessionTurn registry boardId s)
      (fun r v' => r.elim
        (fun s' => MayRequest clients i phase ⟨some boardId, s'.requests⟩ v')
        fun _ => v'.phase = phase) v := by
  refine (wp_bind _ _ _ _).mpr ?_
  refine promises_stream (by simp) (by simp) (by simp) fun running => ?_
  cases running with
  | false => exact h.phase
  | true =>
      refine (wp_bind _ _ _ _).mpr ?_
      refine promises_stream (by simp) (by simp) (by simp) fun read => ?_
      cases read with
      | eof => exact h.phase
      | failed => exact h.phase
      | interrupted => exact h
      | data bytes =>
          refine (wp_bind _ _ _ _).mpr ?_
          exact wp_mono (sessionBytes_promises h) fun _ _ h => h

/-- A session that is over. -/
theorem promises_dropClaim {Q : Unit → Record → Prop}
    (hphase : v.phase = .during boardId)
    (hQ : ∀ v', v'.phase = .after → Q () v') :
    Promises clients i (stream .dropClaim) Q v := by
  rintro _ v' rfl
  exact ⟨fun _ => ⟨boardId, hphase⟩, hQ _ rfl⟩

/-- However a session ends, its claim has been dropped. -/
theorem consoleSession_promises (hphase : v.phase = .before)
    (hfloor : v.floor = 0)
    (hconsole : (clients i).console? = some boardId) :
    Promises clients i (consoleSession registry boardId)
      (fun _ v' => v'.phase.claim = none) v := by
  refine (wp_bind _ _ _ _).mpr ?_
  intro claimed v' hrecords
  refine ⟨fun _ => ⟨hphase, hconsole⟩, ?_⟩
  cases claimed with
  | false =>
      obtain rfl : v' = v := hrecords
      refine promises_sendAll ?_
      rw [hphase]
      rfl
  | true =>
      have hduring : MayRequest clients i (.during boardId)
          ⟨some boardId, 0⟩ v' := by
        obtain rfl := hrecords
        refine ⟨rfl, hfloor.le, fun other hother => ?_⟩
        rw [Option.some.inj (hconsole.symm.trans hother)]
        exact ⟨rfl, rfl⟩
      refine (wp_bind _ _ _ _).mpr ?_
      refine promises_stream (by simp) (by simp) (by simp) fun cloned => ?_
      cases cloned with
      | false =>
          refine promises_dropClaim hduring.phase fun v' hafter => ?_
          rw [hafter]
          rfl
      | true =>
          refine (wp_bind _ _ _ _).mpr ?_
          refine promises_stream (by simp) (by simp) (by simp) fun _ => ?_
          refine (wp_bind _ _ _ _).mpr ?_
          refine wp_iterate (fun s v => MayRequest clients i (.during boardId)
            ⟨some boardId, s.requests⟩ v) hduring ?_
          intro s v hJ
          refine wp_mono (sessionTurn_promises hJ) ?_
          rintro (s' | _) v hr
          · exact hr
          · refine (wp_bind _ _ _ _).mpr ?_
            refine promises_stream (by simp) (by simp) (by simp) fun _ => ?_
            refine promises_dropClaim hr fun v' hafter => ?_
            rw [hafter]
            rfl

theorem promises_readLine {Q : Option (List Char) → Record → Prop}
    (hQ : Q (clients i).line v) :
    Promises clients i (stream .readLine) Q v := by
  rintro line v' ⟨rfl, rfl⟩
  exact ⟨fun _ => trivial, hQ⟩

theorem withSubscription_promises {next : Connection Unit}
    {Q : Unit → Record → Prop} (hQ : Q () v)
    (h : Promises clients i next Q v) :
    Promises clients i (withSubscription registry boardId next) Q v := by
  unfold withSubscription
  split
  · exact promises_sendAll hQ
  · refine (wp_bind _ _ _ _).mpr ?_
    exact promises_stream (by simp) (by simp) (by simp) fun _ => h

theorem monitorLoop_promises {Q : Unit → Record → Prop} (hQ : Q () v) :
    Promises clients i monitorLoop Q v := by
  refine wp_iterate (fun _ v => Q () v) hQ fun _ v hQ => ?_
  refine (wp_bind _ _ _ _).mpr ?_
  refine promises_stream (by simp) (by simp) (by simp) fun received => ?_
  cases received with
  | none => exact hQ
  | some bytes =>
      refine (wp_bind _ _ _ _).mpr ?_
      refine promises_stream (by simp) (by simp) (by simp) fun sent => ?_
      cases sent <;> exact hQ

/-- A connection that is no console may make its one request. -/
theorem mayRequest_of_none (hphase : v.phase = .before) (hfloor : v.floor = 0)
    (hconsole : (clients i).console? = none) (board? : Option String) :
    MayRequest clients i .before ⟨board?, 0⟩ v :=
  ⟨hphase, hfloor.le, fun _ h => absurd (hconsole.symm.trans h) (by simp)⟩

/-- A connection keeps its promise, and does not keep a claim. -/
theorem serveClient_promises (hphase : v.phase = .before)
    (hfloor : v.floor = 0) :
    Promises clients i (serveClient registry serde)
      (fun _ v' => v'.phase.claim = none) v := by
  have hnone : v.phase.claim = none := by
    rw [hphase]
    rfl
  have hrequested : ∀ key v', MayRequest clients i .before key v' →
      v'.phase.claim = none := by
    intro key v' h
    rw [h.phase]
    rfl
  refine (wp_bind _ _ _ _).mpr ?_
  refine promises_stream (by simp) (by simp) (by simp) fun cloned => ?_
  cases cloned with
  | false => exact hnone
  | true =>
      refine (wp_bind _ _ _ _).mpr (promises_readLine ?_)
      cases hline : (clients i).line with
      | none => exact hnone
      | some line =>
          dsimp only
          cases hhandshake : parseHandshake line with
          | ping => exact promises_sendAll hnone
          | shutdown =>
              refine (wp_bind _ _ _ _).mpr (promises_sendAll ?_)
              exact promises_stream (by simp) (by simp) (by simp)
                fun _ => hnone
          | rpc json =>
              have hconsole : (clients i).console? = none := by
                simp [Client.console?, hline, hhandshake]
              have hmay := mayRequest_of_none hphase hfloor hconsole
              dsimp only
              unfold serveRpcLine
              split
              · exact promises_sendAll hnone
              · refine (wp_bind _ _ _ _).mpr ?_
                refine promises_request (hmay _) fun _ v' hv' => ?_
                exact promises_sendAll (hrequested _ v' hv')
          | power rest =>
              have hconsole : (clients i).console? = none := by
                simp [Client.console?, hline, hhandshake]
              have hmay := mayRequest_of_none hphase hfloor hconsole
              refine (wp_bind _ _ _ _).mpr ?_
              refine promises_request (hmay _) fun _ v' hv' => ?_
              exact promises_sendAll (hrequested _ v' hv')
          | console id =>
              refine withSubscription_promises hnone ?_
              refine consoleSession_promises hphase hfloor ?_
              simp [Client.console?, hline, hhandshake]
          | monitor id =>
              exact withSubscription_promises hnone
                (monitorLoop_promises hnone)

end Program

/-! ## Runs of the daemon -/

section Runs

variable [DecidableEq κ] {clients : κ → Client} {registry : BoardRegistry}
variable {serde : Serde} {consoles : String → Console}
variable {c : Pool ConnectionSig (fun _ : ConnectionThread κ => Unit)
  (Daemon κ)}

/-- What a thread comes to: a connection that is over has no claim. -/
def claimless (t : ConnectionThread κ) (_ : Unit) (v : Record) : Prop :=
  t.2 = .main → v.phase.claim = none

theorem sessionPact_start :
    (sessionPact clients).Holds claimless
      (startDaemon registry serde consoles clients) fun _ => ⟨.before, 0⟩ := by
  refine ⟨⟨⟨fun _ => rfl, by rintro _ _ ⟨⟩, ?_⟩, ?_⟩, ?_⟩
  · exact ⟨by simp [startDaemon, Daemon.initial],
      by simp [startDaemon, Daemon.initial]⟩
  · refine fun b => ⟨?_, ?_, .nil, ?_, fun _ _ _ _ _ _ => .nil,
      fun _ _ _ _ _ _ => .inl .nil⟩ <;>
      simp [startDaemon, Daemon.initial, World.initial]
  · rintro ⟨i, role⟩
    cases role with
    | main =>
        refine wp_mono (serveClient_promises rfl rfl) ?_
        exact fun _ _ hnone _ => hnone
    | forwarder =>
        refine Pact.wp_of_may (fun _ _ _ _ _ => ?_) fun _ _ => ?_
        · rintro ⟨⟩
        · rintro ⟨⟩
    | worker =>
        refine Pact.wp_of_may (fun _ _ _ _ _ => ?_) fun _ _ => ?_
        · rintro ⟨⟩
        · rintro ⟨⟩

/-- In every run the connections keep what they promise. -/
theorem DaemonReaches.sessions
    (h : DaemonReaches clients
      (startDaemon registry serde consoles clients) c) :
    ∃ v, (sessionPact clients).Holds claimless c v :=
  sessionPact_start.reaches h

/-- The consoles of a daemon, and what the sessions have done to the boards. -/
structure SessionsApart (clients : κ → Client)
    (c : Pool ConnectionSig (fun _ : ConnectionThread κ => Unit) (Daemon κ)) :
    Prop where
  exclusive : c.world.Exclusive
  released : ∀ i, c.prog (i, .main) = .pure () → c.world.claim i = none
  own : ∀ i boardId, (clients i).console? = some boardId →
    ∀ other, ∀ e ∈ (c.world.boards other).log, e.IsOf i → other = boardId
  apart : ∀ i j boardId, i ≠ j → (clients i).console? = some boardId →
    (clients j).console? = some boardId →
      Before i j (c.world.boards boardId).log ∨
        Before j i (c.world.boards boardId).log

/--
A board has a console exactly when one connection has claimed it, a connection
that is over has no claim, a console session acts on its own board only, and
the sessions on one board have acted on it one after the other.
-/
theorem sessions_apart
    (h : DaemonReaches clients
      (startDaemon registry serde consoles clients) c) :
    SessionsApart clients c := by
  obtain ⟨v, hkept, hpromises⟩ := h.sessions
  refine ⟨hkept.claims.exclusive, fun i hover => ?_,
    fun i boardId hconsole other e he hof =>
      ((hkept.logged other).own e he i boardId hof hconsole).symm,
    fun i j boardId => (hkept.logged boardId).apart i j boardId⟩
  have hmain := hpromises (i, .main)
  rw [hover] at hmain
  rw [hkept.claims.claim]
  exact hmain rfl

/-- One of two typists has the console. -/
theorem sessions_apart_typing :
    ∃ c : Pool ConnectionSig (fun _ : ConnectionThread Bool => Unit)
        (Daemon Bool), c.world.claim false = some "simulated" ∧
      (c.world.boards "simulated").log ≠ [] ∧
      SessionsApart (typists Bool 0x61) c := by
  obtain ⟨c, hreaches, hclaim, hlog⟩ := typists_reach noSerde 0x61
    (by decide) false
  exact ⟨c, hclaim, by simp [hlog], sessions_apart hreaches⟩

end Runs

end Pact

end RpictlMcp
