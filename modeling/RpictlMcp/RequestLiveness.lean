import RpictlMcp.RequestCompletion
import RpictlMcp.WriterMutex
import RpictlMcp.LeaseDiscipline

/-!
# rpictl-mcp: every request can be finished

From every reachable state of the system in which no other request holds the
mutex of the serial writer the threads of one request alone can finish it, while
all other requests rest, whatever the devices answer: not even another client's
lease keeps it for ever, and nothing that a device does.  A finished request holds
no lease and no mutex and has no worker left to join.

The main thread of a request waits for its own worker and for the mutex only, and
the worker waits for nobody.  Where the main thread is about to join the worker,
the worker is finished first; where the lease is held by another request, the
attempt to acquire it fails.  A request that rests inside `write_console` does
keep the others from writing; so of several requests the one that holds the mutex
is finished first.
-/

namespace RpictlMcp

open Prog

section RequestLiveness

variable {ι : Type}

variable [DecidableEq ι]

/-! ## Actions that are possible -/

omit [DecidableEq ι] in
/-- Every local action has an answer, and a clock a late one. -/
theorem BoardOp.exists_late {o : BoardOp} (h : o.isLocal = true) (T : Nat) :
    ∃ r : o.Resp, BoardOp.late o T r := by
  cases o with
  | instantNow => exact ⟨T, Nat.le_refl T⟩
  | newUuid => exact ⟨"", trivial⟩
  | nowMs => exact ⟨(0 : Nat), trivial⟩
  | lockWriter => exact ⟨WriterLock.opened, trivial⟩
  | readPipe pipe => exact ⟨ReadResult.eof, trivial⟩
  | tryWait => exact ⟨.ok none, trivial⟩
  | _ => first | exact ⟨(), trivial⟩ | exact ⟨none, trivial⟩ | cases h

/-- Actions on neither the lease nor a worker nor the writer are always
possible. -/
theorem exists_boardSem_free {t : Thread ι} {o : BoardOp}
    (h : o.isFree = true) {w : World ι} (ht : w.Alive t) (T : Nat) :
    ∃ r w', BoardOp.late o T r ∧ boardSem t o w r w' := by
  by_cases hlocal : o.isLocal = true
  · obtain ⟨r, hlate⟩ := BoardOp.exists_late hlocal T
    exact ⟨r, _, hlate, boardSem_local hlocal ht r⟩
  · cases o with
    | lockSerial => exact ⟨_, _, trivial, boardSem_look ht⟩
    | markGeneration => exact ⟨_, _, trivial, boardSem_mark ht⟩
    | leaseOwner =>
        refine ⟨w.lease.map Prod.snd, w, trivial, rfl, .readOwner _,
          ⟨w.worker t.1, ?_, by simp⟩, by simp [BoardOp.events]⟩
        obtain ⟨i, role⟩ := t
        cases role with
        | main => rfl
        | worker => exact ⟨ht rfl, rfl⟩
    | workerFinished =>
        refine ⟨false, w, trivial, rfl, rfl, ⟨w.worker t.1, ?_, by simp⟩,
          by simp [BoardOp.events]⟩
        obtain ⟨i, role⟩ := t
        cases role with
        | main => exact ⟨fun hf => absurd hf Bool.false_ne_true, rfl⟩
        | worker => exact ⟨ht rfl, rfl⟩
    | _ => first | exact absurd rfl hlocal | cases h

omit [DecidableEq ι] in
theorem BoardOp.not_writing_of_free {o : BoardOp} (h : o.isFree = true) :
    o.isWriting = false := by
  cases o <;> first | rfl | cases h

theorem exists_guardedSem_free {t : Thread ι} {o : BoardOp}
    (h : o.isFree = true) {g : Guarded ι} (ht : g.world.Alive t) (T : Nat) :
    ∃ r g', BoardOp.late o T r ∧ guardedSem t o g r g' := by
  obtain ⟨r, w, hlate, hsem⟩ := exists_boardSem_free h ht T
  exact ⟨r, _, hlate,
    guardedSem_of_boardSem (BoardOp.not_writing_of_free h) hsem⟩

/-! ## The worker of a request -/

/-- A worker that has finished is known to have. -/
def KnowsFinished (i : ι) (finished : Bool) (w : World ι) : Prop :=
  finished = true →
    (∃ outcome, w.worker i = .finished outcome) ∨ w.worker i = .joined

theorem KnowsFinished.own {i : ι} {o : BoardOp} {finished : Bool}
    {w w' : World ι} {r : o.Resp} (h : KnowsFinished i finished w)
    (hsem : boardSem (i, .worker) o w r w') :
    ∃ finished', workerArena.moves o finished r finished' ∧
      KnowsFinished i finished' w' := by
  obtain ⟨-, -, ⟨s, hs, hworker⟩, -⟩ := hsem
  have hrunning : w.worker i = .running := running_of_onWorker hs
  have hfinished : finished = false := by
    rw [← Bool.not_eq_true]
    intro hfinished
    rcases h hfinished with ⟨outcome, hout⟩ | hjoined
    · simp [hrunning] at hout
    · simp [hrunning] at hjoined
  have hself : w'.worker i = s := by rw [hworker, Function.update_self]
  cases o with
  | finishWorker result =>
      exact ⟨true, rfl, fun _ => .inl ⟨_, hself.trans hs.2⟩⟩
  | _ => exact ⟨finished, rfl, fun hf => absurd hf (by simp [hfinished])⟩

theorem KnowsFinished.other {i : ι} {u : Thread ι} {o : BoardOp}
    {finished : Bool} {w w' : World ι} {r : o.Resp} (hu : u ≠ (i, .worker))
    (h : KnowsFinished i finished w) (hsem : boardSem u o w r w') :
    KnowsFinished i finished w' := by
  obtain ⟨-, -, ⟨s, hs, hworker⟩, -⟩ := hsem
  obtain ⟨j, role⟩ := u
  intro hfinished
  by_cases hij : i = j
  · subst hij
    cases role with
    | worker => exact absurd rfl hu
    | main =>
        rw [hworker, Function.update_self]
        rcases hs.main_cases with rfl | ⟨hidle, -⟩ | ⟨outcome, -, hjoined⟩
        · exact h hfinished
        · have := h hfinished
          simp [hidle] at this
        · exact .inr hjoined
  · rw [hworker, Function.update_of_ne hij]
    exact h hfinished

theorem KnowsFinished.env {i : ι} {finished : Bool} {w w' : World ι}
    (h : KnowsFinished i finished w) (henv : BoardEnv w w') :
    KnowsFinished i finished w' := by
  cases henv with
  | receive => exact h
  | panic j hrunning =>
      intro hfinished
      by_cases hij : i = j
      · subst hij
        exact .inl ⟨.panicked, Function.update_self _ _ _⟩
      · simp only [Function.update_of_ne hij]
        exact h hfinished

/-! ## What a request holds -/

/-- How a worker stands, for the thread that joins it. -/
def WorkerState.helper : WorkerState → Helper
  | .idle => .idle
  | .running => .unjoined
  | .finished _ => .unjoined
  | .joined => .joined

/-- What a request knows to hold is what it holds. -/
structure HeldBy (i : ι) (v : Holdings) (g : Guarded ι) : Prop where
  lease : ∀ owner,
    g.world.lease = some ((i, .main), owner) ↔ v.lease = some owner
  helper : (g.world.worker i).helper = v.helper
  writing : g.writer = some i ↔ v.writing = true

omit [DecidableEq ι] in
/-- A lease that a request has just acquired was free. -/
theorem LeaseSpec.of_acquired {cell cell' : Option (Thread ι × LeaseOwner)}
    {t : Thread ι} {owner : LeaseOwner}
    (h : LeaseSpec cell (.acquired t owner) cell') :
    cell = none ∧ cell' = some (t, owner) := by
  cases h
  exact ⟨rfl, rfl⟩

omit [DecidableEq ι] in
theorem LeaseSpec.of_failed {cell cell' : Option (Thread ι × LeaseOwner)}
    {t : Thread ι} {error : Error}
    (h : LeaseSpec cell (.failed t error) cell') : cell' = cell := by
  cases h
  rfl

omit [DecidableEq ι] in
theorem LeaseSpec.of_drop {cell cell' : Option (Thread ι × LeaseOwner)}
    {t : Thread ι} {owner : LeaseOwner}
    (h : LeaseSpec cell (.drop t owner) cell') :
    cell = some (t, owner) ∧ cell' = none := by
  cases h
  exact ⟨rfl, rfl⟩

omit [DecidableEq ι] in
theorem LeaseSpec.of_readOwner {cell cell' : Option (Thread ι × LeaseOwner)}
    {value : Option LeaseOwner}
    (h : LeaseSpec cell (.readOwner value) cell') : cell' = cell := by
  cases h
  rfl

omit [DecidableEq ι] in
/-- An action that may concern the writer only. -/
theorem HeldBy.writes {i : ι} {v : Holdings} {g g' : Guarded ι}
    (h : HeldBy i v g) (hlease : g'.world.lease = g.world.lease)
    (hworker : g'.world.worker i = g.world.worker i) {writing : Bool}
    (hwriter : g'.writer = some i ↔ writing = true) :
    HeldBy i { v with writing := writing } g' :=
  ⟨fun owner => hlease ▸ h.lease owner, hworker ▸ h.helper, hwriter⟩

omit [DecidableEq ι] in
/-- An action that changes nothing that a request can hold. -/
theorem HeldBy.unchanged {i : ι} {v : Holdings} {g g' : Guarded ι}
    (h : HeldBy i v g) (hlease : g'.world.lease = g.world.lease)
    (hworker : g'.world.worker i = g.world.worker i)
    (hwriter : g'.writer = g.writer) : HeldBy i v g' :=
  h.writes hlease hworker (hwriter ▸ h.writing)

theorem HeldBy.own {i : ι} {o : BoardOp} {v : Holdings} {g g' : Guarded ι}
    {r : o.Resp} (h : HeldBy i v g) (hsem : guardedSem (i, .main) o g r g') :
    ∃ v', BoardOp.onHoldings o v r v' ∧ HeldBy i v' g' := by
  obtain ⟨⟨-, hlease, ⟨s, hs, hworker⟩, -⟩, hwriter⟩ := hsem
  have hself : g'.world.worker i = s := by rw [hworker, Function.update_self]
  have hsame : g'.writer = g.writer → (g'.writer = some i ↔
      v.writing = true) := fun hsame => hsame ▸ h.writing
  cases o with
  | acquireLease owner timeoutMs =>
      cases r with
      | none =>
          obtain ⟨hfree, hheld⟩ := LeaseSpec.of_acquired hlease
          refine ⟨{ v with lease := some owner }, ⟨?_, rfl⟩, ?_, ?_,
            hsame hwriter⟩
          · rw [Option.eq_none_iff_forall_ne_some]
            intro other hother
            rw [← h.lease, hfree] at hother
            cases hother
          · simp [hheld]
          · rw [hself, hs]
            exact h.helper
      | some heldBy =>
          exact ⟨v, rfl, h.unchanged (LeaseSpec.of_failed hlease)
            (hself.trans hs) hwriter⟩
  | releaseLease owner =>
      obtain ⟨-, hfree⟩ := LeaseSpec.of_drop hlease
      refine ⟨{ v with lease := none }, rfl, by simp [hfree], ?_,
        hsame hwriter⟩
      rw [hself, hs]
      exact h.helper
  | spawnWorker =>
      refine ⟨{ v with helper := .unjoined }, rfl, ?_, ?_, hsame hwriter⟩
      · rw [hlease]
        exact h.lease
      · rw [hself, hs.2]
        rfl
  | joinWorker =>
      refine ⟨{ v with helper := .joined }, rfl, ?_, ?_, hsame hwriter⟩
      · rw [hlease]
        exact h.lease
      · rw [hself, hs.2]
        rfl
  | lockWriter =>
      cases r with
      | opened =>
          exact ⟨_, rfl, h.writes hlease (hself.trans hs)
            (by simp [hwriter.2])⟩
      | poisoned =>
          exact ⟨v, rfl, h.unchanged hlease (hself.trans hs)
            (hwriter.2.trans hwriter.1.symm)⟩
      | notOpen =>
          exact ⟨v, rfl, h.unchanged hlease (hself.trans hs)
            (hwriter.2.trans hwriter.1.symm)⟩
  | writeByte byte =>
      cases r with
      | none =>
          exact ⟨v, rfl, h.unchanged hlease (hself.trans hs)
            (hwriter.2.trans hwriter.1.symm)⟩
      | some error =>
          exact ⟨_, rfl, h.writes hlease (hself.trans hs)
            (by simp [hwriter.2])⟩
  | flush =>
      exact ⟨_, rfl, h.writes hlease (hself.trans hs)
        (by simp [hwriter.2])⟩
  | leaseOwner =>
      exact ⟨v, rfl, h.unchanged (LeaseSpec.of_readOwner hlease)
        (hself.trans hs) hwriter⟩
  | workerFinished =>
      exact ⟨v, rfl, h.unchanged hlease (hself.trans hs.2) hwriter⟩
  | _ => exact ⟨v, rfl, h.unchanged hlease (hself.trans hs) hwriter⟩

theorem HeldBy.other {i : ι} {u : Thread ι} {o : BoardOp} {v : Holdings}
    {g g' : Guarded ι} {r : o.Resp} (hu : u ≠ (i, .main)) (h : HeldBy i v g)
    (hsem : guardedSem u o g r g') : HeldBy i v g' := by
  obtain ⟨⟨-, hlease, ⟨s, hs, hworker⟩, -⟩, hwriter⟩ := hsem
  constructor
  · intro owner
    rw [← h.lease]
    rcases hlease.cases g'.world.console with ⟨hsame, -⟩ |
      ⟨other, hfree, hheld, -⟩ | ⟨other, hheld, hfree, -⟩
    · rw [hsame]
    · simp [hfree, hheld, hu]
    · simp [hfree, hheld, hu]
  · rw [← h.helper]
    obtain ⟨j, role⟩ := u
    by_cases hij : i = j
    · subst hij
      cases role with
      | main => exact absurd rfl hu
      | worker =>
          rw [hworker, Function.update_self, running_of_onWorker hs]
          cases o with
          | finishWorker result => rw [hs.2]; rfl
          | _ => rw [hs.2, running_of_onWorker hs]
    · rw [hworker, Function.update_of_ne hij]
  · rw [← h.writing]
    have hmain : u.2 = .main → u.1 ≠ i :=
      fun hrole hi => hu (Prod.ext hi hrole)
    rcases hwriter.cases with hsame | ⟨hfree, hheld, hrole⟩ |
      ⟨hheld, hfree, hrole⟩
    · rw [hsame]
    · simp [hfree, hheld, hmain hrole]
    · simp [hfree, hheld, hmain hrole]

theorem HeldBy.env {i : ι} {v : Holdings} {g g' : Guarded ι}
    (h : HeldBy i v g) (henv : guardedEnv g g') : HeldBy i v g' := by
  obtain ⟨w, writer⟩ := g
  obtain ⟨w', writer'⟩ := g'
  obtain ⟨henv, hwriter⟩ := henv
  obtain rfl : writer' = writer := hwriter
  dsimp only at henv
  cases henv with
  | receive => exact ⟨h.lease, h.helper, h.writing⟩
  | panic j hrunning =>
      refine ⟨h.lease, ?_, h.writing⟩
      rw [← h.helper]
      by_cases hij : i = j
      · subst hij
        simp [hrunning, WorkerState.helper]
      · simp [Function.update_of_ne hij]

/-! ## Playing the game -/

/-- An attempt to acquire the lease succeeds, or names the holder. -/
theorem exists_boardSem_acquire (i : ι) (owner : LeaseOwner)
    (timeoutMs : Nat) (w : World ι) :
    ∃ r w', boardSem (i, .main) (.acquireLease owner timeoutMs) w r w' := by
  cases hcell : w.lease with
  | none => exact ⟨_, _, boardSem_acquire i owner timeoutMs hcell⟩
  | some held =>
      refine ⟨some held.2.operationId, w, rfl, ?_, ⟨_, rfl, by simp⟩, by
        simp [BoardOp.events]⟩
      rw [hcell]
      exact .failed _ held.1 held.2

/-- No other request holds the mutex of the serial writer. -/
def OnlyWriter (i : ι) (g : Guarded ι) : Prop :=
  ∀ j, g.writer = some j → j = i

/-- The threads of a request give the mutex to no other one. -/
theorem OnlyWriter.own {i : ι} {t : Thread ι} {o : BoardOp} {g g' : Guarded ι}
    {r : o.Resp} (h : OnlyWriter i g) (ht : t.1 = i)
    (hsem : guardedSem t o g r g') : OnlyWriter i g' := by
  intro j hj
  rcases hsem.2.cases with hsame | ⟨-, hheld, -⟩ | ⟨-, hfree, -⟩
  · exact h j (hsame ▸ hj)
  · rw [hheld] at hj
    exact (Option.some.inj hj).symm.trans ht
  · rw [hfree] at hj
    cases hj

/-- The actions that the main thread can perform, once its worker is done and
no other request writes. -/
theorem exists_guardedSem_main {i : ι} {hasBoard : Prop} {o : BoardOp}
    {v : Holdings} {g : Guarded ι} (h : HeldBy i v g)
    (honly : OnlyWriter i g) (hable : (mainArena hasBoard).able o v)
    (hjoin : o = .joinWorker →
      ∃ outcome, g.world.worker i = .finished outcome) (T : Nat) :
    ∃ r g', BoardOp.late o T r ∧ guardedSem (i, .main) o g r g' := by
  cases o with
  | acquireLease owner timeoutMs =>
      obtain ⟨r, w, hsem⟩ :=
        exists_boardSem_acquire i owner timeoutMs g.world
      exact ⟨r, _, trivial, guardedSem_of_boardSem rfl hsem⟩
  | releaseLease owner =>
      exact ⟨_, _, trivial, guardedSem_of_boardSem rfl
        (boardSem_release i owner ((h.lease owner).mpr hable))⟩
  | spawnWorker =>
      have hidle : g.world.worker i = .idle := by
        have hhelper := h.helper
        rw [show v.helper = .idle from hable] at hhelper
        cases hworker : g.world.worker i <;>
          simp [hworker, WorkerState.helper] at hhelper ⊢
      exact ⟨_, _, trivial, guardedSem_of_boardSem rfl
        (boardSem_spawn hidle)⟩
  | joinWorker =>
      obtain ⟨outcome, hfinished⟩ := hjoin rfl
      exact ⟨_, _, trivial, guardedSem_of_boardSem rfl
        (boardSem_join hfinished)⟩
  | finishWorker result => cases hable
  | lockWriter =>
      have hfree : g.writer = none := by
        rw [Option.eq_none_iff_forall_ne_some]
        intro j hj
        obtain rfl := honly j hj
        have hwriting := h.writing.mp hj
        rw [show v.writing = false from hable] at hwriting
        cases hwriting
      exact ⟨WriterLock.opened, ⟨_, some i⟩, trivial,
        boardSem_local (o := .lockWriter) rfl (alive_main i) _, hfree, rfl⟩
  | writeByte byte =>
      have hheld : g.writer = some i := h.writing.mpr hable
      exact ⟨(none : Option Text), ⟨_, some i⟩, trivial,
        boardSem_local (o := .writeByte byte) rfl (alive_main i) _, hheld, rfl⟩
  | flush =>
      have hheld : g.writer = some i := h.writing.mpr hable
      exact ⟨(none : Option Text), ⟨_, none⟩, trivial,
        boardSem_local (o := .flush) rfl (alive_main i) _, hheld, rfl⟩
  | _ => exact exists_guardedSem_free rfl (alive_main i) T

/-- A worker that works, or has finished. -/
def Working (i : ι) : Bool → World ι → Prop
  | false, w => w.worker i = .running
  | true, w => ∃ outcome, w.worker i = .finished outcome

theorem exists_guardedSem_worker {i : ι} {o : BoardOp} {finished : Bool}
    {g : Guarded ι} (h : Working i finished g.world)
    (hable : workerArena.able o finished) (T : Nat) :
    ∃ r g', BoardOp.late o T r ∧ guardedSem (i, .worker) o g r g' := by
  obtain ⟨rfl, hkind⟩ := hable
  have hrunning : g.world.worker i = .running := h
  cases o with
  | finishWorker result =>
      exact ⟨_, _, trivial, guardedSem_of_boardSem rfl
        (boardSem_finish hrunning result)⟩
  | _ => exact exists_guardedSem_free hkind (fun _ => hrunning) T

theorem Working.own {i : ι} {o : BoardOp} {finished : Bool}
    {w w' : World ι} {r : o.Resp} (h : Working i finished w)
    (hable : workerArena.able o finished)
    (hsem : boardSem (i, .worker) o w r w') :
    ∃ finished', workerArena.moves o finished r finished' ∧
      Working i finished' w' := by
  obtain ⟨rfl, -⟩ := hable
  obtain ⟨-, -, ⟨s, hs, hworker⟩, -⟩ := hsem
  have hself : w'.worker i = s := by rw [hworker, Function.update_self]
  cases o with
  | finishWorker result => exact ⟨true, rfl, _, hself.trans hs.2⟩
  | _ => exact ⟨false, rfl, hself.trans (hs.2.trans h)⟩

section Game

variable {A : Thread ι → Type} {i : ι} {c : Pool BoardSig A (Guarded ι)}

/-- The worker of a request that a thread may wait for. -/
def WorkerLives (i : ι) (c : Pool BoardSig A (Guarded ι)) : Prop :=
  ∃ finished, workerArena.lives (c.prog (i, .worker))
      (fun _ finished => finished = true) finished ∧
    KnowsFinished i finished c.world.world

/-- The threads of a request move, those of all others rest. -/
abbrev RequestForced (i : ι) (goal : Pool BoardSig A (Guarded ι) → Prop) :
    Pool BoardSig A (Guarded ι) → Prop :=
  Pool.Forced guardedSem BoardOp.late (fun t => t.1 = i) goal

/-- A running worker is forced to its end. -/
theorem worker_forced {v : Holdings}
    (hrunning : c.world.world.worker i = .running)
    (hworker : WorkerLives i c) (hheld : HeldBy i v c.world)
    (honly : OnlyWriter i c.world) :
    RequestForced i (fun d => WorkerLives i d ∧ HeldBy i v d.world ∧
      OnlyWriter i d.world ∧ d.prog (i, .main) = c.prog (i, .main) ∧
      ∃ outcome, d.world.world.worker i = .finished outcome) c := by
  obtain ⟨finished, hlives, hknows⟩ := hworker
  have hfinished : finished = false := by
    rw [← Bool.not_eq_true]
    intro hfinished
    have := hknows hfinished
    simp [hrunning] at this
  subst hfinished
  have hmine : (fun t : Thread ι => t.1 = i) (i, .worker) := rfl
  refine Pool.forced_of_leaves (a := workerArena)
    (fun finished (g : Guarded ι) => Working i finished g.world)
    (fun d => HeldBy i v d.world ∧ OnlyWriter i d.world ∧
      d.prog (i, .main) = c.prog (i, .main)) hmine ?_ ?_ ?_
    (Arena.leaves_of_lives hlives) (bind_pure _).symm ⟨hheld, honly, rfl⟩
    hrunning ?_
  · intro d finished o next hK hsees hable hprog
    exact .done ⟨hK, hsees, hprog, exists_guardedSem_worker hsees hable⟩
  · intro d finished o next r g hK hsees hable hprog hsem
    obtain ⟨finished', hmoves, hsees'⟩ := hsees.own hable hsem.1
    refine ⟨finished', hmoves, hsees', hK.1.other (by simp) hsem,
      hK.2.1.own rfl hsem, ?_⟩
    rw [Pool.move_prog_of_ne _ _ _ (by simp)]
    exact hK.2.2
  · intro d p hK
    refine ⟨hK.1, hK.2.1, ?_⟩
    rw [Pool.move_prog_of_ne _ _ _ (by simp)]
    exact hK.2.2
  · rintro x _ d rfl ⟨hheld, honly, hsame⟩ hsees hprog
    refine .done ⟨⟨true, ?_, fun _ => .inl hsees⟩, hheld, honly, hsame, hsees⟩
    rw [hprog]
    rfl

/-- The worker of a request goes on living while the main thread moves. -/
theorem WorkerLives.move (h : WorkerLives i c)
    {p : Prog BoardSig (A (i, .main))} {g : Guarded ι}
    (hknows : ∀ finished, KnowsFinished i finished c.world.world →
      KnowsFinished i finished g.world) :
    WorkerLives i (c.move (i, .main) p g) := by
  obtain ⟨finished, hlives, hfinished⟩ := h
  refine ⟨finished, ?_, hknows finished hfinished⟩
  rw [Pool.move_prog_of_ne _ _ _ (by simp)]
  exact hlives

/-- A request that has been answered and has returned what it took. -/
structure Finished (i : ι) (c : Pool BoardSig A (Guarded ι)) : Prop where
  answered : ∃ answer, c.prog (i, .main) = .pure answer
  lease : c.world.world.holder ≠ some (i, .main)
  worker : (c.world.world.worker i).unjoined = false
  writer : c.world.writer ≠ some i

omit [DecidableEq ι] in
theorem Finished.of_returned {v : Holdings} {answer : A (i, .main)}
    (hprog : c.prog (i, .main) = .pure answer) (hv : v.Returned)
    (hheld : HeldBy i v c.world) : Finished i c where
  answered := ⟨answer, hprog⟩
  lease := by
    intro hholder
    obtain ⟨⟨t, owner⟩, hlease, rfl⟩ := Option.map_eq_some_iff.mp hholder
    have hown := (hheld.lease owner).mp hlease
    rw [hv.lease] at hown
    cases hown
  worker := by
    have hhelper := hv.helper
    rw [← hheld.helper] at hhelper
    cases hworker : c.world.world.worker i <;>
      simp [hworker, WorkerState.helper, WorkerState.unjoined] at hhelper ⊢
  writer := by
    intro hwriter
    have hwriting := hheld.writing.mp hwriter
    rw [show v.writing = false from hv.quiet] at hwriting
    cases hwriting

/-- A request is finished, and nobody holds the mutex of the serial writer. -/
def FinishedFree (i : ι) (c : Pool BoardSig A (Guarded ι)) : Prop :=
  Finished i c ∧ c.world.writer = none

/-- A request that lives can be finished while no other one writes. -/
theorem main_forced {hasBoard : Prop} {v : Holdings}
    (hlives : (mainArena hasBoard).lives (c.prog (i, .main))
      (fun _ v => v.Returned) v)
    (hheld : HeldBy i v c.world) (hworker : hasBoard → WorkerLives i c)
    (honly : OnlyWriter i c.world) : RequestForced i (FinishedFree i) c := by
  have hmine : (fun t : Thread ι => t.1 = i) (i, .main) := rfl
  refine Pool.forced_of_leaves (a := mainArena hasBoard) (HeldBy i)
    (fun d => (hasBoard → WorkerLives i d) ∧ OnlyWriter i d.world) hmine
    ?_ ?_ ?_ (Arena.leaves_of_lives hlives) (bind_pure _).symm
    ⟨hworker, honly⟩ hheld ?_
  · rintro d v o next ⟨hworker, honly⟩ hsees hable hprog
    by_cases hwait : o = .joinWorker ∧ d.world.world.worker i = .running
    · obtain ⟨rfl, hrunning⟩ := hwait
      refine (worker_forced hrunning (hworker hable.2) hsees honly).trans ?_
      rintro e ⟨hlives, hheld, honly, hsame, hfinished⟩
      exact .done ⟨⟨fun _ => hlives, honly⟩, hheld, hsame.trans hprog,
        exists_guardedSem_main hheld honly hable fun _ => hfinished⟩
    · refine .done ⟨⟨hworker, honly⟩, hsees, hprog,
        exists_guardedSem_main hsees honly hable ?_⟩
      rintro rfl
      have hhelper := hsees.helper
      rw [hable.1] at hhelper
      cases hstate : d.world.world.worker i with
      | finished outcome => exact ⟨outcome, rfl⟩
      | running => exact absurd ⟨rfl, hstate⟩ hwait
      | idle => simp [hstate, WorkerState.helper] at hhelper
      | joined => simp [hstate, WorkerState.helper] at hhelper
  · rintro d v o next r g ⟨hworker, honly⟩ hsees hable hprog hsem
    obtain ⟨v', hmoves, hsees'⟩ := hsees.own hsem
    exact ⟨v', hmoves, hsees', fun hboard => (hworker hboard).move
      fun _ hknows => hknows.other (by simp) hsem.1, honly.own rfl hsem⟩
  · rintro d p ⟨hworker, honly⟩
    exact ⟨fun hboard => (hworker hboard).move fun _ hknows => hknows, honly⟩
  · rintro x v d hv ⟨-, honly⟩ hsees hprog
    have hfinished := Finished.of_returned hprog hv hsees
    refine .done ⟨hfinished, Option.eq_none_iff_forall_ne_some.mpr ?_⟩
    intro j hj
    obtain rfl := honly j hj
    exact hfinished.writer hj

end Game

/-! ## The service -/

variable {registry : BoardRegistry} {console : Console}
variable {reqs : ι → ClientRequest}
variable {c : Pool BoardSig (Answer (ι := ι)) (Guarded ι)}

/-- In every reachable state the worker of a configured board lives. -/
theorem GuardedReaches.workerLives
    (h : GuardedReaches (startGuarded registry console reqs) c) {i : ι}
    (hboard : Configured registry (reqs i)) : WorkerLives i c := by
  obtain ⟨profile, hprofile⟩ := hboard
  have hprog : (startGuarded registry console reqs).prog (i, .worker) =
      powerWorker profile := by
    simp only [startGuarded, threadOf, workerOf, hprofile]
  have hinit : KnowsFinished i false
      (startGuarded registry console reqs).world.world := fun h => by cases h
  have hown : ∀ o finished (g : Guarded ι) r g',
      KnowsFinished i finished g.world → guardedSem (i, .worker) o g r g' →
      ∃ finished', workerArena.moves o finished r finished' ∧
        KnowsFinished i finished' g'.world :=
    fun _ _ _ _ _ hknows hsem => hknows.own hsem.1
  obtain ⟨finished, hexec, hknows⟩ := Pool.Reaches.project h (i, .worker) hown
    (fun _ _ _ _ _ _ hu hknows hsem => hknows.other hu hsem.1)
    (fun _ _ _ hknows henv => hknows.env henv.1) hinit
  rw [hprog] at hexec
  exact ⟨finished, Arena.lives_exec hexec (powerWorker_lives profile), hknows⟩

/--
From every reachable state in which no other request holds the mutex of the
serial writer the threads of a request can finish it, while all others rest.
-/
theorem GuardedReaches.forced
    (h : GuardedReaches (startGuarded registry console reqs) c) {i : ι}
    (honly : OnlyWriter i c.world) : RequestForced i (FinishedFree i) c := by
  have hinit : HeldBy i .none (startGuarded registry console reqs).world :=
    ⟨by simp [startGuarded, World.initial, Holdings.none], rfl,
      by simp [startGuarded, Holdings.none]⟩
  have hown : ∀ o v (g : Guarded ι) r g', HeldBy i v g →
      guardedSem (i, .main) o g r g' →
      ∃ v', BoardOp.onHoldings o v r v' ∧ HeldBy i v' g' :=
    fun _ _ _ _ _ hheld => hheld.own
  obtain ⟨v, hexec, hheld⟩ := Pool.Reaches.project h (i, .main) hown
    (fun _ _ _ _ _ _ hu hheld => hheld.other hu)
    (fun _ _ _ hheld => hheld.env) hinit
  exact main_forced (Arena.lives_exec (a := mainArena _) hexec
    (serve_tidy (reqs i))) hheld h.workerLives honly

/-- A finished request stays finished while others move. -/
theorem Finished.move {A : Thread ι → Type} {d : Pool BoardSig A (Guarded ι)}
    {j : ι} {t : Thread ι} {p : Prog BoardSig (A t)} {g : Guarded ι}
    (h : Finished j d) (ht : t.1 ≠ j)
    (hstep : Prog.Step (guardedSem t) (d.prog t, d.world) (p, g)) :
    Finished j (d.move t p g) := by
  have hne : (j, Role.main) ≠ t := by
    rintro rfl
    exact ht rfl
  refine ⟨?_, ?_, ?_, ?_⟩
  · rw [Pool.move_prog_of_ne _ _ _ hne]
    exact h.answered
  · rw [Pool.move_world]
    generalize d.prog t = q at hstep
    cases hstep with
    | enter => exact h.lease
    | op hsem =>
        rcases hsem.1.2.1.cases g.world.console with ⟨hsame, -⟩ |
          ⟨owner, -, hheld, -⟩ | ⟨owner, -, hfree, -⟩
        · rw [World.holder, hsame]
          exact h.lease
        · simpa [World.holder, hheld] using hne.symm
        · simp [World.holder, hfree]
  · rw [Pool.move_world]
    generalize d.prog t = q at hstep
    cases hstep with
    | enter => exact h.worker
    | op hsem =>
        obtain ⟨-, -, ⟨s, -, hworker⟩, -⟩ := hsem.1
        rw [hworker, Function.update_of_ne ht.symm]
        exact h.worker
  · rw [Pool.move_world]
    generalize d.prog t = q at hstep
    cases hstep with
    | enter => exact h.writer
    | op hsem =>
        rcases hsem.2.cases with hsame | ⟨-, hheld, -⟩ | ⟨-, hfree, -⟩
        · rw [hsame]
          exact h.writer
        · simpa [hheld] using ht
        · simp [hfree]

/-- Clients whose requests are finished, in a reachable state in which nobody
holds the mutex of the serial writer. -/
structure AllFinished (registry : BoardRegistry) (console : Console)
    (reqs : ι → ClientRequest) (clients : List ι)
    (c : Pool BoardSig (Answer (ι := ι)) (Guarded ι)) : Prop where
  finished : ∀ i ∈ clients, Finished i c
  reached : GuardedReaches (startGuarded registry console reqs) c
  free : c.world.writer = none

/-- What a request comes to is reachable. -/
theorem GuardedReaches.forced_reached
    (h : GuardedReaches (startGuarded registry console reqs) c) {i : ι}
    (honly : OnlyWriter i c.world) :
    RequestForced i (fun d => FinishedFree i d ∧
      GuardedReaches (startGuarded registry console reqs) d) c :=
  (h.forced honly).keeps (GuardedReaches (startGuarded registry console reqs))
    (fun _ t _ _ _ hstep hd => hd.tail (.thread t hstep)) h

/-- One more request is finished. -/
theorem AllFinished.cons {clients : List ι}
    (h : AllFinished registry console reqs clients c) (i : ι) :
    RequestForced i (AllFinished registry console reqs (i :: clients)) c := by
  have honly : OnlyWriter i c.world := by
    intro j hj
    rw [h.free] at hj
    cases hj
  by_cases hi : i ∈ clients
  · exact .done ⟨List.forall_mem_cons.mpr ⟨h.finished i hi, h.finished⟩,
      h.reached, h.free⟩
  · refine ((h.reached.forced_reached honly).keeps
      (fun d => ∀ j ∈ clients, Finished j d) ?_ h.finished).trans ?_
    · intro d t p g ht hstep hd j hj
      refine (hd j hj).move ?_ hstep
      rintro rfl
      exact hi (ht ▸ hj)
    · rintro d ⟨⟨⟨hfinished, hfree⟩, hreached⟩, hd⟩
      exact .done ⟨List.forall_mem_cons.mpr ⟨hfinished, hd⟩, hreached, hfree⟩

theorem allFinished_forced
    (h : GuardedReaches (startGuarded registry console reqs) c)
    (hfree : c.world.writer = none) (clients : List ι) :
    Pool.Forced guardedSem BoardOp.late (fun t => t.1 ∈ clients)
      (AllFinished registry console reqs clients) c := by
  induction clients with
  | nil => exact .done ⟨by simp, h, hfree⟩
  | cons i clients ih =>
      refine (ih.mono fun t ht => List.mem_cons_of_mem i ht).trans ?_
      intro d hd
      refine (hd.cons i).mono fun t ht => ?_
      rw [show t.1 = i from ht]
      exact List.mem_cons_self

/-- The request that holds the mutex of the serial writer gives it back. -/
theorem writer_forced
    (h : GuardedReaches (startGuarded registry console reqs) c)
    {clients : List ι} (hwriter : ∀ i, c.world.writer = some i → i ∈ clients) :
    Pool.Forced guardedSem BoardOp.late (fun t => t.1 ∈ clients)
      (fun d => GuardedReaches (startGuarded registry console reqs) d ∧
        d.world.writer = none) c := by
  cases hheld : c.world.writer with
  | none => exact .done ⟨h, hheld⟩
  | some i =>
      have honly : OnlyWriter i c.world := by
        intro j hj
        exact Option.some.inj (hj.symm.trans hheld)
      refine ((h.forced_reached honly).mono fun t ht => ?_).trans ?_
      · rw [show t.1 = i from ht]
        exact hwriter i hheld
      · rintro d ⟨⟨-, hfree⟩, hreached⟩
        exact .done ⟨hreached, hfree⟩

/--
From every reachable state the threads of some requests can finish these, while
all other requests rest, unless one of those rests inside `write_console`;
whatever the devices answer.  What they come to is a state of the system.
-/
theorem requests_finish
    (h : GuardedReaches (startGuarded registry console reqs) c)
    (clients : List ι)
    (hwriter : ∀ i, c.world.writer = some i → i ∈ clients) :
    Pool.Forced guardedSem BoardOp.late (fun t => t.1 ∈ clients)
      (fun d => (∀ i ∈ clients, Finished i d) ∧
        BoardReaches (start registry console reqs) (d.view Guarded.world))
      c := by
  refine (writer_forced h hwriter).trans ?_
  rintro d ⟨hreached, hfree⟩
  exact (allFinished_forced hreached hfree clients).trans
    fun _ hd => .done ⟨hd.finished, hd.reached.board⟩

end RequestLiveness

section Resting

variable {ι : Type} [DecidableEq ι]

/-- An action that leaves the writer alone, in a run with the mutex. -/
theorem guarded_performs {t : Thread ι} {o : BoardOp} {r : o.Resp}
    {g : Guarded ι} {w : World ι} (hwriting : o.isWriting = false)
    (h : boardSem t o g.world r w) :
    Returns (afterEnv guardedSem guardedEnv t) (ask o) g r ⟨w, g.writer⟩ :=
  Returns.perform ⟨g, .refl, guardedSem_of_boardSem hwriting h⟩

/-- A console session comes to hold the lease. -/
theorem typing_holds (i : ι) (byte : UInt8) {g : Guarded ι}
    (hfree : g.world.lease = none) :
    Visits (afterEnv guardedSem guardedEnv (i, .main))
      (serve simulatedRegistry (.consoleInput "simulated" byte)) g
      ⟨g.world.acquireBy (i, .main) typingOwner, g.writer⟩ := by
  refine Visits.map ?_ _
  simp only [forwardConsoleInput, simulatedRegistry_board]
  refine Returns.bind_visits (guarded_performs (o := .newUuid) rfl
    (boardSem_quiet (r := "") rfl (alive_main i) rfl)) ?_
  exact Visits.bind (guarded_performs rfl
    (boardSem_acquire i typingOwner 0 hfree)).visits _

/-- A probe comes to hold the mutex of the serial writer. -/
theorem probe_locks (i : ι) {g : Guarded ι} (hfree : g.writer = none) :
    Visits (afterEnv guardedSem guardedEnv (i, .main))
      (serve simulatedRegistry
        (.rpc (.getBoardState ⟨"simulated", none, some true⟩))) g
      ⟨g.world.look (i, .main), some i⟩ := by
  have hlookup : Returns (afterEnv guardedSem guardedEnv (i, .main))
      (ofResult (simulatedRegistry.board "simulated")).run g (.ok simulated)
        g := by
    rw [simulatedRegistry_board]
    exact Returns.pure _ _
  have hcursor : Returns (afterEnv guardedSem guardedEnv (i, .main))
      nextCursor.run g (.ok g.world.console.ring.nextCursor)
        ⟨g.world.look (i, .main), g.writer⟩ :=
    Returns.bind (Returns.bind (guarded_performs rfl
      (boardSem_look (alive_main i))) (Returns.pure _ _)) (Returns.pure _ _)
  refine Visits.map ?_ _
  rw [handleRpc, ExceptT.run_map]
  refine Visits.map ?_ _
  refine Returns.bind_visits hlookup ?_
  refine Returns.bind_visits hcursor ?_
  refine Visits.bind (Visits.bind (Visits.bind (Returns.visits
    (a := WriterLock.opened) (Returns.perform ⟨_, .refl, ?_, hfree, rfl⟩)) _)
    _) _
  exact boardSem_quiet rfl (alive_main i) rfl

end Resting

/-- One client types, one probes the board, and one switches it off. -/
def offWhileProbing : Fin 3 → ClientRequest
  | 0 => .consoleInput "simulated" 0x61
  | 1 => .rpc (.getBoardState ⟨"simulated", none, some true⟩)
  | 2 => .power "off simulated"

/-- The client that types rests while it holds the lease; the one that probes
holds the mutex of the serial writer. -/
theorem requests_finish_probing :
    ∃ c, c.world.world.holder = some (0, .main) ∧ c.world.writer = some 1 ∧
      Pool.Forced guardedSem BoardOp.late (fun t => t.1 ∈ [1, 2])
        (fun d => (∀ i ∈ [1, 2], Finished i d) ∧
          BoardReaches
            (start simulatedRegistry simulatedConsole offWhileProbing)
            (d.view Guarded.world))
        (c : Pool BoardSig (Answer (ι := Fin 3)) (Guarded (Fin 3))) := by
  obtain ⟨p, htyping⟩ := typing_holds (0 : Fin 3) 0x61
    (g := ⟨World.initial simulatedConsole, none⟩) rfl
  have hheld := Pool.reaches_of_exec
    (c := startGuarded simulatedRegistry simulatedConsole offWhileProbing)
    htyping
  obtain ⟨q, hprobing⟩ := probe_locks (1 : Fin 3)
    (g := ⟨(World.initial simulatedConsole).acquireBy (0, .main) typingOwner,
      none⟩) rfl
  have hlocked := Pool.reaches_of_exec
    (c := (startGuarded simulatedRegistry simulatedConsole
      offWhileProbing).move (0, .main) p _) hprobing
  refine ⟨_, rfl, rfl, requests_finish (hheld.trans hlocked) [1, 2] ?_⟩
  intro i hi
  obtain rfl := Option.some.inj hi
  exact List.mem_cons_self

end RpictlMcp
