import RpictlMcp.System

/-!
# rpictl-mcp: the mutex of the serial writer

`write_console` holds the mutex of the serial writer from its lock on until it
returns, over all its bytes and the pauses between them.  In the runs of the
system the writes of several requests may overlap; here they exclude one another:
the writer can only be locked while no request holds its mutex, and a request
keeps it until the flush or until a byte could not be written.  A lock that is
poisoned and a port that is not open give the mutex back at once.

The runs with the mutex are runs of the system, so that whatever holds in all of
these holds with the mutex as well.  The power worker does not write.
-/

namespace RpictlMcp

open Prog

/-- The shared state, and the request whose thread holds the writer's mutex. -/
structure Guarded (ι : Type) where
  world : World ι
  writer : Option ι

/-- The actions on the serial writer. -/
def BoardOp.isWriting : BoardOp → Bool
  | .lockWriter => true
  | .writeByte _ => true
  | .flush => true
  | _ => false

section WriterMutex

variable {ι : Type}

/-- What an action does to the mutex of the serial writer. -/
def BoardOp.OnWriter (o : BoardOp) (t : Thread ι) (cell : Option ι)
    (r : o.Resp) (cell' : Option ι) : Prop :=
  match t, o, r with
  | (i, .main), .lockWriter, .opened => cell = none ∧ cell' = some i
  | (_, .main), .lockWriter, _ => cell = none ∧ cell' = none
  | (i, .main), .writeByte _, none => cell = some i ∧ cell' = some i
  | (i, .main), .writeByte _, some _ => cell = some i ∧ cell' = none
  | (i, .main), .flush, _ => cell = some i ∧ cell' = none
  | _, _, _ => cell' = cell

theorem BoardOp.onWriter_of_not_writing {o : BoardOp}
    (h : o.isWriting = false) (t : Thread ι) (cell cell' : Option ι)
    (r : o.Resp) : o.OnWriter t cell r cell' ↔ cell' = cell := by
  obtain ⟨i, role⟩ := t
  cases role <;> cases o <;> first | exact Iff.rfl | cases h

/-- A thread takes the mutex from nobody, and gives back only its own. -/
theorem BoardOp.OnWriter.cases {o : BoardOp} {t : Thread ι}
    {cell cell' : Option ι} {r : o.Resp} (h : o.OnWriter t cell r cell') :
    cell' = cell ∨ (cell = none ∧ cell' = some t.1 ∧ t.2 = .main) ∨
      (cell = some t.1 ∧ cell' = none ∧ t.2 = .main) := by
  obtain ⟨i, role⟩ := t
  cases role with
  | worker => cases o <;> exact .inl h
  | main =>
      cases o with
      | lockWriter =>
          cases r with
          | opened => exact .inr (.inl ⟨h.1, h.2, rfl⟩)
          | poisoned => exact .inl (h.2.trans h.1.symm)
          | notOpen => exact .inl (h.2.trans h.1.symm)
      | writeByte byte =>
          cases r with
          | none => exact .inl (h.2.trans h.1.symm)
          | some error => exact .inr (.inr ⟨h.1, h.2, rfl⟩)
      | flush => exact .inr (.inr ⟨h.1, h.2, rfl⟩)
      | _ => exact .inl h

variable [DecidableEq ι]

/-- One action of a thread, where the writers exclude one another. -/
def guardedSem (t : Thread ι) (o : BoardSig.Op) (g : Guarded ι)
    (r : BoardSig.Resp o) (g' : Guarded ι) : Prop :=
  boardSem t o g.world r g'.world ∧
    BoardOp.OnWriter o t g.writer r g'.writer

/-- What the environment does leaves the mutex alone. -/
def guardedEnv (g g' : Guarded ι) : Prop :=
  BoardEnv g.world g'.world ∧ g'.writer = g.writer

/-- An action that does not concern the writer. -/
theorem guardedSem_of_boardSem {t : Thread ι} {o : BoardOp} {r : o.Resp}
    {g : Guarded ι} {w : World ι} (hwriting : o.isWriting = false)
    (h : boardSem t o g.world r w) : guardedSem t o g r ⟨w, g.writer⟩ :=
  ⟨h, (BoardOp.onWriter_of_not_writing hwriting _ _ _ _).mpr rfl⟩

/-- The runs of a pool of threads around a board with one writer at a time. -/
abbrev GuardedReaches {A : Thread ι → Type} :
    Pool BoardSig A (Guarded ι) → Pool BoardSig A (Guarded ι) → Prop :=
  Pool.Reaches guardedSem guardedEnv

/-- The system before the first request is served; nobody writes. -/
def startGuarded (registry : BoardRegistry) (console : Console)
    (reqs : ι → ClientRequest) :
    Pool BoardSig (Answer (ι := ι)) (Guarded ι) :=
  ⟨threadOf registry reqs, .initial console, none⟩

/-- A run with the mutex is a run of the system. -/
theorem GuardedReaches.board {A : Thread ι → Type}
    {c c' : Pool BoardSig A (Guarded ι)} (h : GuardedReaches c c') :
    BoardReaches (c.view Guarded.world) (c'.view Guarded.world) :=
  Pool.Reaches.view Guarded.world (fun _ _ _ _ _ hsem => hsem.1)
    (fun _ _ henv => henv.1) h

end WriterMutex

end RpictlMcp
