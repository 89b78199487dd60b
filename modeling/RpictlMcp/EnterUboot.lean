import RpictlMcp.LeaseTenure

/-!
# rpictl-mcp: the state that `enter_uboot` acts on

The tool observes the state of the board, chooses by it what to type, and only
then asks for the lease.  While it waits another request may boot or reset the
board; the choice is not revised.  So what is typed belongs to the state at the
moment of the acquisition exactly when the console shows, at that moment, the
state that it has shown when the choice was made.  The bytes on the wire tell as
much once the whole input has been written, unless the configured interrupt is
the beginning of another input or continues one.
-/

namespace RpictlMcp

open Prog

/-- What `enter_uboot` types first, by the state that it has observed. -/
def entryInput (profile : BoardProfile) (restart : String) :
    BoardState → Option (List UInt8)
  | .ubootPrompt =>
      some (if restart = "always" then utf8 "reset\r" else utf8 "\r")
  | .ubootCountdown => some (utf8 profile.uboot.interrupt)
  | .linuxShell => if restart = "never" then none else some (utf8 "reboot\r")
  | _ => none

/-- The bytes that a trace writes. -/
def writtenBytes (t : List Event) : List UInt8 :=
  (written t).map Prod.fst

@[simp] theorem writtenBytes_append (s t : List Event) :
    writtenBytes (s ++ t) = writtenBytes s ++ writtenBytes t := by
  simp [writtenBytes]

/-- What every permitted write establishes, and every other event keeps, holds
of each log that has written something. -/
theorem within_of_lawful {allowed : List Event → Event → Prop}
    (within : List Event → Prop) {log : List Event} (h : Lawful allowed log)
    (hwrite : ∀ log byte error, allowed log (.wrote byte error) →
      within (log ++ [.wrote byte error]))
    (hkeep : ∀ log e, within log → writtenBytes [e] = [] →
      within (log ++ [e]))
    (hwrote : writtenBytes log ≠ []) : within log := by
  induction log using List.reverseRecOn with
  | nil => exact absurd rfl hwrote
  | append_singleton log e ih =>
      have hlog : Lawful allowed log := by
        intro before x after hx
        exact h before x (after ++ [e]) (by simp [hx])
      have he : allowed log e := h log e [] rfl
      by_cases hsilent : writtenBytes [e] = []
      · rw [writtenBytes_append, hsilent, List.append_nil] at hwrote
        exact hkeep log e (ih hlog hwrote) hsilent
      · cases e with
        | wrote byte error => exact hwrite log byte error he
        | _ => exact absurd rfl hsilent

/-- A log that begins with an observation of a state and the acquisition. -/
def Entering (profile : BoardProfile) (state : BoardState)
    (log rest : List Event) : Prop :=
  ∃ seen owner, log = .looked seen :: .acquired owner :: rest ∧
    generationState profile seen.ring = state

/--
What the request has written belongs to a state: it is the beginning of the
input for that state, or that input and more.
-/
def ChosenFor (profile : BoardProfile) (restart : String)
    (state : BoardState) (log : List Event) : Prop :=
  ∃ rest input, Entering profile state log rest ∧
    entryInput profile restart state = some input ∧
    (writtenBytes rest <+: input ∨ input <+: writtenBytes rest)

/-- Written bytes that belong to a state: the beginning of its input, or that
input and more. -/
def WritesFor (profile : BoardProfile) (restart : String)
    (state : BoardState) (bytes : List UInt8) : Prop :=
  ∃ input, entryInput profile restart state = some input ∧
    (bytes <+: input ∨ input <+: bytes)

/-- No state's input is the beginning of another state's. -/
def EntriesApart (profile : BoardProfile) (restart : String) : Prop :=
  ∀ state state' input input', entryInput profile restart state = some input →
    entryInput profile restart state' = some input' → input <+: input' →
      state = state'

/-- Bytes that begin with the whole input of a state belong to no other. -/
theorem EntriesApart.writesFor_iff {profile : BoardProfile} {restart : String}
    (h : EntriesApart profile restart) {state state' : BoardState}
    {input bytes : List UInt8}
    (hinput : entryInput profile restart state = some input)
    (hwhole : input <+: bytes) :
    WritesFor profile restart state' bytes ↔ state' = state := by
  constructor
  · rintro ⟨input', hinput', hprefix | hprefix⟩
    · exact (h _ _ _ _ hinput hinput' (hwhole.trans hprefix)).symm
    · rcases List.prefix_or_prefix_of_prefix hwhole hprefix with hle | hle
      · exact (h _ _ _ _ hinput hinput' hle).symm
      · exact h _ _ _ _ hinput' hinput hle
  · rintro rfl
    exact ⟨input, hinput, .inr hwhole⟩

section EntryTrace

variable {profile : BoardProfile} {restart : String} {state : BoardState}
variable {log rest t : List Event} {input : List UInt8}

theorem Entering.append (h : Entering profile state log rest)
    (t : List Event) : Entering profile state (log ++ t) (rest ++ t) := by
  obtain ⟨seen, owner, rfl, hstate⟩ := h
  exact ⟨seen, owner, rfl, hstate⟩

/-- A log has been chosen for the state that its first look shows. -/
theorem ChosenFor.state_eq {seen : Console} {t : List Event}
    (h : ChosenFor profile restart state (.looked seen :: t)) :
    generationState profile seen.ring = state := by
  obtain ⟨rest, input, ⟨seen', owner, hlog, hstate⟩, -⟩ := h
  cases hlog
  exact hstate

/-- A log that is chosen for a state has written bytes that belong to it. -/
theorem ChosenFor.writesFor (h : ChosenFor profile restart state log) :
    WritesFor profile restart state (writtenBytes log) := by
  obtain ⟨rest, input, ⟨seen, owner, rfl, -⟩, hinput, hwritten⟩ := h
  exact ⟨input, hinput, hwritten⟩

/-- Events that write nothing. -/
theorem ChosenFor.append (h : ChosenFor profile restart state log)
    (ht : writtenBytes t = []) :
    ChosenFor profile restart state (log ++ t) := by
  obtain ⟨rest, input, hentering, hinput, hwritten⟩ := h
  refine ⟨rest ++ t, input, hentering.append t, hinput, ?_⟩
  rw [writtenBytes_append, ht, List.append_nil]
  exact hwritten

/-- What the thread of `enter_uboot` may do. -/
def EntryPermitted (profile : BoardProfile) (restart : String)
    (log : List Event) : Event → Prop
  | .acquired _ => ∃ seen, log = [.looked seen]
  | .wrote byte error =>
      ∃ state, ChosenFor profile restart state (log ++ [.wrote byte error])
  | _ => True

theorem lenient_entry : Lenient (EntryPermitted profile restart) where
  passive _ e he := by
    cases e <;> trivial
  queried _ _ := trivial
  switched _ _ _ := trivial

/-- Some bytes of the input have been written, and nothing else. -/
def Typed (profile : BoardProfile) (state : BoardState)
    (bytes : List UInt8) (log : List Event) : Prop :=
  ∃ rest, Entering profile state log rest ∧ writtenBytes rest = bytes

/-- The input has been written. -/
def TypedAll (profile : BoardProfile) (state : BoardState)
    (input : List UInt8) (log : List Event) : Prop :=
  ∃ rest, Entering profile state log rest ∧ input <+: writtenBytes rest

theorem Typed.append {bytes : List UInt8}
    (h : Typed profile state bytes log) (t : List Event) :
    Typed profile state (bytes ++ writtenBytes t) (log ++ t) := by
  obtain ⟨rest, hentering, rfl⟩ := h
  exact ⟨rest ++ t, hentering.append t, writtenBytes_append rest t⟩

theorem Typed.all (h : Typed profile state input log) :
    TypedAll profile state input log := by
  obtain ⟨rest, hentering, rfl⟩ := h
  exact ⟨rest, hentering, List.prefix_rfl⟩

theorem TypedAll.append (h : TypedAll profile state input log)
    (t : List Event) : TypedAll profile state input (log ++ t) := by
  obtain ⟨rest, hentering, hprefix⟩ := h
  refine ⟨rest ++ t, hentering.append t, ?_⟩
  rw [writtenBytes_append]
  exact hprefix.trans (List.prefix_append _ _)

/-- After the input anything may be written. -/
theorem writable_typedAll
    (hinput : entryInput profile restart state = some input) :
    Writable (EntryPermitted profile restart)
      (TypedAll profile state input) where
  keep log e hlog _ := hlog.append [e]
  write log byte error hlog := by
    obtain ⟨rest, hentering, hprefix⟩ := hlog.append [.wrote byte error]
    exact ⟨state, rest, input, hentering, hinput, .inr hprefix⟩
  sleep _ _ _ := trivial

/-- The bytes of the input are written in their order. -/
theorem writableInOrder_typed
    (hinput : entryInput profile restart state = some input) :
    WritableInOrder (EntryPermitted profile restart) input
      (Typed profile state) where
  write done byte rest log error hwhole hsent := by
    have hwrote : Typed profile state (done ++ [byte])
        (log ++ [.wrote byte error]) := hsent.append [.wrote byte error]
    refine ⟨?_, hwrote⟩
    obtain ⟨after, hentering, hafter⟩ := hwrote
    refine ⟨state, after, input, hentering, hinput, .inl ?_⟩
    rw [hafter]
    exact ⟨rest, by rw [hwhole, List.append_assoc, List.singleton_append]⟩
  sleep done log ms hsent := by
    have hslept := hsent.append [.slept ms]
    rw [show writtenBytes [.slept ms] = [] from rfl,
      List.append_nil] at hslept
    exact ⟨trivial, hslept⟩

theorem writeConsole_entry
    (hinput : entryInput profile restart state = some input)
    {base : List Event} (hbase : Typed profile state [] base) :
    Traces BoardOp.emits (EntryPermitted profile restart)
      (writeConsole profile input).run base fun r t =>
        r = .ok () → TypedAll profile state input (base ++ t) :=
  Traces.mono (writeConsole_inOrder (writableInOrder_typed hinput) hbase)
    fun _ _ ht hr => (ht hr).all

theorem nextCursor_entry (base : List Event) :
    Traces BoardOp.emits (EntryPermitted profile restart) nextCursor.run base
      fun _ t => writtenBytes t = [] := by
  refine Traces.mono (nextCursor_traces fun _ => trivial) ?_
  rintro _ _ ⟨c, -, rfl⟩
  rfl

theorem Typed.silent (h : Typed profile state [] log)
    (ht : writtenBytes t = []) : Typed profile state [] (log ++ t) := by
  have happend := h.append t
  rwa [ht, List.append_nil] at happend

theorem simpleConsoleAction_entry (name : String)
    (expected : List BoardState) (timeoutMs : Nat)
    (hinput : entryInput profile restart state = some input)
    {base : List Event} (hbase : Typed profile state [] base) :
    Traces BoardOp.emits (EntryPermitted profile restart)
      (simpleConsoleAction profile name input expected timeoutMs false).run
      base fun _ _ => True := by
  refine Traces.bindE (Φ := fun _ t => writtenBytes t = [])
    (Traces.done rfl) ?_ fun _ _ _ => trivial
  intro _ t₁ h₁
  refine Traces.bindE (nextCursor_entry _) ?_ fun _ _ _ => trivial
  intro cursor t₂ h₂
  refine Traces.bindE (writeConsole_entry hinput
    ((hbase.silent h₁).silent h₂)) ?_ fun _ _ _ => trivial
  intro _ t₃ _
  refine Traces.bindE (waitForStatesAfter_traces lenient_entry _ _ _ _) ?_
    fun _ _ _ => trivial
  exact fun _ _ _ => Traces.done trivial

theorem restartIntoUbootAction_entry (action : String) (timeoutMs : Nat)
    (hinput : entryInput profile restart state = some input)
    {base : List Event} (hbase : Typed profile state [] base) :
    Traces BoardOp.emits (EntryPermitted profile restart)
      (restartIntoUbootAction profile input action timeoutMs).run base
      fun _ _ => True := by
  refine Traces.actBind ?_
  rintro generation es ⟨c, c', -, rfl⟩
  refine ⟨⟨trivial, trivial⟩, ?_⟩
  have hmarked : Typed profile state [] (base ++ [.marked c']) :=
    hbase.silent rfl
  refine Traces.bindE (nextCursor_entry _) ?_ fun _ _ _ => trivial
  intro cursor t₁ h₁
  refine Traces.bindE (writeConsole_entry hinput (hmarked.silent h₁)) ?_
    fun _ _ _ => trivial
  intro _ t₂ h₂
  have hall := h₂ rfl
  refine Traces.bindE (waitForStatesAfter_traces lenient_entry _ _ _ _) ?_
    fun _ _ _ => trivial
  intro _ t₃ _
  refine Traces.bindE (nextCursor_entry _) ?_ fun _ _ _ => trivial
  intro _ t₄ _
  -- The interrupt follows the input.
  refine Traces.bindE (writeConsole_traces (writable_typedAll hinput) _
    ((hall.append t₃).append t₄)) ?_ fun _ _ _ => trivial
  intro _ t₅ _
  refine Traces.bindE (waitForStatesAfter_traces lenient_entry _ _ _ _) ?_
    fun _ _ _ => trivial
  exact fun _ _ _ => Traces.done trivial

end EntryTrace

section Request

variable {registry : BoardRegistry} {boardId restart : String}
variable {profile : BoardProfile}

/-- An operation that begins by typing what was chosen for the seen state. -/
theorem operation_entry {name : String} {expected : Option String}
    {action : BoardProfile → String → Action Performed} {seen : Console}
    (hprofile : registry.board boardId = .ok profile)
    (haction : ∀ operationId base,
      Typed profile (generationState profile seen.ring) [] base →
        Traces BoardOp.emits (EntryPermitted profile restart)
          (action profile operationId).run base fun _ _ => True) :
    Traces BoardOp.emits (EntryPermitted profile restart)
      (operation registry boardId name expected action).run [.looked seen]
      fun _ _ => True := by
  refine operation_allowed (fun _ => ⟨seen, rfl⟩) (fun _ _ => trivial)
    (fun _ _ => trivial) ?_
  intro found operationId owner hfound
  obtain rfl := Except.ok.inj (hprofile.symm.trans hfound)
  exact haction operationId _ ⟨[], ⟨seen, owner, rfl, rfl⟩, rfl⟩

theorem enterUbootFrom_entry {seen : Console} {state : BoardState}
    (hprofile : registry.board boardId = .ok profile)
    (hstate : generationState profile seen.ring = state) :
    Traces BoardOp.emits (EntryPermitted profile restart)
      (enterUbootFrom registry profile boardId restart state).run
      [.looked seen] fun _ _ => True := by
  subst hstate
  unfold enterUbootFrom
  split
  · rename_i hprompt
    split
    · rename_i halways
      have hinput : entryInput profile restart
          (generationState profile seen.ring) = some (utf8 "reset\r") := by
        simp [hprompt, entryInput, halways]
      exact operation_entry hprofile fun _ _ hbase =>
        restartIntoUbootAction_entry _ _ hinput hbase
    · rename_i halways
      have hinput : entryInput profile restart
          (generationState profile seen.ring) = some (utf8 "\r") := by
        simp [hprompt, entryInput, halways]
      exact operation_entry hprofile fun _ _ hbase =>
        simpleConsoleAction_entry _ _ _ hinput hbase
  · split
    · rename_i hcountdown
      have hinput : entryInput profile restart
          (generationState profile seen.ring) =
            some (utf8 profile.uboot.interrupt) := by
        simp [hcountdown, entryInput]
      exact operation_entry hprofile fun _ _ hbase =>
        simpleConsoleAction_entry _ _ _ hinput hbase
    · split
      · exact Traces.throwError trivial
      · rename_i hnever
        split
        · rename_i hshell
          have hinput : entryInput profile restart
              (generationState profile seen.ring) =
                some (utf8 "reboot\r") := by
            simp [hshell, entryInput, hnever]
          exact operation_entry hprofile fun _ _ hbase =>
            restartIntoUbootAction_entry _ _ hinput hbase
        · exact Traces.throwError trivial

theorem enterBoardUboot_entry {req : EnterUbootRequest}
    (hprofile : registry.board req.boardId = .ok profile) :
    Traces BoardOp.emits (EntryPermitted profile req.restart)
      (enterBoardUboot registry req).run [] fun _ _ => True := by
  refine Traces.resultBind ?_ fun _ _ => trivial
  intro found hfound
  obtain rfl := Except.ok.inj (hprofile.symm.trans hfound)
  refine Traces.bindE (observedState_traces fun _ => trivial) ?_
    fun _ _ _ => trivial
  rintro _ _ ⟨seen, ⟨⟩, rfl⟩
  split
  · exact Traces.throwError trivial
  · exact enterUbootFrom_entry hprofile rfl

/-- Serving `enter_uboot` keeps to what its thread may do. -/
theorem serve_entry {req : EnterUbootRequest}
    (hprofile : registry.board req.boardId = .ok profile) :
    Traces BoardOp.emits (EntryPermitted profile req.restart)
      (serve registry (.rpc (.enterUboot req))) [] fun _ _ => True := by
  refine Traces.map ?_
  rw [handleRpc]
  exact Traces.mapOk (enterBoardUboot_entry hprofile)

/-- A log that keeps to it and writes is chosen for some state. -/
theorem chosenFor_of_lawful {restart : String} {log : List Event}
    (h : Lawful (EntryPermitted profile restart) log)
    (hwrote : writtenBytes log ≠ []) :
    ∃ state, ChosenFor profile restart state log := by
  refine within_of_lawful
    (fun log => ∃ state, ChosenFor profile restart state log) h ?_ ?_ hwrote
  · exact fun log byte error hpermitted => hpermitted
  · rintro log e ⟨state, hchosen⟩ hsilent
    exact ⟨state, hchosen.append hsilent⟩

end Request

section Interleaving

variable {ι : Type} [DecidableEq ι] {registry : BoardRegistry}
variable {reqs : ι → ClientRequest} {req : EnterUbootRequest} {i : ι}
variable {profile : BoardProfile} {w w' : World ι}

/-- A thread comes to hold the lease only by acquiring it. -/
theorem acquired_of_boardSem {t u : Thread ι} {o : BoardOp} {r : o.Resp}
    (h : boardSem t o w r w') (hfree : w.holder ≠ some u)
    (hheld : w'.holder = some u) :
    t = u ∧ ∃ owner, BoardOp.events o r w'.console = [.acquired owner] := by
  rcases h.2.1.cases w'.console with ⟨hsame, -⟩ |
    ⟨owner, -, hcell, hevents⟩ | ⟨owner, -, hcell, -⟩
  · rw [World.holder, hsame] at hheld
    exact absurd hheld hfree
  · rw [World.holder, hcell] at hheld
    exact ⟨Option.some.inj hheld, owner, hevents⟩
  · rw [World.holder, hcell] at hheld
    cases hheld

/-- The step in which `enter_uboot` acquires the lease. -/
theorem entry_of_step {A : Thread ι → Type}
    {b d : Pool BoardSig A (World ι)}
    (hstep : Pool.Step boardSem BoardEnv b d)
    (hfree : b.world.holder ≠ some (i, .main))
    (hheld : d.world.holder = some (i, .main))
    (hlawful : Lawful (EntryPermitted profile req.restart)
      (d.world.threadLog (i, .main))) :
    ∃ seen owner, b.world.threadLog (i, .main) = [.looked seen] ∧
      d.world.threadLog (i, .main) = [.looked seen, .acquired owner] ∧
      d.world.console = b.world.console := by
  rcases hstep.world_cases with hsame | ⟨t, o, r, hsem⟩ | henv
  · rw [hsame] at hheld
    exact absurd hheld hfree
  · obtain ⟨rfl, owner, hevents⟩ := acquired_of_boardSem hsem hfree hheld
    have hlog := threadLog_self hsem
    rw [hevents] at hlog
    obtain ⟨seen, hseen⟩ := hlawful _ _ [] hlog
    refine ⟨seen, owner, hseen, by rw [hlog, hseen]; rfl, ?_⟩
    rcases hsem.1.marked_or_same with hsame | hmarked
    · exact hsame
    · simp [hevents] at hmarked
  · have hsame : d.world.holder = b.world.holder := by
      generalize d.world = w' at henv
      cases henv <;> rfl
    exact absurd (hsame.symm.trans hheld) hfree

/--
While the request waits between its observation and the lease, nobody changes
the state that the console shows.
-/
def KeepsShown (profile : BoardProfile) (i : ι) (w w' : World ι) : Prop :=
  ∀ seen, w.threadLog (i, .main) = [.looked seen] →
    generationState profile w'.console.ring =
      generationState profile w.console.ring

/-- A run in which nobody does. -/
abbrev CalmlyReaches {A : Thread ι → Type} (profile : BoardProfile) (i : ι) :
    Pool BoardSig A (World ι) → Pool BoardSig A (World ι) → Prop :=
  Relation.ReflTransGen fun b d =>
    Pool.Step boardSem BoardEnv b d ∧ KeepsShown profile i b.world d.world

/-- What the request has observed is what the console still shows. -/
def World.ShowsSeen (w : World ι) (profile : BoardProfile) (i : ι) : Prop :=
  ∀ seen, w.threadLog (i, .main) = [.looked seen] →
    generationState profile seen.ring = generationState profile w.console.ring

theorem World.ShowsSeen.step {A : Thread ι → Type}
    {b d : Pool BoardSig A (World ι)} (h : b.world.ShowsSeen profile i)
    (hstep : Pool.Step boardSem BoardEnv b d)
    (hkeeps : KeepsShown profile i b.world d.world) :
    d.world.ShowsSeen profile i := by
  intro seen hseen
  by_cases hold : b.world.threadLog (i, .main) = [.looked seen]
  · rw [hkeeps seen hold]
    exact h seen hold
  · -- The observation is made in this step.
    rcases hstep.world_cases with hsame | ⟨t, o, r, hsem⟩ | henv
    · rw [hsame] at hseen
      exact absurd hseen hold
    · have hlog := threadLog_of_boardSem hsem (i, .main)
      rw [hseen] at hlog
      split at hlog
      · rcases List.append_eq_singleton_iff.mp hlog.symm with
          ⟨-, hevents⟩ | ⟨hlooked, -⟩
        · have hmem : Event.looked seen ∈
              BoardOp.events o r d.world.console := by simp [hevents]
          rw [BoardOp.console_of_mem_events hmem rfl]
        · exact absurd hlooked hold
      · rw [List.append_nil] at hlog
        exact absurd hlog.symm hold
    · rw [threadLog_of_env henv] at hseen
      exact absurd hseen hold

theorem CalmlyReaches.showsSeen {A : Thread ι → Type}
    {c c' : Pool BoardSig A (World ι)} (h : CalmlyReaches profile i c c')
    (hinit : c.world.ShowsSeen profile i) : c'.world.ShowsSeen profile i := by
  induction h with
  | refl => exact hinit
  | tail _ hstep ih => exact ih.step hstep.1 hstep.2

/--
Whenever `enter_uboot` has written, the state at the acquisition of its lease is
the one for which the input was chosen if and only if it is still the state that
was observed; the written bytes belong to the observed state and, once its whole
input is among them, to no other.  In a run in which nobody changes the state
that the console shows while the request waits for the lease, the state at the
acquisition always is the one for which the input was chosen.
-/
theorem enterUboot_chosen_iff {console : Console}
    {b d c : Pool BoardSig (Answer (ι := ι)) (World ι)}
    (hreq : reqs i = .rpc (.enterUboot req))
    (hprofile : registry.board req.boardId = .ok profile)
    (hb : BoardReaches (start registry console reqs) b)
    (hstep : Pool.Step boardSem BoardEnv b d)
    (hfree : b.world.holder ≠ some (i, .main))
    (hheld : d.world.holder = some (i, .main)) (hc : BoardReaches d c)
    (hwrote : writtenBytes (c.world.threadLog (i, .main)) ≠ []) :
    (∃ seen, b.world.threadLog (i, .main) = [.looked seen] ∧
      (ChosenFor profile req.restart
          (generationState profile d.world.console.ring)
          (c.world.threadLog (i, .main)) ↔
        generationState profile b.world.console.ring =
          generationState profile seen.ring) ∧
      WritesFor profile req.restart (generationState profile seen.ring)
        (writtenBytes (c.world.threadLog (i, .main))) ∧
      (EntriesApart profile req.restart → ∀ input,
        entryInput profile req.restart (generationState profile seen.ring) =
          some input →
        input <+: writtenBytes (c.world.threadLog (i, .main)) →
          (WritesFor profile req.restart
              (generationState profile d.world.console.ring)
              (writtenBytes (c.world.threadLog (i, .main))) ↔
            generationState profile b.world.console.ring =
              generationState profile seen.ring))) ∧
    (CalmlyReaches profile i (start registry console reqs) b →
      ChosenFor profile req.restart
        (generationState profile d.world.console.ring)
        (c.world.threadLog (i, .main))) := by
  have htraces : Traces BoardOp.emits (EntryPermitted profile req.restart)
      (serve registry (reqs i)) [] fun _ _ => True := by
    rw [hreq]
    exact serve_entry hprofile
  have hd := hb.tail hstep
  obtain ⟨seen, owner, hseen, hlog, hconsole⟩ := entry_of_step hstep hfree
    hheld (htraces.lawful (BoardReaches.exec hd (i, .main)))
  obtain ⟨t, ht⟩ := hc.threadLog_prefix (i, .main)
  rw [hlog] at ht
  obtain ⟨state, hchosen⟩ := chosenFor_of_lawful
    (htraces.lawful (BoardReaches.exec (hd.trans hc) (i, .main))) hwrote
  have hstate : generationState profile seen.ring = state :=
    ChosenFor.state_eq (ht ▸ hchosen)
  have hiff : ChosenFor profile req.restart
      (generationState profile d.world.console.ring)
      (c.world.threadLog (i, .main)) ↔
        generationState profile b.world.console.ring =
          generationState profile seen.ring := by
    rw [hconsole]
    constructor
    · intro h
      exact (ChosenFor.state_eq (ht ▸ h)).symm
    · intro h
      rw [h, hstate]
      exact hchosen
  have hapart : EntriesApart profile req.restart → ∀ input,
      entryInput profile req.restart (generationState profile seen.ring) =
        some input →
      input <+: writtenBytes (c.world.threadLog (i, .main)) →
        (WritesFor profile req.restart
            (generationState profile d.world.console.ring)
            (writtenBytes (c.world.threadLog (i, .main))) ↔
          generationState profile b.world.console.ring =
            generationState profile seen.ring) := by
    intro hentries input hinput hwhole
    rw [hconsole]
    exact hentries.writesFor_iff hinput hwhole
  refine ⟨⟨seen, hseen, hiff, hstate ▸ hchosen.writesFor, hapart⟩,
    fun hcalm => hiff.mpr ?_⟩
  have hinit : (start registry console reqs).world.ShowsSeen profile i :=
    fun _ h => nomatch h
  exact (hcalm.showsSeen hinit seen hseen).symm

end Interleaving

section Schedule

/-- A client asks for a fresh U-Boot, whatever the board shows. -/
def enteringAlways : Unit → ClientRequest :=
  fun _ => .rpc (.enterUboot ⟨"simulated", "always"⟩)

/-- The world in which the request has observed the state of the board. -/
def observedWorld (d : Console) : World Unit :=
  ((World.initial simulatedConsole).hear d).look ((), .main)

/-- The world in which a reset has been typed under the lease. -/
def resetWorld (u : World Unit) : World Unit :=
  (((u.acquireBy ((), .main) (operationOwner "enter_uboot")).markBy
    ((), .main)).look ((), .main)).emit ((), .main)
      (writeEvents simulated (utf8 "reset\r"))

/-- A request that observes the U-Boot prompt types a reset. -/
theorem enteringAlways_passes {d : Console}
    (hd : simulatedConsole.Sends d (utf8 "U-Boot>"))
    (hprompt : generationState simulated d.ring = .ubootPrompt)
    (u : World Unit) :
    Passes (afterEnv boardSem BoardEnv ((), .main))
      (serve simulatedRegistry (enteringAlways ()))
      (World.initial simulatedConsole)
      (.acquireLease (operationOwner "enter_uboot")
        simulated.timing.operationTimeoutMs) (observedWorld d)
      (none : Option String)
      (u.acquireBy ((), .main) (operationOwner "enter_uboot"))
      (resetWorld u) := by
  have hmain : ∀ w : World Unit, w.Alive ((), .main) := fun _ => alive_main ()
  have hobserve : Acts ((), .main) (observedState simulated)
      (World.initial simulatedConsole) (.ok .ubootPrompt)
      (observedWorld d) :=
    hprompt ▸ Acts.hear (hmain _) hd (Acts.pure _)
  refine Passes.map ?_ _
  rw [handleRpc, ExceptT.run_map]
  refine Passes.map ?_ _
  refine Returns.bind_passes (lookup_acts simulatedRegistry_board _) ?_
  refine Returns.bind_passes hobserve ?_
  refine operation_passes simulatedRegistry_board ?_
  refine Around.passes (Returns.around (Returns.pure _ _)) ?_
  refine Visits.bind ?_ _
  refine Visits.bind ?_ _
  refine Visits.bind ?_ _
  refine Returns.bind_visits (Acts.lift (Performs.of_sem
    (boardSem_mark (hmain _)))) ?_
  refine Returns.bind_visits (nextCursor_acts (hmain _)) ?_
  exact Visits.bind (writeConsole_acts (hmain _) _).visits _

/-- The run in which the console shows `u` when the lease is acquired. -/
theorem enteringAlways_runs {d e : Console}
    (hd : simulatedConsole.Sends d (utf8 "U-Boot>"))
    (hprompt : generationState simulated d.ring = .ubootPrompt)
    (henv : Relation.ReflTransGen BoardEnv (observedWorld d)
      ((observedWorld d).hear e)) :
    ∃ b a c, BoardReaches
        (start simulatedRegistry simulatedConsole enteringAlways) b ∧
      Pool.Step boardSem BoardEnv b a ∧ BoardReaches a c ∧
      b.world.holder ≠ some ((), .main) ∧
      a.world.holder = some ((), .main) ∧
      b.world.console = e ∧ a.world.console = e ∧
      b.world.threadLog ((), .main) = [.looked d] ∧
      writtenBytes (c.world.threadLog ((), .main)) = utf8 "reset\r" := by
  obtain ⟨b, a, c, hb, hstep, hc, hbworld, haworld, hcworld⟩ :=
    Pool.reaches_of_passes
      (c := start simulatedRegistry simulatedConsole enteringAlways)
      (enteringAlways_passes hd hprompt ((observedWorld d).hear e)) henv
      (boardSem_acquire () _ _ rfl)
  refine ⟨b, a, c, hb, hstep, hc, ?_, ?_, ?_, ?_, ?_, ?_⟩
  · rw [hbworld]
    exact nofun
  · rw [haworld]
    rfl
  · rw [hbworld]
    rfl
  · rw [haworld]
    rfl
  · rw [hbworld]
    rfl
  · rw [hcworld]
    rfl

/-- The board shows the U-Boot prompt. -/
theorem exists_prompt : ∃ d, simulatedConsole.Sends d (utf8 "U-Boot>") ∧
    generationState simulated d.ring = .ubootPrompt := by
  obtain ⟨d, hd⟩ : ∃ d, simulatedConsole.Sends d (utf8 "U-Boot>") :=
    simulatedConsole.exists_sends simulatedRegistry.ring_pos (by decide)
  refine ⟨d, hd, ?_⟩
  obtain ⟨hcapacity, timestamp, hhistory⟩ := hd
  rw [generationState_eq, hcapacity, hhistory, sinceMark_append]
  decide

/--
A reset is typed into a Linux shell: the board has come to it after the prompt
was observed and before the lease was acquired.
-/
theorem enterUboot_types_into_shell :
    ∃ b a c, BoardReaches
        (start simulatedRegistry simulatedConsole enteringAlways) b ∧
      Pool.Step boardSem BoardEnv b a ∧ BoardReaches a c ∧
      b.world.holder ≠ some ((), .main) ∧
      a.world.holder = some ((), .main) ∧
      writtenBytes (c.world.threadLog ((), .main)) = utf8 "reset\r" ∧
      generationState simulated a.world.console.ring = .linuxShell ∧
      ¬ ChosenFor simulated "always"
        (generationState simulated a.world.console.ring)
        (c.world.threadLog ((), .main)) ∧
      ¬ WritesFor simulated "always"
        (generationState simulated a.world.console.ring)
        (writtenBytes (c.world.threadLog ((), .main))) := by
  obtain ⟨d, hd, hprompt⟩ := exists_prompt
  have hcapacity : d.capacity = 262144 := hd.1
  obtain ⟨e, he⟩ : ∃ e, d.Sends e (utf8 "root@fake:#") := by
    refine d.exists_sends (by omega) ?_
    rw [hd.stream]
    decide
  have hshell : generationState simulated e.ring = .linuxShell := by
    obtain ⟨-, timestamp, hhistory⟩ := hd
    obtain ⟨hsame, timestamp', hhistory'⟩ := he
    rw [generationState_eq, hsame, hcapacity, hhistory', sinceMark_append,
      hhistory, sinceMark_append]
    decide
  obtain ⟨b, a, c, hb, hstep, hc, hfree, hheld, -, hconsole, -,
      hwritten⟩ := enteringAlways_runs hd hprompt
    (.single (boardEnv_hear (w := observedWorld d) he))
  have hother : ¬ WritesFor simulated "always"
      (generationState simulated a.world.console.ring)
      (writtenBytes (c.world.threadLog ((), .main))) := by
    rw [hconsole, hshell, hwritten]
    rintro ⟨input, hinput, hwrites⟩
    obtain rfl := Option.some.inj hinput
    exact absurd hwrites (by decide)
  exact ⟨b, a, c, hb, hstep, hc, hfree, hheld, hwritten, hconsole ▸ hshell,
    fun hchosen => hother hchosen.writesFor, hother⟩

/-- The inputs for the board "simulated" differ from the first byte, or in the
third. -/
theorem entriesApart_simulated : EntriesApart simulated "always" := by
  intro state state' input input' hinput hinput' hprefix
  cases state <;> simp [entryInput, simulated] at hinput <;>
    cases state' <;> simp [entryInput, simulated] at hinput' <;>
      subst hinput hinput' <;> first | rfl | exact absurd hprefix (by decide)

/-- A reset is typed at the U-Boot prompt for which it was chosen. -/
theorem enterUboot_chosen_iff_prompt :
    ∃ b a c, BoardReaches
        (start simulatedRegistry simulatedConsole enteringAlways) b ∧
      Pool.Step boardSem BoardEnv b a ∧ BoardReaches a c ∧
      a.world.holder = some ((), .main) ∧
      writtenBytes (c.world.threadLog ((), .main)) = utf8 "reset\r" ∧
      ChosenFor simulated "always" .ubootPrompt
        (c.world.threadLog ((), .main)) ∧
      WritesFor simulated "always" .ubootPrompt
        (writtenBytes (c.world.threadLog ((), .main))) := by
  obtain ⟨d, hd, hprompt⟩ := exists_prompt
  have hstill : Relation.ReflTransGen BoardEnv (observedWorld d)
      ((observedWorld d).hear d) := .refl
  obtain ⟨b, a, c, hb, hstep, hc, hfree, hheld, hbefore, hconsole, hlog,
    hwritten⟩ := enteringAlways_runs hd hprompt hstill
  refine ⟨b, a, c, hb, hstep, hc, hheld, hwritten, ?_⟩
  have hrequest : enteringAlways () =
      .rpc (.enterUboot ⟨"simulated", "always"⟩) := rfl
  obtain ⟨⟨seen, hseen, hiff, -, hapart⟩, -⟩ := enterUboot_chosen_iff hrequest
    simulatedRegistry_board hb hstep hfree hheld hc
      (by rw [hwritten]; decide)
  rw [hlog] at hseen
  cases hseen
  have hwrites := hapart entriesApart_simulated (utf8 "reset\r")
    (by rw [hprompt]; rfl) (by rw [hwritten])
  rw [hconsole, hprompt, hbefore, hprompt] at hiff hwrites
  exact ⟨hiff.mpr rfl, hwrites.mpr rfl⟩

end Schedule

end RpictlMcp
