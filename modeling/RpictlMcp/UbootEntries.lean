import RpictlMcp.Bench

/-!
# rpictl-mcp: the three ways into U-Boot

`power_on_uboot`, `reset_into_uboot` and `reboot_into_uboot` wait for the
countdown after their trigger, interrupt it and wait for the prompt.  Only the
first of them also accepts a prompt that has superseded the countdown between
two polls.  On a bench each of them succeeds as the scene says in which its wait
begins.
-/

namespace RpictlMcp

open Prog

namespace Scene

variable {device : Device}

/-- What is typed is answered by a prompt within ten seconds. -/
def answers (profile : BoardProfile) (bytes : List UInt8)
    (x : Scene device) : Bool :=
  ((x.renew.type profile.timing.serialPacingMs bytes).await profile
    [.ubootPrompt] (pollsWithin 10000)).isSome

/-- What a boot with the worker of `power_on_uboot` makes of a scene. -/
def boots (profile : BoardProfile) (timeoutMs : Nat) (x : Scene device) :
    Bool :=
  match x.await profile [.ubootCountdown, .ubootPrompt]
      (pollsWithin timeoutMs) with
  | none => false
  | some (state, y) =>
      if state = .ubootPrompt then y.answers profile (utf8 "\r")
      else y.answers profile (utf8 profile.uboot.interrupt)

/-- What a reset or a reboot makes of a scene. -/
def restarts (profile : BoardProfile) (timeoutMs : Nat) (x : Scene device) :
    Bool :=
  match x.await profile [.ubootCountdown] (pollsWithin timeoutMs) with
  | none => false
  | some (_, y) => y.answers profile (utf8 profile.uboot.interrupt)

end Scene

section Flows

variable {device : Device} {w : Bench device} {profile : BoardProfile}
variable {cursor timeoutMs : Nat} {x : Scene device}

/-- A wait with a cursor that fails in the way of an action. -/
theorem waitForStatesAfter_bench (states : List BoardState)
    (htaken : w.Taken cursor) (timeoutMs : Nat) :
    Ends benchSem (waitForStatesAfter profile states timeoutMs cursor).run w
      (WaitEnds cursor ((w.scene cursor).await profile states
        (pollsWithin timeoutMs))) := by
  refine Ends.bind (waitForStatesAfterChecked_bench idle_pure htaken timeoutMs
    ()) fun r v hends => ?_
  exact (Returns.pure _ _).ends hends

theorem isOk_awaited (seen : Option (BoardState × Scene device)) :
    (awaited seen).isOk = seen.isSome := by
  cases seen <;> rfl

/-- The scene after a write with a new cursor. -/
theorem scene_typed (cursor pacing : Nat) (bytes : List UInt8) :
    (w.type pacing bytes).scene w.console.ring.nextCursor =
      ((w.scene cursor).renew).type pacing bytes := by
  rw [Bench.scene_type pacing w.taken_nextCursor, Bench.scene_nextCursor]

/-- A write and the wait for the prompt succeed if the prompt answers. -/
theorem writeAndAwaitPrompt_bench (hscene : w.scene cursor = x)
    (bytes : List UInt8) (action : String) (pending : Bool) :
    Ends benchSem (writeAndAwaitPrompt profile bytes action pending) w
      fun r _ => r.1.isOk = x.answers profile bytes := by
  refine Returns.bind_ends (a := w.console.ring) (v := w)
    (Returns.perform ⟨rfl, rfl⟩) ?_
  refine Returns.bind_ends (writeConsole_bench w bytes) ?_
  have htaken := w.taken_nextCursor.type profile.timing.serialPacingMs bytes
  refine Ends.bind (waitForStatesAfterChecked_bench idle_checkPower htaken
    10000 pending) fun r v hends => ?_
  refine (Returns.pure _ _).ends ?_
  have hresult := hends.result
  rw [scene_typed cursor, hscene] at hresult
  rw [Scene.answers, ← isOk_awaited, ← hresult]
  cases r.1 <;> rfl

/-- The boot phase of `power_on_uboot` succeeds as its scene says. -/
theorem bootPhase_bench (htaken : w.Taken cursor) (timeoutMs : Nat) :
    Ends benchSem (bootPhase profile timeoutMs cursor) w fun r _ =>
      r.1.isOk = (w.scene cursor).boots profile timeoutMs := by
  refine Ends.bind (waitForStatesAfterChecked_bench idle_checkPower htaken
    timeoutMs true) fun r v hends => ?_
  obtain ⟨result, pending⟩ := r
  have hresult : result = _ := hends.result
  unfold Scene.boots
  cases hawait : (w.scene cursor).await profile
      [.ubootCountdown, .ubootPrompt] (pollsWithin timeoutMs) with
  | none =>
      rw [hawait] at hresult
      subst hresult
      exact (Returns.pure _ _).ends rfl
  | some found =>
      obtain ⟨state, x⟩ := found
      have hscene := hends.scene state x hawait
      rw [hawait] at hresult
      subst hresult
      simp only [awaited]
      split
      · exact writeAndAwaitPrompt_bench hscene _ _ _
      · exact writeAndAwaitPrompt_bench hscene _ _ _

/-- An interrupt and the wait for the prompt. -/
theorem interrupt_bench (hscene : w.scene cursor = x) (action : String) :
    Ends benchSem (do
        let promptCursor ← nextCursor
        writeConsole profile (utf8 profile.uboot.interrupt)
        let state ← waitForStatesAfter profile [.ubootPrompt] 10000
          promptCursor
        return (observedOutput state,
          [action, "interrupted the fresh U-Boot autoboot countdown"]) :
        Action Performed).run w fun r _ =>
          r.isOk = x.answers profile (utf8 profile.uboot.interrupt) := by
  refine Returns.bind_ends (nextCursor_bench w) ?_
  refine Returns.bind_ends (writeConsole_bench w _) ?_
  have htaken := w.taken_nextCursor.type profile.timing.serialPacingMs
    (utf8 profile.uboot.interrupt)
  refine Ends.bind (waitForStatesAfter_bench _ htaken 10000)
    fun r v hends => ?_
  have hresult := hends.result
  rw [scene_typed cursor, hscene] at hresult
  rw [Scene.answers, ← isOk_awaited, ← hresult]
  cases r with
  | error e => exact (Returns.pure _ _).ends rfl
  | ok state => exact (Returns.pure _ _).ends rfl

/-- With a new cursor a generation boundary makes no difference. -/
theorem scene_mark (w : Bench device) :
    w.mark.scene w.mark.console.ring.nextCursor =
      w.scene w.console.ring.nextCursor := by
  unfold Bench.scene
  rw [Console.nextCursor_ring, Console.nextCursor_ring, List.drop_length,
    List.drop_length]
  rfl

/-- A restart succeeds as the scene after its command says. -/
theorem restartIntoUbootAction_bench (command : List UInt8) (action : String)
    (hscene : (w.scene w.console.ring.nextCursor).type
      profile.timing.serialPacingMs command = x) (timeoutMs : Nat) :
    Ends benchSem
      (restartIntoUbootAction profile command action timeoutMs).run w
      fun r _ => r.isOk = x.restarts profile timeoutMs := by
  refine Returns.bind_ends (Returns.bind (Returns.perform ⟨rfl, rfl⟩)
    (Returns.pure _ _)) ?_
  refine Returns.bind_ends (nextCursor_bench w.mark) ?_
  refine Returns.bind_ends (writeConsole_bench w.mark command) ?_
  have htaken := w.mark.taken_nextCursor.type
    profile.timing.serialPacingMs command
  have htyped : (w.mark.type profile.timing.serialPacingMs command).scene
      w.mark.console.ring.nextCursor = x := by
    rw [Bench.scene_type _ w.mark.taken_nextCursor, scene_mark, hscene]
  refine Ends.bind (waitForStatesAfter_bench _ htaken timeoutMs)
    fun r v hends => ?_
  have hresult := hends.result
  unfold Scene.restarts
  rw [htyped] at hresult hends
  cases hawait : x.await profile [.ubootCountdown]
      (pollsWithin timeoutMs) with
  | none =>
      rw [hawait] at hresult
      subst hresult
      exact (Returns.pure _ _).ends rfl
  | some found =>
      obtain ⟨state, y⟩ := found
      have hseen := hends.scene state y hawait
      rw [hawait] at hresult
      subst hresult
      exact interrupt_bench hseen action

/-- On the bench an operation succeeds if its closure does. -/
theorem operation_bench {registry : BoardRegistry} {boardId name : String}
    {expected : Option String}
    {action : BoardProfile → String → Action Performed} {success : Bool}
    (hprofile : registry.board boardId = .ok profile)
    (haction : Ends benchSem (action profile "").run w
      fun r _ => r.isOk = success) :
    Ends benchSem (operation registry boardId name expected action).run w
      fun r _ => r.isOk = success := by
  have hlookup : BenchActs (ofResult (registry.board boardId)) w
      (.ok profile) w := by
    rw [hprofile]
    exact Returns.pure _ _
  refine Returns.bind_ends hlookup ?_
  refine Returns.bind_ends (a := .ok "") (v := w)
    (Returns.bind (Returns.perform ⟨rfl, rfl⟩) (Returns.pure _ _)) ?_
  refine Returns.bind_ends (a := .ok w.now) (v := w)
    (Returns.bind (Returns.perform ⟨rfl, rfl⟩) (Returns.pure _ _)) ?_
  refine Returns.bind_ends (a := .ok none) (v := w)
    (Returns.bind (Returns.perform ⟨rfl, rfl⟩) (Returns.pure _ _)) ?_
  obtain ⟨r, v, haction, hr⟩ := haction
  have hrelease : ∀ owner, BenchActs (act (.releaseLease owner)) v (.ok ()) v :=
    fun _ => Returns.bind (Returns.perform rfl) (Returns.pure _ _)
  cases r with
  | error e =>
      refine Returns.bind_ends (Returns.bind (BenchActs.fail haction)
        (Returns.pure _ _)) ?_
      refine Returns.bind_ends (hrelease _) ?_
      exact (Returns.pure _ _).ends hr
  | ok performed =>
      have hobserve : BenchActs (observedState profile) v
          (.ok (generationState profile v.console.ring)) v :=
        BenchActs.step (o := .lockSerial) ⟨rfl, rfl⟩ (Returns.pure _ _)
      refine Returns.bind_ends (Returns.bind (BenchActs.bind haction
        (BenchActs.bind hobserve (BenchActs.step (o := .nowMs) (r := v.now)
          ⟨rfl, rfl⟩ (Returns.pure _ _)))) (Returns.pure _ _)) ?_
      refine Returns.bind_ends (hrelease _) ?_
      exact (Returns.pure _ _).ends hr

theorem resetIntoUboot_bench {registry : BoardRegistry} {boardId : String}
    (hprofile : registry.board boardId = .ok profile)
    (hscene : (w.scene w.console.ring.nextCursor).type
      profile.timing.serialPacingMs (utf8 "reset\r") = x) (timeoutMs : Nat) :
    Ends benchSem (resetIntoUboot registry boardId timeoutMs).run w
      fun r _ => r.isOk = x.restarts profile timeoutMs :=
  operation_bench hprofile
    (restartIntoUbootAction_bench _ _ hscene timeoutMs)

theorem rebootIntoUboot_bench {registry : BoardRegistry} {boardId : String}
    (hprofile : registry.board boardId = .ok profile)
    (hscene : (w.scene w.console.ring.nextCursor).type
      profile.timing.serialPacingMs (utf8 "reboot\r") = x) (timeoutMs : Nat) :
    Ends benchSem (rebootIntoUboot registry boardId timeoutMs).run w
      fun r _ => r.isOk = x.restarts profile timeoutMs :=
  operation_bench hprofile
    (restartIntoUbootAction_bench _ _ hscene timeoutMs)

end Flows

/-- On the bench a program comes to a result, and always to the same. -/
def Yields {device : Device} {α : Type} (p : Prog BoardSig α)
    (w : Bench device) (a : α) : Prop :=
  (∃ w', Returns benchSem p w a w') ∧
    ∀ b w', Returns benchSem p w b w' → b = a

theorem yields_of_ends {device : Device} {α : Type} {p : Prog BoardSig α}
    {w : Bench device} {Q : α → Prop}
    (h : Ends benchSem p w fun a _ => Q a) : ∃ a, Yields p w a ∧ Q a := by
  obtain ⟨a, w', hreturns, hQ⟩ := h
  exact ⟨a, ⟨⟨w', hreturns⟩, fun b v hb =>
    Returns.unique benchSem_unique hb hreturns⟩, hQ⟩

end RpictlMcp
