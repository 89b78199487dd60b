import RpictlMcp.OperationTrace

/-!
# rpictl-mcp: traces of the operations that switch the relay

The closures of `power_on_linux`, `graceful_power_off` and `power_cycle` in the
trace logic.  Each of them ends its successful runs with a successful call of
`set_power`, apart from console events.  The first two can reject a call after
they have changed the board; their theorems say when.
-/

namespace RpictlMcp

open Prog

section PowerOperations

variable {free : Bool} {profile : BoardProfile}

/-! ## `power_on_linux` -/

/-- The login can be refused only when the boot has ended at a login prompt of
a board without an account. -/
structure LoginRefused (profile : BoardProfile) (login : Bool)
    (t : List Event) : Prop where
  login : login = true
  account : profile.linux.account = none
  switchable : Switchable profile
  shown : ∃ cursor c, .looked c ∈ t ∧
    stateAfter profile c.ring cursor = .linuxLogin

theorem LoginRefused.mono {login : Bool} {s t : List Event}
    (h : LoginRefused profile login s) (hst : s ⊆ t) :
    LoginRefused profile login t := by
  obtain ⟨cursor, c, hmem, hshown⟩ := h.shown
  exact ⟨h.login, h.account, h.switchable, cursor, c, hst hmem, hshown⟩

theorem loginAfterBoot_console {account : String}
    (haccount : profile.linux.account = some account) (timeoutMs : Nat) :
    IsConsole free (loginAfterBoot profile timeoutMs) := by
  unfold loginAfterBoot
  rw [haccount]
  exact .bind nextCursor_console fun _ =>
    .bind (writeConsole_console _) fun _ =>
      .bind (waitForStatesAfter_console _ _ _) fun _ => .pure _

/-- What `power_on_linux` does under the lease. -/
theorem powerOnLinuxAction_runs (login : Bool) (timeoutMs : Nat) :
    Runs free (powerOnLinuxAction profile login timeoutMs) fun r t =>
      (∀ a, r = .ok a → Achieved profile true t) ∧
        (Harmless r t ∨ LoginRefused profile login t) := by
  refine .bind powerState_runs ?_ ?_
  · rintro observation t ⟨q, identity, rfl, hq, hrelay, -⟩
    split
    · exact .throw ⟨by simp, .inl (harmless_of_accepted rfl _)⟩
    · refine .bind (setPower_runs true) ?_ fun e s hs => ⟨by simp, .inl
        (harmless_of_accepted (accepted_error.mp (hs.accepted hrelay)) _)⟩
      intro after s hs
      refine .afterConsole isConsole_mark (fun _ t₁ h₁ => ?_)
        fun e _ he _ => ⟨by simp, .inl (harmless_of_accepted he _)⟩
      refine .afterConsole nextCursor_console (fun cursor t₂ h₂ => ?_)
        fun e _ he _ => ⟨by simp, .inl (harmless_of_accepted he _)⟩
      refine .bind (waitForStatesAfter_runs _ _ _) ?_ fun e t₃ h₃ =>
        ⟨by simp, .inl (harmless_of_accepted
          (accepted_error.mp h₃.accepted) _)⟩
      intro state t₃ h₃
      have hachieved : ∀ t₄, ConsoleOnly t₄ → Achieved profile true
          (q ++ [.noted (.queried observation)] ++ (s ++ (t₁ ++ (t₂ ++
            (t₃ ++ t₄))))) := by
        intro t₄ h₄
        have hrest : ConsoleOnly (t₁ ++ (t₂ ++ (t₃ ++ t₄))) := by
          simp [h₁, h₂, h₃.console, h₄]
        rw [← List.append_assoc _ s]
        exact hs.achieved (q ++ [.noted (.queried observation)]) hrest
      split
      · refine .pure ⟨fun _ _ => ?_, .inl ((accepted_ok _).harmless _)⟩
        exact hachieved [] consoleOnly_nil
      · rename_i hlogin
        simp only [Bool.or_eq_true, Bool.not_eq_eq_eq_not, Bool.not_true,
          decide_eq_true_eq, not_or, Bool.not_eq_false] at hlogin
        cases haccount : profile.linux.account with
        | none =>
            obtain ⟨front, c, rfl, hpoll⟩ := h₃.last state rfl
            obtain ⟨hstate, hmem⟩ := mem_of_requested hpoll
            have hshown : stateAfter profile c.ring cursor = .linuxLogin := by
              rw [hstate]
              simpa [hlogin.2] using hmem
            unfold loginAfterBoot
            rw [haccount]
            exact .throw ⟨by simp, .inr ⟨hlogin.1, haccount, hs.switchable,
              cursor, c, by simp, hshown⟩⟩
        | some account =>
            refine .mono (.of_console (loginAfterBoot_console haccount _)) ?_
            rintro r t₄ ⟨hr, h₄, -⟩
            exact ⟨fun _ _ => hachieved t₄ h₄, .inl (hr.harmless _)⟩
  · rintro e t ⟨ht, hreject⟩
    refine ⟨by simp, .inl ?_⟩
    rintro _ ⟨⟩ he
    rw [(hreject he).1]
    exact inert_nil

/-! ## `graceful_power_off` -/

/-- The relay can be refused after the shutdown only for a bad identity. -/
structure RelayRefused (profile : BoardProfile) (t : List Event) : Prop where
  bad : ∃ e, BadIdentity profile e
  command : profile.linux.shutdownCommand ≠ none
  shell : ∃ c, .looked c ∈ t ∧
    generationState profile c.ring = .linuxShell
  shutdown : ∃ c, .looked c ∈ t ∧
    generationState profile c.ring = .shutdownInProgress

theorem RelayRefused.mono {s t : List Event} (h : RelayRefused profile s)
    (hst : s ⊆ t) : RelayRefused profile t := by
  obtain ⟨c, hmem, hshell⟩ := h.shell
  obtain ⟨c', hmem', hshutdown⟩ := h.shutdown
  exact ⟨h.bad, h.command, ⟨c, hst hmem, hshell⟩, c', hst hmem', hshutdown⟩

/-- What `graceful_power_off` does under the lease. -/
theorem gracefulPowerOffAction_runs :
    Runs free (gracefulPowerOffAction profile) fun r t =>
      (∀ a, r = .ok a → Achieved profile false t) ∧
        (Harmless r t ∨ RelayRefused profile t) := by
  refine .bind observedState_runs ?_ ?_
  · rintro _ _ ⟨shell, ⟨⟩, rfl⟩
    split
    · exact .throw ⟨by simp, .inl (harmless_of_accepted rfl _)⟩
    · rename_i hshell
      have hshell := Decidable.not_not.mp hshell
      split
      · refine .throw ⟨by simp, .inl fun _ _ _ => ?_⟩
        simp [Event.isEffect]
      · rename_i shutdown hcommand
        refine .afterConsole (writeConsole_console _) (fun _ t₁ h₁ => ?_)
          fun e _ he _ => ⟨by simp, .inl (harmless_of_accepted he _)⟩
        refine .afterConsole (isConsole_sleep _) (fun _ t₂ h₂ => ?_)
          fun e _ he _ => ⟨by simp, .inl (harmless_of_accepted he _)⟩
        refine .afterConsole (writeConsole_console _) (fun _ t₃ h₃ => ?_)
          fun e _ he _ => ⟨by simp, .inl (harmless_of_accepted he _)⟩
        refine .bind (waitForStates_runs _ _ _) ?_ fun e t₄ h₄ =>
          ⟨by simp, .inl (harmless_of_accepted
            (accepted_error.mp h₄.accepted) _)⟩
        intro state t₄ h₄
        obtain ⟨front, c, rfl, hpoll⟩ := h₄.last state rfl
        have hshutdown : generationState profile c.ring =
            .shutdownInProgress := by
          obtain ⟨hstate, hmem⟩ := mem_of_requested hpoll
          rw [hstate]
          simpa using hmem
        refine .bind (setPower_runs false) ?_ ?_
        · intro observation s hs
          refine .pure ⟨fun _ _ => ?_, .inl ((accepted_ok _).harmless _)⟩
          have := hs.achieved ([.looked shell] ++ t₁ ++ t₂ ++ t₃ ++
            (front ++ [.looked c])) consoleOnly_nil
          simpa using this
        · intro e s hs
          refine ⟨by simp, ?_⟩
          cases he : e.code.isRejection with
          | false => exact .inl (harmless_of_accepted he _)
          | true =>
              refine .inr ⟨⟨e, (hs.inert_of_rejected he).1⟩,
                by simp [hcommand], ⟨shell, by simp, hshell⟩,
                ⟨c, by simp, hshutdown⟩⟩
  · rintro e t ⟨c, ⟨⟩, -⟩

/-! ## `power_cycle` -/

/-- What `power_cycle` does under the lease. -/
inductive PowerCycleTrace (profile : BoardProfile) :
    Result Performed → List Event → Prop
  | notOff {e : Error} {s : List Event}
      (hoff : SetPowerTrace profile false (.error e) s) :
      PowerCycleTrace profile (.error e) s
  | restored {off on : PowerObservation} {performed : Performed}
      {s s' : List Event} {c : Console}
      (hoff : SetPowerTrace profile false (.ok off) s)
      (hon : SetPowerTrace profile true (.ok on) s') :
      PowerCycleTrace profile (.ok performed)
        (s ++ .slept profile.timing.powerCycleOffMs :: s' ++ [.marked c])
  | retried {off : PowerObservation} {e : Error}
      {retry : Result PowerObservation} {s s' s'' : List Event}
      (hoff : SetPowerTrace profile false (.ok off) s)
      (hon : SetPowerTrace profile true (.error e) s')
      (hretry : SetPowerTrace profile true retry s'') :
      PowerCycleTrace profile (.error e)
        (s ++ .slept profile.timing.powerCycleOffMs :: s' ++ s'')

/-- A rejection of `power_cycle` is harmless: after the relay has been switched
once, its identity is known to be good. -/
theorem PowerCycleTrace.harmless {e : Error} {t : List Event}
    (h : PowerCycleTrace profile (.error e) t) :
    Harmless (.error e : Result Performed) t := by
  cases h with
  | notOff hoff => exact hoff.harmless
  | retried hoff hon hretry =>
      obtain ⟨identity, hrelay, -⟩ := hoff.switchable
      exact harmless_of_accepted (accepted_error.mp (hon.accepted hrelay)) _

theorem powerCycleAction_runs :
    Runs free (powerCycleAction profile) (PowerCycleTrace profile) := by
  refine .bind (setPower_runs false) ?_ fun _ _ hoff => .notOff hoff
  intro off s hoff
  refine .bind (.event (fun _ _ => rfl) (fun _ _ => rfl)
    fun _ _ _ _ => trivial) ?_ ?_
  · rintro ⟨⟩ _ ⟨-, -, -, -, -, rfl⟩
    refine .bind (setPower_runs true).attempt ?_ ?_
    · rintro r s' ⟨_, hr, hon⟩
      cases hr
      cases r with
      | ok on =>
          refine .bind (.event (fun _ _ => rfl) (fun _ _ => rfl)
            fun _ _ _ hbase => hbase.1) ?_ ?_
          · rintro generation _ ⟨-, -, c, -, -, rfl⟩
            exact .pure (by simpa using PowerCycleTrace.restored hoff hon)
          · rintro e t ⟨generation, c, c', ⟨⟩, -⟩
      | error e =>
          refine .bind (setPower_runs true).attempt ?_ ?_
          · rintro retry s'' ⟨_, hr, hretry⟩
            cases hr
            exact .throw (by simpa using PowerCycleTrace.retried hoff hon hretry)
          · rintro e t ⟨r, ⟨⟩, -⟩
    · rintro e t ⟨r, ⟨⟩, -⟩
  · rintro e t ⟨u, c, c', ⟨⟩, -⟩

end PowerOperations

end RpictlMcp
