/-
  SudoWhat.Pam.ModuleChain — the verdict of the auth stack under the three `sudo_local`
  texts the nix-darwin module writes.

  Under each the integrity line comes first, so a run that reads its policy sets the
  marker (`moduleStack_marker`), and the verdict is the option's own rule over the
  classification and the parent chain behind the integrity line's success
  (`moduleStack_success_iff`). The parent chain is called only for a non-console caller
  under `password` (`moduleStack_parent_untouched`).
-/

import SudoWhat.Nix.SudoLocalText
import SudoWhat.Pam.Stack

namespace SudoWhat.Pam

open SudoWhat.Lib SudoWhat.Lib.PamChain SudoWhat.Plugin SudoWhat.Nix

/-- A sudo_local text with the auth lines the module writes for a value. -/
structure Installed (b : Build) (v : NonConsole) where
  text : Text
  reads : confLines text = authLines b.pamPath v
  notPermit : b.pamPath ≠ permitModule

theorem pamPath_ne_permit (pkg : PackagePath) : pkg.pamPath ≠ permitModule := by
  intro h
  have hslash : '/' ∈ permitModule := h ▸ List.mem_append_right pkg.path (by decide)
  exact absurd hslash (by decide)

/-- The text the module writes for the package whose bundle is installed. -/
def Installed.ofModule {b : Build} (pkg : PackagePath) (v : NonConsole) (hp : b.pamPath = pkg.pamPath) :
    Installed b v where
  text := sudoLocalText pkg v
  reads := by rw [hp]; exact confLines_sudoLocalText pkg v
  notPermit := by rw [hp]; exact pamPath_ne_permit pkg

/-- Any text the plugin reads as the nopasswd-only variant. -/
def Installed.ofAccepted {b : Build} (pkg : PackagePath) (hp : b.pamPath = pkg.pamPath) (text : Text)
    (h : swNonconsoleChainOf b.pamPath (some text) = .nopasswdOnly) : Installed b .nopasswdOnly where
  text := text
  reads := by
    obtain ⟨_, ht, hl⟩ := chainOf_nopasswdOnly h
    cases ht
    exact hl
  notPermit := by rw [hp]; exact pamPath_ne_permit pkg

/-! ## The chain -/

/-- The entries of each text. -/
def chainEntries (pamPath : Text) : NonConsole → List Entry
  | .password => [⟨.requisite, pamPath, []⟩, ⟨.sufficient, pamPath, [gateArg]⟩]
  | .nopasswdOnly =>
    [⟨.requisite, pamPath, []⟩, ⟨.requisite, pamPath, [consoleOnlyArg]⟩, ⟨.sufficient, permitModule, []⟩]
  | .deny => [⟨.requisite, pamPath, []⟩, ⟨.sufficient, permitModule, []⟩]

theorem readPolicy_authLines (includes : Text → Option (List Entry)) (pamPath : Text) (v : NonConsole) :
    readPolicy includes (authLines pamPath v) = some (chainEntries pamPath v) := by
  cases v <;> simp [authLines, nopasswdOnlyLines, readPolicy, chainEntries,
    readLine_auth requisite_ne_include controlOf_requisite, readLine_auth sufficient_ne_include controlOf_sufficient]

variable {b : Build} {v : NonConsole} (env : StackEnv)

theorem stackCalls_installed (inst : Installed b v) :
    stackCalls b env inst.text = some (localCalls b env (chainEntries b.pamPath v) ++ env.parent) := by
  rw [stackCalls, inst.reads, readPolicy_authLines]
  rfl

/-- The first call is the integrity line's, then the option's own. -/
theorem localCalls_chainEntries (hp : b.pamPath ≠ permitModule) :
    localCalls b env (chainEntries b.pamPath v) =
      ⟨.requisite, ⟨.requisite, b.pamPath, []⟩, (integrity b (env.auth 0)).code.outcome⟩ ::
        match v with
        | .password =>
          [⟨.sufficient, ⟨.sufficient, b.pamPath, [gateArg]⟩, (consoleGate (env.auth 1)).code.outcome⟩]
        | .nopasswdOnly =>
          [⟨.requisite, ⟨.requisite, b.pamPath, [consoleOnlyArg]⟩, (consoleOnly (env.auth 1)).code.outcome⟩,
            ⟨.sufficient, ⟨.sufficient, permitModule, []⟩, .success⟩]
        | .deny => [⟨.sufficient, ⟨.sufficient, permitModule, []⟩, .success⟩] := by
  cases v <;> simp [localCalls, chainEntries, callOutcome, roleReply_nil, roleReply_gate, roleReply_consoleOnly, hp.symm]

/-- pam_sudowhat never says PAM_IGNORE. -/
theorem outcome_failure {c : PamCode} (h : c ≠ .success) : c.outcome = .failure := by
  cases c with
  | success => exact absurd rfl h
  | authErr => rfl
  | credInsufficient => rfl

/-- What each option value admits to, by the classification and the rest of the chain. -/
def admits : NonConsole → (console parent : Bool) → Bool
  | .password, console, parent => console || parent
  | .nopasswdOnly, console, _ => console
  | .deny, _, _ => true

/-- The calls of sudo_local leave the chain refused, or passed, or to the parent alone. -/
theorem run_localCalls (hp : b.pamPath ≠ permitModule) :
    (¬ (env.auth 0).intact b ∧ run (localCalls b env (chainEntries b.pamPath v)) start = .done false) ∨
      ((env.auth 0).intact b ∧ run (localCalls b env (chainEntries b.pamPath v)) start =
        match v, (env.auth 1).isConsole with
        | .password, true => .done true
        | .password, false => .on false true
        | .nopasswdOnly, console => .done console
        | .deny, _ => .done true) := by
  rw [localCalls_chainEntries env hp]
  by_cases hi : (env.auth 0).intact b
  · right
    have hint : (integrity b (env.auth 0)).code = .success := (integrity_success_iff b _).mpr hi
    refine ⟨hi, ?_⟩
    cases v with
    | password =>
      cases hc : (env.auth 1).isConsole with
      | true =>
        rw [hint, (gate_success_iff _).mpr hc]
        rfl
      | false =>
        have hg : (consoleGate (env.auth 1)).code.outcome = .failure :=
          outcome_failure fun hs => absurd ((gate_success_iff _).mp hs) (by simp [hc])
        rw [hint, hg]
        rfl
    | nopasswdOnly =>
      cases hc : (env.auth 1).isConsole with
      | true =>
        rw [hint, (consoleOnly_success_iff _).mpr hc]
        rfl
      | false =>
        have hg : (consoleOnly (env.auth 1)).code.outcome = .failure :=
          outcome_failure fun hs => absurd ((consoleOnly_success_iff _).mp hs) (by simp [hc])
        rw [hint, hg]
        rfl
    | deny =>
      rw [hint]
      rfl
  · left
    have hint : (integrity b (env.auth 0)).code.outcome = .failure :=
      outcome_failure fun hs => hi ((integrity_success_iff b _).mp hs)
    refine ⟨hi, ?_⟩
    rw [hint, run_cons]
    exact run_done _ _

/-- The stack's verdict is the option's rule, behind the integrity line. -/
theorem moduleStack_success_iff (inst : Installed b v) (marker : Bool) :
    (runStack b env inst.text marker).success = true ↔
      (env.auth 0).intact b ∧ admits v (env.auth 1).isConsole (passesBehind env.parent) = true := by
  simp only [runStack, stackCalls_installed, passes, run_append]
  rcases @run_localCalls b v env inst.notPermit with ⟨hi, hr⟩ | ⟨hi, hr⟩
  · rw [hr, run_done]
    simp [hi, Flow.verdict]
  · rw [hr]
    cases v with
    | password =>
      cases hc : (env.auth 1).isConsole with
      | true => simp [hi, admits, Flow.verdict]
      | false => simp [hi, admits, passesBehind]
    | nopasswdOnly => cases hc : (env.auth 1).isConsole <;> simp [hi, admits, Flow.verdict]
    | deny => simp [hi, admits, Flow.verdict]

theorem parentCalls_installed (inst : Installed b v) :
    parentCalls b env inst.text = ranFrom (run (localCalls b env (chainEntries b.pamPath v)) start) env.parent := by
  simp only [parentCalls, inst.reads, readPolicy_authLines]

/-- The parent chain is reached only by a non-console caller under `password`. -/
theorem moduleStack_parent_untouched (inst : Installed b v) (h : v ≠ .password ∨ (env.auth 1).isConsole = true) :
    parentCalls b env inst.text = [] := by
  rw [parentCalls_installed]
  rcases @run_localCalls b v env inst.notPermit with ⟨-, hr⟩ | ⟨-, hr⟩
  · rw [hr, ranFrom_done]
  · rw [hr]
    cases v with
    | password =>
      rw [h.resolve_left (by simp)]
      exact ranFrom_done _ _
    | nopasswdOnly => exact ranFrom_done _ _
    | deny => exact ranFrom_done _ _

/-- A non-console caller the stack passes under `password` had a parent module succeed,
    where the parent chain answers. -/
theorem moduleStack_factor (inst : Installed b .password) {marker : Bool} (hc : (env.auth 1).isConsole = false)
    (hanswers : ¬ Inert env.parent) (h : (runStack b env inst.text marker).success = true) :
    ∃ c ∈ parentCalls b env inst.text, c.outcome = .success := by
  obtain ⟨hi, ha⟩ := (moduleStack_success_iff env inst marker).mp h
  have hbehind : passesBehind env.parent = true := by simpa [admits, hc] using ha
  have hparent : passes env.parent = true := ((passesBehind_iff _).mp hbehind).resolve_right hanswers
  rw [parentCalls_installed]
  rcases @run_localCalls b .password env inst.notPermit with ⟨hn, -⟩ | ⟨-, hr⟩
  · exact absurd hi hn
  · rw [hr, hc]
    show ∃ c ∈ ranFrom (.on false true) env.parent, c.outcome = .success
    rw [ranFrom_ok _ false true false]
    exact exists_success_of_passes hparent

/-- A run sets the marker, whatever its verdict. -/
theorem moduleStack_marker (inst : Installed b v) (marker : Bool) : (runStack b env inst.text marker).marker = true := by
  have hfirst : ∀ (c : Call Entry) (cs : List (Call Entry)), isOwn b c = true → (ran (c :: cs)).any (isOwn b) = true := by
    intro c cs hc
    simp [ran, start, ranFrom, hc]
  simp only [runStack, stackCalls_installed, localCalls_chainEntries env inst.notPermit, List.cons_append,
    Bool.or_eq_true]
  exact .inr (hfirst _ _ (by simp [isOwn]))

end SudoWhat.Pam
