/-
  SudoWhat.Sudo.NonConsoleOption — what the `nonConsole` option means, end to end.

  `permits` is the option as its description states it. The Nix text, the chain, the two
  pam_sudowhat roles and the plugin's classifier and tables together compute that for a
  non-console caller, over the parent chain spliced behind the integrity line
  (`allowed_nonConsole_iff`). The integrity line answers PAM_SUCCESS, so `password` lets
  one more kind of parent chain through than those that succeed: one that is inert, with
  no module succeeding and no required, requisite or binding one failing
  (`inert_parent_lets_through`). A console caller authenticates without the parent chain
  (`console_authenticates`) and is allowed only by a waiver or a sheet (`allowed_console`).
-/

import SudoWhat.Sudo.Invocation

namespace SudoWhat.Sudo

open SudoWhat.Lib SudoWhat.Lib.PamChain SudoWhat.Plugin SudoWhat.Pam SudoWhat.Nix

/-- What each value lets a non-console caller do. -/
def permits : NonConsole → (waived parent : Bool) → Bool
  | .password, waived, parent => waived || parent
  | .nopasswdOnly, waived, _ => waived
  | .deny, _, _ => false

/-- The policy step's rule and the plugin's table make the option's rule. -/
theorem permits_eq (v : NonConsole) (waived parent : Bool) :
    permits v waived parent = ((waived || admits v false parent) && swNonconsoleAllows v.chain (!waived)) := by
  cases v <;> cases waived <;> cases parent <;> rfl

/-- The integrity role and the signatures pass, both phases put the caller in the same
    class, nothing is asked on the terminal, and the terminal answers. -/
structure Undisturbed (b : Build) (inv : Invocation) (authSeat checkSeat : Seat) : Prop where
  sameClass : authSeat.isConsole inv.uid = checkSeat.isConsole inv.uid
  integrity : (inv.stack.auth 0).intact b
  bundles : inv.env.bundlesIntact
  unconfirmed : b.execConfirm = false
  answers : Answers (inv.env.tty .execLine).write

section

variable {b : Build} {v : NonConsole} (inst : Installed b v) {inv : Invocation} {authSeat checkSeat : Seat}

theorem allowed_of_shown (h : Undisturbed b inv authSeat checkSeat) (hc : authSeat.isConsole inv.uid = false)
    (hshown : inv.ShowsLine b inst.text checkSeat (!inv.waived)) :
    inv.allowed b inst.text authSeat checkSeat false ↔ permits v inv.waived (passesBehind inv.stack.parent) = true := by
  have hcheck : (inv.envAt inst.text checkSeat).isConsole inv.uid = false := by
    rw [isConsole_envAt, ← h.sameClass, hc]
  have hbundles : (inv.envAt inst.text checkSeat).bundlesIntact := h.bundles
  have hshape : swNonconsoleChainOf b.pamPath (inv.envAt inst.text checkSeat).sudoLocal = v.chain :=
    swNonconsoleChainOf_authLines inst.reads
  unfold Invocation.allowed Invocation.check
  rw [authenticate_success_iff inst h.integrity, authenticate_marker, Bool.or_false, hc,
    check_nonConsole_allow_iff (stepAsideAsks_off h.unconfirmed _ _) hbundles inv.captured inv.notRoot hcheck, hshape,
    permits_eq, Bool.and_eq_true]
  exact ⟨fun ⟨ha, hs, _⟩ => ⟨ha, hs⟩, fun ⟨ha, hs⟩ => ⟨ha, hs, hshown⟩⟩

/-- Behind the integrity line a parent chain lets through what it would on its own, and
    everything where it is inert. -/
theorem permits_behind (v : NonConsole) (waived : Bool) (parent : List (Call Entry)) :
    permits v waived (passesBehind parent) = true ↔
      permits v waived (passes parent) = true ∨ (v = .password ∧ Inert parent) := by
  cases v with
  | password =>
    simp only [permits, Bool.or_eq_true, passesBehind_iff, true_and]
    exact or_assoc.symm
  | nopasswdOnly => simp [permits]
  | deny => simp [permits]

/-- A non-console caller is allowed exactly as the option says, or past an inert parent. -/
theorem allowed_nonConsole_iff (h : Undisturbed b inv authSeat checkSeat) (hc : authSeat.isConsole inv.uid = false) :
    ∃ enough, ∀ fuel ≥ enough, ((inv.withFuel fuel).allowed b inst.text authSeat checkSeat false ↔
      permits v inv.waived (passes inv.stack.parent) = true ∨ (v = .password ∧ Inert inv.stack.parent)) := by
  obtain ⟨enough, he⟩ := showsLine_enough b inst.text checkSeat (!inv.waived) h.answers
  refine ⟨enough, fun fuel hf => ?_⟩
  have h' : Undisturbed b (inv.withFuel fuel) authSeat checkSeat :=
    ⟨h.sameClass, h.integrity, h.bundles, h.unconfirmed, h.answers⟩
  rw [← permits_behind]
  exact allowed_of_shown inst h' hc (he fuel hf)

/-- A console caller's authentication passes and never calls the parent chain. -/
theorem console_authenticates (hi : (inv.stack.auth 0).intact b) (hc : authSeat.isConsole inv.uid = true) :
    (inv.authenticate b inst.text authSeat false).success = true ∧
      parentCalls b (inv.stackAt authSeat) inst.text = [] := by
  refine ⟨(authenticate_success_iff inst hi).mpr ?_, moduleStack_parent_untouched _ inst (.inr ?_)⟩
  · rw [hc]
    cases v <;> simp [admits]
  · rw [isConsole_stackAt, hc]

/-- A console caller is allowed only by a waiver the plugin defers to, or by a sheet. -/
theorem allowed_console (hc : checkSeat.isConsole inv.uid = true)
    (h : inv.allowed b inst.text authSeat checkSeat false) :
    (inv.waived = true ∧ b.policyDeference = true) ∨ SheetApproved (inv.check b inst.text checkSeat (!inv.waived)) := by
  have hallow := h.2
  rw [authenticate_marker, Bool.or_false] at hallow
  rcases check_console_allow hc hallow with ⟨hd, hm⟩ | happ
  · exact .inl ⟨by simpa using hm, hd⟩
  · exact .inr happ

/-- A console caller sudoers waived is allowed, where the plugin defers to that. -/
theorem allowed_console_waived (h : Undisturbed b inv authSeat checkSeat) (hc : checkSeat.isConsole inv.uid = true)
    (hw : inv.waived = true) (hd : b.policyDeference = true) {path : Bytes}
    (hcmd : resolvedCommand inv.commandInfo = some path) :
    ∃ enough, ∀ fuel ≥ enough, (inv.withFuel fuel).allowed b inst.text authSeat checkSeat false := by
  have htty : Answers ((inv.envAt inst.text checkSeat).tty .execLine).write := h.answers
  obtain ⟨enough, he⟩ := emitExecLine_answers b htty (some path) inv.runArgv .grouped none (swColorAllowed inv.ctx)
  refine ⟨enough, fun fuel hf => ?_⟩
  have hskips : deferSkips b ((inv.withFuel fuel).envAt inst.text checkSeat) false = true :=
    deferSkips_iff.mpr ⟨hd, rfl, hasIntegrityLine_authLines inst.reads⟩
  have hauth : (inv.withFuel fuel).authenticate b inst.text authSeat false = ⟨true, false⟩ :=
    authenticate_skipped (.inl hw)
  unfold Invocation.allowed
  rw [hauth]
  exact ⟨rfl, check_deferred_allow h.bundles inv.captured inv.notRoot hc hcmd hskips (he fuel hf)⟩

end

/-- The module's text for a value, or any text the plugin reads as nopasswd-only. -/
def StandsFor (pkg : PackagePath) (v : NonConsole) (text : Text) : Prop :=
  text = sudoLocalText pkg v ∨
    (v = .nopasswdOnly ∧ swNonconsoleChainOf pkg.pamPath (some text) = .nopasswdOnly)

theorem installed_of_standsFor {b : Build} {pkg : PackagePath} {v : NonConsole} {text : Text}
    (hp : b.pamPath = pkg.pamPath) (h : StandsFor pkg v text) : ∃ inst : Installed b v, inst.text = text := by
  rcases h with h | ⟨hv, h⟩
  · exact ⟨.ofModule pkg v hp, h.symm⟩
  · subst hv
    exact ⟨.ofAccepted pkg hp text (by rw [hp]; exact h), rfl⟩

/-- An unwaived call over a parent chain whose one module is sufficient and fails. -/
def smartcardOnlyCall : Invocation :=
  { plainCall 501 (by decide) false false with
    stack := { (plainCall 501 (by decide) false false).stack with
      parent := [⟨.sufficient, ⟨.sufficient, "pam_smartcard.so".toList, []⟩, .failure⟩] } }

end SudoWhat.Sudo
