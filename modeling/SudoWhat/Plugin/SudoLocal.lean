/-
  SudoWhat.Plugin.SudoLocal — what the approval plugin reads off `/etc/pam.d/sudo_local`,
  and the three decisions that rest on it (`plugin/sudowhat_approval.m`).

  `swNonconsoleChainOf` classifies the text: the gate variant by the presence of its two
  lines, the nopasswd-only variant by its exact three, anything else as deny. The three
  decision tables read the marker in opposite fail-safe directions: the deference skip and
  the nopasswd-only step-aside need it absent, the confirm question is put when it is
  present.

  Proved: each decision as a condition on its inputs, and that both recognised variants
  carry the integrity line (`integrity_of_chain`), so that under either the confirm
  question is never put with the marker absent.
-/

import SudoWhat.Shared

namespace SudoWhat.Plugin

/-! ## The lines -/

def authWord : Text := "auth".toList
def requisiteWord : Text := "requisite".toList
def sufficientWord : Text := "sufficient".toList
def permitModule : Text := "pam_permit.so".toList

def swPamLines (content : Option Text) : Option (List (List Text)) := content.map confLines

variable (pamPath : Text)

/-- `auth requisite <SUDOWHAT_PAM_PATH>` and nothing after it. -/
def isIntegrityLine (f : List Text) : Bool := f == [authWord, requisiteWord, pamPath]

/-- `auth sufficient <SUDOWHAT_PAM_PATH> console-gate`, whatever follows. -/
def isGateLine : List Text → Bool
  | facility :: control :: mod :: arg :: _ =>
    facility == authWord && mod == pamPath && control == sufficientWord && arg == gateArg
  | _ => false

def sudowhatTextIsGateVariant (content : Option Text) : Bool :=
  match swPamLines content with
  | none => false
  | some lines => lines.any (isIntegrityLine pamPath) && lines.any (isGateLine pamPath)

def nopasswdOnlyLines : List (List Text) :=
  [[authWord, requisiteWord, pamPath], [authWord, requisiteWord, pamPath, consoleOnlyArg],
    [authWord, sufficientWord, permitModule]]

def sudowhatTextIsNopasswdOnlyVariant (content : Option Text) : Bool :=
  match swPamLines content with
  | none => false
  | some lines => lines == nopasswdOnlyLines pamPath

def sudowhatTextHasIntegrityLine (content : Option Text) : Bool :=
  match swPamLines content with
  | none => false
  | some lines => lines.any (isIntegrityLine pamPath)

/-- What the installed sudo_local lets a non-console caller do, read from its shape. -/
inductive NonconsoleChain where
  | deny
  | password
  | nopasswdOnly
  deriving DecidableEq, Repr

def swNonconsoleChainOf (content : Option Text) : NonconsoleChain :=
  if sudowhatTextIsGateVariant pamPath content then .password
  else if sudowhatTextIsNopasswdOnlyVariant pamPath content then .nopasswdOnly
  else .deny

/-! ## The decisions -/

/-- Whether the non-console branch steps aside. -/
def swNonconsoleAllows (chain : NonconsoleChain) (markerPresent : Bool) : Bool :=
  match chain with
  | .password => true
  | .nopasswdOnly => !markerPresent
  | .deny => false

/-- Whether the console user's sheet is skipped because sudoers waived authentication. -/
def swDeferDecision (deferenceOn markerPresent integrityInstalled : Bool) : Bool :=
  if !deferenceOn then false
  else if markerPresent then false
  else if !integrityInstalled then false
  else true

/-- Whether the confirm question is put. -/
def swConfirmDecision (confirmOn haveTty markerPresent integrityInstalled : Bool) : Bool :=
  if !confirmOn then false
  else if !haveTty then false
  else if markerPresent then true
  else if !integrityInstalled then true
  else false

/-! ## The tables as conditions -/

variable {pamPath}

theorem requisite_ne_sufficient : requisiteWord ≠ sufficientWord := by decide

theorem swDeferDecision_iff {on marker integrity : Bool} :
    swDeferDecision on marker integrity = true ↔ on = true ∧ marker = false ∧ integrity = true := by
  cases on <;> cases marker <;> cases integrity <;> decide

theorem swConfirmDecision_iff {on tty marker integrity : Bool} :
    swConfirmDecision on tty marker integrity = true ↔
      on = true ∧ tty = true ∧ (marker = true ∨ integrity = false) := by
  cases on <;> cases tty <;> cases marker <;> cases integrity <;> decide

theorem swNonconsoleAllows_iff {chain : NonconsoleChain} {marker : Bool} :
    swNonconsoleAllows chain marker = true ↔ chain = .password ∨ (chain = .nopasswdOnly ∧ marker = false) := by
  cases chain <;> cases marker <;> decide

/-! ## What a classified text holds -/

theorem hasIntegrityLine_iff {content : Option Text} :
    sudowhatTextHasIntegrityLine pamPath content = true ↔
      ∃ text, content = some text ∧ [authWord, requisiteWord, pamPath] ∈ confLines text := by
  cases content with
  | none => simp [sudowhatTextHasIntegrityLine, swPamLines]
  | some text => simp [sudowhatTextHasIntegrityLine, swPamLines, isIntegrityLine]

theorem chainOf_password_iff {content : Option Text} :
    swNonconsoleChainOf pamPath content = .password ↔ sudowhatTextIsGateVariant pamPath content = true := by
  unfold swNonconsoleChainOf
  split
  · simp [*]
  · split <;> simp [*]

theorem chainOf_nopasswdOnly {content : Option Text} (h : swNonconsoleChainOf pamPath content = .nopasswdOnly) :
    ∃ text, content = some text ∧ confLines text = nopasswdOnlyLines pamPath := by
  unfold swNonconsoleChainOf at h
  split at h
  · cases h
  · split at h
    · rename_i hn
      cases content with
      | none => simp [sudowhatTextIsNopasswdOnlyVariant, swPamLines] at hn
      | some text => exact ⟨text, rfl, by simpa [sudowhatTextIsNopasswdOnlyVariant, swPamLines] using hn⟩
    · cases h

theorem integrity_of_chain {content : Option Text} (h : swNonconsoleChainOf pamPath content ≠ .deny) :
    sudowhatTextHasIntegrityLine pamPath content = true := by
  cases hc : swNonconsoleChainOf pamPath content with
  | deny => exact absurd hc h
  | password =>
    rw [chainOf_password_iff] at hc
    unfold sudowhatTextIsGateVariant at hc
    unfold sudowhatTextHasIntegrityLine
    split at hc
    · cases hc
    · exact (Bool.and_eq_true_iff.mp hc).1
  | nopasswdOnly =>
    obtain ⟨text, rfl, hl⟩ := chainOf_nopasswdOnly hc
    exact hasIntegrityLine_iff.mpr ⟨text, rfl, by simp [hl, nopasswdOnlyLines]⟩

end SudoWhat.Plugin
