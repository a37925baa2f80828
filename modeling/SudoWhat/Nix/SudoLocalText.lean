/-
  SudoWhat.Nix.SudoLocalText — the `sudo_local` the nix-darwin module writes for each
  `nonConsole` value (`nix/module.nix`), and what the plugin reads off it.

  The plugin has no other channel for the option than this text. Proved, for every package
  path without blanks or line feeds: the tokenized text is exactly the value's auth lines
  (`confLines_sudoLocalText`), so the classifier reads the value back
  (`swNonconsoleChainOf_sudoLocalText`) and finds the integrity line under all three.
-/

import SudoWhat.Plugin.SudoLocal

namespace SudoWhat.Nix

open SudoWhat.Lib SudoWhat.Plugin

/-- The module's `nonConsole` option. -/
inductive NonConsole where
  | password
  | nopasswdOnly
  | deny
  deriving DecidableEq, Repr

/-- A package path without blanks or line breaks. -/
structure PackagePath where
  path : Text
  plain : ∀ c ∈ path, isWhitespace c = false ∧ c ≠ '\n'

def PackagePath.pamPath (pkg : PackagePath) : Text := pkg.path ++ "/lib/pam/pam_sudowhat.so".toList

/-! ## The three texts -/

def passwordComment : List String := [
  "# Managed by the sudowhat nix-darwin module (nonConsole = \"password\").",
  "#",
  "#   requisite  pam_sudowhat.so                - integrity; aborts sudo on tamper",
  "#   sufficient pam_sudowhat.so console-gate    - PAM_SUCCESS iff the caller is the",
  "#                                                local console (GUI) user, so the",
  "#                                                console user is never asked for a",
  "#                                                password (Touch ID gates them in the",
  "#                                                approval plugin). For a non-console",
  "#                                                caller it fails, so the parent",
  "#                                                /etc/pam.d/sudo chain falls through to",
  "#                                                pam_smartcard / pam_opendirectory on",
  "#                                                the caller's own terminal."]

def nopasswdOnlyComment : List String := [
  "# Managed by the sudowhat nix-darwin module (nonConsole = \"nopasswd-only\").",
  "#",
  "#   requisite  pam_sudowhat.so               - integrity; aborts sudo on tamper",
  "#   requisite  pam_sudowhat.so console-only  - the local console (GUI) user",
  "#                                              passes on; anyone else gets",
  "#                                              one line and sudo stops, so",
  "#                                              a command that needs",
  "#                                              authentication never runs",
  "#                                              for them and no credential",
  "#                                              is cached",
  "#   sufficient pam_permit.so                 - ends the chain for the",
  "#                                              console user (Touch ID gates",
  "#                                              them in the approval plugin)",
  "#",
  "# Commands sudoers runs without authentication never reach PAM; the",
  "# approval plugin runs them for a non-console caller only under this",
  "# exact chain."]

def denyComment : List String := [
  "# Managed by the sudowhat nix-darwin module (nonConsole = \"deny\").",
  "#",
  "#   requisite  pam_sudowhat.so   - integrity; failure aborts sudo immediately",
  "#   sufficient pam_permit.so     - success terminates the auth chain so the",
  "#                                  parent /etc/pam.d/sudo never falls back",
  "#                                  to pam_smartcard / pam_opendirectory.",
  "#                                  Non-console callers are denied by the",
  "#                                  approval plugin (no password path here)."]

def requisiteLine (pkg : PackagePath) : Text := "auth    requisite     ".toList ++ pkg.pamPath

def gateLine (pkg : PackagePath) : Text := "auth    sufficient    ".toList ++ pkg.pamPath ++ " console-gate".toList

def consoleOnlyLine (pkg : PackagePath) : Text :=
  "auth    requisite     ".toList ++ pkg.pamPath ++ " console-only".toList

def permitLine : Text := "auth    sufficient    pam_permit.so".toList

def comment : NonConsole → List String
  | .password => passwordComment
  | .nopasswdOnly => nopasswdOnlyComment
  | .deny => denyComment

def chainLines (pkg : PackagePath) : NonConsole → List Text
  | .password => [requisiteLine pkg, gateLine pkg]
  | .nopasswdOnly => [requisiteLine pkg, consoleOnlyLine pkg, permitLine]
  | .deny => [requisiteLine pkg, permitLine]

/-- `environment.etc."pam.d/sudo_local".text`. -/
def sudoLocalText (pkg : PackagePath) (v : NonConsole) : Text :=
  unlines ((comment v).map String.toList ++ chainLines pkg v)

/-- The auth lines of each text, tokenized. -/
def authLines (pamPath : Text) : NonConsole → List (List Text)
  | .password => [[authWord, requisiteWord, pamPath], [authWord, sufficientWord, pamPath, gateArg]]
  | .nopasswdOnly => nopasswdOnlyLines pamPath
  | .deny => [[authWord, requisiteWord, pamPath], [authWord, sufficientWord, permitModule]]

/-- The classifier's value for each option value. -/
def NonConsole.chain : NonConsole → NonconsoleChain
  | .password => .password
  | .nopasswdOnly => .nopasswdOnly
  | .deny => .deny

/-! ## Reading a line back -/

theorem plain_of_all {path : Text} (h : (path.all fun c => !isWhitespace c && c != '\n') = true) :
    ∀ c ∈ path, isWhitespace c = false ∧ c ≠ '\n' := by
  intro c hc
  simpa using List.all_eq_true.mp h c hc

theorem pamPath_plain (pkg : PackagePath) : ∀ c ∈ pkg.pamPath, isWhitespace c = false ∧ c ≠ '\n' := by
  intro c hc
  rcases List.mem_append.mp hc with h | h
  · exact pkg.plain c h
  · exact @plain_of_all "/lib/pam/pam_sudowhat.so".toList (by decide) c h

theorem pamPath_ne_nil (pkg : PackagePath) : pkg.pamPath ≠ [] := by simp [PackagePath.pamPath]

theorem fields_pamPath (pkg : PackagePath) : Fields.fields isWhitespace pkg.pamPath = [pkg.pamPath] :=
  Fields.fields_word (pamPath_ne_nil pkg) fun c hc => (pamPath_plain pkg c hc).1

theorem fields_pamPath_arg (pkg : PackagePath) (arg : Text) :
    Fields.fields isWhitespace (pkg.pamPath ++ ' ' :: arg) = pkg.pamPath :: Fields.fields isWhitespace arg :=
  Fields.fields_word_blank arg (pamPath_ne_nil pkg) (fun c hc => (pamPath_plain pkg c hc).1) rfl

/-- A facility and a control flag, each followed by blanks, before the rest of a line. -/
theorem confLine_auth (control : Text) (pad rest : Text) (hc : Fields.fields isWhitespace (pad ++ control) = [control]) :
    confLine (authWord ++ ' ' :: (pad ++ control ++ ' ' :: rest)) =
      some (authWord :: control :: Fields.fields isWhitespace rest) := by
  have hauth : Fields.fields isWhitespace authWord = [authWord] := rfl
  have h := confLine_cons (c := 'a') rfl (by decide) ("uth".toList ++ ' ' :: (pad ++ control ++ ' ' :: rest))
  have e : 'a' :: ("uth".toList ++ ' ' :: (pad ++ control ++ ' ' :: rest)) =
      authWord ++ ' ' :: (pad ++ control ++ ' ' :: rest) := rfl
  rw [e, Fields.fields_append_blank _ _ rfl, Fields.fields_append_blank _ _ rfl, hauth, hc] at h
  exact h

theorem confLine_requisiteLine (pkg : PackagePath) :
    confLine (requisiteLine pkg) = some [authWord, requisiteWord, pkg.pamPath] := by
  have h := confLine_auth requisiteWord "   ".toList ("    ".toList ++ pkg.pamPath) rfl
  have hf : Fields.fields isWhitespace ("    ".toList ++ pkg.pamPath) = [pkg.pamPath] := fields_pamPath pkg
  rw [hf] at h
  exact h

theorem confLine_gateLine (pkg : PackagePath) :
    confLine (gateLine pkg) = some [authWord, sufficientWord, pkg.pamPath, gateArg] := by
  have h := confLine_auth sufficientWord "   ".toList ("   ".toList ++ (pkg.pamPath ++ ' ' :: gateArg)) rfl
  have hf : Fields.fields isWhitespace ("   ".toList ++ (pkg.pamPath ++ ' ' :: gateArg)) = [pkg.pamPath, gateArg] :=
    fields_pamPath_arg pkg gateArg
  rw [hf] at h
  exact h

theorem confLine_consoleOnlyLine (pkg : PackagePath) :
    confLine (consoleOnlyLine pkg) = some [authWord, requisiteWord, pkg.pamPath, consoleOnlyArg] := by
  have h := confLine_auth requisiteWord "   ".toList ("    ".toList ++ (pkg.pamPath ++ ' ' :: consoleOnlyArg)) rfl
  have hf : Fields.fields isWhitespace ("    ".toList ++ (pkg.pamPath ++ ' ' :: consoleOnlyArg)) =
      [pkg.pamPath, consoleOnlyArg] := fields_pamPath_arg pkg consoleOnlyArg
  rw [hf] at h
  exact h

theorem confLine_permitLine : confLine permitLine = some [authWord, sufficientWord, permitModule] := by decide

/-! ## Reading the option back -/

/-- A line the module writes as a comment. -/
def IsComment (l : Text) : Prop := '\n' ∉ l ∧ confLine l = none

/-- The characters of a literal are read off the literal, not decoded from its bytes. -/
theorem isComment_ofList {cs : Text} (h : cs.contains '\n' = false) :
    IsComment (String.ofList ('#' :: cs)).toList := by
  rw [String.toList_ofList]
  refine ⟨?_, confLine_comment cs⟩
  simpa using h

theorem isComment_comment (v : NonConsole) : ∀ l ∈ comment v, IsComment l.toList := by
  cases v with
  | password =>
    simp only [comment, passwordComment, List.forall_mem_cons]
    refine ⟨?_, ?_, ?_, ?_, ?_, ?_, ?_, ?_, ?_, ?_, ?_, ?_, ?_⟩
    case refine_13 => simp
    all_goals exact isComment_ofList rfl
  | nopasswdOnly =>
    simp only [comment, nopasswdOnlyComment, List.forall_mem_cons]
    refine ⟨?_, ?_, ?_, ?_, ?_, ?_, ?_, ?_, ?_, ?_, ?_, ?_, ?_, ?_, ?_, ?_, ?_, ?_⟩
    case refine_18 => simp
    all_goals exact isComment_ofList rfl
  | deny =>
    simp only [comment, denyComment, List.forall_mem_cons]
    refine ⟨?_, ?_, ?_, ?_, ?_, ?_, ?_, ?_, ?_⟩
    case refine_9 => simp
    all_goals exact isComment_ofList rfl

theorem chainLines_lf (pkg : PackagePath) (v : NonConsole) : ∀ l ∈ chainLines pkg v, '\n' ∉ l := by
  have hp : '\n' ∉ pkg.pamPath := fun h => (pamPath_plain pkg _ h).2 rfl
  have hr : '\n' ∉ requisiteLine pkg := List.not_mem_append (by decide) hp
  have hg : '\n' ∉ gateLine pkg := List.not_mem_append (List.not_mem_append (by decide) hp) (by decide)
  have hc : '\n' ∉ consoleOnlyLine pkg := List.not_mem_append (List.not_mem_append (by decide) hp) (by decide)
  have ht : '\n' ∉ permitLine := by decide
  cases v <;> simp only [chainLines, List.forall_mem_cons, List.not_mem_nil, false_implies, implies_true,
    hr, hg, hc, ht, not_false_eq_true, and_self]

theorem confLines_sudoLocalText (pkg : PackagePath) (v : NonConsole) :
    confLines (sudoLocalText pkg v) = authLines pkg.pamPath v := by
  have h0 : ((comment v).map String.toList).filterMap confLine = [] := by
    simp only [List.filterMap_eq_nil_iff, List.mem_map]
    rintro _ ⟨l, h, rfl⟩
    exact (isComment_comment v l h).2
  rw [sudoLocalText, confLines_unlines, List.filterMap_append, h0, List.nil_append]
  · cases v <;> simp only [chainLines, List.filterMap_cons, List.filterMap_nil, confLine_requisiteLine,
      confLine_gateLine, confLine_consoleOnlyLine, confLine_permitLine, authLines, nopasswdOnlyLines]
  · intro l h
    rcases List.mem_append.mp h with h | h
    · obtain ⟨s, hs, rfl⟩ := List.mem_map.mp h
      exact (isComment_comment v s hs).1
    · exact chainLines_lf pkg v l h

theorem swNonconsoleChainOf_authLines {pamPath text : Text} {v : NonConsole} (h : confLines text = authLines pamPath v) :
    swNonconsoleChainOf pamPath (some text) = v.chain := by
  simp only [swNonconsoleChainOf, sudowhatTextIsGateVariant, sudowhatTextIsNopasswdOnlyVariant, swPamLines,
    Option.map_some, h]
  cases v with
  | password => simp [authLines, isIntegrityLine, isGateLine, NonConsole.chain]
  | nopasswdOnly => simp [authLines, nopasswdOnlyLines, isGateLine, requisite_ne_sufficient, NonConsole.chain]
  | deny => simp [authLines, nopasswdOnlyLines, isGateLine, NonConsole.chain]

theorem hasIntegrityLine_authLines {pamPath text : Text} {v : NonConsole} (h : confLines text = authLines pamPath v) :
    sudowhatTextHasIntegrityLine pamPath (some text) = true := by
  refine hasIntegrityLine_iff.mpr ⟨_, rfl, ?_⟩
  rw [h]
  cases v <;> simp [authLines, nopasswdOnlyLines]

theorem swNonconsoleChainOf_sudoLocalText (pkg : PackagePath) (v : NonConsole) :
    swNonconsoleChainOf pkg.pamPath (some (sudoLocalText pkg v)) = v.chain :=
  swNonconsoleChainOf_authLines (confLines_sudoLocalText pkg v)

theorem hasIntegrityLine_sudoLocalText (pkg : PackagePath) (v : NonConsole) :
    sudowhatTextHasIntegrityLine pkg.pamPath (some (sudoLocalText pkg v)) = true :=
  hasIntegrityLine_authLines (confLines_sudoLocalText pkg v)

end SudoWhat.Nix
