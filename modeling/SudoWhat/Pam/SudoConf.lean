/-
  SudoWhat.Pam.SudoConf — `SudoConfChecker`: whether `/etc/sudo.conf` loads the approval
  plugin.

  The file is accepted when some line's first three fields are `Plugin`, the symbol and
  the path. Proved: `verifyConf_ok_iff`.
-/

import SudoWhat.Shared

namespace SudoWhat.Pam

def pluginWord : Text := "Plugin".toList

/-- A line that registers the plugin: at least three fields, the first three these. -/
def isPluginLine (symbol pluginPath : Text) : List Text → Bool
  | word :: sym :: path :: _ => word == pluginWord && sym == symbol && path == pluginPath
  | _ => false

/-- `verifyConfPath:expectedSymbol:expectedPath:error:`. `content` is the file, or the
    description of the error that reading it gave. -/
def verifyConf (confPath symbol pluginPath : Text) (content : Except (Option Text) Text) : Except Text Unit :=
  match content with
  | .error (some description) => .error description
  | .error none => .error ("cannot read ".toList ++ confPath)
  | .ok text =>
    if (confLines text).any (isPluginLine symbol pluginPath) then .ok ()
    else .error (confPath ++ " has no 'Plugin ".toList ++ symbol ++ [' '] ++ pluginPath ++ "' line".toList)

theorem isPluginLine_iff {symbol pluginPath : Text} {f : List Text} :
    isPluginLine symbol pluginPath f = true ↔ ∃ rest, f = pluginWord :: symbol :: pluginPath :: rest := by
  match f with
  | [] | [_] | [_, _] => simp [isPluginLine]
  | a :: b :: c :: rest => simp [isPluginLine, and_assoc]

theorem verifyConf_ok_iff (confPath symbol pluginPath : Text) (content : Except (Option Text) Text) :
    verifyConf confPath symbol pluginPath content = .ok () ↔
      ∃ text rest, content = .ok text ∧ pluginWord :: symbol :: pluginPath :: rest ∈ confLines text := by
  match content with
  | .error none => simp [verifyConf]
  | .error (some d) => simp [verifyConf]
  | .ok text =>
    simp only [verifyConf, Except.ok.injEq]
    constructor
    · intro h
      split at h
      · next hany =>
        obtain ⟨f, hf, hl⟩ := List.any_eq_true.mp hany
        obtain ⟨rest, rfl⟩ := isPluginLine_iff.mp hl
        exact ⟨text, rest, rfl, hf⟩
      · cases h
    · rintro ⟨_, rest, rfl, hf⟩
      rw [if_pos (List.any_eq_true.mpr ⟨_, hf, isPluginLine_iff.mpr ⟨rest, rfl⟩⟩)]

end SudoWhat.Pam
