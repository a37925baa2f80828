/-
  SudoWhat.Shared — what both macOS bundles compile in: the constants, the session guard
  (`SessionGuard.m`) and the way a configuration text is read (`sw_pam_lines`, and the
  same loop in `SudoConfChecker.m`).

  Texts are lists of characters. A decoded file is an `Option Text`: `none` is a file that
  is absent, unreadable or not UTF-8.
-/

import SudoWhat.Lib.Fields
import SudoWhat.Lib.Utf8

namespace SudoWhat

open SudoWhat.Lib

abbrev Text := List Char
abbrev Bytes := List UInt8
abbrev Uid := UInt32

/-! ## Constants -/

/-- What a build bakes into both bundles: the paths, and the four build-time knobs. -/
structure Build where
  pluginPath : Text
  pamPath : Text
  echoColor : Bool
  execDisplay : Bool
  policyDeference : Bool
  execConfirm : Bool

/-- The stock paths, and every knob at its default. -/
def Build.stock : Build where
  pluginPath := "/usr/local/libexec/sudo/sudowhat_approval.so".toList
  pamPath := "/usr/local/lib/pam/pam_sudowhat.so".toList
  echoColor := true
  execDisplay := true
  policyDeference := true
  execConfirm := false

def pluginSymbol : Text := "sudowhat_approval_plugin".toList
def sudoConfPath : Text := "/etc/sudo.conf".toList

/-- The argument that selects pam_sudowhat's second role. -/
def gateArg : Text := "console-gate".toList

/-- The argument that selects its third. -/
def consoleOnlyArg : Text := "console-only".toList

/-! ## The session guard -/

/-- What `SessionGetInfo` says of the caller's security session. -/
structure SecuritySession where
  infoOk : Bool
  hasGraphicAccess : Bool
  isRemote : Bool
  deriving DecidableEq, Repr

/-- `(uid_t)-1`: no console user. -/
def noUid : Uid := 0xFFFFFFFF

/-- The caller's session is a local GUI session. -/
def SecuritySession.isLocalGui (session : SecuritySession) : Bool :=
  session.infoOk && session.hasGraphicAccess && !session.isRemote

def isInvokingUserActiveConsole (session : SecuritySession) (consoleUid invokingUid : Uid) : Bool :=
  if !session.isLocalGui then false
  else if consoleUid == noUid || consoleUid == 0 then false
  else consoleUid == invokingUid

theorem isInvokingUserActiveConsole_iff (session : SecuritySession) (consoleUid uid : Uid) :
    isInvokingUserActiveConsole session consoleUid uid = true ↔
      session.isLocalGui = true ∧ consoleUid = uid ∧ uid ≠ noUid ∧ uid ≠ 0 := by
  unfold isInvokingUserActiveConsole
  cases session.isLocalGui with
  | false => simp
  | true =>
    by_cases h : consoleUid = uid
    · subst h; simp
    · simp [h]

/-! ## C strings -/

/-- `NSString.UTF8String` read as a C string. -/
def cString (t : Text) : Bytes := (Utf8.encode t).takeWhile (· != 0)

/-- The string, or the fallback when it is nil or empty. -/
def utf8Or (s : Option Text) (fallback : Text) : Bytes :=
  match s with
  | some t => if cString t = [] then cString fallback else cString t
  | none => cString fallback

/-- What `vsnprintf` leaves in a buffer of `size` bytes. -/
def vsnprintf (size : Nat) (formatted : Bytes) : Bytes := formatted.take (size - 1)

/-- A C string literal. -/
def lit (s : String) : Bytes := Utf8.encode s.toList

/-- `%u`. -/
def decimal (n : Nat) : Text := Nat.toDigits 10 n

/-! ## Configuration texts -/

/-- `NSCharacterSet.whitespaceCharacterSet`: the space separators and TAB. -/
def isWhitespace (c : Char) : Bool :=
  c == '\t' || c == ' ' || c.toNat == 0xA0 || c.toNat == 0x1680 || (0x2000 ≤ c.toNat && c.toNat ≤ 0x200A)
    || c.toNat == 0x202F || c.toNat == 0x205F || c.toNat == 0x3000

/-- One raw line's tokens; a blank line or a `#` comment has none. -/
def confLine (rawLine : Text) : Option (List Text) :=
  let line := Fields.trim isWhitespace rawLine
  if line = [] ∨ line.head? = some '#' then none else some (Fields.fields isWhitespace line)

def confLines (content : Text) : List (List Text) := (content.splitOn '\n').filterMap confLine

/-- Lines, each with its line feed. -/
def unlines (ls : List Text) : Text := ls.flatMap (· ++ ['\n'])

@[simp] theorem confLine_nil : confLine [] = none := rfl

/-- A line that starts with a word character is the fields it spells. -/
theorem confLine_cons {c : Char} (hb : isWhitespace c = false) (hc : c ≠ '#') (x : Text) :
    confLine (c :: x) = some (Fields.fields isWhitespace (c :: x)) := by
  obtain ⟨y, hy⟩ := Fields.trim_cons hb x
  have hf := @Fields.fields_trim _ isWhitespace (c :: x)
  simp only [confLine, hf]
  simp [hy, hc]

/-- A `#` line holds no token. -/
theorem confLine_comment (x : Text) : confLine ('#' :: x) = none := by
  obtain ⟨y, hy⟩ := Fields.trim_cons (show isWhitespace '#' = false by decide) x
  simp [confLine, hy]

theorem splitOn_unlines {ls : List Text} (h : ∀ l ∈ ls, '\n' ∉ l) : (unlines ls).splitOn '\n' = ls ++ [[]] :=
  Fields.splitOn_unlines h

theorem confLines_unlines {ls : List Text} (h : ∀ l ∈ ls, '\n' ∉ l) :
    confLines (unlines ls) = ls.filterMap confLine := by
  rw [confLines, splitOn_unlines h, List.filterMap_append]
  simp

end SudoWhat
