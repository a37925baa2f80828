/-
  SudoWhat.Audit.Display — the macOS audit plugin (`plugin/sudowhat_audit.m`): the block
  shown before authentication.

  The block is up to four rows: run as, directory, input, PATH. Every value is rendered by
  the escape core; the colours are laid over the escaped text, so the helpers here slice
  text that holds no control character. `sudowhatAuditOpen` shows the block on the
  controlling terminal or shows nothing, and never fails.
-/

import SudoWhat.EscapeCore.Colour
import SudoWhat.Plugin.Effects

namespace SudoWhat.Audit

open SudoWhat.Lib SudoWhat.Plugin
open SudoWhat.Pam (Signature)
open SudoWhat.EscapeCore (escapeBytes fullCommandLineBytes renderCommandLine)

/-- The shared build, and the bundle's own switch for terminal display. -/
structure AuditBuild extends Build where
  auditDisplay : Bool

def AuditBuild.stock : AuditBuild := { Build.stock with auditDisplay := true }

/-- The places that allocate. -/
inductive AllocSite where
  | userLine | dirLine | pathRow
  | argvArrays | coloured | plain
  deriving DecidableEq, Repr

/-- Everything `open()` can be told besides sudo's arrays. -/
structure AuditEnv where
  approvalSignature : Signature
  pamSignature : Signature
  alloc : AllocSite → Bool
  tty : Tty
  fuel : Nat

/-- What sudo hands over. -/
structure Submission where
  settings : Option (List Bytes)
  userInfo : Option (List Bytes)
  optind : Int
  argv : Option (List Bytes)
  envp : Option (List Bytes)

/-! ## Values -/

def swAuditEscape (allocated : Bool) (input : Bytes) : Option Text :=
  if allocated then some (escapeBytes input) else none

def swAuditRender (allocated : Bool) (rendered : Text) : Option Text := if allocated then some rendered else none

/-- The command as typed: `submit_argv` from `submit_optind` on. -/
def Submission.typed (s : Submission) : List Bytes :=
  match s.argv with
  | none => []
  | some argv => if s.optind < 0 then [] else argv.drop s.optind.toNat

def swAuditCommandLine (alloc : AllocSite → Bool) (s : Submission) (color : Bool) : Option Text :=
  match s.typed with
  | [] => none
  | path :: rest =>
    if alloc .argvArrays = false then none
    else
      let coloured := if color then swAuditRender (alloc .coloured) (renderCommandLine path (path :: rest) .dim) else none
      match coloured with
      | some line => some line
      | none => swAuditRender (alloc .plain) (fullCommandLineBytes path (path :: rest))

def swAuditIsBareName (cmd : Option Bytes) : Bool :=
  match cmd with
  | none => false
  | some cmd => cmd != [] && !cmd.contains 0x2F

/-- A value that is there and not empty, escaped. -/
def rowValue (allocated : Bool) (value : Option Bytes) : Option Text :=
  match value with
  | some (c :: cs) =>
    match swAuditEscape allocated (c :: cs) with
    | some text => if text = [] then none else some text
    | none => none
  | _ => none

def swAuditPathRowValue (alloc : AllocSite → Bool) (s : Submission) : Option Text :=
  if swAuditIsBareName s.typed.head? then rowValue (alloc .pathRow) (findKvIn s.envp (lit "PATH")) else none

def swAuditSettingTrue (settings : Option (List Bytes)) (key : String) : Bool :=
  findKvIn settings (lit key) == some (lit "true")

def swAuditRunsShell (settings : Option (List Bytes)) : Bool :=
  swAuditSettingTrue settings "run_shell" || swAuditSettingTrue settings "login_shell"
    || swAuditSettingTrue settings "implied_shell"

def swAuditDirRowValue (alloc : AllocSite → Bool) (s : Submission) : Option Text :=
  match findKvIn s.settings (lit "cmnd_cwd") with
  | some (c :: cs) => rowValue (alloc .dirLine) (some (c :: cs))
  | _ =>
    if swAuditSettingTrue s.settings "login_shell" then none
    else rowValue (alloc .dirLine) (findKvIn s.userInfo (lit "cwd"))

/-- The target user as known before resolution. -/
def userLine (alloc : AllocSite → Bool) (s : Submission) : Option Text :=
  match findKvIn s.settings (lit "runas_user") with
  | some (c :: cs) => swAuditEscape (alloc .userLine) (c :: cs)
  | _ => some "root".toList

def swAuditColorAllowed (envp : Option (List Bytes)) : Bool :=
  match findKvIn envp (lit "NO_COLOR") with
  | some (_ :: _) => false
  | _ =>
    match findKvIn envp (lit "TERM") with
    | none => false
    | some term => if term = [] then false else if term = lit "dumb" then false else true

/-! ## Rows -/

def auditGutter : Nat := 12

def swAuditRow (label value : Text) (color : Bool) : Text :=
  let pad := if label.length < auditGutter then auditGutter - label.length else 1
  let gap := List.replicate pad ' '
  if color then "sudowhat: \x1b[1m".toList ++ label ++ "\x1b[0m".toList ++ gap ++ value ++ ['\n']
  else "sudowhat: ".toList ++ label ++ gap ++ value ++ ['\n']

/-- A span, or nothing for an empty text. -/
def swAuditSgr (code : String) (text : Text) : Text :=
  if text = [] then [] else ['\x1b', '['] ++ code.toList ++ ['m'] ++ text ++ "\x1b[0m".toList

/-- The index of the last slash. -/
def lastSlash (dir : Text) : Option Nat := (dir.reverse.findIdx? (· == '/')).map fun k => dir.length - 1 - k

/-- The parent of a directory, cut after its first segment: at the second slash. -/
def splitParent (parent : Text) : Text × Text :=
  if parent.head? = some '/' ∧ parent.length > 1 then
    match (parent.drop 1).findIdx? (· == '/') with
    | some next => parent.splitAt (next + 1)
    | none => ([], parent)
  else ([], parent)

def swAuditColorDir (dir : Text) : Text :=
  match lastSlash dir with
  | none => swAuditSgr "1" dir
  | some slash =>
    let (parent, last) := dir.splitAt (slash + 1)
    let (head, middle) := splitParent parent
    swAuditSgr "1;36" head ++ middle ++ swAuditSgr "1" last

/-- The first segment of an absolute entry. -/
def entryHead (entry : Text) : Text :=
  if entry.head? = some '/' then
    match (entry.drop 1).findIdx? (· == '/') with
    | none => entry
    | some next => entry.take (next + 1)
  else []

def colorEntry (entry : Text) : Text := swAuditSgr "1;36" (entryHead entry) ++ entry.drop (entryHead entry).length

def swAuditColorPathList (escaped : Text) : Text :=
  match escaped.splitOn ':' with
  | [] => []
  | entry :: entries => colorEntry entry ++ entries.flatMap fun entry => swAuditSgr "1;34" [':'] ++ colorEntry entry

def swAuditColorUser (user : Text) : Text :=
  if user = "root".toList then user else "\x1b[33m".toList ++ user ++ "\x1b[0m".toList

/-! ## The block -/

/-- The input row's value: `none` to show nothing at all, `some none` for no such row. -/
def inputValue (b : AuditBuild) (alloc : AllocSite → Bool) (s : Submission) (color : Bool) : Option (Option Text) :=
  if s.typed ≠ [] then
    match swAuditCommandLine alloc s (color && b.echoColor) with
    | some line => if line = [] then none else some (some line)
    | none => none
  else if !swAuditRunsShell s.settings then none
  else some none

def auditBlock (b : AuditBuild) (alloc : AllocSite → Bool) (s : Submission) (color : Bool) : Option Text :=
  match inputValue b alloc s color with
  | none => none
  | some commandLine =>
    match userLine alloc s with
    | none => none
    | some user =>
      some
        (swAuditRow "run as:".toList (if color then swAuditColorUser user else user) color
          ++ (match swAuditDirRowValue alloc s with
            | some dir => swAuditRow "directory:".toList (if color then swAuditColorDir dir else dir) color
            | none => [])
          ++ (match commandLine with
            | some line => swAuditRow "input:".toList line color
            | none => [])
          ++ (match swAuditPathRowValue alloc s with
            | some path => swAuditRow "PATH:".toList (if color then swAuditColorPathList path else path) color
            | none => []))

/-! ## open() -/

/-- The block goes to the controlling terminal, or nowhere. -/
def swAuditWriteTty (env : AuditEnv) (block : Text) : Act Unit :=
  if block = [] then pure ()
  else if !env.tty.opens then pure ()
  else if !env.tty.isTerminal then pure ()
  else do
    let _ ← writeLoop env.tty.write env.fuel 0 (Utf8.encode block)

/-- Past the version, the switch, the uid and both signatures. -/
def showBlock (b : AuditBuild) (env : AuditEnv) (s : Submission) : Act Unit :=
  match auditBlock b env.alloc s (swAuditColorAllowed s.envp) with
  | none => pure ()
  | some block => swAuditWriteTty env block

/-- The return is 1, loaded, but for an API of another generation. -/
def sudowhatAuditOpen (b : AuditBuild) (env : AuditEnv) (version : UInt32) (s : Submission) : Act Bool :=
  if apiMajor version ≠ 1 then pure false
  else if !b.auditDisplay then pure true
  else
    match findKvIn s.userInfo (lit "uid") with
    | none => pure true
    | some uidStr =>
      if UInt32.ofNat (strtoul uidStr) = 0 then pure true
      else
        match env.approvalSignature with
        | .error _ => do
          Traced.emit (.syslog (lit "sudowhat_audit: approval plugin signature invalid; suppressing terminal display"))
          return true
        | .ok () =>
          match env.pamSignature with
          | .error _ => do
            Traced.emit (.syslog (lit "sudowhat_audit: pam_sudowhat signature invalid; suppressing terminal display"))
            return true
          | .ok () => do
            showBlock b env s
            return true

/-- What lets a caller past the version, the switch, the uid and both signatures. -/
structure PastChecks (b : AuditBuild) (env : AuditEnv) (version : UInt32) (s : Submission) : Prop where
  api : apiMajor version = 1
  on : b.auditDisplay = true
  caller : ∃ uid, findKvIn s.userInfo (lit "uid") = some uid ∧ UInt32.ofNat (strtoul uid) ≠ 0
  approval : env.approvalSignature = .ok ()
  pam : env.pamSignature = .ok ()

theorem open_shows {b : AuditBuild} {env : AuditEnv} {version : UInt32} {s : Submission} (h : PastChecks b env version s) :
    sudowhatAuditOpen b env version s = do
      showBlock b env s
      return true := by
  obtain ⟨uid, huid, hne⟩ := h.caller
  unfold sudowhatAuditOpen
  rw [h.api, h.on, huid, h.approval, h.pam]
  dsimp only
  rw [if_neg hne]
  rfl

end SudoWhat.Audit
