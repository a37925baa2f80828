/-
  SudoWhat.Pam.Authenticate — `pam_sm_authenticate` (`pam/pam_sudowhat.m`).

  The module sets the marker before anything else, then takes one of three roles by its
  first argument: `console-gate` and `console-only` pass exactly the active console user
  and differ in what they tell everyone else; without an argument it checks sudo.conf and
  the signatures of the approval plugin and, when installed, of the audit plugin.

  Proved: when each role succeeds (`gate_success_iff`, `consoleOnly_success_iff`,
  `integrity_success_iff`).
-/

import SudoWhat.Lib.PamChain
import SudoWhat.Pam.SudoConf

namespace SudoWhat.Pam

open SudoWhat.Lib
open SudoWhat.Lib.PamChain (Outcome)

/-- The codes the module returns. -/
inductive PamCode where
  | success
  | authErr
  /-- Not one of the codes sudo takes for a wrong password, so it does not ask again. -/
  | credInsufficient
  deriving DecidableEq, Repr

def PamCode.outcome : PamCode → Outcome
  | .success => .success
  | _ => .failure

/-- A verified bundle, or the error's description if the framework gave one. -/
abbrev Signature := Except (Option Text) Unit

/-- What the module asks its surroundings. -/
structure AuthEnv where
  /-- `pam_get_user`; `none` when it fails or gives no name. -/
  user : Option Bytes
  /-- `getpwnam`'s uid. -/
  passwd : Bytes → Option Uid
  session : SecuritySession
  consoleUid : Uid
  sudoConf : Except (Option Text) Text
  pluginSignature : Signature
  auditExists : Bool
  auditSignature : Signature

inductive Priority where
  | err
  | notice
  deriving DecidableEq, Repr

structure LogLine where
  priority : Priority
  text : Bytes
  deriving DecidableEq, Repr

/-- `sudowhat_log`: the message cut to its buffer, under the module's tag. -/
def sudowhatLog (priority : Priority) (message : Bytes) : LogLine :=
  ⟨priority, lit "pam_sudowhat: " ++ vsnprintf 512 message⟩

structure AuthReply where
  code : PamCode
  log : List LogLine
  /-- The line put to the caller through the conversation, if there is a working one. -/
  shown : Option Text

/-- The user both console roles decide about, or the line that says why there is none. -/
def lookupUser (role : Text) (env : AuthEnv) : Except LogLine (Bytes × Uid) :=
  match env.user with
  | none => .error (sudowhatLog .err (cString role ++ lit ": could not determine invoking user"))
  | some userName =>
    match env.passwd userName with
    | none => .error (sudowhatLog .err (cString role ++ lit ": no passwd entry for user '" ++ userName ++ lit "'"))
    | some uid => .ok (userName, uid)

def consoleGate (env : AuthEnv) : AuthReply :=
  match lookupUser gateArg env with
  | .error line => ⟨.authErr, [line], none⟩
  | .ok (_, uid) =>
    if isInvokingUserActiveConsole env.session env.consoleUid uid then ⟨.success, [], none⟩
    else ⟨.authErr, [], none⟩

def consoleOnly (env : AuthEnv) : AuthReply :=
  match lookupUser consoleOnlyArg env with
  | .error line => ⟨.credInsufficient, [line], none⟩
  | .ok (userName, uid) =>
    if isInvokingUserActiveConsole env.session env.consoleUid uid then ⟨.success, [], none⟩
    else
      ⟨.credInsufficient,
        [sudowhatLog .notice (lit "console-only: refused non-console caller '" ++ userName ++ lit "' (uid "
          ++ Utf8.encode (decimal uid.toNat) ++ lit "); the command needs authentication")],
        some ("sudowhat: not in the console's GUI login session, so only NOPASSWD commands run "
          ++ "(nonConsole = nopasswd-only)").toList⟩

def integrity (b : Build) (env : AuthEnv) : AuthReply :=
  match verifyConf sudoConfPath pluginSymbol b.pluginPath env.sudoConf with
  | .error description =>
    ⟨.authErr, [sudowhatLog .err (lit "sudo.conf check failed: " ++ utf8Or (some description) "unknown".toList)], none⟩
  | .ok () =>
    match env.pluginSignature with
    | .error description =>
      ⟨.authErr,
        [sudowhatLog .err (lit "approval plugin signature check failed: " ++ utf8Or description "unknown".toList)], none⟩
    | .ok () =>
      if env.auditExists then
        match env.auditSignature with
        | .error description =>
          ⟨.authErr,
            [sudowhatLog .err (lit "audit plugin signature check failed: " ++ utf8Or description "unknown".toList)], none⟩
        | .ok () => ⟨.success, [], none⟩
      else ⟨.success, [], none⟩

/-- The role the first argument selects. -/
def roleReply (b : Build) (env : AuthEnv) (argv : List Text) : AuthReply :=
  if argv.head? = some gateArg then consoleGate env
  else if argv.head? = some consoleOnlyArg then consoleOnly env
  else integrity b env

/-- The reply, and whether the marker is in the environment afterwards. -/
def pamSmAuthenticate (b : Build) (env : AuthEnv) (argv : List Text) (_marker : Bool) : AuthReply × Bool :=
  (roleReply b env argv, true)

/-! ## What each role passes -/

/-- The user PAM names is the active console user. -/
def AuthEnv.isConsole (env : AuthEnv) : Bool :=
  match env.user.bind env.passwd with
  | some uid => isInvokingUserActiveConsole env.session env.consoleUid uid
  | none => false

/-- The integrity role's three checks. -/
def AuthEnv.intact (b : Build) (env : AuthEnv) : Prop :=
  verifyConf sudoConfPath pluginSymbol b.pluginPath env.sudoConf = .ok () ∧ env.pluginSignature = .ok () ∧
    (env.auditExists = false ∨ env.auditSignature = .ok ())

@[simp] theorem outcome_success_iff {c : PamCode} : c.outcome = .success ↔ c = .success := by
  cases c <;> simp [PamCode.outcome]

theorem outcome_ne_ignore (c : PamCode) : c.outcome ≠ .ignore := by cases c <;> simp [PamCode.outcome]

theorem lookupUser_isConsole (role : Text) (env : AuthEnv) :
    (∃ line, lookupUser role env = .error line ∧ env.isConsole = false) ∨
      (∃ name uid, lookupUser role env = .ok (name, uid) ∧
        env.isConsole = isInvokingUserActiveConsole env.session env.consoleUid uid) := by
  unfold lookupUser AuthEnv.isConsole
  cases hu : env.user with
  | none => exact .inl ⟨_, rfl, rfl⟩
  | some name =>
    simp only [Option.bind_some]
    cases hp : env.passwd name with
    | none => exact .inl ⟨_, rfl, rfl⟩
    | some uid => exact .inr ⟨name, uid, rfl, rfl⟩

theorem gate_success_iff (env : AuthEnv) : (consoleGate env).code = .success ↔ env.isConsole = true := by
  unfold consoleGate
  rcases lookupUser_isConsole gateArg env with ⟨line, hl, hc⟩ | ⟨name, uid, hl, hc⟩
  · simp [hl, hc]
  · simp only [hl, hc]
    split <;> simp [*]

theorem consoleOnly_success_iff (env : AuthEnv) : (consoleOnly env).code = .success ↔ env.isConsole = true := by
  unfold consoleOnly
  rcases lookupUser_isConsole consoleOnlyArg env with ⟨line, hl, hc⟩ | ⟨name, uid, hl, hc⟩
  · simp [hl, hc]
  · simp only [hl, hc]
    split <;> simp [*]

theorem integrity_success_iff (b : Build) (env : AuthEnv) : (integrity b env).code = .success ↔ env.intact b := by
  unfold integrity AuthEnv.intact
  cases verifyConf sudoConfPath pluginSymbol b.pluginPath env.sudoConf with
  | error d => simp
  | ok u =>
    cases env.pluginSignature with
    | error d => simp
    | ok u =>
      cases env.auditExists with
      | false => simp
      | true => cases env.auditSignature <;> simp

theorem roleReply_gate (b : Build) (env : AuthEnv) (rest : List Text) :
    roleReply b env (gateArg :: rest) = consoleGate env := by simp [roleReply]

theorem gateArg_ne_consoleOnlyArg : gateArg ≠ consoleOnlyArg := by decide

theorem roleReply_consoleOnly (b : Build) (env : AuthEnv) (rest : List Text) :
    roleReply b env (consoleOnlyArg :: rest) = consoleOnly env := by
  simp [roleReply, gateArg_ne_consoleOnlyArg.symm]

theorem roleReply_nil (b : Build) (env : AuthEnv) : roleReply b env [] = integrity b env := by simp [roleReply]

end SudoWhat.Pam
