/-
  SudoWhat.Plugin.Check — `sudowhat_check` (`plugin/sudowhat_approval.m`).

  The steps are the source's: (1) the signatures of pam_sudowhat and, when installed, of
  the audit plugin; (1c) the resolved command; (1d) the marker, read once and cleared;
  (2) the caller's class: root is let through, a non-console caller meets sudo_local's
  shape, a console caller goes on; (3) the command must be there; (3.5) policy deference;
  (3a) the pin; (4) the sheet's text; (5) the sheet itself, under the caller's uid;
  (6) the re-stat against the pin.
-/

import SudoWhat.Plugin.Confirm
import SudoWhat.Plugin.PromptFormatter

namespace SudoWhat.Plugin

open SudoWhat.Lib
open SudoWhat.Pam (Signature)

/-! ## Touch ID -/

def laErrorDomain : Text := "com.apple.LocalAuthentication".toList

def laErrorAuthenticationFailed : Int := -1
def laErrorUserCancel : Int := -2
def laErrorUserFallback : Int := -3
def laErrorSystemCancel : Int := -4
def laErrorPasscodeNotSet : Int := -5
def laErrorBiometryLockout : Int := -8
def laErrorAppCancel : Int := -9

def swDenialReason (err : Option NSError) : Text :=
  match err with
  | none => "authentication denied".toList
  | some err =>
    if err.domain = laErrorDomain then
      if err.code = laErrorUserCancel ∨ err.code = laErrorSystemCancel ∨ err.code = laErrorAppCancel then
        "authentication canceled".toList
      else if err.code = laErrorUserFallback then "authentication canceled".toList
      else if err.code = laErrorAuthenticationFailed then "authentication failed".toList
      else if err.code = laErrorBiometryLockout then "biometry locked out".toList
      else if err.code = laErrorPasscodeNotSet then "no passcode set".toList
      else "authentication error (LAError ".toList ++ (toString err.code).toList ++ [')']
    else "authentication error (".toList ++ err.domain ++ [' '] ++ (toString err.code).toList ++ [')']

/-- The policy, or why no policy can be evaluated. -/
def choosePolicy (env : CheckEnv) : Except (Option Text) LAPolicy :=
  if env.canCompanion && env.canBiometricsOrCompanion then .ok .biometricsOrCompanion
  else
    match env.canDeviceOwner with
    | .error description => .error description
    | .ok () => .ok .deviceOwner

/-- The companion dialog ended where the password step follows. -/
def asksPassword (chosen : LAPolicy) (reply : LAReply) : Bool :=
  !reply.success && chosen == .biometricsOrCompanion &&
    match reply.err with
    | none => false
    | some err =>
      err.domain == laErrorDomain &&
        (err.code == laErrorUserFallback || err.code == laErrorAuthenticationFailed || err.code == laErrorBiometryLockout)

/-- The dialogs, each with the same text; the last one's reply. -/
def evaluatePolicy (env : CheckEnv) (chosen : LAPolicy) (text : NSString) : Act LAReply := do
  Traced.emit (.sheet chosen text env.reply.success)
  if asksPassword chosen env.reply then
    Traced.emit (.sheet .deviceOwner text env.passwordReply.success)
    return env.passwordReply
  else return env.reply

/-! ## The console path -/

/-- (6): the path must still name the pinned file. -/
def recheckTarget (env : CheckEnv) (commandC : Bytes) (preSt : FileId) : Act Ret :=
  match env.statTarget with
  | .error saved => do
    Traced.emit (.statTarget commandC none)
    Traced.emit .closeTarget
    setErrstrPath env (lit "post-auth stat failed") saved commandC
    return .deny
  | .ok postSt => do
    Traced.emit (.statTarget commandC (some postSt))
    Traced.emit .closeTarget
    if postSt = preSt then return .allow
    else
      setErrstr env (lit "sudowhat: target binary changed during authorization")
      return .deny

/-- The dialogs are over: restore root, then refuse or go on to (6). -/
def afterDialogs (env : CheckEnv) (commandC : Bytes) (preSt : FileId) (reply : LAReply) : Act Ret := do
  Traced.emit (.seteuid 0 env.seteuidBack)
  if !env.seteuidBack then Traced.halt .exited
  else if !reply.success then
    Traced.emit .closeTarget
    setErrstr env (lit "sudowhat: authorization denied: " ++ cString (swDenialReason reply.err))
    return .deny
  else recheckTarget env commandC preSt

/-- (5): the sheet, with the effective uid dropped to the caller's around it. -/
def raiseSheet (env : CheckEnv) (uid : Uid) (commandC : Bytes) (preSt : FileId) (text : NSString) : Act Ret :=
  match env.seteuidDrop with
  | .error saved => do
    Traced.emit (.seteuid uid false)
    Traced.emit .closeTarget
    setErrstr env (lit "sudowhat: seteuid(" ++ Utf8.encode (decimal uid.toNat) ++ lit ") failed: " ++ saved)
    return .error
  | .ok () => do
    Traced.emit (.seteuid uid true)
    match choosePolicy env with
    | .error description => do
      Traced.emit (.seteuid 0 env.seteuidBack)
      Traced.emit .closeTarget
      setErrstr env (lit "sudowhat: cannot evaluate authentication policy: LocalAuthentication: "
        ++ utf8Or description "unknown".toList)
      return .deny
    | .ok chosen => do
      let reply ← evaluatePolicy env chosen text
      afterDialogs env commandC preSt reply

/-- The directory the command runs in. -/
def checkCwd (ctx : InvokingCtx) (commandInfo : List Bytes) : Option Bytes :=
  match findKv commandInfo (lit "cwd") with
  | some (c :: cs) => some (c :: cs)
  | _ => ctx.cwd

/-- (4): the text every dialog shows. -/
def sheetText (ctx : InvokingCtx) (env : CheckEnv) (commandInfo runArgv : List Bytes) (commandC : Bytes) :
    Option NSString :=
  (formatWithCommandPath env.alloc (some commandC) (some (swRunasName env commandInfo)) (checkCwd ctx commandInfo)
    (some (generateVerifyNonce env.random 4)) runArgv (swSheetStyleFor env.osMajor)).map Prod.fst

/-- (3a), (4): pin the target, build the text, show both lines, raise the sheet. -/
def askConsole (b : Build) (ctx : InvokingCtx) (env : CheckEnv) (commandInfo runArgv : List Bytes) (uid : Uid)
    (commandC : Bytes) : Act Ret :=
  match env.openTarget with
  | .error errno => do
    Traced.emit (.openTarget commandC false)
    setErrstrPath env (lit "cannot open the target binary") errno commandC
    return .deny
  | .ok () => do
    Traced.emit (.openTarget commandC true)
    match env.fstatTarget with
    | .error saved => do
      Traced.emit (.fstatTarget none)
      Traced.emit .closeTarget
      setErrstrPath env (lit "fstat failed") saved commandC
      return .error
    | .ok preSt => do
      Traced.emit (.fstatTarget (some preSt))
      match sheetText ctx env commandInfo runArgv commandC with
      | none => do
        Traced.emit .closeTarget
        setErrstr env (lit "sudowhat: cannot render the authentication prompt; command not run")
        return .error
      | some text => do
        emitVerifyCode env (generateVerifyNonce env.random 4) (swColorAllowed ctx)
        emitExecLine b env (some commandC) runArgv .grouped none (swColorAllowed ctx)
        raiseSheet env uid commandC preSt text

/-- (3.5): whether the sheet is skipped. sudo_local is read only when it can change the
    answer. -/
def deferSkips (b : Build) (env : CheckEnv) (markerPresent : Bool) : Bool :=
  let integrityInstalled :=
    if b.policyDeference && !markerPresent then sudowhatTextHasIntegrityLine b.pamPath env.sudoLocal else false
  swDeferDecision b.policyDeference markerPresent integrityInstalled

def checkConsole (b : Build) (ctx : InvokingCtx) (env : CheckEnv) (commandInfo runArgv : List Bytes) (uid : Uid)
    (markerPresent : Bool) : Act Ret :=
  match findKv commandInfo (lit "command") with
  | none => do
    setErrstr env (lit "sudowhat: missing 'command' in command_info")
    return .error
  | some commandC =>
    if deferSkips b env markerPresent then do
      emitExecLine b env (some commandC) runArgv .grouped none (swColorAllowed ctx)
      Traced.emit (.syslog (lit "sudowhat: prompt skipped, sudoers waived authentication (invoking uid "
        ++ Utf8.encode (decimal uid.toNat) ++ lit ")"))
      return .allow
    else askConsole b ctx env commandInfo runArgv uid commandC

/-! ## The other callers -/

def checkRoot (b : Build) (ctx : InvokingCtx) (env : CheckEnv) (commandInfo runArgv : List Bytes) : Act Ret := do
  Traced.emit (.syslog (lit "sudowhat: console-user guard bypassed (root-initiated sudo)"))
  emitExecLine b env (findKv commandInfo (lit "command")) runArgv .solo (some (swRunasName env commandInfo))
    (swColorAllowed ctx)
  return .allow

/-- The line the step-aside logs. -/
def stepAsideLog (ctx : InvokingCtx) (uid : Uid) (markerPresent : Bool) : Bytes :=
  lit "sudowhat: non-console caller allowed (invoking uid " ++ Utf8.encode (decimal uid.toNat) ++ lit ", tty "
    ++ ctx.tty.getD (lit "unknown") ++ lit "); "
    ++ lit (if markerPresent then "sudo required a factor on the caller's own session"
        else "sudoers waived authentication")

def checkNonConsole (b : Build) (ctx : InvokingCtx) (env : CheckEnv) (commandInfo runArgv : List Bytes) (uid : Uid)
    (markerPresent : Bool) : Act Ret :=
  let chain := swNonconsoleChainOf b.pamPath env.sudoLocal
  if swNonconsoleAllows chain markerPresent then do
    let verdict ← swStepAsideAllow b env ctx (findKv commandInfo (lit "command")) runArgv
      (swRunasName env commandInfo) markerPresent
    if verdict ≠ .allow then return verdict
    else
      Traced.emit (.syslog (stepAsideLog ctx uid markerPresent))
      return .allow
  else do
    setErrstr env (lit (if chain = .nopasswdOnly
      then "sudowhat: not in the console's GUI login session (nonConsole = nopasswd-only)"
      else "sudowhat: not in the console's GUI login session (nonConsole = deny)"))
    return .deny

/-- (2): classify the caller. -/
def checkCaller (b : Build) (ctx : InvokingCtx) (env : CheckEnv) (commandInfo runArgv : List Bytes)
    (markerPresent : Bool) : Act Ret :=
  match ctx.uid with
  | none => do
    setErrstr env (lit "sudowhat: invoking uid not captured at open()")
    return .error
  | some uid =>
    if uid = 0 then checkRoot b ctx env commandInfo runArgv
    else if !isInvokingUserActiveConsole env.session env.consoleUid uid then
      checkNonConsole b ctx env commandInfo runArgv uid markerPresent
    else checkConsole b ctx env commandInfo runArgv uid markerPresent

/-! ## check() -/

/-- The audit bundle is optional: absent passes. -/
def sudowhatAuditBundleOk (env : CheckEnv) : Signature := if !env.auditExists then .ok () else env.auditSignature

/-- `marker` is whether the marker is in the environment. -/
def sudowhatCheck (b : Build) (ctx : InvokingCtx) (env : CheckEnv) (commandInfo runArgv : List Bytes)
    (marker : Bool) : Act Ret :=
  match env.pamSignature with
  | .error description => do
    setErrstr env (lit "sudowhat: pam_sudowhat signature invalid: " ++ utf8Or description "unknown".toList)
    return .deny
  | .ok () =>
    match sudowhatAuditBundleOk env with
    | .error description => do
      setErrstr env (lit "sudowhat: audit plugin signature invalid: " ++ utf8Or description "unknown".toList)
      return .deny
    | .ok () => do
      Traced.emit .unsetMarker
      checkCaller b ctx env commandInfo runArgv marker

/-- Whether the marker is in the environment after a check. -/
def markerAfter (marker : Bool) (check : Act Ret) : Bool := if .unsetMarker ∈ check.trace then false else marker

end SudoWhat.Plugin
