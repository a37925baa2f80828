/-
  SudoWhat.Sudo.Invocation — one sudo invocation, from its policy step to the plugin.

  sudo's policy step authenticates the caller: it runs the PAM auth stack unless sudoers
  waives authentication by rule or a cached credential is live. Only when that succeeds
  does the approval plugin's `check()` run, with the marker the stack left. Each of the two
  phases classifies the caller at a moment of its own, so each is given its own `Seat`.
-/

import SudoWhat.Pam.ModuleChain
import SudoWhat.Plugin.SheetAnswer

namespace SudoWhat.Sudo

open SudoWhat.Lib SudoWhat.Lib.PamChain SudoWhat.Plugin SudoWhat.Pam SudoWhat.Nix

/-- What a phase is told when it classifies the caller. -/
structure Seat where
  session : SecuritySession
  consoleUid : Uid
  deriving DecidableEq, Repr

def Seat.isConsole (seat : Seat) (uid : Uid) : Bool := isInvokingUserActiveConsole seat.session seat.consoleUid uid

/-- An invocation by a caller who is not root, whose uid sudo gives the plugin and whose
    name it gives PAM. -/
structure Invocation where
  uid : Uid
  notRoot : uid ≠ 0
  /-- sudoers waives authentication by rule. -/
  waived : Bool
  stack : StackEnv
  named : ∀ i, (stack.auth i).user.bind (stack.auth i).passwd = some uid
  ctx : InvokingCtx
  captured : ctx.uid = some uid
  env : CheckEnv
  commandInfo : List Bytes
  runArgv : List Bytes

def Invocation.stackAt (inv : Invocation) (seat : Seat) : StackEnv :=
  { inv.stack with
    auth := fun i => { inv.stack.auth i with session := seat.session, consoleUid := seat.consoleUid } }

def Invocation.envAt (inv : Invocation) (text : Text) (seat : Seat) : CheckEnv :=
  { inv.env with session := seat.session, consoleUid := seat.consoleUid, sudoLocal := some text }

/-- The policy step; `cached` is whether a credential is live. -/
def Invocation.authenticate (b : Build) (text : Text) (seat : Seat) (cached : Bool) (inv : Invocation) : StackRun :=
  if inv.waived || cached then ⟨true, false⟩ else runStack b (inv.stackAt seat) text false

def Invocation.check (b : Build) (text : Text) (seat : Seat) (marker : Bool) (inv : Invocation) : Act Ret :=
  sudowhatCheck b inv.ctx (inv.envAt text seat) inv.commandInfo inv.runArgv marker

/-- The policy step passes and the plugin allows. -/
def Invocation.allowed (b : Build) (text : Text) (authSeat checkSeat : Seat) (cached : Bool) (inv : Invocation) : Prop :=
  (inv.authenticate b text authSeat cached).success = true ∧
    (inv.check b text checkSeat (inv.authenticate b text authSeat cached).marker).Returns .allow

/-- The execute line of a step aside gets shown; `asked` is whether sudo asks for a password. -/
def Invocation.ShowsLine (b : Build) (text : Text) (seat : Seat) (asked : Bool) (inv : Invocation) : Prop :=
  (emitExecLine b (inv.envAt text seat) (resolvedCommand inv.commandInfo) inv.runArgv (swStepAsideLayout asked)
    (some (swRunasName (inv.envAt text seat) inv.commandInfo)) (swColorAllowed inv.ctx)).Returns ()

/-- The same invocation, given so many rounds to wait. -/
def Invocation.withFuel (inv : Invocation) (fuel : Nat) : Invocation := { inv with env := { inv.env with fuel := fuel } }

section

variable {b : Build} {text : Text} {seat : Seat} {cached marker : Bool} {inv : Invocation}

/-! ## Authentication -/

theorem isConsole_stackAt (inv : Invocation) (seat : Seat) (i : Nat) :
    ((inv.stackAt seat).auth i).isConsole = seat.isConsole inv.uid := by
  have h : (((inv.stackAt seat).auth i).user.bind ((inv.stackAt seat).auth i).passwd) = some inv.uid := inv.named i
  simp only [AuthEnv.isConsole, h]
  rfl

theorem authenticate_skipped (h : inv.waived = true ∨ cached = true) :
    inv.authenticate b text seat cached = ⟨true, false⟩ := by
  rcases h with h | h <;> simp [Invocation.authenticate, h]

theorem authenticate_entered (hw : inv.waived = false) (hc : cached = false) :
    inv.authenticate b text seat cached = runStack b (inv.stackAt seat) text false := by
  simp [Invocation.authenticate, hw, hc]

/-- Under the module's text the marker tells whether the stack was run. -/
theorem authenticate_marker {v : NonConsole} (inst : Installed b v) :
    (inv.authenticate b inst.text seat cached).marker = !(inv.waived || cached) := by
  unfold Invocation.authenticate
  split
  · simp [*]
  · rw [moduleStack_marker]
    simp [*]

/-- The policy step's verdict, where the integrity role passes. -/
theorem authenticate_success_iff {v : NonConsole} (inst : Installed b v) (hi : (inv.stack.auth 0).intact b) :
    (inv.authenticate b inst.text seat cached).success = true ↔
      (inv.waived || cached || admits v (seat.isConsole inv.uid) (passesBehind inv.stack.parent)) = true := by
  have hint : ((inv.stackAt seat).auth 0).intact b := hi
  unfold Invocation.authenticate
  cases hw : inv.waived || cached with
  | true => simp
  | false =>
    simp only [Bool.false_eq_true, if_false, Bool.false_or]
    rw [moduleStack_success_iff, isConsole_stackAt]
    exact ⟨fun h => h.2, fun h => ⟨hint, h⟩⟩

/-! ## The check -/

theorem isConsole_envAt (inv : Invocation) (text : Text) (seat : Seat) :
    (inv.envAt text seat).isConsole inv.uid = seat.isConsole inv.uid := rfl

theorem showsLine_enough (b : Build) (text : Text) (seat : Seat) (asked : Bool)
    (htty : Answers (inv.env.tty .execLine).write) :
    ∃ enough, ∀ fuel ≥ enough, (inv.withFuel fuel).ShowsLine b text seat asked := by
  have htty' : Answers ((inv.envAt text seat).tty .execLine).write := htty
  exact emitExecLine_answers b htty' (resolvedCommand inv.commandInfo) inv.runArgv (swStepAsideLayout asked)
    (some (swRunasName (inv.envAt text seat) inv.commandInfo)) (swColorAllowed inv.ctx)

/-- A console caller is allowed by deference to an absent marker, or by a sheet of their own. -/
theorem check_console_allow (hc : seat.isConsole inv.uid = true) (h : (inv.check b text seat marker).Returns .allow) :
    (b.policyDeference = true ∧ marker = false) ∨ SheetApproved (inv.check b text seat marker) := by
  obtain ⟨-, hg⟩ := check_allow h
  cases hg with
  | root h0 =>
    rw [inv.captured] at h0
    exact absurd (Option.some.inj h0) inv.notRoot
  | nonConsole uid hu _ hn _ _ =>
    cases inv.captured.symm.trans hu
    cases hc.symm.trans hn
  | deferred uid path _ _ _ _ hd =>
    obtain ⟨hp, hm, -⟩ := deferSkips_iff.mp hd
    exact .inl ⟨hp, hm⟩
  | sheet uid path pin shown policy _ _ _ _ _ _ _ hmem _ _ => exact .inr ⟨policy, shown, hmem⟩

theorem check_console_sheet (hc : seat.isConsole inv.uid = true) (h : (inv.check b text seat true).Returns .allow) :
    SheetApproved (inv.check b text seat true) :=
  (check_console_allow hc h).resolve_left fun hd => absurd hd.2 (by decide)

theorem not_approved_away (hc : seat.isConsole inv.uid = false) :
    ¬ SheetApproved (inv.check b text seat marker) := by
  intro ⟨policy, shown, hmem⟩
  obtain ⟨uid, hw⟩ := check_sheet hmem
  cases inv.captured.symm.trans hw.caller
  cases hc.symm.trans hw.console

/-- A non-console caller is allowed only where sudo_local's shape says so. -/
theorem check_nonConsole_allows (hc : seat.isConsole inv.uid = false)
    (h : (inv.check b text seat marker).Returns .allow) :
    swNonconsoleAllows (swNonconsoleChainOf b.pamPath (some text)) marker = true := by
  obtain ⟨-, hg⟩ := check_allow h
  cases hg with
  | root h0 =>
    rw [inv.captured] at h0
    exact absurd (Option.some.inj h0) inv.notRoot
  | nonConsole uid _ _ _ ha _ => exact ha
  | deferred uid path hu _ hn _ _ =>
    cases inv.captured.symm.trans hu
    cases hc.symm.trans hn
  | sheet uid path pin shown policy hu _ hn _ _ _ _ _ _ _ =>
    cases inv.captured.symm.trans hu
    cases hc.symm.trans hn

end

/-! ## An ordinary invocation -/

/-- `/bin/ls`, with bundles that verify, no terminal, a sheet answered as given and a
    parent chain that asks for a password nobody types. -/
def plainCall (uid : Uid) (notRoot : uid ≠ 0) (waived approves : Bool) : Invocation where
  uid := uid
  notRoot := notRoot
  waived := waived
  stack := ⟨fun _ => none, fun _ => consoleAuth [0x6A] uid ⟨true, true, false⟩ uid, fun _ => .failure,
    [⟨.required, ⟨.required, "pam_opendirectory.so".toList, []⟩, .failure⟩]⟩
  named := fun _ => by simp [consoleAuth]
  ctx := ⟨some uid, some (lit "/dev/ttys001"), none, none, false⟩
  captured := rfl
  env := {
    pamSignature := .ok (), auditExists := false, auditSignature := .ok ()
    session := ⟨true, true, false⟩, consoleUid := uid, sudoLocal := none, rootName := none
    pluginPrintf := true, stderrIsTerminal := false, tty := fun _ => ⟨false, false, fun _ => .failed⟩
    conversation := none, alloc := fun _ => true
    openTarget := .ok (), fstatTarget := .ok ⟨1, 1⟩, statTarget := .ok ⟨1, 1⟩, random := fun _ => 0, osMajor := 26
    seteuidDrop := .ok (), seteuidBack := true, canCompanion := false, canBiometricsOrCompanion := false
    canDeviceOwner := .ok (), reply := ⟨approves, none⟩, passwordReply := ⟨false, none⟩, fuel := 0 }
  commandInfo := [lit "command=/bin/ls"]
  runArgv := [lit "/bin/ls"]

theorem operator_notRoot : (501 : Uid) ≠ 0 := by decide

theorem plainCall_intact (uid : Uid) (notRoot : uid ≠ 0) (waived approves : Bool) (i : Nat) :
    ((plainCall uid notRoot waived approves).stack.auth i).intact Build.stock := by
  refine ⟨?_, rfl, .inl rfl⟩
  show verifyConf sudoConfPath pluginSymbol Build.stock.pluginPath
    (.ok (pluginWord ++ [' '] ++ pluginSymbol ++ [' '] ++ Build.stock.pluginPath)) = .ok ()
  decide

theorem plainCall_shown (uid : Uid) (notRoot : uid ≠ 0) (waived approves : Bool) (text : Text) (seat : Seat)
    (path : Option Bytes) (runArgv : List Bytes) (layout : ExecLayout) (runas : Option Bytes) (color : Bool) :
    (emitExecLine Build.stock ((plainCall uid notRoot waived approves).envAt text seat) path runArgv layout runas
      color).Returns () := by
  cases path <;> rfl

theorem plainCall_deferred {v : NonConsole} (inst : Installed Build.stock v) {seat : Seat} (uid : Uid) (notRoot : uid ≠ 0)
    (waived approves : Bool) (hc : seat.isConsole uid = true) :
    ((plainCall uid notRoot waived approves).check Build.stock inst.text seat false).Returns .allow := by
  have hskips : deferSkips Build.stock ((plainCall uid notRoot waived approves).envAt inst.text seat) false = true :=
    deferSkips_iff.mpr ⟨rfl, rfl, hasIntegrityLine_authLines inst.reads⟩
  have hcommand : resolvedCommand (plainCall uid notRoot waived approves).commandInfo = some (lit "/bin/ls") := by
    show resolvedCommand [lit "command=/bin/ls"] = _
    decide
  exact check_deferred_allow ⟨rfl, .inl rfl⟩ rfl notRoot hc hcommand hskips
    (plainCall_shown uid notRoot waived approves _ _ _ _ _ _ _)

theorem plainCall_stepsAside {v : NonConsole} (inst : Installed Build.stock v) {seat : Seat} (uid : Uid) (notRoot : uid ≠ 0)
    (waived approves marker : Bool) (hc : seat.isConsole uid = false) (hv : swNonconsoleAllows v.chain marker = true) :
    ((plainCall uid notRoot waived approves).check Build.stock inst.text seat marker).Returns .allow := by
  have hcons : ((plainCall uid notRoot waived approves).envAt inst.text seat).isConsole uid = false := hc
  have hbundles : ((plainCall uid notRoot waived approves).envAt inst.text seat).bundlesIntact := ⟨rfl, .inl rfl⟩
  have hshape : swNonconsoleChainOf Build.stock.pamPath (some inst.text) = v.chain :=
    swNonconsoleChainOf_authLines inst.reads
  refine (check_nonConsole_allow_iff (stepAsideAsks_off rfl _ _) hbundles rfl notRoot hcons).mpr ⟨?_, ?_⟩
  case refine_2 => exact plainCall_shown _ _ _ _ _ _ _ _ _ _ _
  show swNonconsoleAllows (swNonconsoleChainOf Build.stock.pamPath (some inst.text)) marker = true
  rw [hshape, hv]

/-- Its sheet is approved only if that is the answer it is given. -/
theorem plainCall_approved {text : Text} {seat : Seat} {uid : Uid} {notRoot : uid ≠ 0} {waived approves marker : Bool}
    (h : SheetApproved ((plainCall uid notRoot waived approves).check Build.stock text seat marker)) : approves = true := by
  obtain ⟨chosen, -, hr⟩ := (granted_of_approved h).replies
  rcases hr with hr | ⟨-, hr⟩
  · exact hr
  · cases hr

/-- The package under `/usr/local`, which the stock build is compiled for. -/
def stockPackage : PackagePath := ⟨"/usr/local".toList, plain_of_all (by decide)⟩

theorem stock_pamPath : Build.stock.pamPath = stockPackage.pamPath := by decide

/-- The stock build under the text the module writes. -/
def stockText (v : NonConsole) : Installed Build.stock v := .ofModule stockPackage v stock_pamPath

/-- The console user at the screen. -/
def guiSession : SecuritySession := ⟨true, true, false⟩

end SudoWhat.Sudo
