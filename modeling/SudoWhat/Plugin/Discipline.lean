/-
  SudoWhat.Plugin.Discipline — what a whole check keeps to, whatever it meets
  (`sudowhat_check`, `plugin/sudowhat_approval.m`).

  `watch` follows a check effect by effect: the effective uid, whether the target is held
  open, and what has become of errstr. Every function of the check has a triple over it, and
  the check's own (`sudowhatCheck_watched`) is read two ways.

  Proved:
  - `check_privileges`: the terminal, the question, the log and the target are root's; a sheet
    comes up under a caller who is not root, with the target held; a check that returns is root
    again, unless no policy could be evaluated and root did not come back, which is a denial;
    one that exits did so because root did not come back.
  - `check_speaks`: an allow says nothing; a refusal ends in its errstr, in sudowhat's name,
    and the one line that repeats it; a check that does not return says nothing.
-/

import SudoWhat.Lib.Monitor
import SudoWhat.Plugin.CheckGate

namespace SudoWhat.Plugin

open SudoWhat.Lib
open Monitor (triple_pure triple_halt triple_bind triple_emit_bind)

/-! ## The watch -/

inductive Speech where
  | silent
  /-- errstr is set; its line is not out. -/
  | pending (text : Bytes)
  | spoken (text : Bytes)
  deriving DecidableEq, Repr

structure Watch where
  euid : Uid
  pinned : Bool
  speech : Speech
  deriving DecidableEq, Repr

def Speech.speak : Speech → Speech
  | .pending text => .spoken text
  | s => s

def watchStep (w : Watch) : Eff → Watch
  | .errstr text => { w with speech := .pending text }
  | .message _ _ => { w with speech := w.speech.speak }
  | .openTarget _ opened => { w with pinned := opened }
  | .closeTarget => { w with pinned := false }
  | .seteuid uid ok => { w with euid := euidStep w.euid (.seteuid uid ok) }
  | _ => w

/-- Root, and silent so far. -/
structure Watch.AsRoot (w : Watch) : Prop where
  root : w.euid = 0
  silent : w.speech = .silent

/-- What goes out for an error text: the text, or the decline in yellow. -/
def LineFor (text line : Bytes) : Prop := line = text ∨ (text = swDeclineText ∧ line = swDeclineLine true)

section

variable (env : CheckEnv) (caller : Option Uid)

def watchOk (w : Watch) : Eff → Prop
  | .errstr text => w.speech = .silent ∧ lit "sudowhat: " <+: text ∧ text.length < 512
  | .message channel line => channel = env.channel ∧ ∃ text shown, w.speech = .pending text ∧ LineFor text shown ∧
      line = shown ++ lit "\n"
  | .syslog _ | .ttyWrite _ => w.AsRoot
  | .unsetMarker | .openTarget _ _ => w.AsRoot ∧ w.pinned = false
  | .converse _ | .fstatTarget _ | .statTarget _ _ => w.AsRoot ∧ w.pinned = true
  | .closeTarget => w.speech = .silent ∧ w.pinned = true
  | .seteuid uid ok => w.speech = .silent ∧ w.pinned = true ∧
      ((uid = 0 ∧ ok = env.seteuidBack) ∨ (w.euid = 0 ∧ caller = some uid ∧ uid ≠ 0))
  | .sheet _ _ _ => w.speech = .silent ∧ w.pinned = true ∧ caller = some w.euid ∧ w.euid ≠ 0

/-- Root did not come back after the dialogs. -/
def watchStop (h : Halt) (w : Watch) : Prop :=
  w.speech = .silent ∧
    match h with
    | .waiting => w.euid = 0
    | .exited => env.seteuidBack = false ∧ caller = some w.euid ∧ w.euid ≠ 0

def watch : Monitor Eff Halt Watch := ⟨watchStep, watchOk env caller, watchStop env caller⟩

/-- Root did not come back where no policy could be evaluated. -/
def Stranded : Prop := env.seteuidBack = false ∧ ∃ description, choosePolicy env = .error description

/-- How a check ends. -/
structure Ended (verdict : Ret) (w : Watch) : Prop where
  released : w.pinned = false
  allow : verdict = .allow → w.speech = .silent
  refuse : verdict ≠ .allow → ∃ text, w.speech = .spoken text
  root : w.euid = 0 ∨ (verdict = .deny ∧ Stranded env)

/-- About to refuse. -/
def Refusing (verdict : Ret) (pinned : Bool) (w : Watch) : Prop :=
  w.speech = .silent ∧ w.pinned = pinned ∧ (w.euid = 0 ∨ (verdict = .deny ∧ Stranded env))

/-- Root, silent, with the target held or not. -/
def Ready (pinned : Bool) (w : Watch) : Prop := w.AsRoot ∧ w.pinned = pinned

/-- Under the caller's uid, the target held. -/
def Dropped (w : Watch) : Prop := w.speech = .silent ∧ w.pinned = true ∧ caller = some w.euid ∧ w.euid ≠ 0

end

section

variable {env : CheckEnv} {caller : Option Uid} {α : Type}

/-! ## Saying it -/

theorem named_vsnprintf {formatted : Bytes} (h : lit "sudowhat: " <+: formatted) :
    lit "sudowhat: " <+: vsnprintf 512 formatted ∧ (vsnprintf 512 formatted).length < 512 := by
  have hlen : (lit "sudowhat: ").length ≤ 512 - 1 := by decide
  refine ⟨?_, by rw [vsnprintf, List.length_take]; omega⟩
  rw [vsnprintf, List.prefix_take_iff]
  exact ⟨h, hlen⟩

theorem ended_spoken {verdict : Ret} (hv : verdict ≠ .allow) {w : Watch} (h : Refusing env verdict false w) (text : Bytes) :
    Ended env verdict { w with speech := .spoken text } :=
  ⟨h.2.1, fun ha => absurd ha hv, fun _ => ⟨text, rfl⟩, h.2.2⟩

theorem refusing_of_ready {verdict : Ret} {pinned : Bool} : ∀ w, Ready pinned w → Refusing env verdict pinned w :=
  fun _ h => ⟨h.1.silent, h.2, .inl h.1.root⟩

theorem refuse_watched {formatted : Bytes} {verdict : Ret} (hv : verdict ≠ .allow) (h : lit "sudowhat: " <+: formatted) :
    (watch env caller).Triple (Refusing env verdict false) (do setErrstr env formatted; return verdict) (Ended env) := by
  obtain ⟨hname, hlen⟩ := named_vsnprintf h
  intro w hw
  refine ⟨⟨⟨hw.1, hname, hlen⟩, ⟨rfl, _, _, rfl, .inl rfl, rfl⟩, trivial⟩, fun a ha => ?_, fun h' hh => by cases hh⟩
  cases ha
  exact ended_spoken hv hw _

theorem decline_watched (ctx : InvokingCtx) :
    (watch env caller).Triple (Refusing env .deny false) (do setDecline env ctx; return .deny) (Ended env) := by
  have hname : lit "sudowhat: " <+: swDeclineText := by decide
  have htext : vsnprintf 512 swDeclineText = swDeclineText := by decide
  intro w hw
  refine ⟨⟨⟨hw.1, ?_⟩, ⟨rfl, _, _, rfl, ?_, rfl⟩, trivial⟩, fun a ha => ?_, fun h' hh => by cases hh⟩
  · rw [htext]
    exact ⟨hname, by decide⟩
  · rw [htext]
    cases swColorAllowed ctx && env.stderrIsTerminal with
    | false => exact .inl rfl
    | true => exact .inr ⟨rfl, rfl⟩
  · cases ha
    exact ended_spoken (by decide) hw _

theorem refuse_path_watched {verdict : Ret} (hv : verdict ≠ .allow) (what errno path : Bytes) :
    (watch env caller).Triple (Refusing env verdict false) (do setErrstrPath env what errno path; return verdict) (Ended env) :=
  refuse_watched hv (by simp only [List.append_assoc]; exact List.prefix_append _ _)

/-! ## Showing and asking -/

section Steady

variable {P : Watch → Prop} (hP : ∀ w, P w → w.AsRoot)

include hP

theorem shown_steady {e : Eff} {f : Unit → Act α} {R : α → Watch → Prop} (he : (∃ t, e = .syslog t) ∨ ∃ t, e = .ttyWrite t)
    (hf : (watch env caller).Triple P (f ()) R) : (watch env caller).Triple P (Traced.emit e >>= f) R := by
  refine triple_emit_bind (fun w hw => ?_) hf
  rcases he with ⟨t, rfl⟩ | ⟨t, rfl⟩
  · exact ⟨hP w hw, hw⟩
  · exact ⟨hP w hw, hw⟩

theorem writeLoop_watched (write : Nat → WriteResult) :
    ∀ fuel k rest, (watch env caller).Triple P (writeLoop write fuel k rest) fun _ => P := by
  intro fuel
  induction fuel with
  | zero =>
    intro k rest
    cases rest with
    | nil => exact triple_pure fun w hw => hw
    | cons c cs => exact triple_halt fun w hw => ⟨(hP w hw).silent, (hP w hw).root⟩
  | succ fuel ih =>
    intro k rest
    cases rest with
    | nil => exact triple_pure fun w hw => hw
    | cons c cs =>
      unfold writeLoop
      cases write k with
      | failed => exact triple_pure fun w hw => hw
      | interrupted => exact ih _ _
      | wrote n => exact shown_steady hP (.inr ⟨_, rfl⟩) (ih _ _)

theorem emitVerifyCode_watched (code : Text) (colorAllowed : Bool) :
    (watch env caller).Triple P (emitVerifyCode env code colorAllowed) fun _ => P := by
  have hwrite : (watch env caller).Triple P (writeVerifyCodeToTty env code colorAllowed) fun _ => P := by
    unfold writeVerifyCodeToTty
    dsimp only
    split
    · exact triple_pure fun w hw => hw
    · split
      · exact triple_pure fun w hw => hw
      · exact writeLoop_watched hP _ _ _ _
  exact triple_bind hwrite fun _ => triple_pure fun w hw => hw

theorem writeExecLine_watched (b : Build) (path : Bytes) (runArgv : List Bytes) (layout : ExecLayout) (runas : Option Bytes)
    (colorAllowed : Bool) :
    (watch env caller).Triple P (writeExecLineToTty b env path runArgv layout runas colorAllowed) fun _ => P := by
  unfold writeExecLineToTty
  dsimp only
  split
  · exact triple_pure fun w hw => hw
  · split
    · exact triple_pure fun w hw => hw
    · exact writeLoop_watched hP _ _ _ _

theorem emitExecLine_watched (b : Build) (path : Option Bytes) (runArgv : List Bytes) (layout : ExecLayout)
    (runas : Option Bytes) (colorAllowed : Bool) :
    (watch env caller).Triple P (emitExecLine b env path runArgv layout runas colorAllowed) fun _ => P := by
  unfold emitExecLine
  split
  · exact triple_pure fun w hw => hw
  · cases path with
    | none => exact triple_pure fun w hw => hw
    | some path => exact triple_bind (writeExecLine_watched hP b _ _ _ _ _) fun _ => triple_pure fun w hw => hw

end Steady

theorem Ready.asRoot {pinned : Bool} : ∀ w, Ready pinned w → w.AsRoot := fun _ h => h.1

theorem askLoop_watched (conversation : Nat → ConvReply) (again : Text) :
    ∀ fuel k prompt, (watch env caller).Triple (Ready true) (askLoop conversation again fuel k prompt) fun _ => Ready true := by
  intro fuel
  induction fuel with
  | zero => exact fun k prompt => triple_halt fun w hw => ⟨hw.1.silent, hw.1.root⟩
  | succ fuel ih =>
    intro k prompt
    unfold askLoop
    refine triple_emit_bind (M := Ready true) (fun w hw => ⟨hw, hw⟩) ?_
    split
    · exact triple_pure fun w hw => hw
    · exact triple_pure fun w hw => hw
    · exact ih _ _

theorem swAskRunConfirm_watched (ctx : InvokingCtx) (blankFirst : Bool) :
    (watch env caller).Triple (Ready true) (swAskRunConfirm env ctx blankFirst) fun _ => Ready true := by
  unfold swAskRunConfirm
  split
  · exact triple_pure fun w hw => hw
  · exact askLoop_watched _ _ _ _ _

/-! ## The target -/

theorem close_watched {verdict : Ret} {f : Unit → Act Ret}
    (hf : (watch env caller).Triple (Refusing env verdict false) (f ()) (Ended env)) :
    (watch env caller).Triple (Refusing env verdict true) (Traced.emit .closeTarget >>= f) (Ended env) :=
  triple_emit_bind (fun _ hw => ⟨⟨hw.1, hw.2.1⟩, hw.1, rfl, hw.2.2⟩) hf

theorem close_refuse_watched {formatted : Bytes} {verdict : Ret} (hv : verdict ≠ .allow) (h : lit "sudowhat: " <+: formatted) :
    (watch env caller).Triple (Refusing env verdict true)
      (do Traced.emit .closeTarget; setErrstr env formatted; return verdict) (Ended env) :=
  close_watched (refuse_watched hv h)

theorem stat_watched {path : Bytes} {id : Option FileId} {f : Unit → Act Ret}
    (hf : (watch env caller).Triple (Ready true) (f ()) (Ended env)) :
    (watch env caller).Triple (Ready true) (Traced.emit (.statTarget path id) >>= f) (Ended env) :=
  triple_emit_bind (fun _ hw => ⟨hw, hw⟩) hf

theorem allow_watched : (watch env caller).Triple (Ready false) (pure .allow : Act Ret) (Ended env) :=
  triple_pure fun _ hw => ⟨hw.2, fun _ => hw.1.silent, fun h => absurd rfl h, .inl hw.1.root⟩

theorem restat_watched {post pin : FileId} {path : Bytes} {said : Bytes} (h : lit "sudowhat: " <+: said) :
    (watch env caller).Triple (Ready true) (do
      Traced.emit (.statTarget path (some post))
      Traced.emit .closeTarget
      if post = pin then return .allow
      else
        setErrstr env said
        return .deny) (Ended env) := by
  refine stat_watched (triple_emit_bind (M := Ready false) (fun w hw => ⟨⟨hw.1.silent, hw.2⟩, ⟨hw.1.root, hw.1.silent⟩, rfl⟩) ?_)
  split
  · exact allow_watched
  · exact (refuse_watched (by decide) h).conseq refusing_of_ready fun _ _ h => h

theorem restat_failed_watched {path : Bytes} (what errno : Bytes) :
    (watch env caller).Triple (Ready true) (do
      Traced.emit (.statTarget path none)
      Traced.emit .closeTarget
      setErrstrPath env what errno path
      return .deny) (Ended env) :=
  stat_watched ((close_watched (refuse_path_watched (by decide) _ _ _)).conseq refusing_of_ready fun _ _ h => h)

theorem recheckTarget_watched (path : Bytes) (pin : FileId) :
    (watch env caller).Triple (Ready true) (recheckTarget env path pin) (Ended env) := by
  unfold recheckTarget
  split
  · exact restat_failed_watched _ _
  · exact restat_watched (by decide)

theorem pin_watched {path : Bytes} {f : FileId → Act Ret}
    (hf : ∀ pin, (watch env caller).Triple (Ready true) (f pin) (Ended env)) :
    (watch env caller).Triple (Ready false)
      (match env.openTarget with
      | .error errno => do
        Traced.emit (.openTarget path false)
        setErrstrPath env (lit "cannot open the target binary") errno path
        return .deny
      | .ok () => do
        Traced.emit (.openTarget path true)
        match env.fstatTarget with
        | .error saved => do
          Traced.emit (.fstatTarget none)
          Traced.emit .closeTarget
          setErrstrPath env (lit "fstat failed") saved path
          return .error
        | .ok pin => do
          Traced.emit (.fstatTarget (some pin))
          f pin) (Ended env) := by
  have hopen : ∀ opened w, Ready false w → (watch env caller).ok w (.openTarget path opened) ∧
      Ready opened ((watch env caller).step w (.openTarget path opened)) :=
    fun opened w hw => ⟨hw, ⟨hw.1.root, hw.1.silent⟩, rfl⟩
  cases env.openTarget with
  | error errno =>
    exact triple_emit_bind (hopen false) ((refuse_path_watched (by decide) _ _ _).conseq refusing_of_ready fun _ _ h => h)
  | ok u =>
    refine triple_emit_bind (hopen true) ?_
    cases env.fstatTarget with
    | error saved =>
      refine triple_emit_bind (M := Ready true) (fun _ hw => ⟨hw, hw⟩) ?_
      exact (close_watched (refuse_path_watched (by decide) _ _ _)).conseq refusing_of_ready fun _ _ h => h
    | ok pin => exact triple_emit_bind (M := Ready true) (fun _ hw => ⟨hw, hw⟩) (hf pin)

/-! ## The step-aside -/

theorem confirmAnswered_watched (ctx : InvokingCtx) (path : Bytes) (pin : FileId) (yes : Bool) :
    (watch env caller).Triple (Ready true) (confirmAnswered env ctx path pin yes) (Ended env) := by
  unfold confirmAnswered
  split
  · exact (close_watched (decline_watched ctx)).conseq refusing_of_ready fun _ _ h => h
  · split
    · exact restat_failed_watched _ _
    · exact restat_watched (by decide)

theorem swConfirmRun_watched (b : Build) (ctx : InvokingCtx) (path : Bytes) (runArgv : List Bytes) (layout : ExecLayout)
    (runas : Option Bytes) :
    (watch env caller).Triple (Ready false) (swConfirmRun b env ctx path runArgv layout runas) (Ended env) := by
  refine pin_watched fun pin => ?_
  refine triple_bind (writeExecLine_watched Ready.asRoot b _ _ _ _ _) fun shown => ?_
  split
  · exact (close_refuse_watched (by decide) (by decide)).conseq refusing_of_ready fun _ _ h => h
  · exact triple_bind (swAskRunConfirm_watched ctx _) fun yes => confirmAnswered_watched ctx path pin yes

theorem swStepAsideAllow_watched (b : Build) (ctx : InvokingCtx) (commandC : Option Bytes) (runArgv : List Bytes)
    (runas : Bytes) (marker : Bool) :
    (watch env caller).Triple (Ready false) (swStepAsideAllow b env ctx commandC runArgv runas marker) (Ended env) := by
  unfold swStepAsideAllow
  split
  · exact triple_bind (emitExecLine_watched Ready.asRoot b _ _ _ _ _) fun _ => allow_watched
  · split
    · exact (refuse_watched (by decide) (by decide)).conseq refusing_of_ready fun _ _ h => h
    · exact swConfirmRun_watched b ctx _ _ _ _

/-! ## The sheet -/

theorem evaluatePolicy_watched (chosen : LAPolicy) (text : NSString) :
    (watch env caller).Triple (Dropped caller) (evaluatePolicy env chosen text) fun _ => Dropped caller := by
  unfold evaluatePolicy
  refine triple_emit_bind (M := Dropped caller) (fun _ hw => ⟨hw, hw⟩) ?_
  split
  · exact triple_emit_bind (M := Dropped caller) (fun _ hw => ⟨hw, hw⟩) (triple_pure fun _ hw => hw)
  · exact triple_pure fun _ hw => hw

theorem afterDialogs_watched (path : Bytes) (pin : FileId) (reply : LAReply) :
    (watch env caller).Triple (Dropped caller) (afterDialogs env path pin reply) (Ended env) := by
  unfold afterDialogs
  cases hb : env.seteuidBack with
  | false =>
    refine triple_emit_bind (M := Dropped caller) (fun w hw => ⟨⟨hw.1, hw.2.1, .inl ⟨rfl, hb.symm⟩⟩, hw⟩) ?_
    exact triple_halt fun w hw => ⟨hw.1, hb, hw.2.2⟩
  | true =>
    refine triple_emit_bind (M := Ready true) (fun w hw => ⟨⟨hw.1, hw.2.1, .inl ⟨rfl, hb.symm⟩⟩, ⟨rfl, hw.1⟩, hw.2.1⟩) ?_
    simp only [Bool.not_true, Bool.false_eq_true, if_false]
    split
    · exact (close_refuse_watched (by decide) (List.prefix_append_of_prefix (by decide))).conseq refusing_of_ready
        fun _ _ h => h
    · exact recheckTarget_watched path pin

theorem raiseSheet_watched {uid : Uid} (hu : caller = some uid) (h0 : uid ≠ 0) (path : Bytes) (pin : FileId)
    (text : NSString) : (watch env caller).Triple (Ready true) (raiseSheet env uid path pin text) (Ended env) := by
  have hdrop : ∀ ok w, Ready true w → (watch env caller).ok w (.seteuid uid ok) :=
    fun ok w hw => ⟨hw.1.silent, hw.2, .inr ⟨hw.1.root, hu, h0⟩⟩
  unfold raiseSheet
  split
  · refine triple_emit_bind (M := Ready true) (fun w hw => ⟨hdrop false w hw, hw⟩) ?_
    refine (close_refuse_watched (by decide) ?_).conseq refusing_of_ready fun _ _ h => h
    simp only [List.append_assoc]
    exact List.prefix_append_of_prefix (by decide)
  · refine triple_emit_bind (M := Dropped caller) (fun w hw => ⟨hdrop true w hw, hw.1.silent, hw.2, hu, h0⟩) ?_
    split
    · rename_i description hpolicy
      -- whether root came back is not looked at here
      have hback : ∀ w, Dropped caller w → (watch env caller).ok w (.seteuid 0 env.seteuidBack) ∧
          Refusing env .deny true ((watch env caller).step w (.seteuid 0 env.seteuidBack)) := by
        intro w hw
        refine ⟨⟨hw.1, hw.2.1, .inl ⟨rfl, rfl⟩⟩, hw.1, hw.2.1, ?_⟩
        cases hb : env.seteuidBack with
        | true => exact .inl rfl
        | false => exact .inr ⟨rfl, hb, description, hpolicy⟩
      exact triple_emit_bind hback (close_refuse_watched (by decide) (List.prefix_append_of_prefix (by decide)))
    · exact triple_bind (evaluatePolicy_watched _ text) fun reply => afterDialogs_watched path pin reply

/-! ## The whole check -/

theorem askConsole_watched (b : Build) (ctx : InvokingCtx) (commandInfo runArgv : List Bytes) {uid : Uid}
    (hu : caller = some uid) (h0 : uid ≠ 0) (path : Bytes) :
    (watch env caller).Triple (Ready false) (askConsole b ctx env commandInfo runArgv uid path) (Ended env) := by
  refine pin_watched fun pin => ?_
  split
  · exact (close_refuse_watched (by decide) (by decide)).conseq refusing_of_ready fun _ _ h => h
  · refine triple_bind (emitVerifyCode_watched Ready.asRoot _ _) fun _ => ?_
    refine triple_bind (emitExecLine_watched Ready.asRoot b _ _ _ _ _) fun _ => ?_
    exact raiseSheet_watched hu h0 path pin _

theorem checkConsole_watched (b : Build) (ctx : InvokingCtx) (commandInfo runArgv : List Bytes) {uid : Uid}
    (hu : caller = some uid) (h0 : uid ≠ 0) (marker : Bool) :
    (watch env caller).Triple (Ready false) (checkConsole b ctx env commandInfo runArgv uid marker) (Ended env) := by
  unfold checkConsole
  split
  · exact (refuse_watched (by decide) (by decide)).conseq refusing_of_ready fun _ _ h => h
  · split
    · refine triple_bind (emitExecLine_watched Ready.asRoot b _ _ _ _ _) fun _ => ?_
      exact shown_steady Ready.asRoot (.inl ⟨_, rfl⟩) allow_watched
    · exact askConsole_watched b ctx commandInfo runArgv hu h0 _

theorem checkNonConsole_watched (b : Build) (ctx : InvokingCtx) (commandInfo runArgv : List Bytes) (uid : Uid)
    (marker : Bool) :
    (watch env caller).Triple (Ready false) (checkNonConsole b ctx env commandInfo runArgv uid marker) (Ended env) := by
  unfold checkNonConsole
  dsimp only
  split
  · refine triple_bind (swStepAsideAllow_watched b ctx _ _ _ _) fun verdict => ?_
    split
    · exact triple_pure fun w hw => hw
    · rename_i hv
      obtain rfl := not_not.mp hv
      -- an allowed step-aside is root and silent still
      have hready : ∀ w, Ended env .allow w → Ready false w := by
        intro w hw
        refine ⟨⟨?_, hw.allow rfl⟩, hw.released⟩
        rcases hw.root with h | ⟨h, _⟩
        · exact h
        · cases h
      exact (shown_steady Ready.asRoot (.inl ⟨_, rfl⟩) allow_watched).conseq hready fun _ _ h => h
  · refine (refuse_watched (by decide) ?_).conseq refusing_of_ready fun _ _ h => h
    split <;> decide

theorem checkRoot_watched (b : Build) (ctx : InvokingCtx) (commandInfo runArgv : List Bytes) :
    (watch env caller).Triple (Ready false) (checkRoot b ctx env commandInfo runArgv) (Ended env) :=
  shown_steady Ready.asRoot (.inl ⟨_, rfl⟩)
    (triple_bind (emitExecLine_watched Ready.asRoot b _ _ _ _ _) fun _ => allow_watched)

theorem checkCaller_watched (b : Build) (ctx : InvokingCtx) (commandInfo runArgv : List Bytes) (marker : Bool) :
    (watch env ctx.uid).Triple (Ready false) (checkCaller b ctx env commandInfo runArgv marker) (Ended env) := by
  unfold checkCaller
  split
  · exact (refuse_watched (by decide) (by decide)).conseq refusing_of_ready fun _ _ h => h
  · rename_i uid hu
    split
    · exact checkRoot_watched b ctx commandInfo runArgv
    · rename_i h0
      split
      · exact checkNonConsole_watched b ctx commandInfo runArgv uid marker
      · exact checkConsole_watched b ctx commandInfo runArgv hu h0 marker

theorem sudowhatCheck_watched (b : Build) (ctx : InvokingCtx) (commandInfo runArgv : List Bytes) (marker : Bool) :
    (watch env ctx.uid).Triple (Ready false) (sudowhatCheck b ctx env commandInfo runArgv marker) (Ended env) := by
  have hrefuse : ∀ said description, lit "sudowhat: " <+: said → (watch env ctx.uid).Triple (Ready false)
      (do setErrstr env (said ++ utf8Or description "unknown".toList); return .deny) (Ended env) := by
    intro said description h
    exact (refuse_watched (by decide) (List.prefix_append_of_prefix h)).conseq refusing_of_ready fun _ _ h => h
  unfold sudowhatCheck
  split
  · exact hrefuse _ _ (by decide)
  · split
    · exact hrefuse _ _ (by decide)
    · exact triple_emit_bind (M := Ready false) (fun w hw => ⟨hw, hw⟩) (checkCaller_watched b ctx commandInfo runArgv marker)

/-! ## What the trace says -/

/-- Done as root only. -/
def Eff.ofRoot : Eff → Bool
  | .syslog _ | .ttyWrite _ | .converse _ | .openTarget _ _ | .fstatTarget _ | .statTarget _ _ => true
  | _ => false

/-- Puts something into errstr or out as a line. -/
def Eff.speaks : Eff → Bool
  | .errstr _ | .message _ _ => true
  | _ => false

def heldStep (held : Bool) : Eff → Bool
  | .openTarget _ opened => opened
  | .closeTarget => false
  | _ => held

/-- Whether a descriptor on the target is open after these effects. -/
def heldAfter (held : Bool) (es : List Eff) : Bool := es.foldl heldStep held

theorem watch_after (es : List Eff) : ∀ w : Watch, ((watch env caller).after w es).euid = euidAfter w.euid es ∧
    ((watch env caller).after w es).pinned = heldAfter w.pinned es := by
  induction es with
  | nil => exact fun w => ⟨rfl, rfl⟩
  | cons e es ih =>
    intro w
    have hstep : (watchStep w e).euid = euidStep w.euid e ∧ (watchStep w e).pinned = heldStep w.pinned e := by
      cases e <;> exact ⟨rfl, rfl⟩
    obtain ⟨he, hp⟩ := ih (watchStep w e)
    rw [hstep.1] at he
    rw [hstep.2] at hp
    exact ⟨he, hp⟩

theorem silent_of_ok {w : Watch} {e : Eff} (h : watchOk env caller w e) (he : ∀ channel line, e ≠ .message channel line) :
    w.speech = .silent := by
  cases e with
  | message channel line => exact absurd rfl (he channel line)
  | errstr _ | closeTarget | seteuid _ _ | sheet _ _ _ => exact h.1
  | syslog _ | ttyWrite _ => exact h.silent
  | unsetMarker | openTarget _ _ | converse _ | fstatTarget _ | statTarget _ _ => exact h.1.silent

theorem allows_spoken {w : Watch} {text : Bytes} (hw : w.speech = .spoken text) {es : List Eff}
    (h : (watch env caller).Allows w es) : es = [] := by
  cases es with
  | nil => rfl
  | cons e es =>
    have hok : watchOk env caller w e := h.1
    cases hw.symm.trans (silent_of_ok hok (by
      rintro channel line rfl
      obtain ⟨-, text', -, ht, -⟩ := hok
      cases hw.symm.trans ht))

theorem allows_pending {w : Watch} {text : Bytes} (hw : w.speech = .pending text) {es : List Eff}
    (h : (watch env caller).Allows w es) :
    es = [] ∨ ∃ shown, LineFor text shown ∧ es = [.message env.channel (shown ++ lit "\n")] := by
  cases es with
  | nil => exact .inl rfl
  | cons e es =>
    right
    have hok : watchOk env caller w e := h.1
    by_cases he : ∃ channel line, e = .message channel line
    · obtain ⟨channel, line, rfl⟩ := he
      obtain ⟨rfl, text', shown, ht, hline, rfl⟩ := hok
      cases hw.symm.trans ht
      have hspoken : (watchStep w (.message env.channel (shown ++ lit "\n"))).speech = .spoken text := by
        rw [watchStep, hw]
        rfl
      rw [allows_spoken hspoken h.2]
      exact ⟨shown, hline, rfl⟩
    · cases hw.symm.trans (silent_of_ok hok fun channel line e => he ⟨channel, line, e⟩)

theorem allows_silent {es : List Eff} : ∀ {w : Watch}, w.speech = .silent → (watch env caller).Allows w es →
    ((∀ e ∈ es, e.speaks = false) ∧ ((watch env caller).after w es).speech = .silent) ∨
      ∃ quiet text rest, es = quiet ++ .errstr text :: rest ∧ (∀ e ∈ quiet, e.speaks = false) ∧
        lit "sudowhat: " <+: text ∧ text.length < 512 ∧
        ∃ w', w'.speech = .pending text ∧ (watch env caller).Allows w' rest ∧
          (watch env caller).after w es = (watch env caller).after w' rest := by
  induction es with
  | nil => exact fun hw _ => .inl ⟨fun e he => absurd he List.not_mem_nil, hw⟩
  | cons e es ih =>
    intro w hw h
    have hok : watchOk env caller w e := h.1
    have hquiet : e.speaks = false → (watchStep w e).speech = .silent := by
      intro he
      cases e <;> first | exact hw | cases he
    cases hs : e.speaks with
    | false =>
      rcases ih (hquiet hs) h.2 with ⟨hall, hend⟩ | ⟨quiet, text, rest, hes, hq, hrest⟩
      · exact .inl ⟨List.forall_mem_cons.mpr ⟨hs, hall⟩, hend⟩
      · exact .inr ⟨e :: quiet, text, rest, by rw [hes, List.cons_append], List.forall_mem_cons.mpr ⟨hs, hq⟩, hrest⟩
    | true =>
      cases e with
      | errstr text => exact .inr ⟨[], text, es, rfl, fun e he => absurd he List.not_mem_nil, hok.2.1, hok.2.2, _, rfl, h.2, rfl⟩
      | message channel line =>
        obtain ⟨-, text, -, ht, -⟩ := hok
        cases hw.symm.trans ht
      | _ => cases hs

theorem stays_dropped (hb : env.seteuidBack = false) {es : List Eff} :
    ∀ {w : Watch}, (watch env caller).Allows w es → w.euid ≠ 0 → ((watch env caller).after w es).euid ≠ 0 := by
  induction es with
  | nil => exact fun _ hw => hw
  | cons e es ih =>
    intro w h hw
    have hok : watchOk env caller w e := h.1
    refine ih h.2 ?_
    cases e with
    | seteuid uid ok =>
      obtain ⟨-, -, ⟨rfl, rfl⟩ | ⟨h0, -⟩⟩ := hok
      · have hstep : ((watch env caller).step w (.seteuid 0 env.seteuidBack)).euid = w.euid := by
          rw [hb]
          rfl
        rwa [hstep]
      · exact absurd h0 hw
    | _ => exact hw

theorem dropped_of_mem (hb : env.seteuidBack = false) {es : List Eff} {w : Watch} (h : (watch env caller).Allows w es)
    {uid : Uid} (h0 : uid ≠ 0) (hmem : .seteuid uid true ∈ es) : ((watch env caller).after w es).euid ≠ 0 := by
  obtain ⟨pre, post, rfl⟩ := List.append_of_mem hmem
  obtain ⟨-, -, hpost⟩ := Monitor.allows_append.mp h
  rw [Monitor.after_append, Monitor.after_cons]
  exact stays_dropped hb hpost h0

/-- Not root any more: some drop went through. -/
theorem mem_of_dropped {es : List Eff} : ∀ {u : Uid}, u = 0 → euidAfter u es ≠ 0 →
    ∃ uid ≠ 0, Eff.seteuid uid true ∈ es := by
  induction es with
  | nil => exact fun hu h => absurd hu h
  | cons e es ih =>
    intro u hu h
    by_cases hstep : euidStep u e = 0
    · obtain ⟨uid, h0, hmem⟩ := ih hstep h
      exact ⟨uid, h0, List.mem_cons_of_mem _ hmem⟩
    · cases e with
      | seteuid uid ok =>
        cases ok with
        | true => exact ⟨uid, hstep, List.mem_cons_self⟩
        | false => exact absurd hu hstep
      | _ => exact absurd hu hstep

/-- What a check keeps to about its uid and the target. -/
structure Privileges (ctx : InvokingCtx) (env : CheckEnv) (check : Act Ret) : Prop where
  asRoot : ∀ {pre e post}, check.trace = pre ++ e :: post → e.ofRoot = true → euidAfter 0 pre = 0
  asks : ∀ {pre prompt post}, check.trace = pre ++ .converse prompt :: post → heldAfter false pre = true
  sheets : ∀ {pre policy text approved post}, check.trace = pre ++ .sheet policy text approved :: post →
    heldAfter false pre = true ∧ ctx.uid = some (euidAfter 0 pre) ∧ euidAfter 0 pre ≠ 0
  returned : ∀ {verdict}, check.Returns verdict → heldAfter false check.trace = false ∧
    (euidAfter 0 check.trace ≠ 0 ↔ env.seteuidBack = false ∧ ∃ uid ≠ 0, .seteuid uid true ∈ check.trace) ∧
    (euidAfter 0 check.trace ≠ 0 → verdict = .deny ∧ ∃ description, choosePolicy env = .error description)
  waiting : check.result = .error .waiting → euidAfter 0 check.trace = 0
  exited : check.result = .error .exited →
    env.seteuidBack = false ∧ ctx.uid = some (euidAfter 0 check.trace) ∧ euidAfter 0 check.trace ≠ 0

/-- Sudo calls a check as root, with nothing said and nothing held. -/
def watchStart : Watch := ⟨0, false, .silent⟩

theorem watchStart_ready : Ready false watchStart := ⟨⟨rfl, rfl⟩, rfl⟩

end

/-- A check shows, asks, logs and reads the target as root only; it puts up a sheet only under
    a caller's uid that is not root's, holding the target; what it holds it lets go. It returns
    as root unless it dropped root and root did not come back, and then it denies, no policy
    having been there to evaluate. It exits only with root not back. -/
theorem check_privileges (b : Build) (ctx : InvokingCtx) (env : CheckEnv) (commandInfo runArgv : List Bytes)
    (marker : Bool) : Privileges ctx env (sudowhatCheck b ctx env commandInfo runArgv marker) := by
  have hwatch := @sudowhatCheck_watched env b ctx commandInfo runArgv marker
  have hafter : ∀ es, ((watch env ctx.uid).after watchStart es).euid = euidAfter 0 es ∧
      ((watch env ctx.uid).after watchStart es).pinned = heldAfter false es := fun es => watch_after es watchStart
  refine ⟨fun {pre e post} h he => ?_, fun {pre _ _} h => ?_, fun {pre _ _ _ _} h => ?_, fun {verdict} h => ?_, fun h => ?_,
    fun h => ?_⟩
  · rw [← (hafter pre).1]
    have hok : watchOk env ctx.uid _ e := hwatch.at_effect watchStart_ready h
    cases e <;> first | exact hok.root | exact hok.1.root | cases he
  · rw [← (hafter pre).2]
    exact (hwatch.at_effect watchStart_ready h).2
  · rw [← (hafter pre).1, ← (hafter pre).2]
    exact (hwatch.at_effect watchStart_ready h).2
  · obtain ⟨hreleased, -, -, hroot⟩ := hwatch.returned watchStart_ready h
    rw [(hafter _).2] at hreleased
    rw [(hafter _).1] at hroot
    have hstranded : euidAfter 0 (sudowhatCheck b ctx env commandInfo runArgv marker).trace ≠ 0 →
        verdict = .deny ∧ Stranded env := fun h => hroot.resolve_left h
    refine ⟨hreleased, ⟨fun h => ⟨(hstranded h).2.1, mem_of_dropped rfl h⟩, fun ⟨hb, uid, h0, hmem⟩ => ?_⟩, fun h =>
      ⟨(hstranded h).1, (hstranded h).2.2⟩⟩
    rw [← (hafter _).1]
    exact dropped_of_mem hb (hwatch watchStart watchStart_ready).1 h0 hmem
  · rw [← (hafter _).1]
    exact (hwatch.stopped watchStart_ready h).2
  · rw [← (hafter _).1]
    exact (hwatch.stopped watchStart_ready h).2

/-- A check that refuses ends in an errstr in sudowhat's name and one line that repeats it, on
    the channel the build has; any other run says nothing at all. -/
theorem check_speaks (b : Build) (ctx : InvokingCtx) (env : CheckEnv) (commandInfo runArgv : List Bytes) (marker : Bool) :
    (∀ verdict, (sudowhatCheck b ctx env commandInfo runArgv marker).Returns verdict → verdict ≠ .allow →
      ∃ quiet text shown, (sudowhatCheck b ctx env commandInfo runArgv marker).trace =
          quiet ++ [.errstr text, .message env.channel (shown ++ lit "\n")] ∧
        (∀ e ∈ quiet, e.speaks = false) ∧ lit "sudowhat: " <+: text ∧ text.length < 512 ∧ LineFor text shown) ∧
    ((∀ verdict, (sudowhatCheck b ctx env commandInfo runArgv marker).Returns verdict → verdict = .allow) →
      ∀ e ∈ (sudowhatCheck b ctx env commandInfo runArgv marker).trace, e.speaks = false) := by
  have hwatch := @sudowhatCheck_watched env b ctx commandInfo runArgv marker
  obtain ⟨hallows, hret, hstop⟩ := hwatch watchStart watchStart_ready
  have hparts := allows_silent rfl hallows
  constructor
  · intro verdict hv hne
    obtain ⟨text', hspoken⟩ := (hret verdict hv).refuse hne
    rcases hparts with ⟨-, hend⟩ | ⟨quiet, text, rest, htrace, hquiet, hname, hlen, w, hw, hrest, hafter⟩
    · cases hspoken.symm.trans hend
    · rcases allows_pending hw hrest with rfl | ⟨shown, hline, rfl⟩
      · rw [hafter, Monitor.after_nil, hw] at hspoken
        cases hspoken
      · exact ⟨quiet, text, shown, htrace, hquiet, hname, hlen, hline⟩
  · intro hv
    have hend : ((watch env ctx.uid).after watchStart (sudowhatCheck b ctx env commandInfo runArgv marker).trace).speech =
        .silent := by
      cases hr : (sudowhatCheck b ctx env commandInfo runArgv marker).result with
      | ok verdict => exact (hret verdict hr).allow (hv verdict hr)
      | error h => exact (hstop h hr).1
    rcases hparts with ⟨hall, -⟩ | ⟨quiet, text, rest, -, -, -, -, w, hw, hrest, hafter⟩
    · exact hall
    · exfalso
      rw [hafter] at hend
      rcases allows_pending hw hrest with rfl | ⟨shown, -, rfl⟩
      · cases hw.symm.trans hend
      · have hspoken : ((watch env ctx.uid).after w [.message env.channel (shown ++ lit "\n")]).speech = w.speech.speak := rfl
        rw [hspoken, hw] at hend
        cases hend

end SudoWhat.Plugin
