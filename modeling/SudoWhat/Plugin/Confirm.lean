/-
  SudoWhat.Plugin.Confirm — the non-console step-aside and its confirm ceremony
  (`sw_step_aside_allow`, `sw_confirm_run`, `sw_ask_run_confirm`).

  Without the question the step-aside prints the execute line and allows. With it, the
  target is pinned, the line must reach the terminal whole, the answer must be a yes, and
  the path must still name the pinned file. Proved: the step-aside allows only so
  (`stepAside_allow`), and it raises no sheet and leaves the uid and the marker alone
  (`stepAside_kinds`).
-/

import SudoWhat.Plugin.Display
import SudoWhat.Plugin.SudoLocal

namespace SudoWhat.Plugin

open SudoWhat.Lib

/-! ## The answer -/

inductive Answer where
  /-- Not an answer: ask again. -/
  | unknown
  | yes
  | no
  deriving DecidableEq, Repr

/-- The bytes the classifier trims: space, TAB, CR and LF. -/
def isAnswerBlank (c : UInt8) : Bool := c == 0x20 || c == 0x09 || c == 0x0D || c == 0x0A

/-- `letter` in either case. -/
def isLetter (letter c : UInt8) : Bool := c == letter || c == letter - 0x20

def swConfirmAnswer (reply : Option Bytes) : Answer :=
  match reply with
  | none => .no
  | some reply =>
    match Fields.trim isAnswerBlank reply with
    | [] => .no
    | [a] => if isLetter 0x79 a then .yes else if isLetter 0x6E a then .no else .unknown
    | [a, b] => if isLetter 0x6E a && isLetter 0x6F b then .no else .unknown
    | [a, b, c] => if isLetter 0x79 a && isLetter 0x65 b && isLetter 0x73 c then .yes else .unknown
    | _ => .unknown

/-! ## The question -/

def swConfirmQuestion : Text := "sudowhat: run this command? [y/N] ".toList

def swConfirmQuestionStyled : Text :=
  "sudowhat: \x1b[1mrun this command? [\x1b[1;34my\x1b[0m\x1b[1m/\x1b[1;34mN\x1b[0m\x1b[1m]\x1b[0m ".toList

def swConfirmPrompt (color blankFirst : Bool) : Text :=
  (if blankFirst then ['\n'] else []) ++ if color then swConfirmQuestionStyled else swConfirmQuestion

def swReaskPrompt (color : Bool) : Text :=
  if color then "\x1b[33mnot an answer\x1b[0m\n".toList ++ swConfirmQuestionStyled
  else "not an answer\n".toList ++ swConfirmQuestion

/-- The asking loop, from the `k`-th question on. -/
def askLoop (conversation : Nat → ConvReply) (again : Text) : Nat → Nat → Text → Act Bool
  | 0, _, _ => Traced.halt .waiting
  | fuel + 1, k, prompt => do
    Traced.emit (.converse prompt)
    match (if (conversation k).ok then swConfirmAnswer (conversation k).reply else .no) with
    | .yes => pure true
    | .no => pure false
    | .unknown => askLoop conversation again fuel (k + 1) again

def swAskRunConfirm (env : CheckEnv) (ctx : InvokingCtx) (blankFirst : Bool) : Act Bool :=
  match env.conversation with
  | none => pure false
  | some conversation =>
    let color := swColorAllowed ctx && swHaveControllingTty env .confirmColour
    askLoop conversation (swReaskPrompt color) env.fuel 0 (swConfirmPrompt color blankFirst)

/-! ## The ceremony -/

/-- The question was answered: re-stat the path against the pinned file. -/
def confirmAnswered (env : CheckEnv) (ctx : InvokingCtx) (commandC : Bytes) (preSt : FileId) (yes : Bool) : Act Ret :=
  if !yes then do
    Traced.emit .closeTarget
    setDecline env ctx
    return .deny
  else
    match env.statTarget with
    | .error saved => do
      Traced.emit (.statTarget commandC none)
      Traced.emit .closeTarget
      setErrstrPath env (lit "post-confirm stat failed") saved commandC
      return .deny
    | .ok postSt => do
      Traced.emit (.statTarget commandC (some postSt))
      Traced.emit .closeTarget
      if postSt = preSt then return .allow
      else
        setErrstr env (lit "sudowhat: target binary changed during authorization")
        return .deny

def swConfirmRun (b : Build) (env : CheckEnv) (ctx : InvokingCtx) (commandC : Bytes) (runArgv : List Bytes)
    (layout : ExecLayout) (runas : Option Bytes) : Act Ret :=
  match env.openTarget with
  | .error errno => do
    Traced.emit (.openTarget commandC false)
    setErrstrPath env (lit "cannot open the target binary") errno commandC
    return .deny
  | .ok () => do
    Traced.emit (.openTarget commandC true)
    match env.fstatTarget with
    | .error saved => do
      Traced.emit (.fstatTarget none)
      Traced.emit .closeTarget
      setErrstrPath env (lit "fstat failed") saved commandC
      return .error
    | .ok preSt => do
      Traced.emit (.fstatTarget (some preSt))
      let shown ← writeExecLineToTty b env commandC runArgv layout runas (swColorAllowed ctx)
      if !shown then
        Traced.emit .closeTarget
        setErrstr env (lit "sudowhat: cannot show the command on the terminal; command not run")
        return .deny
      else
        let yes ← swAskRunConfirm env ctx (layout == .solo)
        confirmAnswered env ctx commandC preSt yes

/-! ## The step-aside -/

def swStepAsideLayout (markerPresent : Bool) : ExecLayout := if markerPresent then .solo else .grouped

/-- Whether this step-aside asks. sudo_local is read only when it can change the answer. -/
def stepAsideAsks (b : Build) (env : CheckEnv) (markerPresent : Bool) : Bool :=
  let haveTty := if b.execConfirm then swHaveControllingTty env .confirmGate else false
  let integrityInstalled :=
    if b.execConfirm && haveTty && !markerPresent then sudowhatTextHasIntegrityLine b.pamPath env.sudoLocal else false
  swConfirmDecision b.execConfirm haveTty markerPresent integrityInstalled

def swStepAsideAllow (b : Build) (env : CheckEnv) (ctx : InvokingCtx) (commandC : Option Bytes) (runArgv : List Bytes)
    (runas : Bytes) (markerPresent : Bool) : Act Ret :=
  if !stepAsideAsks b env markerPresent then do
    emitExecLine b env commandC runArgv (swStepAsideLayout markerPresent) (some runas) (swColorAllowed ctx)
    return .allow
  else
    match commandC with
    | none => do
      setErrstr env (lit "sudowhat: missing 'command' in command_info; cannot confirm what would run")
      return .deny
    | some commandC => swConfirmRun b env ctx commandC runArgv (swStepAsideLayout markerPresent) (some runas)

/-! ## When it asks -/

theorem stepAsideAsks_iff {b : Build} {env : CheckEnv} {marker : Bool} : stepAsideAsks b env marker = true ↔
    b.execConfirm = true ∧ swHaveControllingTty env .confirmGate = true ∧
      (marker = true ∨ sudowhatTextHasIntegrityLine b.pamPath env.sudoLocal = false) := by
  unfold stepAsideAsks
  dsimp only
  rw [swConfirmDecision_iff]
  cases b.execConfirm with
  | false => simp
  | true => cases swHaveControllingTty env .confirmGate <;> cases marker <;> simp

theorem stepAsideAsks_off {b : Build} (hx : b.execConfirm = false) (env : CheckEnv) (marker : Bool) :
    stepAsideAsks b env marker = false := by
  rw [Bool.eq_false_iff, Ne, stepAsideAsks_iff, hx]
  exact fun h => absurd h.1 (by decide)

/-- Where the step-aside is allowed, it never asks with the marker absent. -/
theorem stepAsideAsks_absent {b : Build} {env : CheckEnv} (h : swNonconsoleChainOf b.pamPath env.sudoLocal ≠ .deny) :
    stepAsideAsks b env false = false := by
  rw [Bool.eq_false_iff, Ne, stepAsideAsks_iff, integrity_of_chain h]
  intro ⟨_, _, hm⟩
  rcases hm with hm | hm <;> cases hm

/-! ## What the step-aside allows -/

/-- The ceremony passed: the target pinned, the line delivered, the answer a yes, and the
    path still naming the pinned file. -/
def ConfirmPassed (b : Build) (env : CheckEnv) (ctx : InvokingCtx) (commandC : Option Bytes) (runArgv : List Bytes)
    (layout : ExecLayout) (runas : Option Bytes) : Prop :=
  ∃ path pin, commandC = some path ∧ env.openTarget = .ok () ∧ env.fstatTarget = .ok pin ∧
    (writeExecLineToTty b env path runArgv layout runas (swColorAllowed ctx)).Returns true ∧
    (swAskRunConfirm env ctx (layout == .solo)).Returns true ∧ env.statTarget = .ok pin

theorem confirmAnswered_allow {env : CheckEnv} {ctx : InvokingCtx} {path : Bytes} {pin : FileId} {yes : Bool}
    (h : (confirmAnswered env ctx path pin yes).Returns .allow) : yes = true ∧ env.statTarget = .ok pin := by
  unfold confirmAnswered at h
  cases yes with
  | false => simp at h
  | true =>
    cases hs : env.statTarget with
    | error saved => simp [hs] at h
    | ok postSt =>
      simp only [hs, Bool.not_true, Bool.false_eq_true, if_false, Traced.returns_bind] at h
      obtain ⟨_, -, _, -, h⟩ := h
      by_cases e : postSt = pin
      · exact ⟨rfl, by rw [e]⟩
      · simp [e] at h

theorem swConfirmRun_allow {b : Build} {env : CheckEnv} {ctx : InvokingCtx} {path : Bytes} {runArgv : List Bytes}
    {layout : ExecLayout} {runas : Option Bytes}
    (h : (swConfirmRun b env ctx path runArgv layout runas).Returns .allow) :
    ConfirmPassed b env ctx (some path) runArgv layout runas := by
  unfold swConfirmRun at h
  cases ho : env.openTarget with
  | error errno => simp [ho] at h
  | ok u =>
    cases hf : env.fstatTarget with
    | error saved => simp [ho, hf] at h
    | ok pin =>
      simp only [ho, hf, Traced.returns_bind] at h
      obtain ⟨_, -, _, -, shown, hshown, h⟩ := h
      cases shown with
      | false => simp at h
      | true =>
        simp only [Bool.not_true, Bool.false_eq_true, if_false, Traced.returns_bind] at h
        obtain ⟨yes, hyes, h⟩ := h
        obtain ⟨rfl, hst⟩ := confirmAnswered_allow h
        exact ⟨path, pin, rfl, ho, hf, hshown, hyes, hst⟩

/-- The step-aside allows without the question, or with the ceremony passed. -/
theorem stepAside_allow {b : Build} {env : CheckEnv} {ctx : InvokingCtx} {commandC : Option Bytes}
    {runArgv : List Bytes} {runas : Bytes} {marker : Bool}
    (h : (swStepAsideAllow b env ctx commandC runArgv runas marker).Returns .allow) :
    stepAsideAsks b env marker = true →
      ConfirmPassed b env ctx commandC runArgv (swStepAsideLayout marker) (some runas) := by
  intro hasks
  unfold swStepAsideAllow at h
  simp only [hasks, Bool.not_true, Bool.false_eq_true, if_false] at h
  cases commandC with
  | none => simp at h
  | some path => exact swConfirmRun_allow h

/-! ## What it leaves alone -/

section Kinds

variable {ks : List EffKind} (hd : .display ∈ ks) (hq : .question ∈ ks) (ht : .target ∈ ks)

include hq in
theorem askLoop_kinds (conversation : Nat → ConvReply) (again : Text) :
    ∀ (fuel k : Nat) (prompt : Text), OnlyKinds ks (askLoop conversation again fuel k prompt) := by
  intro fuel
  induction fuel with
  | zero => intro k prompt; exact onlyKinds_halt _
  | succ fuel ih =>
    intro k prompt
    unfold askLoop
    refine onlyKinds_bind.mpr ⟨by simpa using hq, fun _ _ => ?_⟩
    split
    · exact onlyKinds_pure _
    · exact onlyKinds_pure _
    · exact ih _ _

include hq in
theorem swAskRunConfirm_kinds (env : CheckEnv) (ctx : InvokingCtx) (blankFirst : Bool) :
    OnlyKinds ks (swAskRunConfirm env ctx blankFirst) := by
  unfold swAskRunConfirm
  split
  · exact onlyKinds_pure _
  · exact askLoop_kinds hq _ _ _ _ _

include hd ht in
theorem confirmAnswered_kinds (env : CheckEnv) (ctx : InvokingCtx) (path : Bytes) (pin : FileId) (yes : Bool) :
    OnlyKinds ks (confirmAnswered env ctx path pin yes) := by
  unfold confirmAnswered
  split
  · simp [hd, ht]
  · split
    · simp [hd, ht]
    · refine onlyKinds_bind.mpr ⟨by simpa using ht, fun _ _ => onlyKinds_bind.mpr ⟨by simpa using ht, fun _ _ => ?_⟩⟩
      split <;> simp [hd]

include hd hq ht in
theorem swConfirmRun_kinds (b : Build) (env : CheckEnv) (ctx : InvokingCtx) (path : Bytes) (runArgv : List Bytes)
    (layout : ExecLayout) (runas : Option Bytes) :
    OnlyKinds ks (swConfirmRun b env ctx path runArgv layout runas) := by
  unfold swConfirmRun
  split
  · simp [hd, ht]
  · refine onlyKinds_bind.mpr ⟨by simpa using ht, fun _ _ => ?_⟩
    split
    · simp [hd, ht]
    · refine onlyKinds_bind.mpr ⟨by simpa using ht, fun _ _ => onlyKinds_bind.mpr
        ⟨writeExecLineToTty_kinds hd _ _ _ _ _ _ _, fun shown _ => ?_⟩⟩
      split
      · simp [hd, ht]
      · exact onlyKinds_bind.mpr ⟨swAskRunConfirm_kinds hq _ _ _, fun yes _ => confirmAnswered_kinds hd ht _ _ _ _ _⟩

end Kinds

/-- The step-aside displays, asks and reads the target, and nothing else. -/
theorem stepAside_kinds (b : Build) (env : CheckEnv) (ctx : InvokingCtx) (commandC : Option Bytes)
    (runArgv : List Bytes) (runas : Bytes) (marker : Bool) :
    OnlyKinds [.display, .question, .target] (swStepAsideAllow b env ctx commandC runArgv runas marker) := by
  unfold swStepAsideAllow
  split
  · simp
  · split
    · simp
    · exact swConfirmRun_kinds (by simp) (by simp) (by simp) _ _ _ _ _ _ _

end SudoWhat.Plugin
