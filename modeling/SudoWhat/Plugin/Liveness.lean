/-
  SudoWhat.Plugin.Liveness — a check ends, or waits for one of three things
  (`plugin/sudowhat_approval.m`).

  Three loops wait on somebody: the two that write a line wait on the terminal, the one that
  asks waits for an answer. Everything else in a check runs through; the dialog's reply, which
  the bundle waits for on a semaphore, is told from outside and taken to come. Proved: a check
  ends, always the same way once it has the rounds for it, unless the terminal stalls on the
  verify line, or on the execute line, or the conversation never brings an answer
  (`check_ends_or_waits`).
-/

import SudoWhat.Lib.Fueled
import SudoWhat.Plugin.Check

namespace SudoWhat.Plugin

open SudoWhat.Lib
open Traced (EndsUnless Stuck endsUnless_const endsUnless_bind endsUnless_emit_bind endsUnless_pure)

/-- The same surroundings, for this many rounds. -/
def CheckEnv.rounds (env : CheckEnv) (fuel : Nat) : CheckEnv := { env with fuel := fuel }

/-- What a reply comes to. -/
def ConvReply.answer (r : ConvReply) : Answer := if r.ok then swConfirmAnswer r.reply else .no

/-- No reply, of all it would bring, is an answer. -/
def NeverAnswers (conversation : Nat → ConvReply) : Prop := ∀ k, (conversation k).answer = .unknown

/-- What a check can be kept waiting by; more than one may be the case. -/
inductive KeptWaiting (b : Build) (ctx : InvokingCtx) (env : CheckEnv) (commandInfo runArgv : List Bytes) : Prop where
  | verifyLine (hopens : (env.tty .verifyCode).opens = true)
      (h : Stalls (env.tty .verifyCode).write 0 (formatVerifyLine (generateVerifyNonce env.random 4)
        (swColorAllowed ctx && (env.tty .verifyCode).isTerminal)).length)
  | execLine {path : Bytes} {layout : ExecLayout} {runas : Option Bytes} {line : Text}
      (hopens : (env.tty .execLine).opens = true) (hpath : findKv commandInfo (lit "command") = some path)
      (hline : swFormatExecLine env path runArgv layout runas (swColorAllowed ctx && (env.tty .execLine).isTerminal)
        (swColorAllowed ctx && (env.tty .execLine).isTerminal && b.echoColor) = some line)
      (h : Stalls (env.tty .execLine).write 0 (Utf8.encode line).length)
  | answer {conversation : Nat → ConvReply} (hasks : b.execConfirm = true) (hconv : env.conversation = some conversation)
      (h : NeverAnswers conversation)

/-! ## The loops -/

theorem writeLoop_endsUnless (write : Nat → WriteResult) (k : Nat) (rest : Bytes) :
    EndsUnless .waiting (Stalls write k rest.length) fun fuel => writeLoop write fuel k rest := by
  constructor
  · intro fuel
    induction fuel generalizing k rest with
    | zero =>
      intro h more _
      cases rest with
      | nil => cases more <;> rfl
      | cons c cs => exact absurd rfl h
    | succ fuel ih =>
      intro h more hmore
      obtain ⟨more, rfl⟩ : ∃ m, more = m + 1 := ⟨more - 1, by omega⟩
      cases rest with
      | nil => rfl
      | cons c cs =>
        unfold writeLoop at h ⊢
        cases hw : write k with
        | failed => rfl
        | interrupted =>
          rw [hw] at h
          exact ih (k + 1) (c :: cs) h more (by omega)
        | wrote n =>
          rw [hw] at h
          dsimp only at h ⊢
          rw [ih (k + 1) ((c :: cs).drop n) (fun hs => h (Traced.stuck_bind_iff.mpr (.inr ⟨(), rfl, hs⟩))) more (by omega)]
  · by_cases hstalls : Stalls write k rest.length
    · exact .inr hstalls
    · obtain ⟨enough, he⟩ := loopEnds_iff.mpr hstalls
      obtain ⟨v, hv⟩ := he enough (Nat.le_refl _)
      exact .inl ⟨enough, hv.not_stuck⟩

theorem askLoop_endsUnless (conversation : Nat → ConvReply) (again prompt : Text) :
    EndsUnless .waiting (NeverAnswers conversation) fun fuel => askLoop conversation again fuel 0 prompt := by
  have hsteady : ∀ fuel k prompt, ¬ Stuck .waiting (askLoop conversation again fuel k prompt) → ∀ more ≥ fuel,
      askLoop conversation again more k prompt = askLoop conversation again fuel k prompt := by
    intro fuel
    induction fuel with
    | zero => exact fun _ _ h => absurd rfl h
    | succ fuel ih =>
      intro k prompt h more hmore
      obtain ⟨more, rfl⟩ : ∃ m, more = m + 1 := ⟨more - 1, by omega⟩
      unfold askLoop at h ⊢
      cases ha : (if (conversation k).ok = true then swConfirmAnswer (conversation k).reply else .no) with
      | yes => rfl
      | no => rfl
      | unknown =>
        rw [ha] at h
        dsimp only at h ⊢
        rw [ih (k + 1) again (fun hs => h (Traced.stuck_bind_iff.mpr (.inr ⟨(), rfl, hs⟩))) more (by omega)]
  have hends : ∀ j k prompt, (conversation (k + j)).answer ≠ .unknown →
      ∃ fuel, ¬ Stuck .waiting (askLoop conversation again fuel k prompt) := by
    intro j
    induction j with
    | zero =>
      intro k prompt h
      refine ⟨1, ?_⟩
      unfold askLoop
      cases ha : (if (conversation k).ok = true then swConfirmAnswer (conversation k).reply else .no) with
      | yes => exact fun hs => by cases hs
      | no => exact fun hs => by cases hs
      | unknown => exact absurd ha h
    | succ j ih =>
      intro k prompt h
      obtain ⟨fuel, hf⟩ := ih (k + 1) again (by rwa [Nat.add_right_comm])
      refine ⟨fuel + 1, ?_⟩
      unfold askLoop
      cases ha : (if (conversation k).ok = true then swConfirmAnswer (conversation k).reply else .no) with
      | yes => exact fun hs => by cases hs
      | no => exact fun hs => by cases hs
      | unknown =>
        intro hs
        rcases Traced.stuck_bind_iff.mp hs with hs | hs
        · cases hs
        · obtain ⟨_, _, hs⟩ := hs
          exact hf hs
  refine ⟨fun fuel => hsteady fuel 0 prompt, ?_⟩
  by_cases hnever : NeverAnswers conversation
  · exact .inr hnever
  · obtain ⟨j, hj⟩ := not_forall.mp hnever
    exact .inl (hends j 0 prompt (by rwa [Nat.zero_add]))

/-! ## What waits -/

section

variable {b : Build} {ctx : InvokingCtx} {env : CheckEnv} {commandInfo runArgv : List Bytes}

theorem writeVerifyCodeToTty_endsUnless : EndsUnless .waiting (KeptWaiting b ctx env commandInfo runArgv)
    fun fuel => writeVerifyCodeToTty (env.rounds fuel) (generateVerifyNonce env.random 4) (swColorAllowed ctx) := by
  unfold writeVerifyCodeToTty
  dsimp only [CheckEnv.rounds]
  split
  · exact endsUnless_pure _
  · next hopens =>
    split
    · exact endsUnless_pure _
    · exact (writeLoop_endsUnless _ 0 _).imp (.verifyLine (by simpa using hopens))

theorem writeExecLineToTty_endsUnless {path : Bytes} (hpath : findKv commandInfo (lit "command") = some path)
    (layout : ExecLayout) (runas : Option Bytes) : EndsUnless .waiting (KeptWaiting b ctx env commandInfo runArgv)
      fun fuel => writeExecLineToTty b (env.rounds fuel) path runArgv layout runas (swColorAllowed ctx) := by
  have hline : ∀ fuel frame value, swFormatExecLine (env.rounds fuel) path runArgv layout runas frame value =
      swFormatExecLine env path runArgv layout runas frame value := fun _ _ _ => rfl
  have htty : ∀ fuel, (env.rounds fuel).tty = env.tty := fun _ => rfl
  unfold writeExecLineToTty
  simp only [hline, htty]
  split
  · exact endsUnless_pure _
  · next hopens =>
    split
    · exact endsUnless_pure _
    · next line hl => exact (writeLoop_endsUnless _ 0 _).imp (.execLine (by simpa using hopens) hpath hl)

theorem emitExecLine_endsUnless (layout : ExecLayout) (runas : Option Bytes) :
    EndsUnless .waiting (KeptWaiting b ctx env commandInfo runArgv) fun fuel =>
      emitExecLine b (env.rounds fuel) (findKv commandInfo (lit "command")) runArgv layout runas (swColorAllowed ctx) := by
  unfold emitExecLine
  split
  · exact endsUnless_pure _
  · cases hpath : findKv commandInfo (lit "command") with
    | none => exact endsUnless_pure _
    | some path => exact endsUnless_bind (writeExecLineToTty_endsUnless hpath layout runas) fun _ _ _ => endsUnless_pure _

theorem swAskRunConfirm_endsUnless (hasks : b.execConfirm = true) (blankFirst : Bool) :
    EndsUnless .waiting (KeptWaiting b ctx env commandInfo runArgv)
      fun fuel => swAskRunConfirm (env.rounds fuel) ctx blankFirst := by
  have hconv : ∀ fuel, (env.rounds fuel).conversation = env.conversation := fun _ => rfl
  unfold swAskRunConfirm
  simp only [hconv]
  cases hc : env.conversation with
  | none => exact endsUnless_pure _
  | some conversation =>
    have hcolour : ∀ fuel, swHaveControllingTty (env.rounds fuel) .confirmColour = swHaveControllingTty env .confirmColour :=
      fun _ => rfl
    simp only [hcolour]
    exact (askLoop_endsUnless conversation _ _).imp fun h => KeptWaiting.answer hasks hc h

end

/-! ## What waits for nobody -/

theorem setErrstr_ends (env : CheckEnv) (text : Bytes) : ¬ Stuck .waiting (setErrstr env text) := by
  simp [setErrstr]

theorem setErrstrPath_ends (env : CheckEnv) (what errno path : Bytes) : ¬ Stuck .waiting (setErrstrPath env what errno path) :=
  setErrstr_ends env _

theorem setDecline_ends (env : CheckEnv) (ctx : InvokingCtx) : ¬ Stuck .waiting (setDecline env ctx) := by
  simp [setDecline]

theorem confirmAnswered_not_stuck (env : CheckEnv) (ctx : InvokingCtx) (path : Bytes) (pin : FileId) (yes : Bool) :
    ¬ Stuck .waiting (confirmAnswered env ctx path pin yes) := by
  unfold confirmAnswered
  split
  · simp [setDecline_ends]
  · split
    · simp [setErrstrPath_ends]
    · simp only [Traced.stuck_bind_iff, Traced.stuck_emit, false_or, not_exists, not_and]
      intro _ _ _ _
      split <;> simp [setErrstr_ends]

theorem recheckTarget_not_stuck (env : CheckEnv) (path : Bytes) (pin : FileId) :
    ¬ Stuck .waiting (recheckTarget env path pin) := by
  unfold recheckTarget
  split
  · simp [setErrstrPath_ends]
  · simp only [Traced.stuck_bind_iff, Traced.stuck_emit, false_or, not_exists, not_and]
    intro _ _ _ _
    split <;> simp [setErrstr_ends]

theorem afterDialogs_not_stuck (env : CheckEnv) (path : Bytes) (pin : FileId) (reply : LAReply) :
    ¬ Stuck .waiting (afterDialogs env path pin reply) := by
  unfold afterDialogs
  simp only [Traced.stuck_bind_iff, Traced.stuck_emit, false_or, not_exists, not_and]
  intro _ _
  split
  · simp
  · split
    · simp [setErrstr_ends]
    · exact recheckTarget_not_stuck env path pin

theorem raiseSheet_not_stuck (env : CheckEnv) (uid : Uid) (path : Bytes) (pin : FileId) (text : NSString) :
    ¬ Stuck .waiting (raiseSheet env uid path pin text) := by
  unfold raiseSheet
  split
  · simp [setErrstr_ends]
  · simp only [Traced.stuck_bind_iff, Traced.stuck_emit, false_or, not_exists, not_and]
    intro _ _
    split
    · simp [setErrstr_ends]
    · next chosen _ =>
      have hdialogs : ¬ Stuck .waiting (evaluatePolicy env chosen text) := by
        unfold evaluatePolicy
        simp only [Traced.stuck_bind_iff, Traced.stuck_emit, false_or, not_exists, not_and]
        intro _ _
        split <;> simp
      simp [hdialogs, afterDialogs_not_stuck]

/-! ## The check -/

section

variable {b : Build} {ctx : InvokingCtx} {env : CheckEnv} {commandInfo runArgv : List Bytes}

theorem refuse_endsUnless {P : Prop} (env : CheckEnv) (text : Bytes) (r : Ret) :
    EndsUnless .waiting P fun fuel => setErrstr (env.rounds fuel) text >>= fun _ => pure r :=
  @endsUnless_const _ _ _ _ P (setErrstr env text >>= fun _ => pure r) (by simp [setErrstr_ends])

theorem refusePath_endsUnless {P : Prop} (env : CheckEnv) (what errno path : Bytes) (r : Ret) :
    EndsUnless .waiting P fun fuel => setErrstrPath (env.rounds fuel) what errno path >>= fun _ => pure r :=
  @endsUnless_const _ _ _ _ P (setErrstrPath env what errno path >>= fun _ => pure r) (by simp [setErrstrPath_ends])

theorem swConfirmRun_endsUnless (hasks : b.execConfirm = true) {path : Bytes}
    (hpath : findKv commandInfo (lit "command") = some path) (layout : ExecLayout) (runas : Option Bytes) :
    EndsUnless .waiting (KeptWaiting b ctx env commandInfo runArgv)
      fun fuel => swConfirmRun b (env.rounds fuel) ctx path runArgv layout runas := by
  have hopen : ∀ fuel, (env.rounds fuel).openTarget = env.openTarget := fun _ => rfl
  have hfstat : ∀ fuel, (env.rounds fuel).fstatTarget = env.fstatTarget := fun _ => rfl
  unfold swConfirmRun
  simp only [hopen, hfstat]
  cases env.openTarget with
  | error errno => exact endsUnless_emit_bind (refusePath_endsUnless env _ _ _ _)
  | ok u =>
    refine endsUnless_emit_bind ?_
    cases env.fstatTarget with
    | error saved => exact endsUnless_emit_bind (endsUnless_emit_bind (refusePath_endsUnless env _ _ _ _))
    | ok pin =>
      refine endsUnless_emit_bind (endsUnless_bind (writeExecLineToTty_endsUnless hpath layout runas) fun shown _ _ => ?_)
      cases shown with
      | false => exact endsUnless_emit_bind (refuse_endsUnless env _ _)
      | true =>
        refine endsUnless_bind (swAskRunConfirm_endsUnless hasks _) fun yes _ _ => ?_
        exact endsUnless_const (confirmAnswered_not_stuck env ctx path pin yes)

theorem swStepAsideAllow_endsUnless (marker : Bool) :
    EndsUnless .waiting (KeptWaiting b ctx env commandInfo runArgv) fun fuel =>
      swStepAsideAllow b (env.rounds fuel) ctx (findKv commandInfo (lit "command")) runArgv (swRunasName env commandInfo)
        marker := by
  have hasks : ∀ fuel, stepAsideAsks b (env.rounds fuel) marker = stepAsideAsks b env marker := fun _ => rfl
  unfold swStepAsideAllow
  simp only [hasks]
  cases ha : stepAsideAsks b env marker with
  | false => exact endsUnless_bind (emitExecLine_endsUnless _ _) fun _ _ _ => endsUnless_pure _
  | true =>
    cases hpath : findKv commandInfo (lit "command") with
    | none => exact refuse_endsUnless env _ _
    | some path => exact swConfirmRun_endsUnless (stepAsideAsks_iff.mp ha).1 hpath _ _

theorem askConsole_endsUnless (uid : Uid) {path : Bytes} (hpath : findKv commandInfo (lit "command") = some path) :
    EndsUnless .waiting (KeptWaiting b ctx env commandInfo runArgv)
      fun fuel => askConsole b ctx (env.rounds fuel) commandInfo runArgv uid path := by
  have hopen : ∀ fuel, (env.rounds fuel).openTarget = env.openTarget := fun _ => rfl
  have hfstat : ∀ fuel, (env.rounds fuel).fstatTarget = env.fstatTarget := fun _ => rfl
  have hsheet : ∀ fuel, sheetText ctx (env.rounds fuel) commandInfo runArgv path = sheetText ctx env commandInfo runArgv path :=
    fun _ => rfl
  have hexec := @emitExecLine_endsUnless b ctx env commandInfo runArgv .grouped none
  rw [hpath] at hexec
  unfold askConsole
  simp only [hopen, hfstat, hsheet]
  cases env.openTarget with
  | error errno => exact endsUnless_emit_bind (refusePath_endsUnless env _ _ _ _)
  | ok u =>
    refine endsUnless_emit_bind ?_
    cases env.fstatTarget with
    | error saved => exact endsUnless_emit_bind (endsUnless_emit_bind (refusePath_endsUnless env _ _ _ _))
    | ok pin =>
      refine endsUnless_emit_bind ?_
      cases sheetText ctx env commandInfo runArgv path with
      | none => exact endsUnless_emit_bind (refuse_endsUnless env _ _)
      | some text =>
        have hverify : EndsUnless .waiting (KeptWaiting b ctx env commandInfo runArgv) fun fuel =>
            emitVerifyCode (env.rounds fuel) (generateVerifyNonce env.random 4) (swColorAllowed ctx) :=
          endsUnless_bind writeVerifyCodeToTty_endsUnless fun _ _ _ => endsUnless_pure _
        refine endsUnless_bind hverify fun _ _ _ => endsUnless_bind hexec fun _ _ _ => ?_
        exact endsUnless_const (raiseSheet_not_stuck env uid path pin text)

theorem checkConsole_endsUnless (uid : Uid) (marker : Bool) :
    EndsUnless .waiting (KeptWaiting b ctx env commandInfo runArgv)
      fun fuel => checkConsole b ctx (env.rounds fuel) commandInfo runArgv uid marker := by
  have hdefer : ∀ fuel, deferSkips b (env.rounds fuel) marker = deferSkips b env marker := fun _ => rfl
  have hexec := @emitExecLine_endsUnless b ctx env commandInfo runArgv .grouped none
  unfold checkConsole
  simp only [hdefer]
  cases hpath : findKv commandInfo (lit "command") with
  | none => exact refuse_endsUnless env _ _
  | some path =>
    rw [hpath] at hexec
    dsimp only
    split
    · exact endsUnless_bind hexec fun _ _ _ => endsUnless_const (by simp)
    · exact askConsole_endsUnless uid hpath

theorem checkNonConsole_endsUnless (uid : Uid) (marker : Bool) :
    EndsUnless .waiting (KeptWaiting b ctx env commandInfo runArgv)
      fun fuel => checkNonConsole b ctx (env.rounds fuel) commandInfo runArgv uid marker := by
  have hlocal : ∀ fuel, (env.rounds fuel).sudoLocal = env.sudoLocal := fun _ => rfl
  unfold checkNonConsole
  simp only [hlocal]
  split
  · refine endsUnless_bind (swStepAsideAllow_endsUnless marker) fun verdict _ _ => ?_
    split
    · exact endsUnless_pure _
    · exact endsUnless_const (by simp)
  · exact refuse_endsUnless env _ _

theorem sudowhatCheck_endsUnless (b : Build) (ctx : InvokingCtx) (env : CheckEnv) (commandInfo runArgv : List Bytes)
    (marker : Bool) :
    EndsUnless .waiting (KeptWaiting b ctx env commandInfo runArgv)
      fun fuel => sudowhatCheck b ctx (env.rounds fuel) commandInfo runArgv marker := by
  have hcaller : EndsUnless .waiting (KeptWaiting b ctx env commandInfo runArgv)
      fun fuel => checkCaller b ctx (env.rounds fuel) commandInfo runArgv marker := by
    have hsession : ∀ fuel, (env.rounds fuel).session = env.session := fun _ => rfl
    have hconsole : ∀ fuel, (env.rounds fuel).consoleUid = env.consoleUid := fun _ => rfl
    unfold checkCaller
    simp only [hsession, hconsole]
    split
    · exact refuse_endsUnless env _ _
    · split
      · have hname : ∀ fuel, swRunasName (env.rounds fuel) commandInfo = swRunasName env commandInfo := fun _ => rfl
        unfold checkRoot
        simp only [hname]
        exact endsUnless_emit_bind (endsUnless_bind (emitExecLine_endsUnless _ _) fun _ _ _ => endsUnless_pure _)
      · split
        · exact checkNonConsole_endsUnless _ marker
        · exact checkConsole_endsUnless _ marker
  have hpam : ∀ fuel, (env.rounds fuel).pamSignature = env.pamSignature := fun _ => rfl
  have haudit : ∀ fuel, sudowhatAuditBundleOk (env.rounds fuel) = sudowhatAuditBundleOk env := fun _ => rfl
  unfold sudowhatCheck
  simp only [hpam, haudit]
  split
  · exact refuse_endsUnless env _ _
  · split
    · exact refuse_endsUnless env _ _
    · exact endsUnless_emit_bind hcaller

/-- A check ends, always the same way once it has the rounds for it, or something can keep it
    waiting. -/
theorem check_ends_or_waits (b : Build) (ctx : InvokingCtx) (env : CheckEnv) (commandInfo runArgv : List Bytes)
    (marker : Bool) :
    (∃ enough, ¬ Stuck .waiting (sudowhatCheck b ctx (env.rounds enough) commandInfo runArgv marker) ∧
      ∀ fuel ≥ enough, sudowhatCheck b ctx (env.rounds fuel) commandInfo runArgv marker =
        sudowhatCheck b ctx (env.rounds enough) commandInfo runArgv marker) ∨
    KeptWaiting b ctx env commandInfo runArgv := by
  by_cases hwaits : KeptWaiting b ctx env commandInfo runArgv
  · exact .inr hwaits
  · exact .inl ((sudowhatCheck_endsUnless b ctx env commandInfo runArgv marker).settles hwaits)

end

end SudoWhat.Plugin
