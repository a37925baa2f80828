/-
  SudoWhat.Plugin.DisplayOptions — what shows the command decides nothing (`emit_exec_line`,
  `sw_color_allowed`, `sudowhat_check`; `execDisplay` and `echoColor` in `nix/module.nix`).

  Two build options and two variables of the caller's environment bear on what a check shows:
  execDisplay, echoColor, TERM and NO_COLOR. `showing` and `InvokingCtx.inTerm` set them.
  Proved: with any setting of the four a check ends alike, and what it opens, asks, logs and
  raises is the same, in the same order; a decline and a question may differ in colour
  (`display_decides_nothing`).

  The ceremony's own line is the exception the code makes: under execConfirm a line that cannot
  be shown refuses the command. There a terminal that fails midway, or the memory for the plain
  line, can tell a long coloured line from a short plain one, and is assumed to do neither.
-/

import SudoWhat.Lib.Related
import SudoWhat.Plugin.Check
import SudoWhat.Plugin.ExecLine

namespace SudoWhat.Plugin

open SudoWhat.Lib
open Traced (Agree agree_refl agree_bind agree_emit agree_emit_bind agree_of_none_kept)

/-! ## The options -/

/-- The same gate, showing differently. -/
def showing (b : Build) (echoColor execDisplay : Bool) : Build :=
  { b with echoColor := echoColor, execDisplay := execDisplay }

/-- The same caller, whose environment says otherwise of colour. -/
def InvokingCtx.inTerm (ctx : InvokingCtx) (term : Option Bytes) (noColor : Bool) : InvokingCtx :=
  { ctx with term := term, noColor := noColor }

/-- What is not delivered to the terminal. -/
def Eff.offTerminal : Eff → Bool
  | .ttyWrite _ => false
  | _ => true

/-- One effect, but for the colour of what it says. -/
inductive SameButColour : Eff → Eff → Prop where
  | same (e : Eff) : SameButColour e e
  | message (channel : Channel) {said said' : Text} (h : Sgr.strip said = Sgr.strip said') :
      SameButColour (.message channel (Utf8.encode said)) (.message channel (Utf8.encode said'))
  | converse {prompt prompt' : Text} (h : Sgr.strip prompt = Sgr.strip prompt') :
      SameButColour (.converse prompt) (.converse prompt')

/-- Two runs that end alike and do the same off the terminal, but for colour. -/
abbrev DecidesAlike {α : Type} (x y : Act α) : Prop := Agree Eff.offTerminal SameButColour x y

theorem decidesAlike_refl {α : Type} (x : Act α) : DecidesAlike x x := agree_refl .same x

theorem decidesAlike_emit_bind {α : Type} (e : Eff) {f g : Unit → Act α} (h : DecidesAlike (f ()) (g ())) :
    DecidesAlike (Traced.emit e >>= f) (Traced.emit e >>= g) :=
  agree_emit_bind (.same e) rfl h

/-! ## The lines -/

theorem writeLoop_on_terminal (write : Nat → WriteResult) :
    ∀ (fuel k : Nat) (rest : Bytes), (writeLoop write fuel k rest).All (Eff.offTerminal · = false) := by
  intro fuel
  induction fuel with
  | zero => intro k rest; cases rest <;> simp [writeLoop]
  | succ fuel ih =>
    intro k rest
    cases rest with
    | nil => exact Traced.all_pure true
    | cons c cs =>
      unfold writeLoop
      cases write k with
      | failed => exact Traced.all_pure false
      | interrupted => exact ih _ _
      | wrote n => exact Traced.all_bind.mpr ⟨(Traced.all_emit _).mpr rfl, fun _ _ => ih _ _⟩

section

variable (b : Build) (env : CheckEnv)

theorem writeVerifyCodeToTty_on_terminal (code : Text) (colorAllowed : Bool) :
    (writeVerifyCodeToTty env code colorAllowed).All (Eff.offTerminal · = false) := by
  unfold writeVerifyCodeToTty
  dsimp only
  split
  · exact Traced.all_pure _
  · split
    · exact Traced.all_pure _
    · exact writeLoop_on_terminal _ _ _ _

theorem writeExecLineToTty_on_terminal (path : Bytes) (runArgv : List Bytes) (layout : ExecLayout) (runas : Option Bytes)
    (colorAllowed : Bool) :
    (writeExecLineToTty b env path runArgv layout runas colorAllowed).All (Eff.offTerminal · = false) := by
  unfold writeExecLineToTty
  dsimp only
  split
  · exact Traced.all_pure _
  · split
    · exact Traced.all_pure _
    · exact writeLoop_on_terminal _ _ _ _

theorem emitExecLine_on_terminal (path : Option Bytes) (runArgv : List Bytes) (layout : ExecLayout) (runas : Option Bytes)
    (colorAllowed : Bool) :
    (emitExecLine b env path runArgv layout runas colorAllowed).All (Eff.offTerminal · = false) := by
  unfold emitExecLine
  split
  · exact Traced.all_pure _
  · cases path with
    | none => exact Traced.all_pure _
    | some path =>
      exact Traced.all_bind.mpr ⟨writeExecLineToTty_on_terminal b env path runArgv layout runas colorAllowed,
        fun _ _ => Traced.all_pure _⟩

end

/-! ## Rounds enough -/

/-- Whom a line may name: nobody, or the target. -/
def namedBy (env : CheckEnv) (commandInfo : List Bytes) : List (Option Bytes) :=
  [none, some (swRunasName env commandInfo)]

/-- The rounds are enough for each line this check may write. -/
structure Finishes (b : Build) (ctx : InvokingCtx) (env : CheckEnv) (commandInfo runArgv : List Bytes) : Prop where
  verify : ∃ v, (writeVerifyCodeToTty env (generateVerifyNonce env.random 4) (swColorAllowed ctx)).Returns v
  exec : ∀ path layout, ∀ runas ∈ namedBy env commandInfo, findKv commandInfo (lit "command") = some path →
    ∃ v, (writeExecLineToTty b env path runArgv layout runas (swColorAllowed ctx)).Returns v

theorem writeVerifyCodeToTty_answers {env : CheckEnv} (h : Answers (env.tty .verifyCode).write) (code : Text)
    (colorAllowed : Bool) :
    ∃ enough, ∀ fuel ≥ enough, ∃ v, (writeVerifyCodeToTty { env with fuel := fuel } code colorAllowed).Returns v := by
  unfold writeVerifyCodeToTty
  dsimp only
  split
  · exact ⟨0, fun _ _ => ⟨false, rfl⟩⟩
  · split
    · exact ⟨0, fun _ _ => ⟨false, rfl⟩⟩
    · exact loopEnds_iff.mpr (h.not_stalls 0 _)

theorem finishes_enough (b : Build) (ctx : InvokingCtx) {env : CheckEnv} (commandInfo runArgv : List Bytes)
    (hverify : Answers (env.tty .verifyCode).write) (hexec : Answers (env.tty .execLine).write) :
    ∃ enough, ∀ fuel ≥ enough, Finishes b ctx { env with fuel := fuel } commandInfo runArgv := by
  obtain ⟨n, hn⟩ := writeVerifyCodeToTty_answers hverify (generateVerifyNonce env.random 4) (swColorAllowed ctx)
  cases hpath : findKv commandInfo (lit "command") with
  | none => exact ⟨n, fun fuel hf => ⟨hn fuel hf, fun path _ _ _ h => nomatch hpath.symm.trans h⟩⟩
  | some path =>
    have hline := fun layout runas => writeExecLineToTty_answers b hexec path runArgv layout runas (swColorAllowed ctx)
    obtain ⟨g, hg⟩ := hline .grouped none
    obtain ⟨g', hg'⟩ := hline .grouped (some (swRunasName env commandInfo))
    obtain ⟨s, hs⟩ := hline .solo none
    obtain ⟨s', hs'⟩ := hline .solo (some (swRunasName env commandInfo))
    refine ⟨n + g + g' + s + s', fun fuel hf => ⟨hn fuel (by omega), fun path' layout runas hr h => ?_⟩⟩
    obtain rfl : path = path' := Option.some.inj (hpath.symm.trans h)
    simp only [namedBy, List.mem_cons, List.not_mem_nil, or_false] at hr
    cases layout with
    | grouped =>
      rcases hr with rfl | rfl
      · exact hg fuel (by omega)
      · exact hg' fuel (by omega)
    | solo =>
      rcases hr with rfl | rfl
      · exact hs fuel (by omega)
      · exact hs' fuel (by omega)

/-! ## The ceremony's line -/

/-- Nothing about a line's length, or its colour, decides whether it is shown. -/
structure ShowsEither (env : CheckEnv) : Prop where
  memory : env.alloc .execPlain = true
  never_fails : ∀ k, (env.tty .execLine).write k ≠ .failed

theorem writeLoop_never_fails {write : Nat → WriteResult} (hw : ∀ k, write k ≠ .failed) :
    ∀ (fuel k : Nat) (rest : Bytes) (v : Bool), (writeLoop write fuel k rest).Returns v → v = true := by
  intro fuel
  induction fuel with
  | zero =>
    intro k rest v h
    cases rest with
    | nil => exact (Traced.returns_pure.mp h).symm
    | cons c cs => exact absurd h Traced.returns_halt
  | succ fuel ih =>
    intro k rest v h
    cases rest with
    | nil => exact (Traced.returns_pure.mp h).symm
    | cons c cs =>
      unfold writeLoop at h
      cases hk : write k with
      | failed => exact absurd hk (hw k)
      | interrupted =>
        rw [hk] at h
        exact ih _ _ _ h
      | wrote n =>
        rw [hk] at h
        obtain ⟨_, -, h⟩ := Traced.returns_bind.mp h
        exact ih _ _ _ h

section

variable {env : CheckEnv} {path : Bytes} {runArgv : List Bytes}

theorem swExecCommandLine_ne_nil {color : Bool} {value : Text} (h : swExecCommandLine env path runArgv color = some value) :
    value ≠ [] := by
  rintro rfl
  exact EscapeCore.fullCommandLineBytes_ne_nil path runArgv (swExecCommandLine_dressed h).strip.symm

/-- With the plain line to fall back on, only the argument array can be missing. -/
theorem swExecCommandLine_some (hplain : env.alloc .execPlain = true)
    (hargv : ¬ (runArgv ≠ [] ∧ env.alloc .execArgv = false)) (color : Bool) : ∃ value, swExecCommandLine env path runArgv color = some value := by
  unfold swExecCommandLine
  rw [if_neg hargv]
  dsimp only
  split
  · exact ⟨_, rfl⟩
  · rw [swExecRender, hplain]
    exact ⟨_, rfl⟩

theorem swFormatExecLine_isSome (hplain : env.alloc .execPlain = true) (layout : ExecLayout) (runas : Option Bytes)
    (frame frame' value value' : Bool) :
    (swFormatExecLine env path runArgv layout runas frame value).isSome =
      (swFormatExecLine env path runArgv layout runas frame' value').isSome := by
  by_cases hargv : runArgv ≠ [] ∧ env.alloc .execArgv = false
  · have hnone : ∀ color, swExecCommandLine env path runArgv color = none := fun _ => if_pos hargv
    simp only [swFormatExecLine, hnone]
  · have hsome : ∀ color, ∃ line, swExecCommandLine env path runArgv color = some line :=
      swExecCommandLine_some hplain hargv
    obtain ⟨x, hx⟩ := hsome value
    obtain ⟨y, hy⟩ := hsome value'
    simp only [swFormatExecLine, hx, hy, if_neg (swExecCommandLine_ne_nil hx), if_neg (swExecCommandLine_ne_nil hy)]
    cases layout with
    | grouped => rfl
    | solo =>
      rcases runas with _ | _ | ⟨c, cs⟩
      · rfl
      · rfl
      · unfold swExecRender
        cases env.alloc .execUser <;> rfl

/-- Whether the line was shown, where it was written to its end. -/
theorem writeExecLineToTty_shown (h : ShowsEither env) {b : Build} {layout : ExecLayout} {runas : Option Bytes}
    {colorAllowed v : Bool} (hv : (writeExecLineToTty b env path runArgv layout runas colorAllowed).Returns v) :
    v = ((env.tty .execLine).opens && (swFormatExecLine env path runArgv layout runas false false).isSome) := by
  unfold writeExecLineToTty at hv
  dsimp only at hv
  cases ho : (env.tty .execLine).opens with
  | false =>
    rw [ho] at hv
    exact (Traced.returns_pure.mp hv).symm
  | true =>
    rw [ho] at hv
    simp only [Bool.not_true, Bool.false_eq_true, if_false] at hv
    rw [Bool.true_and, swFormatExecLine_isSome h.memory layout runas false (colorAllowed && (env.tty .execLine).isTerminal)
      false (colorAllowed && (env.tty .execLine).isTerminal && b.echoColor)]
    cases hl : swFormatExecLine env path runArgv layout runas (colorAllowed && (env.tty .execLine).isTerminal)
      (colorAllowed && (env.tty .execLine).isTerminal && b.echoColor) with
    | none =>
      rw [hl] at hv
      exact (Traced.returns_pure.mp hv).symm
    | some line =>
      rw [hl] at hv
      exact writeLoop_never_fails h.never_fails _ _ _ _ hv

end

/-! ## What is said in colour -/

theorem setDecline_alike (env : CheckEnv) (ctx ctx' : InvokingCtx) :
    DecidesAlike (setDecline env ctx) (setDecline env ctx') := by
  have hshown : ∀ color, ∃ said, swDeclineLine color ++ lit "\n" = Utf8.encode said ∧
      Sgr.strip said = "sudowhat: aborted; command not run\n".toList := by
    intro color
    cases color with
    | false => exact ⟨"sudowhat: aborted; command not run\n".toList, by decide, by decide⟩
    | true => exact ⟨"\x1b[33msudowhat: aborted; command not run\x1b[0m\n".toList, by decide, by decide⟩
  obtain ⟨said, hs, hstrip⟩ := hshown (swColorAllowed ctx && env.stderrIsTerminal)
  obtain ⟨said', hs', hstrip'⟩ := hshown (swColorAllowed ctx' && env.stderrIsTerminal)
  unfold setDecline
  refine decidesAlike_emit_bind _ ?_
  rw [hs, hs']
  exact agree_emit (.message _ (hstrip.trans hstrip'.symm)) rfl

theorem confirmPrompt_strip (blankFirst color color' : Bool) :
    Sgr.strip (swConfirmPrompt color blankFirst) = Sgr.strip (swConfirmPrompt color' blankFirst) := by
  cases blankFirst <;> cases color <;> cases color' <;> decide

theorem reaskPrompt_strip (color color' : Bool) : Sgr.strip (swReaskPrompt color) = Sgr.strip (swReaskPrompt color') := by
  cases color <;> cases color' <;> decide

theorem askLoop_alike (conversation : Nat → ConvReply) {again again' : Text} (ha : Sgr.strip again = Sgr.strip again') :
    ∀ (fuel k : Nat) {prompt prompt' : Text}, Sgr.strip prompt = Sgr.strip prompt' →
      DecidesAlike (askLoop conversation again fuel k prompt) (askLoop conversation again' fuel k prompt') := by
  intro fuel
  induction fuel with
  | zero => exact fun k _ _ _ => decidesAlike_refl _
  | succ fuel ih =>
    intro k prompt prompt' hp
    unfold askLoop
    refine agree_emit_bind (.converse hp) rfl ?_
    split
    · exact decidesAlike_refl _
    · exact decidesAlike_refl _
    · exact ih _ ha

theorem swAskRunConfirm_alike (env : CheckEnv) (ctx ctx' : InvokingCtx) (blankFirst : Bool) :
    DecidesAlike (swAskRunConfirm env ctx blankFirst) (swAskRunConfirm env ctx' blankFirst) := by
  unfold swAskRunConfirm
  cases env.conversation with
  | none => exact decidesAlike_refl _
  | some conversation =>
    exact askLoop_alike conversation (reaskPrompt_strip _ _) _ _ (confirmPrompt_strip blankFirst _ _)

theorem confirmAnswered_alike (env : CheckEnv) (ctx ctx' : InvokingCtx) (path : Bytes) (pin : FileId) (yes : Bool) :
    DecidesAlike (confirmAnswered env ctx path pin yes) (confirmAnswered env ctx' path pin yes) := by
  unfold confirmAnswered
  split
  · exact decidesAlike_emit_bind _ (agree_bind (setDecline_alike env ctx ctx') fun _ _ => decidesAlike_refl _)
  · exact decidesAlike_refl _

/-! ## The check -/

section

variable {b : Build} {ctx : InvokingCtx} {env : CheckEnv} {commandInfo runArgv : List Bytes} {echoColor execDisplay : Bool}
  {term : Option Bytes} {noColor : Bool}

theorem Finishes.emitVerifyCode (h : Finishes b ctx env commandInfo runArgv) :
    (emitVerifyCode env (generateVerifyNonce env.random 4) (swColorAllowed ctx)).Returns () := by
  obtain ⟨v, hv⟩ := h.verify
  exact Traced.returns_bind.mpr ⟨v, hv, rfl⟩

theorem Finishes.emitExecLine (h : Finishes b ctx env commandInfo runArgv) (layout : ExecLayout) {runas : Option Bytes}
    (hr : runas ∈ namedBy env commandInfo) :
    (emitExecLine b env (findKv commandInfo (lit "command")) runArgv layout runas (swColorAllowed ctx)).Returns () := by
  unfold Plugin.emitExecLine
  split
  · rfl
  · cases hpath : findKv commandInfo (lit "command") with
    | none => rfl
    | some path =>
      obtain ⟨v, hv⟩ := h.exec path layout runas hr hpath
      exact Traced.returns_bind.mpr ⟨v, hv, rfl⟩

variable (h : Finishes b ctx env commandInfo runArgv)
  (h' : Finishes (showing b echoColor execDisplay) (ctx.inTerm term noColor) env commandInfo runArgv)

include h h'

theorem emitVerifyCode_alike :
    DecidesAlike (emitVerifyCode env (generateVerifyNonce env.random 4) (swColorAllowed ctx))
      (emitVerifyCode env (generateVerifyNonce env.random 4) (swColorAllowed (ctx.inTerm term noColor))) := by
  refine agree_of_none_kept h.emitVerifyCode h'.emitVerifyCode ?_ ?_
  · exact Traced.all_bind.mpr ⟨writeVerifyCodeToTty_on_terminal _ _ _, fun _ _ => Traced.all_pure _⟩
  · exact Traced.all_bind.mpr ⟨writeVerifyCodeToTty_on_terminal _ _ _, fun _ _ => Traced.all_pure _⟩

theorem emitExecLine_alike (layout : ExecLayout) {runas : Option Bytes} (hr : runas ∈ namedBy env commandInfo) :
    DecidesAlike (emitExecLine b env (findKv commandInfo (lit "command")) runArgv layout runas (swColorAllowed ctx))
      (emitExecLine (showing b echoColor execDisplay) env (findKv commandInfo (lit "command")) runArgv layout runas
        (swColorAllowed (ctx.inTerm term noColor))) :=
  agree_of_none_kept (h.emitExecLine layout hr) (h'.emitExecLine layout hr) (emitExecLine_on_terminal _ _ _ _ _ _ _)
    (emitExecLine_on_terminal _ _ _ _ _ _ _)

theorem swConfirmRun_alike (hask : ShowsEither env) {path : Bytes} (hpath : findKv commandInfo (lit "command") = some path)
    (layout : ExecLayout) {runas : Option Bytes} (hr : runas ∈ namedBy env commandInfo) :
    DecidesAlike (swConfirmRun b env ctx path runArgv layout runas)
      (swConfirmRun (showing b echoColor execDisplay) env (ctx.inTerm term noColor) path runArgv layout runas) := by
  obtain ⟨v, hv⟩ := h.exec path layout runas hr hpath
  obtain ⟨v', hv'⟩ := h'.exec path layout runas hr hpath
  obtain rfl : v = v' := (writeExecLineToTty_shown hask hv).trans (writeExecLineToTty_shown hask hv').symm
  have hline := agree_of_none_kept (r := SameButColour) hv hv' (writeExecLineToTty_on_terminal _ _ _ _ _ _ _)
    (writeExecLineToTty_on_terminal _ _ _ _ _ _ _)
  unfold swConfirmRun
  cases env.openTarget with
  | error errno => exact decidesAlike_refl _
  | ok u =>
    refine decidesAlike_emit_bind _ ?_
    cases env.fstatTarget with
    | error saved => exact decidesAlike_refl _
    | ok pin =>
      refine decidesAlike_emit_bind _ (agree_bind hline fun shown _ => ?_)
      split
      · exact decidesAlike_refl _
      · exact agree_bind (swAskRunConfirm_alike env _ _ _) fun yes _ => confirmAnswered_alike env _ _ path pin yes

theorem swStepAsideAllow_alike (hask : b.execConfirm = true → ShowsEither env) (marker : Bool) :
    DecidesAlike
      (swStepAsideAllow b env ctx (findKv commandInfo (lit "command")) runArgv (swRunasName env commandInfo) marker)
      (swStepAsideAllow (showing b echoColor execDisplay) env (ctx.inTerm term noColor)
        (findKv commandInfo (lit "command")) runArgv (swRunasName env commandInfo) marker) := by
  have hnamed : some (swRunasName env commandInfo) ∈ namedBy env commandInfo := List.mem_cons_of_mem _ List.mem_cons_self
  have hasks : stepAsideAsks (showing b echoColor execDisplay) env marker = stepAsideAsks b env marker := rfl
  unfold swStepAsideAllow
  rw [hasks]
  cases ha : stepAsideAsks b env marker with
  | false => exact agree_bind (emitExecLine_alike h h' _ hnamed) fun _ _ => decidesAlike_refl _
  | true =>
    have hshows := hask (stepAsideAsks_iff.mp ha).1
    cases hpath : findKv commandInfo (lit "command") with
    | none => exact decidesAlike_refl _
    | some path => exact swConfirmRun_alike h h' hshows hpath _ hnamed

theorem askConsole_alike (uid : Uid) {path : Bytes} (hpath : findKv commandInfo (lit "command") = some path) :
    DecidesAlike (askConsole b ctx env commandInfo runArgv uid path)
      (askConsole (showing b echoColor execDisplay) (ctx.inTerm term noColor) env commandInfo runArgv uid path) := by
  have hsheet : sheetText (ctx.inTerm term noColor) env commandInfo runArgv path =
      sheetText ctx env commandInfo runArgv path := rfl
  have hnone : none ∈ namedBy env commandInfo := List.mem_cons_self
  have hexec := emitExecLine_alike h h' .grouped hnone
  rw [hpath] at hexec
  unfold askConsole
  rw [hsheet]
  cases env.openTarget with
  | error errno => exact decidesAlike_refl _
  | ok u =>
    refine decidesAlike_emit_bind _ ?_
    cases env.fstatTarget with
    | error saved => exact decidesAlike_refl _
    | ok pin =>
      refine decidesAlike_emit_bind _ ?_
      cases sheetText ctx env commandInfo runArgv path with
      | none => exact decidesAlike_refl _
      | some text =>
        exact agree_bind (emitVerifyCode_alike h h') fun _ _ => agree_bind hexec fun _ _ => decidesAlike_refl _

theorem checkConsole_alike (uid : Uid) (marker : Bool) :
    DecidesAlike (checkConsole b ctx env commandInfo runArgv uid marker)
      (checkConsole (showing b echoColor execDisplay) (ctx.inTerm term noColor) env commandInfo runArgv uid marker) := by
  have hdefer : deferSkips (showing b echoColor execDisplay) env marker = deferSkips b env marker := rfl
  have hnone : none ∈ namedBy env commandInfo := List.mem_cons_self
  have hexec := emitExecLine_alike h h' .grouped hnone
  unfold checkConsole
  rw [hdefer]
  cases hpath : findKv commandInfo (lit "command") with
  | none => exact decidesAlike_refl _
  | some path =>
    rw [hpath] at hexec
    dsimp only
    split
    · exact agree_bind hexec fun _ _ => decidesAlike_refl _
    · exact askConsole_alike h h' uid hpath

theorem checkNonConsole_alike (hask : b.execConfirm = true → ShowsEither env) (uid : Uid) (marker : Bool) :
    DecidesAlike (checkNonConsole b ctx env commandInfo runArgv uid marker)
      (checkNonConsole (showing b echoColor execDisplay) (ctx.inTerm term noColor) env commandInfo runArgv uid marker) := by
  have hlog : stepAsideLog (ctx.inTerm term noColor) uid marker = stepAsideLog ctx uid marker := rfl
  have hpam : (showing b echoColor execDisplay).pamPath = b.pamPath := rfl
  unfold checkNonConsole
  rw [hlog, hpam]
  dsimp only
  split
  · exact agree_bind (swStepAsideAllow_alike h h' hask marker) fun _ _ => decidesAlike_refl _
  · exact decidesAlike_refl _

theorem checkRoot_alike :
    DecidesAlike (checkRoot b ctx env commandInfo runArgv)
      (checkRoot (showing b echoColor execDisplay) (ctx.inTerm term noColor) env commandInfo runArgv) := by
  have hnamed : some (swRunasName env commandInfo) ∈ namedBy env commandInfo := List.mem_cons_of_mem _ List.mem_cons_self
  exact decidesAlike_emit_bind _ (agree_bind (emitExecLine_alike h h' .solo hnamed) fun _ _ => decidesAlike_refl _)

theorem checkCaller_alike (hask : b.execConfirm = true → ShowsEither env) (marker : Bool) :
    DecidesAlike (checkCaller b ctx env commandInfo runArgv marker)
      (checkCaller (showing b echoColor execDisplay) (ctx.inTerm term noColor) env commandInfo runArgv marker) := by
  have huid : (ctx.inTerm term noColor).uid = ctx.uid := rfl
  unfold checkCaller
  rw [huid]
  cases ctx.uid with
  | none => exact decidesAlike_refl _
  | some uid =>
    dsimp only
    split
    · exact checkRoot_alike h h'
    · split
      · exact checkNonConsole_alike h h' hask uid marker
      · exact checkConsole_alike h h' uid marker

end

/-- Whatever a build shows of the command and whatever the caller's environment says of colour,
    a check that can write its lines to their end ends alike, and does the same off the terminal. -/
theorem display_decides_nothing (b : Build) (ctx : InvokingCtx) (env : CheckEnv) (commandInfo runArgv : List Bytes)
    (marker echoColor execDisplay noColor : Bool) (term : Option Bytes)
    (hverify : Answers (env.tty .verifyCode).write) (hexec : Answers (env.tty .execLine).write)
    (hask : b.execConfirm = true → ShowsEither env) :
    ∃ enough, ∀ fuel ≥ enough,
      DecidesAlike (sudowhatCheck b ctx { env with fuel := fuel } commandInfo runArgv marker)
        (sudowhatCheck (showing b echoColor execDisplay) (ctx.inTerm term noColor) { env with fuel := fuel } commandInfo
          runArgv marker) := by
  obtain ⟨n, hn⟩ := finishes_enough b ctx commandInfo runArgv hverify hexec
  obtain ⟨n', hn'⟩ := finishes_enough (showing b echoColor execDisplay) (ctx.inTerm term noColor) commandInfo runArgv
    hverify hexec
  refine ⟨n + n', fun fuel hf => ?_⟩
  have hcaller := checkCaller_alike (hn fuel (by omega)) (hn' fuel (by omega)) (fun hb => ⟨(hask hb).1, (hask hb).2⟩) marker
  unfold sudowhatCheck
  split
  · exact decidesAlike_refl _
  · split
    · exact decidesAlike_refl _
    · exact decidesAlike_emit_bind _ hcaller

/-- A caller over ssh, who is asked and says yes. The terminal takes up to 51 bytes, then answers
    `after`. -/
def sshCheck (after : WriteResult) : CheckEnv where
  pamSignature := .ok ()
  auditExists := false
  auditSignature := .ok ()
  session := ⟨false, false, true⟩
  consoleUid := 501
  sudoLocal := some ("auth requisite /usr/local/lib/pam/pam_sudowhat.so\nauth sufficient ".toList
    ++ "/usr/local/lib/pam/pam_sudowhat.so console-gate\n".toList)
  rootName := some (lit "root")
  pluginPrintf := true
  stderrIsTerminal := true
  tty := fun _ => ⟨true, true, fun k => if k = 0 then .wrote 51 else after⟩
  conversation := some fun _ => ⟨true, some (lit "y")⟩
  alloc := fun _ => true
  openTarget := .ok ()
  fstatTarget := .ok ⟨1, 2⟩
  statTarget := .ok ⟨1, 2⟩
  random := fun _ => 0
  osMajor := 26
  seteuidDrop := .ok ()
  seteuidBack := true
  canCompanion := false
  canBiometricsOrCompanion := false
  canDeviceOwner := .ok ()
  reply := ⟨false, none⟩
  passwordReply := ⟨false, none⟩
  fuel := 8

def askingBuild : Build := { Build.stock with execConfirm := true }

def sshCtx : InvokingCtx := ⟨some 502, none, none, some (lit "xterm"), false⟩

theorem display_decides_nothing_asked : ∃ enough, ∀ fuel ≥ enough,
    DecidesAlike
      (sudowhatCheck askingBuild sshCtx { sshCheck (.wrote 51) with fuel := fuel } [lit "command=/bin/ls"] [lit "ls"] true)
      (sudowhatCheck (showing askingBuild false false) (sshCtx.inTerm none true) { sshCheck (.wrote 51) with fuel := fuel }
        [lit "command=/bin/ls"] [lit "ls"] true) := by
  have htakes : ∀ site k, ((sshCheck (.wrote 51)).tty site).write k = .wrote 51 := fun _ k => ite_self _
  have hends : ∀ site, Answers ((sshCheck (.wrote 51)).tty site).write := fun site k => ⟨0, .inr ⟨50, htakes site _⟩⟩
  have hshows : ShowsEither (sshCheck (.wrote 51)) := by
    refine ⟨rfl, fun k hk => ?_⟩
    rw [htakes] at hk
    cases hk
  exact display_decides_nothing askingBuild sshCtx (sshCheck (.wrote 51)) _ _ _ _ _ _ _ (hends _) (hends _) fun _ => hshows

/-- A terminal that fails after 51 bytes takes the line whose value is plain, and not the coloured one. -/
example : (sudowhatCheck askingBuild sshCtx (sshCheck .failed) [lit "command=/bin/ls"] [lit "ls"] true).result = .ok .deny ∧
    (sudowhatCheck (showing askingBuild false true) sshCtx (sshCheck .failed) [lit "command=/bin/ls"] [lit "ls"]
      true).result = .ok .allow := ⟨rfl, rfl⟩

end SudoWhat.Plugin
