/-
  SudoWhat.Plugin.PinnedTarget — the pin on the target binary, while others change files.

  A check opens the resolved path, takes the identity (device and inode) of what it opened,
  asks, and stats the path again: an allow needs the two identities equal. Between any two of
  its steps anyone may create, unlink, rename and relink, and the kernel gives a gone
  object's identity to a new one. `Sees` is what each system call answers about the files of
  its moment; a run is an `Interleaved` history of the check's effects.

  Proved:
  - `swapped_target_is_caught`: in every run, an allow means that the path named one object
    at the pin and at the last stat, and on every return the descriptor was closed once,
    with nothing asked of the target from then on.
  - `swConfirmRun_pinning`, `askConsole_pinning`: what each ceremony asks of the target on
    every way out (`Pinning`).
  - `exists_undisturbed`: a check whose target nobody touches has such a run.
  - `closed_early_misses_swap`: without the descriptor the identity says nothing.
-/

import SudoWhat.Lib.Interleaved
import SudoWhat.Lib.FileNames
import SudoWhat.Plugin.CheckGate

namespace SudoWhat.Plugin

open SudoWhat.Lib SudoWhat.Lib.FileNames
open Interleaved (effects)

/-! ## A check among others -/

abbrev TargetFiles := Files Bytes FileId

/-- What an effect finds of the files, and does to them. A call may fail whatever they are. -/
inductive Sees : Eff → TargetFiles → TargetFiles → Prop where
  | opened (f : TargetFiles) (path : Bytes) (o : Nat) (h : f.named path = some o) :
      Sees (.openTarget path true) f (f.openAt path o h)
  | notOpened (f : TargetFiles) (path : Bytes) : Sees (.openTarget path false) f f
  | fstat {f : TargetFiles} {o : Nat} {id : FileId} : f.descriptor = some o → f.identity o = some id →
      Sees (.fstatTarget (some id)) f f
  | fstatFailed (f : TargetFiles) : Sees (.fstatTarget none) f f
  | stat {f : TargetFiles} {path : Bytes} {o : Nat} {id : FileId} : f.named path = some o → f.identity o = some id →
      Sees (.statTarget path (some id)) f f
  | statFailed (f : TargetFiles) (path : Bytes) : Sees (.statTarget path none) f f
  | closed (f : TargetFiles) : Sees .closeTarget f f.close
  /-- It does not look at the target. -/
  | elsewhere {e : Eff} (f : TargetFiles) : e.kind ≠ .target → Sees e f f

def Eff.opensTarget : Eff → Bool
  | .openTarget _ opened => opened
  | _ => false

def Eff.statsTarget : Eff → Bool
  | .statTarget _ _ => true
  | _ => false

theorem kind_of_statsTarget {e : Eff} (h : e.statsTarget = true) : (e.kind == EffKind.target) = true := by
  cases e <;> first | rfl | cases h

/-- A descriptor that was opened was closed, once, after everything else about the target. -/
structure ClosesOnce (trace : List Eff) : Prop where
  closed : trace.count .closeTarget = if trace.any Eff.opensTarget then 1 else 0
  last : ∀ {before after}, trace = before ++ .closeTarget :: after → ∀ e ∈ after, e.kind ≠ .target

/-- In this history the path names one object at the pin and at the last stat. -/
def SameObject (path : Bytes) (history : List (TargetFiles × Option Eff)) : Prop :=
  ∃ before pinned between checked id after o,
    history = before ++ (pinned, some (.openTarget path true)) :: between ++
        (checked, some (.statTarget path (some id))) :: after ∧
      (∀ e ∈ effects after, e.statsTarget = false) ∧ pinned.named path = some o ∧ checked.named path = some o

/-- Whatever others do to the files in between. -/
structure Caught (path : Bytes) (check : Act Ret) : Prop where
  same : check.Returns .allow → ∀ {start history finish}, Interleaved Change Sees start history finish →
    effects history = check.trace → SameObject path history
  closes : ∀ {verdict}, check.Returns verdict → ClosesOnce check.trace

/-! ## What a check asks of the target -/

def targets {α : Type} (x : Act α) : List Eff := x.trace.filter fun e => e.kind == .target

/-- The target's part of a way out of a check, from the question on. -/
inductive Ends (path : Bytes) (pin : FileId) : Ret → List Eff → Prop where
  | refused {verdict : Ret} : verdict ≠ .allow → Ends path pin verdict [.closeTarget]
  | lost {verdict : Ret} : verdict ≠ .allow → Ends path pin verdict [.statTarget path none, .closeTarget]
  | compared {verdict : Ret} (post : FileId) : (verdict = .allow → post = pin) →
      Ends path pin verdict [.statTarget path (some post), .closeTarget]

/-- The whole of it. -/
inductive Pinning (path : Bytes) : Ret → List Eff → Prop where
  | notOpened {verdict : Ret} : verdict ≠ .allow → Pinning path verdict [.openTarget path false]
  | notRead {verdict : Ret} : verdict ≠ .allow →
      Pinning path verdict [.openTarget path true, .fstatTarget none, .closeTarget]
  | pinned {verdict : Ret} {rest : List Eff} (pin : FileId) : Ends path pin verdict rest →
      Pinning path verdict (.openTarget path true :: .fstatTarget (some pin) :: rest)

section

variable {α β : Type}

theorem targets_bind {x : Act α} {f : α → Act β} {a : α} (h : x.Returns a) :
    targets (x >>= f) = targets x ++ targets (f a) := by
  unfold targets
  rw [Traced.trace_bind h, List.filter_append]

theorem targets_of_kinds {x : Act α} {ks : List EffKind} (h : OnlyKinds ks x) (hks : .target ∉ ks) : targets x = [] := by
  refine List.filter_eq_nil_iff.mpr fun e he ht => ?_
  rw [beq_iff_eq] at ht
  exact hks (ht ▸ h e he)

theorem targets_of_display {x : Act α} (h : OnlyKinds [.display] x) : targets x = [] := targets_of_kinds h (by decide)

@[simp] theorem targets_pure (a : α) : targets (pure a : Act α) = [] := rfl

theorem targets_emit {e : Eff} (h : e.kind = .target) (f : Unit → Act α) :
    targets (Traced.emit e >>= f) = e :: targets (f ()) := by
  unfold targets
  rw [Traced.emit_bind_trace, List.filter_cons_of_pos (by simpa using h)]

theorem targets_elsewhere {ks : List EffKind} {x : Act α} {f : α → Act β} {a : α} (hx : OnlyKinds ks x) (hks : .target ∉ ks)
    (h : x.Returns a) : targets (x >>= f) = targets (f a) := by
  rw [targets_bind h, targets_of_kinds hx hks, List.nil_append]

theorem targets_display {x : Act α} {f : α → Act β} {a : α} (hx : OnlyKinds [.display] x) (h : x.Returns a) :
    targets (x >>= f) = targets (f a) := targets_elsewhere hx (by decide) h

end

section

variable {b : Build} {ctx : InvokingCtx} {env : CheckEnv} {commandInfo runArgv : List Bytes} {path : Bytes} {pin : FileId}
  {verdict : Ret}

theorem targets_refusal {x : Act Unit} (hx : OnlyKinds [.display] x) (hret : x.Returns ()) (v : Ret) :
    targets (x >>= fun _ => (pure v : Act Ret)) = [] := by
  rw [targets_display hx hret, targets_pure]

theorem verdict_of_refusal {x : Act Unit} {v : Ret} (h : (x >>= fun _ => (pure v : Act Ret)).Returns verdict) :
    verdict = v := by
  obtain ⟨_, -, h⟩ := Traced.returns_bind.mp h
  exact (Traced.returns_pure.mp h).symm

/-- The last stat, which both ceremonies end in, each with its own words. -/
def restat (env : CheckEnv) (what path : Bytes) (pin : FileId) : Act Ret :=
  match env.statTarget with
  | .error saved => do
    Traced.emit (.statTarget path none)
    Traced.emit .closeTarget
    setErrstrPath env what saved path
    return .deny
  | .ok postSt => do
    Traced.emit (.statTarget path (some postSt))
    Traced.emit .closeTarget
    if postSt = pin then return .allow
    else
      setErrstr env (lit "sudowhat: target binary changed during authorization")
      return .deny

theorem recheckTarget_eq : recheckTarget env path pin = restat env (lit "post-auth stat failed") path pin := rfl

theorem confirmAnswered_yes :
    confirmAnswered env ctx path pin true = restat env (lit "post-confirm stat failed") path pin := rfl

theorem restat_ends {what : Bytes} (h : (restat env what path pin).Returns verdict) :
    Ends path pin verdict (targets (restat env what path pin)) := by
  unfold restat at h ⊢
  cases hs : env.statTarget with
  | error saved =>
    simp only [hs] at h ⊢
    have hdeny := verdict_of_refusal h
    rw [targets_emit rfl, targets_emit rfl, targets_refusal (setErrstrPath_kinds (by decide) _ _ _ _) rfl]
    exact .lost (by rw [hdeny]; decide)
  | ok post =>
    simp only [hs] at h ⊢
    rw [targets_emit rfl, targets_emit rfl]
    by_cases e : post = pin
    · rw [if_pos e, targets_pure]
      exact .compared post fun _ => e
    · rw [if_neg e, targets_refusal (setErrstr_kinds (by decide) _ _) rfl]
      simp only [e, if_false] at h
      have hdeny := verdict_of_refusal h
      exact .compared post fun hallow => absurd (hallow.symm.trans hdeny) (by decide)

theorem ends_refusal {x : Act Unit} (hx : OnlyKinds [.display] x) (hret : x.Returns ()) {v : Ret} (hv : v ≠ .allow)
    (h : (do Traced.emit .closeTarget; x; return v : Act Ret).Returns verdict) :
    Ends path pin verdict (targets (do Traced.emit .closeTarget; x; return v : Act Ret)) := by
  have hverdict : verdict = v := verdict_of_refusal (x := x) h
  rw [targets_emit rfl, targets_refusal hx hret]
  exact .refused (hverdict ▸ hv)

theorem confirmAnswered_ends {yes : Bool} (h : (confirmAnswered env ctx path pin yes).Returns verdict) :
    Ends path pin verdict (targets (confirmAnswered env ctx path pin yes)) := by
  cases yes with
  | true =>
    rw [confirmAnswered_yes] at h ⊢
    exact restat_ends h
  | false => exact ends_refusal (setDecline_kinds (by decide) _ _) rfl (by decide) h

theorem afterDialogs_ends {reply : LAReply} (h : (afterDialogs env path pin reply).Returns verdict) :
    Ends path pin verdict (targets (afterDialogs env path pin reply)) := by
  unfold afterDialogs at h ⊢
  cases hb : env.seteuidBack with
  | false => simp [hb] at h
  | true =>
    cases hs : reply.success with
    | false =>
      simp only [hb, hs] at h ⊢
      exact ends_refusal (setErrstr_kinds (by decide) _ _) rfl (by decide) h
    | true =>
      simp only [hb, hs] at h ⊢
      rw [recheckTarget_eq] at h ⊢
      exact restat_ends h

theorem evaluatePolicy_kinds (env : CheckEnv) (chosen : LAPolicy) (text : NSString) :
    OnlyKinds [.sheet] (evaluatePolicy env chosen text) := by
  unfold evaluatePolicy
  refine onlyKinds_bind.mpr ⟨by simp, fun _ _ => ?_⟩
  split <;> simp

theorem raiseSheet_ends {uid : Uid} {text : NSString} (h : (raiseSheet env uid path pin text).Returns verdict) :
    Ends path pin verdict (targets (raiseSheet env uid path pin text)) := by
  unfold raiseSheet at h ⊢
  cases hd : env.seteuidDrop with
  | error saved =>
    simp only [hd] at h ⊢
    exact ends_refusal (setErrstr_kinds (by decide) _ _) rfl (by decide) h
  | ok u =>
    cases hp : choosePolicy env with
    | error description =>
      simp only [hd, hp] at h ⊢
      exact ends_refusal (setErrstr_kinds (by decide) _ _) rfl (by decide) h
    | ok chosen =>
      simp only [hd, hp, Traced.returns_bind] at h ⊢
      obtain ⟨_, -, reply, hreply, h⟩ := h
      have hdropped : OnlyKinds [.privilege] (Traced.emit (.seteuid uid true) : Act Unit) := by simp
      rw [targets_elsewhere hdropped (by decide) rfl, targets_elsewhere (evaluatePolicy_kinds _ _ _) (by decide) hreply]
      exact afterDialogs_ends h

/-- The open and the fstat, which both ceremonies begin with. -/
def pinFirst (env : CheckEnv) (path : Bytes) (ask : FileId → Act Ret) : Act Ret :=
  match env.openTarget with
  | .error errno => do
    Traced.emit (.openTarget path false)
    setErrstrPath env (lit "cannot open the target binary") errno path
    return .deny
  | .ok () => do
    Traced.emit (.openTarget path true)
    match env.fstatTarget with
    | .error saved => do
      Traced.emit (.fstatTarget none)
      Traced.emit .closeTarget
      setErrstrPath env (lit "fstat failed") saved path
      return .error
    | .ok pin => do
      Traced.emit (.fstatTarget (some pin))
      ask pin

theorem pinFirst_pinning {ask : FileId → Act Ret}
    (hask : ∀ {pin}, (ask pin).Returns verdict → Ends path pin verdict (targets (ask pin)))
    (h : (pinFirst env path ask).Returns verdict) : Pinning path verdict (targets (pinFirst env path ask)) := by
  unfold pinFirst at h ⊢
  cases ho : env.openTarget with
  | error errno =>
    simp only [ho] at h ⊢
    have hdeny := verdict_of_refusal h
    rw [targets_emit rfl, targets_refusal (setErrstrPath_kinds (by decide) _ _ _ _) rfl]
    exact .notOpened (by rw [hdeny]; decide)
  | ok u =>
    cases hf : env.fstatTarget with
    | error saved =>
      simp only [ho, hf] at h ⊢
      have herror := verdict_of_refusal h
      rw [targets_emit rfl, targets_emit rfl, targets_emit rfl,
        targets_refusal (setErrstrPath_kinds (by decide) _ _ _ _) rfl]
      exact .notRead (by rw [herror]; decide)
    | ok pin =>
      simp only [ho, hf] at h ⊢
      rw [targets_emit rfl, targets_emit rfl]
      exact .pinned pin (hask h)

theorem swConfirmRun_pinning {layout : ExecLayout} {runas : Option Bytes}
    (h : (swConfirmRun b env ctx path runArgv layout runas).Returns verdict) :
    Pinning path verdict (targets (swConfirmRun b env ctx path runArgv layout runas)) := by
  change (pinFirst env path fun pin => do
    let shown ← writeExecLineToTty b env path runArgv layout runas (swColorAllowed ctx)
    if !shown then
      Traced.emit .closeTarget
      setErrstr env (lit "sudowhat: cannot show the command on the terminal; command not run")
      return .deny
    else
      let yes ← swAskRunConfirm env ctx (layout == .solo)
      confirmAnswered env ctx path pin yes).Returns verdict at h
  refine pinFirst_pinning (fun {pin} h => ?_) h
  obtain ⟨shown, hshown, h⟩ := Traced.returns_bind.mp h
  rw [targets_display (writeExecLineToTty_kinds (by decide) _ _ _ _ _ _ _) hshown]
  cases shown with
  | false => exact ends_refusal (setErrstr_kinds (by decide) _ _) rfl (by decide) h
  | true =>
    simp only [Bool.not_true, Bool.false_eq_true, if_false, Traced.returns_bind] at h ⊢
    obtain ⟨yes, hyes, h⟩ := h
    have hasks : OnlyKinds [.question] (swAskRunConfirm env ctx (layout == .solo)) :=
      swAskRunConfirm_kinds (by decide) _ _ _
    rw [targets_elsewhere hasks (by decide) hyes]
    exact confirmAnswered_ends h

/-- (3a) to (6) of `sudowhat_check`. -/
theorem askConsole_pinning {uid : Uid} (h : (askConsole b ctx env commandInfo runArgv uid path).Returns verdict) :
    Pinning path verdict (targets (askConsole b ctx env commandInfo runArgv uid path)) := by
  cases ht : sheetText ctx env commandInfo runArgv path with
  | none =>
    have hask : askConsole b ctx env commandInfo runArgv uid path = pinFirst env path fun _ => do
        Traced.emit .closeTarget
        setErrstr env (lit "sudowhat: cannot render the authentication prompt; command not run")
        return .error := by
      simp only [askConsole, ht]
      rfl
    rw [hask] at h ⊢
    refine pinFirst_pinning (fun {pin} h => ?_) h
    exact ends_refusal (setErrstr_kinds (by decide) _ _) rfl (by decide) h
  | some text =>
    have hask : askConsole b ctx env commandInfo runArgv uid path = pinFirst env path (fun pin => do
        emitVerifyCode env (generateVerifyNonce env.random 4) (swColorAllowed ctx)
        emitExecLine b env (some path) runArgv .grouped none (swColorAllowed ctx)
        raiseSheet env uid path pin text) := by
      simp only [askConsole, ht]
      rfl
    rw [hask] at h ⊢
    refine pinFirst_pinning (fun {pin} h => ?_) h
    simp only [Traced.returns_bind] at h ⊢
    obtain ⟨_, hcode, _, hline, h⟩ := h
    rw [targets_display (emitVerifyCode_kinds (by decide) _ _ _) hcode,
      targets_display (emitExecLine_kinds (by decide) _ _ _ _ _ _ _) hline]
    exact raiseSheet_ends h

theorem stepAside_pinning {commandC : Option Bytes} {runas : Bytes} {marker : Bool}
    (h : (swStepAsideAllow b env ctx commandC runArgv runas marker).Returns verdict) :
    targets (swStepAsideAllow b env ctx commandC runArgv runas marker) = [] ∨
      ∃ path ∈ commandC, Pinning path verdict (targets (swStepAsideAllow b env ctx commandC runArgv runas marker)) := by
  unfold swStepAsideAllow at h ⊢
  cases hasks : stepAsideAsks b env marker with
  | false => exact .inl (targets_of_display (by simp))
  | true =>
    simp only [hasks, Bool.not_true, Bool.false_eq_true, if_false] at h ⊢
    cases commandC with
    | none => exact .inl (targets_of_display (by simp))
    | some path => exact .inr ⟨path, rfl, swConfirmRun_pinning h⟩

theorem checkNonConsole_pinning {uid : Uid} {marker : Bool}
    (h : (checkNonConsole b ctx env commandInfo runArgv uid marker).Returns verdict) :
    targets (checkNonConsole b ctx env commandInfo runArgv uid marker) = [] ∨
      ∃ path ∈ resolvedCommand commandInfo,
        Pinning path verdict (targets (checkNonConsole b ctx env commandInfo runArgv uid marker)) := by
  unfold checkNonConsole at h ⊢
  dsimp only at h ⊢
  split at h
  · rename_i hallows
    rw [if_pos hallows]
    obtain ⟨v, hv, h⟩ := Traced.returns_bind.mp h
    rw [targets_bind hv]
    by_cases e : v = .allow
    · subst e
      have hverdict : verdict = .allow := verdict_of_refusal h
      rw [hverdict]
      simp only [ne_eq, not_true_eq_false, if_false]
      rw [targets_of_display (x := Traced.emit _ >>= _) (by simp), List.append_nil]
      exact stepAside_pinning hv
    · simp only [ne_eq, e, not_false_eq_true, if_true] at h ⊢
      obtain rfl := Traced.returns_pure.mp h
      rw [targets_pure, List.append_nil]
      exact stepAside_pinning hv
  · rename_i hallows
    rw [if_neg hallows]
    exact .inl (targets_of_display (by simp))

/-- A whole check pins the resolved command, or asks nothing of it. -/
theorem check_pinning {marker : Bool} (h : (sudowhatCheck b ctx env commandInfo runArgv marker).Returns verdict) :
    targets (sudowhatCheck b ctx env commandInfo runArgv marker) = [] ∨
      ∃ path ∈ resolvedCommand commandInfo,
        Pinning path verdict (targets (sudowhatCheck b ctx env commandInfo runArgv marker)) := by
  by_cases hi : env.bundlesIntact
  · rw [sudowhatCheck_intact hi] at h ⊢
    have hunset : OnlyKinds [.marker] (Traced.emit .unsetMarker : Act Unit) := by simp
    obtain ⟨_, -, h⟩ := Traced.returns_bind.mp h
    rw [targets_elsewhere hunset (by decide) rfl]
    unfold checkCaller at h ⊢
    cases hu : ctx.uid with
    | none => exact .inl (targets_of_display (by simp))
    | some uid =>
      simp only [hu] at h ⊢
      by_cases h0 : uid = 0
      · rw [if_pos h0]
        exact .inl (targets_of_kinds (checkRoot_kinds _ _ _ _ _) (by decide))
      rw [if_neg h0] at h ⊢
      cases hc : isInvokingUserActiveConsole env.session env.consoleUid uid with
      | false =>
        simp only [hc, Bool.not_false, if_true] at h ⊢
        exact checkNonConsole_pinning h
      | true =>
        simp only [hc, Bool.not_true, Bool.false_eq_true, if_false] at h ⊢
        unfold checkConsole at h ⊢
        cases hcmd : findKv commandInfo (lit "command") with
        | none => exact .inl (targets_of_display (by simp))
        | some path =>
          simp only [hcmd] at h ⊢
          cases hd : deferSkips b env marker with
          | true => exact .inl (targets_of_display (by simp))
          | false =>
            simp only [hd, Bool.false_eq_true, if_false] at h ⊢
            exact .inr ⟨path, hcmd, askConsole_pinning h⟩
  · exact .inl (targets_of_kinds (sudowhatCheck_not_intact hi).2 (by decide))

end

/-! ## Closed once -/

section

variable {path : Bytes} {pin : FileId} {verdict : Ret} {ts : List Eff}

theorem Pinning.close_last (h : Pinning path verdict ts) : (ts.any Eff.opensTarget = false ∧ .closeTarget ∉ ts) ∨
    (ts.any Eff.opensTarget = true ∧ ∃ before, ts = before ++ [.closeTarget] ∧ .closeTarget ∉ before) := by
  cases h with
  | notOpened _ => exact .inl ⟨rfl, by simp⟩
  | notRead _ => exact .inr ⟨rfl, [_, _], rfl, by simp⟩
  | pinned pin hends =>
    cases hends with
    | refused _ => exact .inr ⟨rfl, [_, _], rfl, by simp⟩
    | lost _ => exact .inr ⟨rfl, [_, _, _], rfl, by simp⟩
    | compared post _ => exact .inr ⟨rfl, [_, _, _], rfl, by simp⟩

theorem Pinning.allow (h : Pinning path .allow ts) :
    ∃ pin, ts = [.openTarget path true, .fstatTarget (some pin), .statTarget path (some pin), .closeTarget] := by
  cases h with
  | notOpened h => exact absurd rfl h
  | notRead h => exact absurd rfl h
  | pinned pin hends =>
    cases hends with
    | refused h => exact absurd rfl h
    | lost h => exact absurd rfl h
    | compared post h => exact ⟨pin, by rw [h rfl]⟩

theorem Pinning.opened_path (h : Pinning path verdict ts) {p : Bytes} (hmem : .openTarget p true ∈ ts) : p = path := by
  cases h with
  | notOpened _ => simp at hmem
  | notRead _ => simpa using hmem
  | pinned pin hends => cases hends <;> simpa using hmem

theorem any_opensTarget_targets (trace : List Eff) :
    (trace.filter fun e => e.kind == .target).any Eff.opensTarget = trace.any Eff.opensTarget := by
  rw [List.any_filter]
  congr 1
  funext e
  cases e <;> rfl

theorem closesOnce_of_close_last {check : Act Ret}
    (h : ((targets check).any Eff.opensTarget = false ∧ .closeTarget ∉ targets check) ∨
      ((targets check).any Eff.opensTarget = true ∧
        ∃ before, targets check = before ++ [.closeTarget] ∧ .closeTarget ∉ before)) :
    ClosesOnce check.trace := by
  have hcount : check.trace.count .closeTarget = (targets check).count .closeTarget := (List.count_filter rfl).symm
  have hopens : check.trace.any Eff.opensTarget = (targets check).any Eff.opensTarget := (any_opensTarget_targets _).symm
  refine ⟨?_, ?_⟩
  · rw [hcount, hopens]
    rcases h with ⟨hno, hnot⟩ | ⟨hyes, before, heq, hnot⟩
    · rw [hno, List.count_eq_zero_of_not_mem hnot]
      rfl
    · rw [hyes, heq, List.count_append, List.count_eq_zero_of_not_mem hnot]
      rfl
  · intro before after htrace e he hkind
    have hsplit : targets check = before.filter (fun e => e.kind == .target) ++
        .closeTarget :: after.filter (fun e => e.kind == .target) := by
      unfold targets
      rw [htrace, List.filter_append, List.filter_cons_of_pos rfl]
    rcases h with ⟨-, hnot⟩ | ⟨-, before', heq, hnot⟩
    · exact hnot (hsplit ▸ List.mem_append_right _ List.mem_cons_self)
    · obtain ⟨-, -, hnil⟩ := (List.append_cons_inj_of_notMem hnot List.not_mem_nil).mp (heq.symm.trans hsplit)
      exact List.filter_eq_nil_iff.mp hnil.symm e he (by simpa using hkind)

end

/-! ## One object -/

section

variable {f f' : TargetFiles} {history : List (TargetFiles × Option Eff)} {o : Nat} {id : FileId}

/-- While the descriptor stays open its object keeps its identity. -/
theorem held_through (h : Interleaved Change Sees f history f') (hquiet : ∀ e ∈ effects history, e.kind ≠ .target)
    (hheld : Held f o id) : Held f' o id := by
  refine h.invariant (I := fun g => Held g o id) (fun hc hheld => hheld.change hc) ?_ hheld
  intro e he a b hsees hheld
  cases hsees with
  | elsewhere _ => exact hheld
  | opened _ _ _ => exact absurd rfl (hquiet _ he)
  | notOpened _ => exact hheld
  | fstat _ _ => exact hheld
  | fstatFailed => exact hheld
  | stat _ _ => exact hheld
  | statFailed _ => exact hheld
  | closed => exact absurd rfl (hquiet _ he)

/-- The pin, the quiet around it and the last stat: the path names what it named. -/
theorem same_object {path : Bytes} {pinned pinned' read read' checked checked' : TargetFiles}
    {toRead toCheck : List (TargetFiles × Option Eff)} (hopen : Sees (.openTarget path true) pinned pinned')
    (hread : Interleaved Change Sees pinned' toRead read) (hquiet : ∀ e ∈ effects toRead, e.kind ≠ .target)
    (hfstat : Sees (.fstatTarget (some id)) read read') (hcheck : Interleaved Change Sees read' toCheck checked)
    (hquiet' : ∀ e ∈ effects toCheck, e.kind ≠ .target) (hstat : Sees (.statTarget path (some id)) checked checked') :
    ∃ o, pinned.named path = some o ∧ checked.named path = some o := by
  cases hopen with
  | elsewhere _ hk => exact absurd rfl hk
  | opened _ _ o hnamed =>
    obtain ⟨id', hheld⟩ := held_openAt hnamed
    have hheld := held_through hread hquiet hheld
    cases hfstat with
    | elsewhere _ hk => exact absurd rfl hk
    | fstat hdesc hid =>
      obtain rfl := Option.some.inj (hheld.descriptor.symm.trans hdesc)
      obtain rfl := Option.some.inj (hheld.identity.symm.trans hid)
      have hheld := held_through hcheck hquiet' hheld
      cases hstat with
      | elsewhere _ hk => exact absurd rfl hk
      | stat hnamed' hid' =>
        obtain rfl := hheld.named hid'
        exact ⟨_, hnamed, hnamed'⟩

end

theorem caught_of_pinning {path : Bytes} {check : Act Ret}
    (h : ∀ {verdict}, check.Returns verdict → Pinning path verdict (targets check)) : Caught path check := by
  refine ⟨?_, fun hret => closesOnce_of_close_last (h hret).close_last⟩
  intro hallow start history finish hrun heff
  obtain ⟨pin, htargets⟩ := (h hallow).allow
  have hquiet : ∀ {l : List Eff}, (∀ e ∈ l, ¬ (e.kind == EffKind.target) = true) → ∀ e ∈ l, e.kind ≠ .target :=
    fun hl e he hk => hl e he (beq_iff_eq.mpr hk)
  -- the trace comes apart at the open, the fstat and the stat
  obtain ⟨t₁, t₂, htrace, -, -, hfrom⟩ := List.filter_eq_cons_iff.mp htargets
  obtain ⟨t₃, t₄, rfl, hq₃, -, hfrom'⟩ := List.filter_eq_cons_iff.mp hfrom
  obtain ⟨t₅, t₆, rfl, hq₅, -, hlast⟩ := List.filter_eq_cons_iff.mp hfrom'
  -- and the history at their moments
  obtain ⟨before, pinned, pinned', rest, rfl, -, heff, -, hopen, hrun⟩ := hrun.split (heff.trans htrace)
  obtain ⟨toRead, read, read', rest, rfl, heff₃, heff, hread, hfstat, hrun⟩ := hrun.split heff
  obtain ⟨toCheck, checked, checked', after, rfl, heff₅, heff₆, hcheck, hstat, -⟩ := hrun.split heff
  obtain ⟨o, hnamed, hnamed'⟩ := same_object hopen hread (heff₃ ▸ hquiet hq₃) hfstat hcheck (heff₅ ▸ hquiet hq₅) hstat
  refine ⟨before, pinned, toRead ++ (read, some (.fstatTarget (some pin))) :: toCheck, checked, pin, after, o, by simp, ?_,
    hnamed, hnamed'⟩
  intro e he
  rw [heff₆] at he
  -- only the close is asked of the target after it
  cases hstats : e.statsTarget with
  | false => rfl
  | true =>
    have hmem : e ∈ t₆.filter fun e => e.kind == .target := List.mem_filter.mpr ⟨he, kind_of_statsTarget hstats⟩
    rw [hlast, List.mem_singleton] at hmem
    subst hmem
    cases hstats

/-- An allow is there to be had: a check whose files nobody touches, and which answered it as
    they are, has a run. -/
theorem exists_undisturbed {path : Bytes} {check : Act Ret} {pin : FileId}
    (htargets : targets check =
      [.openTarget path true, .fstatTarget (some pin), .statTarget path (some pin), .closeTarget])
    {f : TargetFiles} {o : Nat} (hnamed : f.named path = some o) (hid : f.identity o = some pin) :
    ∃ history finish, Interleaved Change Sees f history finish ∧ effects history = check.trace := by
  have hstill : ∀ {l : List Eff} (g : TargetFiles), (∀ e ∈ l, ¬ (e.kind == EffKind.target) = true) →
      ∃ history, Interleaved Change Sees g history g ∧ effects history = l :=
    fun g hl => Interleaved.exists_still fun e he => .elsewhere g fun hk => hl e he (beq_iff_eq.mpr hk)
  obtain ⟨t₁, t₂, htrace, hq₁, -, hfrom⟩ := List.filter_eq_cons_iff.mp htargets
  obtain ⟨t₃, t₄, rfl, hq₃, -, hfrom'⟩ := List.filter_eq_cons_iff.mp hfrom
  obtain ⟨t₅, t₆, rfl, hq₅, -, hfrom''⟩ := List.filter_eq_cons_iff.mp hfrom'
  obtain ⟨t₇, t₈, rfl, hq₇, -, hnil⟩ := List.filter_eq_cons_iff.mp hfrom''
  let opened := f.openAt path o hnamed
  obtain ⟨h₁, hrun₁, heff₁⟩ := hstill f hq₁
  obtain ⟨h₃, hrun₃, heff₃⟩ := hstill opened hq₃
  obtain ⟨h₅, hrun₅, heff₅⟩ := hstill opened hq₅
  obtain ⟨h₇, hrun₇, heff₇⟩ := hstill opened hq₇
  obtain ⟨h₈, hrun₈, heff₈⟩ := hstill opened.close (List.filter_eq_nil_iff.mp hnil)
  have hclose := hrun₇.append (.act (.closed opened) hrun₈)
  have hstat := hrun₅.append (.act (.stat hnamed hid) hclose)
  have hfstat := hrun₃.append (.act (.fstat rfl hid) hstat)
  refine ⟨_, _, hrun₁.append (.act (.opened f path o hnamed) hfstat), ?_⟩
  simp only [Interleaved.effects_append, Interleaved.effects_act, heff₁, heff₃, heff₅, heff₇, heff₈, htrace]

/-- Closed before the last stat, the descriptor would hold nothing: the path can come to name
    another object for which the stat gives the pinned identity. -/
theorem closed_early_misses_swap {f : TargetFiles} {path : Bytes} {o : Nat} {pin : FileId} (hheld : Held f o pin)
    (hnamed : f.named path = some o) (honly : ∀ q, f.named q = some o → q = path) :
    ∃ f' o', Relation.ReflTransGen Change f.close f' ∧ f'.named path = some o' ∧ o' ≠ o ∧
      Sees (.statTarget path (some pin)) f' f' := by
  have hclosed : f.close.descriptor ≠ some o := by
    intro h
    cases h
  obtain ⟨f', o', hchanges, hnamed', hne, hid⟩ := identity_comes_back (f := f.close) hnamed honly hheld.identity hclosed
  exact ⟨f', o', hchanges, hnamed', hne, .stat hnamed' hid⟩

/-- A target swapped between the pin and the last stat is refused, whatever anyone does to the
    files meanwhile, and the descriptor is closed once on every way out: in the confirm
    ceremony, on the console path, and in any check that opens its target. -/
theorem swapped_target_is_caught (b : Build) (ctx : InvokingCtx) (env : CheckEnv) (commandInfo runArgv : List Bytes) :
    (∀ path layout runas, Caught path (swConfirmRun b env ctx path runArgv layout runas)) ∧
      (∀ uid path, Caught path (askConsole b ctx env commandInfo runArgv uid path)) ∧
      ∀ marker path, Eff.openTarget path true ∈ (sudowhatCheck b ctx env commandInfo runArgv marker).trace →
        Caught path (sudowhatCheck b ctx env commandInfo runArgv marker) := by
  refine ⟨fun path layout runas => caught_of_pinning swConfirmRun_pinning,
    fun uid path => caught_of_pinning askConsole_pinning, ?_⟩
  intro marker path hopened
  have hmem : Eff.openTarget path true ∈ targets (sudowhatCheck b ctx env commandInfo runArgv marker) :=
    List.mem_filter.mpr ⟨hopened, rfl⟩
  refine caught_of_pinning fun hret => ?_
  rcases check_pinning hret with hnil | ⟨path', -, hpinning⟩
  · rw [hnil] at hmem
    cases hmem
  · obtain rfl := hpinning.opened_path hmem
    exact hpinning

end SudoWhat.Plugin
