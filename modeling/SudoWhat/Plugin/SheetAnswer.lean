/-
  SudoWhat.Plugin.SheetAnswer — when a sheet ends approved, in terms of what the check is
  told.

  `SheetGranted` is everything on the way: the command, the pin, the text, both lines
  shown, the uid dropped, a policy, and an approving reply. An approved sheet needs all of
  it (`granted_of_approved`), and for a console caller the plugin does not defer it is
  enough (`approved_of_granted`).
-/

import SudoWhat.Plugin.CheckGate

namespace SudoWhat.Plugin

open SudoWhat.Lib

/-- A sheet was raised and approved. -/
def SheetApproved {α : Type} (run : Act α) : Prop := ∃ policy text, Eff.sheet policy text true ∈ run.trace

/-- Some dialog under this policy gets an approving reply. -/
def RepliesApprove (env : CheckEnv) (chosen : LAPolicy) : Prop :=
  env.reply.success = true ∨ (asksPassword chosen env.reply = true ∧ env.passwordReply.success = true)

/-- A sheet for this command comes up and is approved. -/
structure SheetGranted (b : Build) (ctx : InvokingCtx) (env : CheckEnv) (commandInfo runArgv : List Bytes) : Prop where
  bundles : env.bundlesIntact
  pinned : env.openTarget = .ok () ∧ ∃ pin, env.fstatTarget = .ok pin
  shows : ∃ path, resolvedCommand commandInfo = some path ∧
    (∃ text, sheetText ctx env commandInfo runArgv path = some text) ∧
    (emitVerifyCode env (generateVerifyNonce env.random 4) (swColorAllowed ctx)).Returns () ∧
    (emitExecLine b env (some path) runArgv .grouped none (swColorAllowed ctx)).Returns ()
  dropped : env.seteuidDrop = .ok ()
  replies : ∃ chosen, choosePolicy env = .ok chosen ∧ RepliesApprove env chosen

section

variable {b : Build} {ctx : InvokingCtx} {env : CheckEnv} {commandInfo runArgv : List Bytes} {marker : Bool}

theorem not_approved_of_kinds {α : Type} {ks : List EffKind} {x : Act α} (hk : OnlyKinds ks x) (hs : .sheet ∉ ks) :
    ¬ SheetApproved x := by
  intro ⟨policy, text, hmem⟩
  have hkind : (Eff.sheet policy text true).kind ∉ ks := hs
  exact hk.not_mem hkind hmem

theorem approved_bind {α β : Type} {x : Act α} {f : α → Act β} :
    SheetApproved (x >>= f) ↔ SheetApproved x ∨ ∃ a, x.Returns a ∧ SheetApproved (f a) := by
  constructor
  · intro ⟨policy, text, hmem⟩
    rcases Traced.mem_trace_bind.mp hmem with h | ⟨a, ha, h⟩
    · exact .inl ⟨policy, text, h⟩
    · exact .inr ⟨a, ha, policy, text, h⟩
  · intro h
    rcases h with ⟨policy, text, h⟩ | ⟨a, ha, policy, text, h⟩
    · exact ⟨policy, text, Traced.mem_trace_bind.mpr (.inl h)⟩
    · exact ⟨policy, text, Traced.mem_trace_bind.mpr (.inr ⟨a, ha, h⟩)⟩

theorem approved_after {α : Type} {ks : List EffKind} {x : Act Unit} (hk : OnlyKinds ks x) (hs : .sheet ∉ ks)
    (f : Unit → Act α) : SheetApproved (x >>= f) ↔ x.Returns () ∧ SheetApproved (f ()) := by
  rw [approved_bind]
  constructor
  · intro h
    rcases h with h | ⟨_, ha, h⟩
    · exact absurd h (not_approved_of_kinds hk hs)
    · exact ⟨ha, h⟩
  · intro ⟨ha, h⟩
    exact .inr ⟨(), ha, h⟩

theorem evaluatePolicy_approved_iff {chosen : LAPolicy} {text : NSString} :
    SheetApproved (evaluatePolicy env chosen text) ↔ RepliesApprove env chosen := by
  unfold evaluatePolicy RepliesApprove
  cases ha : asksPassword chosen env.reply with
  | false => simp [SheetApproved]
  | true =>
    simp only [SheetApproved, if_true, Traced.emit_bind_trace, Traced.trace_pure, List.mem_cons, List.not_mem_nil, or_false,
      Eff.sheet.injEq, true_and]
    constructor
    · intro ⟨policy, shown, h⟩
      rcases h with h | h
      · exact .inl h.2.2.symm
      · exact .inr h.2.2.symm
    · intro h
      rcases h with h | h
      · exact ⟨chosen, text, .inl ⟨rfl, rfl, h.symm⟩⟩
      · exact ⟨.deviceOwner, text, .inr ⟨rfl, rfl, h.symm⟩⟩

theorem raiseSheet_approved_iff {uid : Uid} {path : Bytes} {pin : FileId} {text : NSString} :
    SheetApproved (raiseSheet env uid path pin text) ↔
      env.seteuidDrop = .ok () ∧ ∃ chosen, choosePolicy env = .ok chosen ∧ RepliesApprove env chosen := by
  unfold raiseSheet
  cases hd : env.seteuidDrop with
  | error saved =>
    constructor
    · intro h
      exact absurd h (not_approved_of_kinds (show OnlyKinds [.display, .target, .privilege] _ by simp) (by simp))
    · intro h
      cases h.1
  | ok u =>
    dsimp only
    rw [approved_after (show OnlyKinds [.privilege] _ by simp) (by simp)]
    cases hp : choosePolicy env with
    | error description =>
      constructor
      · intro h
        exact absurd h.2 (not_approved_of_kinds (show OnlyKinds [.display, .target, .privilege] _ by simp) (by simp))
      · intro ⟨_, chosen, hc, _⟩
        cases hc
    | ok chosen =>
      rw [approved_bind, evaluatePolicy_approved_iff]
      constructor
      · intro ⟨_, h⟩
        rcases h with h | ⟨reply, -, h⟩
        · exact ⟨rfl, chosen, rfl, h⟩
        · exact absurd h (not_approved_of_kinds (afterDialogs_kinds env path pin reply) (by simp))
      · intro ⟨_, chosen', hc, h⟩
        cases hc
        exact ⟨Traced.returns_emit, .inl h⟩

theorem askConsole_approved_iff {uid : Uid} {path : Bytes} :
    SheetApproved (askConsole b ctx env commandInfo runArgv uid path) ↔
      (env.openTarget = .ok () ∧ ∃ pin, env.fstatTarget = .ok pin) ∧
        (∃ text, sheetText ctx env commandInfo runArgv path = some text) ∧
        (emitVerifyCode env (generateVerifyNonce env.random 4) (swColorAllowed ctx)).Returns () ∧
        (emitExecLine b env (some path) runArgv .grouped none (swColorAllowed ctx)).Returns () ∧
        env.seteuidDrop = .ok () ∧ ∃ chosen, choosePolicy env = .ok chosen ∧ RepliesApprove env chosen := by
  have hno : ∀ {α : Type} (x : Act α), OnlyKinds [.display, .target] x → ¬ SheetApproved x :=
    fun x hk => not_approved_of_kinds hk (by simp)
  unfold askConsole
  cases ho : env.openTarget with
  | error errno => simp [hno]
  | ok u =>
    dsimp only
    rw [approved_after (show OnlyKinds [.target] _ by simp) (by simp)]
    cases hf : env.fstatTarget with
    | error saved => simp [hno]
    | ok pin =>
      dsimp only
      rw [approved_after (show OnlyKinds [.target] _ by simp) (by simp)]
      cases ht : sheetText ctx env commandInfo runArgv path with
      | none => simp [hno]
      | some text =>
        dsimp only
        rw [approved_after (show OnlyKinds [.display] _ by simp) (by simp),
          approved_after (show OnlyKinds [.display] _ by simp) (by simp), raiseSheet_approved_iff]
        simp

/-- An approved sheet took everything `SheetGranted` lists. -/
theorem granted_of_approved (h : SheetApproved (sudowhatCheck b ctx env commandInfo runArgv marker)) :
    SheetGranted b ctx env commandInfo runArgv := by
  by_cases hi : env.bundlesIntact
  · rw [sudowhatCheck_intact hi, approved_after (show OnlyKinds [.marker] _ by simp) (by simp)] at h
    replace h := h.2
    unfold checkCaller at h
    cases hu : ctx.uid with
    | none =>
      simp only [hu] at h
      exact absurd h (not_approved_of_kinds (show OnlyKinds [.display] _ by simp) (by simp))
    | some uid =>
      simp only [hu] at h
      split at h
      · exact absurd h (not_approved_of_kinds (checkRoot_kinds b ctx env commandInfo runArgv) (by simp))
      · split at h
        · exact absurd h (not_approved_of_kinds (checkNonConsole_kinds b ctx env commandInfo runArgv uid marker) (by simp))
        · unfold checkConsole at h
          split at h
          · exact absurd h (not_approved_of_kinds (show OnlyKinds [.display] _ by simp) (by simp))
          · rename_i path hcmd
            split at h
            · exact absurd h (not_approved_of_kinds (show OnlyKinds [.display] _ by simp) (by simp))
            · obtain ⟨hp, ht, hv, he, hd, hr⟩ := askConsole_approved_iff.mp h
              exact ⟨hi, hp, ⟨path, hcmd, ht, hv, he⟩, hd, hr⟩
  · exact absurd h (not_approved_of_kinds (sudowhatCheck_not_intact hi).2 (by simp))

/-- For a console caller the plugin does not defer, that is enough. -/
theorem approved_of_granted {uid : Uid} (hu : ctx.uid = some uid) (h0 : uid ≠ 0) (hc : env.isConsole uid = true)
    (hd : deferSkips b env marker = false) (h : SheetGranted b ctx env commandInfo runArgv) :
    SheetApproved (sudowhatCheck b ctx env commandInfo runArgv marker) := by
  have hcons : isInvokingUserActiveConsole env.session env.consoleUid uid = true := hc
  obtain ⟨path, hcmd, htext, hv, he⟩ := h.shows
  have hfind : findKv commandInfo (lit "command") = some path := hcmd
  rw [sudowhatCheck_intact h.bundles, approved_after (show OnlyKinds [.marker] _ by simp) (by simp)]
  refine ⟨Traced.returns_emit, ?_⟩
  simp only [checkCaller, hu, h0, if_false, hcons, Bool.not_true, Bool.false_eq_true, checkConsole, hfind, hd]
  exact askConsole_approved_iff.mpr ⟨h.pinned, htext, hv, he, h.dropped, h.replies⟩

end

end SudoWhat.Plugin
