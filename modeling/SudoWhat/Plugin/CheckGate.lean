/-
  SudoWhat.Plugin.CheckGate — `check()` allows only through a gate.

  `Gate` names the four ways to an allow, each with everything it rests on, over any
  surroundings. Proved: an allow needs both signatures and a gate (`check_allow`), and a
  sheet is raised only for a console caller who is not root, with the command resolved and
  pinned, not deferred, showing the text built for this command, under the caller's own
  uid (`check_sheet`, `check_sheet_euid`).
-/

import SudoWhat.Plugin.Check

namespace SudoWhat.Plugin

open SudoWhat.Lib

/-- The uid is the active console user's. -/
def CheckEnv.isConsole (env : CheckEnv) (uid : Uid) : Bool := isInvokingUserActiveConsole env.session env.consoleUid uid

def resolvedCommand (commandInfo : List Bytes) : Option Bytes := findKv commandInfo (lit "command")

section

variable (b : Build) (ctx : InvokingCtx) (env : CheckEnv) (commandInfo runArgv : List Bytes) (marker : Bool)

/-- Both signatures the check looks at are good. -/
def CheckEnv.bundlesIntact : Prop := env.pamSignature = .ok () ∧ (env.auditExists = false ∨ env.auditSignature = .ok ())

/-- Why a check may allow. -/
inductive Gate : Prop where
  | root : ctx.uid = some 0 → Gate
  /-- sudo_local lets a non-console caller through, and the ceremony passed if it was asked
      for. -/
  | nonConsole (uid : Uid) : ctx.uid = some uid → uid ≠ 0 → env.isConsole uid = false →
      swNonconsoleAllows (swNonconsoleChainOf b.pamPath env.sudoLocal) marker = true →
      (stepAsideAsks b env marker = true →
        ConfirmPassed b env ctx (resolvedCommand commandInfo) runArgv (swStepAsideLayout marker)
          (some (swRunasName env commandInfo))) → Gate
  | deferred (uid : Uid) (path : Bytes) : ctx.uid = some uid → uid ≠ 0 → env.isConsole uid = true →
      resolvedCommand commandInfo = some path → deferSkips b env marker = true → Gate
  /-- A sheet with the text built for this command was approved, root came back, and the
      path still names the pinned file. -/
  | sheet (uid : Uid) (path : Bytes) (pin : FileId) (text : NSString) (policy : LAPolicy) : ctx.uid = some uid →
      uid ≠ 0 → env.isConsole uid = true → resolvedCommand commandInfo = some path →
      env.openTarget = .ok () → env.fstatTarget = .ok pin →
      sheetText ctx env commandInfo runArgv path = some text →
      .sheet policy text true ∈ (sudowhatCheck b ctx env commandInfo runArgv marker).trace →
      env.seteuidBack = true → env.statTarget = .ok pin → Gate

/-- What a raised sheet rests on. -/
structure SheetWarranted (uid : Uid) (text : NSString) : Prop where
  bundles : env.bundlesIntact
  caller : ctx.uid = some uid
  notRoot : uid ≠ 0
  console : env.isConsole uid = true
  notDeferred : deferSkips b env marker = false
  pinned : env.openTarget = .ok () ∧ ∃ pin, env.fstatTarget = .ok pin
  dropped : env.seteuidDrop = .ok ()
  shows : ∃ path, resolvedCommand commandInfo = some path ∧ sheetText ctx env commandInfo runArgv path = some text

end

section

variable {b : Build} {ctx : InvokingCtx} {env : CheckEnv} {commandInfo runArgv : List Bytes} {marker : Bool}

/-! ## An allow -/

theorem evaluatePolicy_replied {chosen : LAPolicy} {text : NSString} {r : LAReply}
    (h : (evaluatePolicy env chosen text).Returns r) :
    ∃ policy, Eff.sheet policy text r.success ∈ (evaluatePolicy env chosen text).trace := by
  unfold evaluatePolicy at h ⊢
  cases hp : asksPassword chosen env.reply with
  | true =>
    simp only [hp, if_true, Traced.returns_bind, Traced.returns_pure] at h ⊢
    obtain ⟨_, -, _, -, rfl⟩ := h
    exact ⟨.deviceOwner, by simp⟩
  | false =>
    simp only [hp, Bool.false_eq_true, if_false, Traced.returns_bind, Traced.returns_pure] at h ⊢
    obtain ⟨_, -, rfl⟩ := h
    exact ⟨chosen, by simp⟩

theorem recheckTarget_allow {path : Bytes} {pin : FileId} (h : (recheckTarget env path pin).Returns .allow) :
    env.statTarget = .ok pin := by
  unfold recheckTarget at h
  cases hs : env.statTarget with
  | error saved => simp [hs] at h
  | ok postSt =>
    simp only [hs, Traced.returns_bind] at h
    obtain ⟨_, -, _, -, h⟩ := h
    by_cases e : postSt = pin
    · rw [e]
    · simp [e] at h

theorem afterDialogs_allow {path : Bytes} {pin : FileId} {reply : LAReply}
    (h : (afterDialogs env path pin reply).Returns .allow) :
    reply.success = true ∧ env.seteuidBack = true ∧ env.statTarget = .ok pin := by
  unfold afterDialogs at h
  simp only [Traced.returns_bind] at h
  obtain ⟨_, -, h⟩ := h
  cases hb : env.seteuidBack with
  | false => simp [hb] at h
  | true =>
    cases hs : reply.success with
    | false => simp [hb, hs] at h
    | true =>
      simp only [hb, hs, Bool.not_true, Bool.false_eq_true, if_false] at h
      exact ⟨rfl, rfl, recheckTarget_allow h⟩

theorem raiseSheet_allow {uid : Uid} {path : Bytes} {pin : FileId} {text : NSString}
    (h : (raiseSheet env uid path pin text).Returns .allow) :
    (∃ policy, Eff.sheet policy text true ∈ (raiseSheet env uid path pin text).trace) ∧ env.seteuidBack = true ∧
      env.statTarget = .ok pin := by
  unfold raiseSheet at h ⊢
  cases hd : env.seteuidDrop with
  | error saved => simp [hd] at h
  | ok u =>
    cases hp : choosePolicy env with
    | error description => simp [hd, hp] at h
    | ok chosen =>
      simp only [hd, hp, Traced.returns_bind] at h ⊢
      obtain ⟨_, -, reply, hr, h⟩ := h
      obtain ⟨hs, hb, hst⟩ := afterDialogs_allow h
      obtain ⟨policy, hmem⟩ := evaluatePolicy_replied hr
      rw [hs] at hmem
      refine ⟨⟨policy, ?_⟩, hb, hst⟩
      rw [Traced.emit_bind_trace, List.mem_cons]
      exact .inr (Traced.mem_trace_bind.mpr (.inl hmem))

theorem askConsole_allow {uid : Uid} {path : Bytes}
    (h : (askConsole b ctx env commandInfo runArgv uid path).Returns .allow) :
    ∃ pin text policy, env.openTarget = .ok () ∧ env.fstatTarget = .ok pin ∧
      sheetText ctx env commandInfo runArgv path = some text ∧
      Eff.sheet policy text true ∈ (askConsole b ctx env commandInfo runArgv uid path).trace ∧
      env.seteuidBack = true ∧ env.statTarget = .ok pin := by
  unfold askConsole at h ⊢
  cases ho : env.openTarget with
  | error errno => simp [ho] at h
  | ok u =>
    cases hf : env.fstatTarget with
    | error saved => simp [ho, hf] at h
    | ok pin =>
      cases ht : sheetText ctx env commandInfo runArgv path with
      | none => simp [ho, hf, ht] at h
      | some text =>
        simp only [ho, hf, ht, Traced.returns_bind] at h ⊢
        obtain ⟨_, -, _, -, uv, hv, ue, he, h⟩ := h
        obtain ⟨⟨policy, hmem⟩, hb, hst⟩ := raiseSheet_allow h
        refine ⟨pin, text, policy, trivial, rfl, rfl, ?_, hb, hst⟩
        simp only [Traced.mem_trace_bind]
        exact .inr ⟨(), Traced.returns_emit, .inr ⟨(), Traced.returns_emit, .inr ⟨uv, hv, .inr ⟨ue, he, hmem⟩⟩⟩⟩

theorem sudowhatAuditBundleOk_iff : sudowhatAuditBundleOk env = .ok () ↔
    env.auditExists = false ∨ env.auditSignature = .ok () := by
  unfold sudowhatAuditBundleOk
  cases env.auditExists <;> simp

/-- Past the signatures a check is its classification, with the marker cleared. -/
theorem sudowhatCheck_intact (h : env.bundlesIntact) :
    sudowhatCheck b ctx env commandInfo runArgv marker =
      (do Traced.emit .unsetMarker; checkCaller b ctx env commandInfo runArgv marker) := by
  unfold sudowhatCheck
  simp only [h.1, sudowhatAuditBundleOk_iff.mpr h.2]

theorem sudowhatCheck_not_intact (h : ¬ env.bundlesIntact) :
    (sudowhatCheck b ctx env commandInfo runArgv marker).Returns .deny ∧
      OnlyKinds [.display] (sudowhatCheck b ctx env commandInfo runArgv marker) := by
  unfold sudowhatCheck
  cases hp : env.pamSignature with
  | error description => simp
  | ok u =>
    cases ha : sudowhatAuditBundleOk env with
    | error description => simp
    | ok u => exact absurd ⟨hp, sudowhatAuditBundleOk_iff.mp ha⟩ h

theorem checkCaller_gate (hi : env.bundlesIntact)
    (h : (checkCaller b ctx env commandInfo runArgv marker).Returns .allow) :
    Gate b ctx env commandInfo runArgv marker := by
  have hsub : ∀ e ∈ (checkCaller b ctx env commandInfo runArgv marker).trace,
      e ∈ (sudowhatCheck b ctx env commandInfo runArgv marker).trace := by
    intro e he
    rw [sudowhatCheck_intact hi]
    exact List.mem_cons_of_mem _ he
  unfold checkCaller at h hsub
  cases hu : ctx.uid with
  | none => simp [hu] at h
  | some uid =>
    by_cases h0 : uid = 0
    · exact .root (by rw [hu, h0])
    simp only [hu, h0, if_false] at h hsub
    cases hc : isInvokingUserActiveConsole env.session env.consoleUid uid with
    | false =>
      simp only [hc, Bool.not_false, if_true] at h
      unfold checkNonConsole at h
      by_cases ha : swNonconsoleAllows (swNonconsoleChainOf b.pamPath env.sudoLocal) marker = true
      · simp only [ha, if_true, Traced.returns_bind] at h
        obtain ⟨verdict, hv, h⟩ := h
        by_cases hva : verdict = .allow
        · subst hva
          exact .nonConsole uid hu h0 hc ha (stepAside_allow hv)
        · simp only [hva, ne_eq, not_false_eq_true, if_true, Traced.returns_pure] at h
      · simp [ha] at h
    | true =>
      simp only [hc, Bool.not_true, Bool.false_eq_true, if_false] at h hsub
      unfold checkConsole at h hsub
      cases hcmd : findKv commandInfo (lit "command") with
      | none => simp [hcmd] at h
      | some path =>
        simp only [hcmd] at h hsub
        cases hd : deferSkips b env marker with
        | true => exact .deferred uid path hu h0 hc hcmd hd
        | false =>
          simp only [hd, Bool.false_eq_true, if_false] at h hsub
          obtain ⟨pin, text, policy, ho, hf, ht, hmem, hb, hst⟩ := askConsole_allow h
          exact .sheet uid path pin text policy hu h0 hc hcmd ho hf ht (hsub _ hmem) hb hst

theorem check_allow (h : (sudowhatCheck b ctx env commandInfo runArgv marker).Returns .allow) :
    env.bundlesIntact ∧ Gate b ctx env commandInfo runArgv marker := by
  by_cases hi : env.bundlesIntact
  · rw [sudowhatCheck_intact hi] at h
    simp only [Traced.returns_bind] at h
    obtain ⟨_, -, h⟩ := h
    exact ⟨hi, checkCaller_gate hi h⟩
  · exact absurd ((sudowhatCheck_not_intact hi).1.unique h) (by decide)

/-! ## The allows that need no answer -/

theorem deferSkips_iff : deferSkips b env marker = true ↔
    b.policyDeference = true ∧ marker = false ∧ sudowhatTextHasIntegrityLine b.pamPath env.sudoLocal = true := by
  unfold deferSkips
  dsimp only
  rw [swDeferDecision_iff]
  constructor
  · intro ⟨hp, hm, hi⟩
    exact ⟨hp, hm, by simpa [hp, hm] using hi⟩
  · intro ⟨hp, hm, hi⟩
    exact ⟨hp, hm, by simpa [hp, hm] using hi⟩

/-- Where nothing is asked, a non-console caller is allowed exactly by sudo_local's shape,
    once the line is shown. -/
theorem check_nonConsole_allow_iff {uid : Uid} (hasks : stepAsideAsks b env marker = false) (hi : env.bundlesIntact)
    (hu : ctx.uid = some uid) (h0 : uid ≠ 0) (hc : env.isConsole uid = false) :
    (sudowhatCheck b ctx env commandInfo runArgv marker).Returns .allow ↔
      swNonconsoleAllows (swNonconsoleChainOf b.pamPath env.sudoLocal) marker = true ∧
        (emitExecLine b env (resolvedCommand commandInfo) runArgv (swStepAsideLayout marker)
          (some (swRunasName env commandInfo)) (swColorAllowed ctx)).Returns () := by
  have hcons : isInvokingUserActiveConsole env.session env.consoleUid uid = false := hc
  rw [sudowhatCheck_intact hi, Traced.returns_bind]
  simp only [Traced.returns_emit, true_and, exists_const]
  simp only [checkCaller, hu, h0, if_false, hcons, Bool.not_false, if_true, checkNonConsole]
  cases ha : swNonconsoleAllows (swNonconsoleChainOf b.pamPath env.sudoLocal) marker with
  | false => simp
  | true =>
    simp [swStepAsideAllow, hasks, resolvedCommand]
    constructor
    · intro h
      obtain ⟨_, h⟩ := h
      exact h
    · intro h
      exact ⟨(), h⟩

/-- A console caller sudoers waived is allowed once the line is shown. -/
theorem check_deferred_allow {uid : Uid} {path : Bytes} (hi : env.bundlesIntact) (hu : ctx.uid = some uid)
    (h0 : uid ≠ 0) (hc : env.isConsole uid = true) (hcmd : resolvedCommand commandInfo = some path)
    (hd : deferSkips b env marker = true)
    (hshown : (emitExecLine b env (some path) runArgv .grouped none (swColorAllowed ctx)).Returns ()) :
    (sudowhatCheck b ctx env commandInfo runArgv marker).Returns .allow := by
  have hcons : isInvokingUserActiveConsole env.session env.consoleUid uid = true := hc
  have hfind : findKv commandInfo (lit "command") = some path := hcmd
  rw [sudowhatCheck_intact hi, Traced.returns_bind]
  refine ⟨(), Traced.returns_emit, ?_⟩
  simp only [checkCaller, hu, h0, if_false, hcons, Bool.not_true, Bool.false_eq_true, checkConsole, hfind, hd, if_true]
  exact Traced.returns_bind.mpr ⟨(), hshown, by simp⟩

/-! ## A sheet -/

@[simp] theorem recheckTarget_kinds {ks : List EffKind} (hd : .display ∈ ks) (ht : .target ∈ ks) (env : CheckEnv)
    (path : Bytes) (pin : FileId) : OnlyKinds ks (recheckTarget env path pin) := by
  unfold recheckTarget
  split
  · simp [hd, ht]
  · refine onlyKinds_bind.mpr ⟨by simpa using ht, fun _ _ => onlyKinds_bind.mpr ⟨by simpa using ht, fun _ _ => ?_⟩⟩
    split <;> simp [hd]

theorem afterDialogs_kinds (env : CheckEnv) (path : Bytes) (pin : FileId) (reply : LAReply) :
    OnlyKinds [.display, .target, .privilege] (afterDialogs env path pin reply) := by
  unfold afterDialogs
  refine onlyKinds_bind.mpr ⟨by simp, fun _ _ => ?_⟩
  split
  · simp
  · split <;> simp

theorem mem_sheet_evaluatePolicy {chosen policy : LAPolicy} {text t : NSString} {a : Bool}
    (h : Eff.sheet policy t a ∈ (evaluatePolicy env chosen text).trace) : t = text := by
  unfold evaluatePolicy at h
  split at h
  · simp only [Traced.emit_bind_trace, Traced.trace_pure, List.mem_cons, Eff.sheet.injEq, List.not_mem_nil, or_false] at h
    rcases h with h | h
    · exact h.2.1
    · exact h.2.1
  · simp only [Traced.emit_bind_trace, Traced.trace_pure, List.mem_cons, Eff.sheet.injEq, List.not_mem_nil, or_false] at h
    exact h.2.1

theorem mem_sheet_raiseSheet {uid : Uid} {path : Bytes} {pin : FileId} {policy : LAPolicy} {text t : NSString} {a : Bool}
    (h : Eff.sheet policy t a ∈ (raiseSheet env uid path pin text).trace) : env.seteuidDrop = .ok () ∧ t = text := by
  have hno : ∀ x : Act Ret, OnlyKinds [.display, .target, .privilege] x → Eff.sheet policy t a ∉ x.trace :=
    fun x hk => hk.not_mem (by simp)
  unfold raiseSheet at h
  cases hd : env.seteuidDrop with
  | error saved => exact absurd h (hno _ (by simp [hd]))
  | ok u =>
    refine ⟨rfl, ?_⟩
    simp only [hd, Traced.emit_bind_trace, List.mem_cons, reduceCtorEq, false_or] at h
    cases hp : choosePolicy env with
    | error description => exact absurd h (hno _ (by simp [hp]))
    | ok chosen =>
      simp only [hp] at h
      rcases Traced.mem_trace_bind.mp h with h | ⟨reply, -, h⟩
      · exact mem_sheet_evaluatePolicy h
      · exact absurd h (hno _ (afterDialogs_kinds env path pin reply))

theorem mem_sheet_askConsole {uid : Uid} {path : Bytes} {policy : LAPolicy} {t : NSString} {a : Bool}
    (h : Eff.sheet policy t a ∈ (askConsole b ctx env commandInfo runArgv uid path).trace) :
    (env.openTarget = .ok () ∧ ∃ pin, env.fstatTarget = .ok pin) ∧ env.seteuidDrop = .ok () ∧
      sheetText ctx env commandInfo runArgv path = some t := by
  have hno : ∀ {α : Type} (x : Act α), OnlyKinds [.display, .target] x → Eff.sheet policy t a ∉ x.trace :=
    fun x hk => hk.not_mem (by simp)
  unfold askConsole at h
  cases ho : env.openTarget with
  | error errno => exact absurd h (hno _ (by simp [ho]))
  | ok u =>
    simp only [ho, Traced.emit_bind_trace, List.mem_cons, reduceCtorEq, false_or] at h
    cases hf : env.fstatTarget with
    | error saved => exact absurd h (hno _ (by simp [hf]))
    | ok pin =>
      simp only [hf, Traced.emit_bind_trace, List.mem_cons, reduceCtorEq, false_or] at h
      cases ht : sheetText ctx env commandInfo runArgv path with
      | none => exact absurd h (hno _ (by simp [ht]))
      | some text =>
        simp only [ht] at h
        rcases Traced.mem_trace_bind.mp h with h | ⟨_, -, h⟩
        · exact absurd h (hno _ (by simp))
        rcases Traced.mem_trace_bind.mp h with h | ⟨_, -, h⟩
        · exact absurd h (hno _ (by simp))
        obtain ⟨hd, rfl⟩ := mem_sheet_raiseSheet h
        exact ⟨⟨rfl, pin, rfl⟩, hd, rfl⟩

theorem checkNonConsole_kinds (b : Build) (ctx : InvokingCtx) (env : CheckEnv) (commandInfo runArgv : List Bytes)
    (uid : Uid) (marker : Bool) :
    OnlyKinds [.display, .question, .target] (checkNonConsole b ctx env commandInfo runArgv uid marker) := by
  unfold checkNonConsole
  dsimp only
  split
  · refine onlyKinds_bind.mpr ⟨stepAside_kinds _ _ _ _ _ _ _, fun verdict _ => ?_⟩
    split <;> simp
  · simp

theorem checkRoot_kinds (b : Build) (ctx : InvokingCtx) (env : CheckEnv) (commandInfo runArgv : List Bytes) :
    OnlyKinds [.display] (checkRoot b ctx env commandInfo runArgv) := by
  simp [checkRoot]

/-- A raised sheet rests on everything `SheetWarranted` lists. -/
theorem check_sheet {policy : LAPolicy} {t : NSString} {a : Bool}
    (h : Eff.sheet policy t a ∈ (sudowhatCheck b ctx env commandInfo runArgv marker).trace) :
    ∃ uid, SheetWarranted b ctx env commandInfo runArgv marker uid t := by
  by_cases hi : env.bundlesIntact
  · rw [sudowhatCheck_intact hi] at h
    simp only [Traced.emit_bind_trace, List.mem_cons, reduceCtorEq, false_or] at h
    unfold checkCaller at h
    cases hu : ctx.uid with
    | none => simp [hu, setErrstr] at h
    | some uid =>
      simp only [hu] at h
      by_cases h0 : uid = 0
      · rw [if_pos h0] at h
        exact absurd h ((checkRoot_kinds b ctx env commandInfo runArgv).not_mem (by simp))
      rw [if_neg h0] at h
      cases hc : isInvokingUserActiveConsole env.session env.consoleUid uid with
      | false =>
        simp only [hc, Bool.not_false, if_true] at h
        exact absurd h ((checkNonConsole_kinds b ctx env commandInfo runArgv uid marker).not_mem (by simp))
      | true =>
        simp only [hc, Bool.not_true, Bool.false_eq_true, if_false] at h
        unfold checkConsole at h
        cases hcmd : findKv commandInfo (lit "command") with
        | none => simp [hcmd, setErrstr] at h
        | some path =>
          simp only [hcmd] at h
          cases hd : deferSkips b env marker with
          | true =>
            simp only [hd, if_true] at h
            exact absurd h (OnlyKinds.not_mem (show OnlyKinds [.display] _ by simp) (by simp))
          | false =>
            simp only [hd, Bool.false_eq_true, if_false] at h
            obtain ⟨hpin, hdrop, htext⟩ := mem_sheet_askConsole h
            exact ⟨uid, hi, hu, h0, hc, hd, hpin, hdrop, path, hcmd, htext⟩
  · exact absurd h ((sudowhatCheck_not_intact hi).2.not_mem (by simp))

/-! ## The uid a sheet is raised under -/

def euidStep (u : Uid) : Eff → Uid
  | .seteuid v true => v
  | _ => u

/-- The effective uid after these effects. -/
def euidAfter (u : Uid) (es : List Eff) : Uid := es.foldl euidStep u

/-- Starting under `u₀`, every sheet of the trace is raised under `u`. -/
def SheetsUnder (u : Uid) : Uid → List Eff → Prop
  | _, [] => True
  | u₀, e :: es => (e.kind = .sheet → u₀ = u) ∧ SheetsUnder u (euidStep u₀ e) es

theorem sheetsUnder_append {u : Uid} {as bs : List Eff} : ∀ {u₀ : Uid},
    SheetsUnder u u₀ (as ++ bs) ↔ SheetsUnder u u₀ as ∧ SheetsUnder u (euidAfter u₀ as) bs := by
  induction as with
  | nil => intro u₀; simp [SheetsUnder, euidAfter]
  | cons e as ih =>
    intro u₀
    rw [List.cons_append, SheetsUnder, SheetsUnder, ih, and_assoc]
    rfl

/-- Where no sheet is raised, none is raised under another uid. -/
theorem sheetsUnder_of_kinds {α : Type} {x : Act α} {ks : List EffKind} (h : OnlyKinds ks x) (hs : .sheet ∉ ks)
    (u u₀ : Uid) : SheetsUnder u u₀ x.trace := by
  have key : ∀ (es : List Eff) (u₀ : Uid), (∀ e ∈ es, e.kind ∈ ks) → SheetsUnder u u₀ es := by
    intro es
    induction es with
    | nil => intro u₀ _; trivial
    | cons e es ih =>
      intro u₀ he
      refine ⟨fun hk => absurd (hk ▸ he e List.mem_cons_self) hs, ih _ fun e' he' => he e' (List.mem_cons_of_mem _ he')⟩
  exact key _ _ h

theorem sheetsUnder_bind {α β : Type} {x : Act α} {f : α → Act β} {u u₀ : Uid} (hx : SheetsUnder u u₀ x.trace)
    (hf : ∀ a, x.Returns a → SheetsUnder u (euidAfter u₀ x.trace) (f a).trace) : SheetsUnder u u₀ (x >>= f).trace := by
  rcases Traced.trace_bind_cases x f with h | ⟨a, ha, h⟩
  · rw [h]; exact hx
  · rw [h]; exact sheetsUnder_append.mpr ⟨hx, hf a ha⟩

theorem evaluatePolicy_under (env : CheckEnv) (chosen : LAPolicy) (text : NSString) (u : Uid) :
    SheetsUnder u u (evaluatePolicy env chosen text).trace := by
  unfold evaluatePolicy
  split <;> simp [SheetsUnder, euidStep]

theorem raiseSheet_under (env : CheckEnv) (uid : Uid) (path : Bytes) (pin : FileId) (text : NSString) (u₀ : Uid) :
    SheetsUnder uid u₀ (raiseSheet env uid path pin text).trace := by
  unfold raiseSheet
  split
  · exact sheetsUnder_of_kinds (show OnlyKinds [.display, .target, .privilege] _ by simp) (by simp) _ _
  · rw [Traced.emit_bind_trace]
    refine ⟨by simp, ?_⟩
    split
    · exact sheetsUnder_of_kinds (show OnlyKinds [.display, .target, .privilege] _ by simp) (by simp) _ _
    · exact sheetsUnder_bind (evaluatePolicy_under _ _ _ _)
        fun reply _ => sheetsUnder_of_kinds (afterDialogs_kinds _ _ _ _) (by simp) _ _

theorem askConsole_under (b : Build) (ctx : InvokingCtx) (env : CheckEnv) (commandInfo runArgv : List Bytes) (uid : Uid)
    (path : Bytes) (u₀ : Uid) : SheetsUnder uid u₀ (askConsole b ctx env commandInfo runArgv uid path).trace := by
  have hno : ∀ {α : Type} (x : Act α) (u₀ : Uid), OnlyKinds [.display, .target] x → SheetsUnder uid u₀ x.trace :=
    fun x u₀ hk => sheetsUnder_of_kinds hk (by simp) uid u₀
  unfold askConsole
  split
  · exact hno _ _ (by simp)
  · refine sheetsUnder_bind (hno _ _ (by simp)) fun _ _ => ?_
    split
    · exact hno _ _ (by simp)
    · refine sheetsUnder_bind (hno _ _ (by simp)) fun _ _ => ?_
      split
      · exact hno _ _ (by simp)
      · exact sheetsUnder_bind (hno _ _ (by simp)) fun _ _ =>
          sheetsUnder_bind (hno _ _ (by simp)) fun _ _ => raiseSheet_under _ _ _ _ _ _

theorem check_sheet_euid {uid : Uid} (hu : ctx.uid = some uid) (u₀ : Uid) :
    SheetsUnder uid u₀ (sudowhatCheck b ctx env commandInfo runArgv marker).trace := by
  by_cases hi : env.bundlesIntact
  · rw [sudowhatCheck_intact hi]
    refine sheetsUnder_bind (sheetsUnder_of_kinds (show OnlyKinds [.marker] _ by simp) (by simp) _ _) fun _ _ => ?_
    simp only [checkCaller, hu]
    split
    · exact sheetsUnder_of_kinds (checkRoot_kinds _ _ _ _ _) (by simp) _ _
    · split
      · exact sheetsUnder_of_kinds (checkNonConsole_kinds _ _ _ _ _ _ _) (by simp) _ _
      · unfold checkConsole
        split
        · exact sheetsUnder_of_kinds (show OnlyKinds [.display] _ by simp) (by simp) _ _
        · split
          · exact sheetsUnder_of_kinds (show OnlyKinds [.display] _ by simp) (by simp) _ _
          · exact askConsole_under _ _ _ _ _ _ _ _
  · exact sheetsUnder_of_kinds (sudowhatCheck_not_intact hi).2 (by simp) _ _

/-- `check()` allows only through a gate, and raises a sheet only for a console caller who
    is not root, under that caller's uid, with the text built for the pinned command. -/
theorem check_only_through_a_gate (b : Build) (ctx : InvokingCtx) (env : CheckEnv) (commandInfo runArgv : List Bytes)
    (marker : Bool) :
    ((sudowhatCheck b ctx env commandInfo runArgv marker).Returns .allow →
      env.bundlesIntact ∧ Gate b ctx env commandInfo runArgv marker) ∧
    ∀ pre policy text approved post,
      (sudowhatCheck b ctx env commandInfo runArgv marker).trace = pre ++ .sheet policy text approved :: post →
      ∃ uid, SheetWarranted b ctx env commandInfo runArgv marker uid text ∧ euidAfter 0 pre = uid := by
  refine ⟨check_allow, fun pre policy text approved post h => ?_⟩
  obtain ⟨uid, hw⟩ := check_sheet (h ▸ List.mem_append_right pre List.mem_cons_self)
  have hunder := @check_sheet_euid b ctx env commandInfo runArgv marker uid hw.caller 0
  rw [h] at hunder
  exact ⟨uid, hw, (sheetsUnder_append.mp hunder).2.1 (by simp)⟩

end

end SudoWhat.Plugin
