/-
  SudoWhat.Referral — the sheet's `(see terminal)`, and what the terminal was shown.

  Two plugins meet here. The audit plugin's rows come from `settings` and `user_info`,
  before sudo resolved anything; the sheet's items come from `command_info`, after. The
  execute line, written just before the sheet, names the resolved command only. A
  `SheetRun` is one sudo run at the console with both plugins loaded and a terminal that
  takes every write, from the audit plugin's `open()` to the raising of a sheet.

  Proved: a replaced command is always on the terminal; a replaced user or directory is
  there exactly when the request the audit plugin showed names it, or the resolved line
  happens to spell it (`referral_truthful_iff`). As built, a directory that sudoers sets is
  sent to a terminal that never showed it (`referral_to_nowhere`).
-/

import SudoWhat.Audit.Rows
import SudoWhat.Plugin.Open
import SudoWhat.Plugin.SheetAnswer
import SudoWhat.Plugin.Terminal

namespace SudoWhat

open SudoWhat.Lib SudoWhat.Plugin
open SudoWhat.Audit (AuditBuild AuditEnv Submission auditBlock gutterGap swAuditColorAllowed swAuditRunsShell swAuditWriteTty
  showBlock)
open SudoWhat.EscapeCore (escapeBytes fullCommandLineBytes)

/-! ## The lines of the block -/

theorem Displays.lines {gap : RowKind → Nat} {color : Bool} {rows : List Row} {block : Text}
    (h : Displays gap color rows block) :
    ∃ shown, List.Forall₂ LineShows (rows.map (Row.body gap)) shown ∧ block = unlines shown := by
  obtain ⟨texts, ht, rfl⟩ := h
  induction ht with
  | nil => exact ⟨[], .nil, rfl⟩
  | @cons r text rows texts hs _ ih =>
    obtain ⟨shown, hshown, e⟩ := ih
    obtain ⟨line, hline, -, rfl⟩ := hs.dressed
    refine ⟨line :: shown, .cons ⟨r.clean_body gap, frameCodes, hline⟩ hshown, ?_⟩
    rw [List.flatten_cons, e]
    rfl

/-- There is something to run, so there is a block. -/
def Audit.Submission.Drawn (s : Submission) : Prop := s.typed ≠ [] ∨ swAuditRunsShell s.settings = true

instance (s : Submission) : Decidable s.Drawn := inferInstanceAs (Decidable (_ ∨ _))

/-- The request as the block shows it, memory permitting. -/
def Audit.Submission.asked (s : Submission) : Request := s.request fun _ => true

def blockLines (s : Submission) : List Text := if s.Drawn then s.asked.rows.map (Row.body gutterGap) else []

theorem swAuditWriteTty_written {env : AuditEnv} {block : Text} (htty : env.tty.Writable)
    (h : (swAuditWriteTty env block).Returns ()) : written (swAuditWriteTty env block).trace = Utf8.encode block := by
  unfold swAuditWriteTty at h ⊢
  rw [htty.opens, htty.isTerminal] at h ⊢
  by_cases he : block = []
  · rw [if_pos he, he]
    rfl
  · simp only [if_neg he, Bool.not_true, Bool.false_eq_true, if_false] at h ⊢
    obtain ⟨w, hw, -⟩ := Traced.returns_bind.mp h
    rw [Traced.trace_bind hw, written_append, writeLoop_written htty.succeeds _ _ _ w hw]
    exact List.append_nil _

/-- What `open()` put on the terminal. -/
theorem auditOpen_written {b : AuditBuild} {env : AuditEnv} {version : UInt32} {s : Submission} {v : Bool}
    (hpast : Audit.PastChecks b env version s) (halloc : ∀ site, env.alloc site = true) (htty : env.tty.Writable)
    (h : (Audit.sudowhatAuditOpen b env version s).Returns v) :
    ∃ shown, List.Forall₂ LineShows (blockLines s) shown ∧
      written (Audit.sudowhatAuditOpen b env version s).trace = Utf8.encode (unlines shown) := by
  have hnone := Audit.auditBlock_none_iff (b := b) halloc s (swAuditColorAllowed s.envp)
  rw [Audit.open_shows hpast] at h ⊢
  obtain ⟨_, hshow, -⟩ := Traced.returns_bind.mp h
  rw [Traced.trace_bind hshow, written_append, Traced.trace_pure, written_nil, List.append_nil]
  unfold showBlock at hshow ⊢
  unfold blockLines
  cases hb : auditBlock b env.alloc s (swAuditColorAllowed s.envp) with
  | none =>
    obtain ⟨ht, hr⟩ := hnone.mp hb
    have hdrawn : ¬ s.Drawn := by
      intro hd
      rcases hd with hd | hd
      · exact hd ht
      · rw [hr] at hd; cases hd
    rw [if_neg hdrawn]
    exact ⟨[], .nil, rfl⟩
  | some block =>
    have hdrawn : s.Drawn := by
      by_contra hd
      obtain ⟨ht, hr⟩ := not_or.mp hd
      rw [hnone.mpr ⟨not_not.mp ht, Bool.eq_false_iff.mpr hr⟩] at hb
      cases hb
    have hasked : s.request env.alloc = s.asked := congrArg s.request (funext halloc)
    obtain ⟨shown, hshown, rfl⟩ := (Audit.auditBlock_displays hb).lines
    rw [if_pos hdrawn, ← hasked]
    refine ⟨shown, hshown, ?_⟩
    rw [hb] at hshow
    exact swAuditWriteTty_written htty hshow

/-! ## What the check wrote before the sheet -/

/-- The run delivers nothing to the terminal. -/
def Silent {α : Type} (x : Act α) : Prop := x.All fun e => e.ttyBytes = []

theorem silent_emit {e : Eff} (h : e.ttyBytes = []) : Silent (Traced.emit e : Act Unit) := (Traced.all_emit e).mpr h

theorem silent_bind {α β : Type} {x : Act α} {f : α → Act β} (hx : Silent x) (hf : ∀ a, Silent (f a)) :
    Silent (x >>= f) :=
  Traced.all_bind.mpr ⟨hx, fun a _ => hf a⟩

theorem silent_setErrstr (env : CheckEnv) (text : Bytes) : Silent (setErrstr env text) :=
  silent_bind (silent_emit rfl) fun _ => silent_emit rfl

theorem silent_evaluatePolicy (env : CheckEnv) (chosen : LAPolicy) (text : NSString) :
    Silent (evaluatePolicy env chosen text) := by
  unfold evaluatePolicy
  refine silent_bind (silent_emit rfl) fun _ => ?_
  split
  · exact silent_bind (silent_emit rfl) fun _ => Traced.all_pure _
  · exact Traced.all_pure _

theorem silent_recheckTarget (env : CheckEnv) (path : Bytes) (pin : FileId) : Silent (recheckTarget env path pin) := by
  unfold recheckTarget
  split
  · exact silent_bind (silent_emit rfl) fun _ => silent_bind (silent_emit rfl) fun _ =>
      silent_bind (silent_setErrstr env _) fun _ => Traced.all_pure _
  · refine silent_bind (silent_emit rfl) fun _ => silent_bind (silent_emit rfl) fun _ => ?_
    split
    · exact Traced.all_pure _
    · exact silent_bind (silent_setErrstr env _) fun _ => Traced.all_pure _

theorem silent_afterDialogs (env : CheckEnv) (path : Bytes) (pin : FileId) (reply : LAReply) :
    Silent (afterDialogs env path pin reply) := by
  unfold afterDialogs
  refine silent_bind (silent_emit rfl) fun _ => ?_
  split
  · exact Traced.all_halt _
  · split
    · exact silent_bind (silent_emit rfl) fun _ => silent_bind (silent_setErrstr env _) fun _ => Traced.all_pure _
    · exact silent_recheckTarget env path pin

/-- From the seteuid on, nothing is written on the terminal. -/
theorem silent_raiseSheet (env : CheckEnv) (uid : Uid) (path : Bytes) (pin : FileId) (text : NSString) :
    Silent (raiseSheet env uid path pin text) := by
  unfold raiseSheet
  split
  · exact silent_bind (silent_emit rfl) fun _ => silent_bind (silent_emit rfl) fun _ =>
      silent_bind (silent_setErrstr env _) fun _ => Traced.all_pure _
  · refine silent_bind (silent_emit rfl) fun _ => ?_
    split
    · exact silent_bind (silent_emit rfl) fun _ => silent_bind (silent_emit rfl) fun _ =>
        silent_bind (silent_setErrstr env _) fun _ => Traced.all_pure _
    · exact silent_bind (silent_evaluatePolicy env _ text) fun _ => silent_afterDialogs env path pin _

/-- Where an effect of the back stands does not matter when nothing there writes. -/
theorem written_before {front back before after : List Eff} {e : Eff} (hfront : e ∉ front)
    (hback : ∀ f ∈ back, f.ttyBytes = []) (h : front ++ back = before ++ e :: after) : written before = written front := by
  rcases List.append_eq_append_iff.mp h with ⟨a, hb, hback'⟩ | ⟨a, hf, hrest⟩
  · have ha : written a = [] := written_silent fun f hf => hback f (hback' ▸ List.mem_append_left _ hf)
    rw [hb, written_append, ha, List.append_nil]
  · cases a with
    | nil => rw [hf, List.append_nil]
    | cons x a =>
      obtain ⟨rfl, -⟩ := List.cons.inj hrest
      exact absurd (hf ▸ List.mem_append_right _ List.mem_cons_self) hfront

theorem check_run {b : Build} {ctx : InvokingCtx} {env : CheckEnv} {commandInfo runArgv : List Bytes} {marker : Bool}
    {uid : Uid} {text : NSString} (hw : SheetWarranted b ctx env commandInfo runArgv marker uid text) :
    ∃ path pin, resolvedCommand commandInfo = some path ∧ sheetText ctx env commandInfo runArgv path = some text ∧
      sudowhatCheck b ctx env commandInfo runArgv marker = (do
        Traced.emit .unsetMarker
        Traced.emit (.openTarget path true)
        Traced.emit (.fstatTarget (some pin))
        emitVerifyCode env (generateVerifyNonce env.random 4) (swColorAllowed ctx)
        emitExecLine b env (some path) runArgv .grouped none (swColorAllowed ctx)
        raiseSheet env uid path pin text) := by
  obtain ⟨hopen, pin, hpin⟩ := hw.pinned
  obtain ⟨path, hpath, htext⟩ := hw.shows
  have hcommand : findKv commandInfo (lit "command") = some path := hpath
  have hconsole : isInvokingUserActiveConsole env.session env.consoleUid uid = true := hw.console
  refine ⟨path, pin, hpath, htext, ?_⟩
  rw [sudowhatCheck_intact hw.bundles]
  simp only [checkCaller, hw.caller, hw.notRoot, if_false, hconsole, Bool.not_true, Bool.false_eq_true, checkConsole, hcommand,
    hw.notDeferred, askConsole, hopen, hpin, htext]

/-- A check that raised a sheet has written its two lines, and nothing else before it. -/
theorem check_written {b : Build} (hb : b.execDisplay = true) {ctx : InvokingCtx} {env : CheckEnv}
    {commandInfo runArgv : List Bytes} {marker : Bool} {before after : List Eff} {policy : LAPolicy} {text : NSString}
    {approved : Bool} (halloc : ∀ site, env.alloc site = true) (htty : ∀ site, (env.tty site).Writable)
    (h : (sudowhatCheck b ctx env commandInfo runArgv marker).trace = before ++ .sheet policy text approved :: after) :
    ∃ path plains shown, resolvedCommand commandInfo = some path ∧ sheetText ctx env commandInfo runArgv path = some text ∧
      (plains = [] ∨ plains = [verifyPlain (generateVerifyNonce env.random 4)]) ∧
      List.Forall₂ LineShows (plains ++ [execPlain path runArgv, []]) shown ∧
      written before = Utf8.encode (unlines shown) := by
  have hmem : Eff.sheet policy text approved ∈ (sudowhatCheck b ctx env commandInfo runArgv marker).trace :=
    h ▸ List.mem_append_right _ List.mem_cons_self
  obtain ⟨uid, hw⟩ := check_sheet hmem
  obtain ⟨path, pin, hpath, htext, hrun⟩ := check_run hw
  have hverify : Eff.sheet policy text approved ∉
      (emitVerifyCode env (generateVerifyNonce env.random 4) (swColorAllowed ctx)).trace :=
    OnlyKinds.not_mem (show OnlyKinds [.display] _ by simp) (by simp)
  have hexec : Eff.sheet policy text approved ∉
      (emitExecLine b env (some path) runArgv .grouped none (swColorAllowed ctx)).trace :=
    OnlyKinds.not_mem (show OnlyKinds [.display] _ by simp) (by simp)
  rw [hrun] at h hmem
  simp only [Traced.emit_bind_trace, List.mem_cons, reduceCtorEq, false_or] at h hmem
  -- both lines were done, or there were no sheet after them
  rcases Traced.mem_trace_bind.mp hmem with hmem | ⟨_, hv, hmem⟩
  · exact absurd hmem hverify
  rcases Traced.mem_trace_bind.mp hmem with hmem | ⟨_, he, hmem⟩
  · exact absurd hmem hexec
  rw [Traced.trace_bind hv, Traced.trace_bind he] at h
  obtain ⟨plains, shown, hplains, hshown, hwv⟩ := emitVerifyCode_written (clean_nonce env.random 4) (htty .verifyCode) hv
  obtain ⟨shown', hshown', hwe⟩ := emitExecLine_written hb halloc (htty .execLine) he
  refine ⟨path, plains, shown ++ shown', hpath, htext, hplains, List.rel_append hshown hshown', ?_⟩
  have hsplit : [.unsetMarker, .openTarget path true, .fstatTarget (some pin)]
      ++ (emitVerifyCode env (generateVerifyNonce env.random 4) (swColorAllowed ctx)).trace
      ++ (emitExecLine b env (some path) runArgv .grouped none (swColorAllowed ctx)).trace
      ++ (raiseSheet env uid path pin text).trace = before ++ .sheet policy text approved :: after := by
    simpa [List.append_assoc] using h
  have hfront := written_before (by simp [hverify, hexec]) (silent_raiseSheet env uid path pin text) hsplit
  rw [hfront, written_append, written_append, hwv, hwe]
  simp [written, Eff.ttyBytes, unlines]

/-! ## A run that comes to a sheet -/

/-- One sudo run with the default knobs: the audit plugin's `open()`, the approval plugin's
    `open()` and `check()` on the same `settings` and `user_info`, and the sheet that
    `check()` raised after `before`. -/
structure SheetRun where
  version : UInt32
  s : Submission
  audit : AuditEnv
  ttys : TtyNames
  ctx : InvokingCtx
  env : CheckEnv
  commandInfo : List Bytes
  runArgv : List Bytes
  marker : Bool
  policy : LAPolicy
  text : NSString
  approved : Bool
  before : List Eff
  after : List Eff
  auditLoaded : Audit.PastChecks AuditBuild.stock audit version s
  auditMemory : ∀ site, audit.alloc site = true
  auditTty : audit.tty.Writable
  auditOpened : (Audit.sudowhatAuditOpen AuditBuild.stock audit version s).Returns true
  opened : sudowhatOpen version ttys s.userInfo s.envp = .ok ctx
  memory : ∀ site, env.alloc site = true
  tty : ∀ site, (env.tty site).Writable
  raised : (sudowhatCheck Build.stock ctx env commandInfo runArgv marker).trace =
    before ++ .sheet policy text approved :: after

namespace SheetRun

variable (r : SheetRun)

/-- The bytes the terminal was given when the sheet came up. -/
def terminal : Bytes :=
  written (Audit.sudowhatAuditOpen AuditBuild.stock r.audit r.version r.s).trace ++ written r.before

/-- What `check()` handed the formatter. -/
def sheet : SheetInput where
  path := resolvedCommand r.commandInfo
  user := some (swRunasName r.env r.commandInfo)
  cwd := checkCwd r.ctx r.commandInfo
  verifyCode := some (generateVerifyNonce r.env.random 4)
  argv := r.runArgv
  style := swSheetStyleFor r.env.osMajor

/-- Every item the sheet replaced stands on the terminal, whole, as the value of a row. -/
def Truthful : Prop := ∀ ov, r.sheet.format r.env.alloc = some (r.text, ov) →
  (ov.user = true → OnTerminal gutterGap r.terminal (escapeBytes (effectiveUser r.sheet.user))) ∧
    (ov.path = true → ∀ dir ∈ effectiveCwd r.sheet.cwd, OnTerminal gutterGap r.terminal (escapeBytes dir)) ∧
    (ov.command = true → ∀ path ∈ r.sheet.path, OnTerminal gutterGap r.terminal (fullCommandLineBytes path r.runArgv))

/-- The arrays the audit plugin read name the value, or the resolved line spells it. -/
def Named (raw : Bytes) : Prop :=
  (r.s.Drawn ∧ r.s.asked.Names raw) ∨
    ∃ path ∈ resolvedCommand r.commandInfo, escapeBytes raw = fullCommandLineBytes path r.runArgv

/-- A user or a directory too long for the sheet is one of those. -/
def Backed : Prop :=
  (maxUserDisplay < (utf16 (escapeBytes (effectiveUser r.sheet.user))).length → r.Named (effectiveUser r.sheet.user)) ∧
    ∀ dir ∈ effectiveCwd r.sheet.cwd, maxCwdDisplay < (utf16 (escapeBytes dir)).length → r.Named dir

theorem frames_width : ∀ frame ∈ rowFrames gutterGap, frame.length = 22 := by decide

theorem frame_mem (kind : RowKind) : (labelFrame gutterGap kind).flatMap Sgr.Span.text ∈ rowFrames gutterGap := by
  cases kind <;> decide

theorem showsValue_body (row : Row) (value : Text) :
    ShowsValue gutterGap (row.body gutterGap) value ↔ row.value = value :=
  showsValue_iff frames_width (frame_mem row.kind)

theorem showsValue_exec (path : Bytes) (runArgv : List Bytes) (value : Text) :
    ShowsValue gutterGap (execPlain path runArgv) value ↔ fullCommandLineBytes path runArgv = value :=
  showsValue_iff frames_width (by decide)

theorem not_showsValue_verify (code value : Text) : ¬ ShowsValue gutterGap (verifyPlain code) value :=
  not_showsValue frames_width (by decide) (by decide)

/-- What the terminal shows: the rows of the request, and the resolved line. -/
theorem onTerminal (value : Text) : OnTerminal gutterGap r.terminal value ↔
    (r.s.Drawn ∧ ∃ row ∈ r.s.asked.rows, row.value = value) ∨
      ∃ path ∈ resolvedCommand r.commandInfo, value = fullCommandLineBytes path r.runArgv := by
  obtain ⟨shown, hshown, hw⟩ := auditOpen_written r.auditLoaded r.auditMemory r.auditTty r.auditOpened
  obtain ⟨path, plains, shown', hpath, -, hplains, hshown', hw'⟩ := check_written rfl r.memory r.tty r.raised
  have hbytes : r.terminal = Utf8.encode (unlines (shown ++ shown')) := by
    rw [terminal, hw, hw']
    simp [unlines]
  rw [hbytes, onTerminal_iff frames_width (by decide) (List.rel_append hshown hshown')]
  have hverify : ∀ plain ∈ plains, ¬ ShowsValue gutterGap plain value := by
    intro plain hp
    rcases hplains with rfl | rfl
    · exact absurd hp List.not_mem_nil
    · rw [List.mem_singleton.mp hp]
      exact not_showsValue_verify _ value
  constructor
  · intro h
    obtain ⟨plain, hm, hs⟩ := h
    rcases List.mem_append.mp hm with hm | hm
    · left
      unfold blockLines at hm
      split at hm
      · rename_i hdrawn
        obtain ⟨row, hrow, rfl⟩ := List.mem_map.mp hm
        exact ⟨hdrawn, row, hrow, (showsValue_body row value).mp hs⟩
      · exact absurd hm List.not_mem_nil
    · right
      rcases List.mem_append.mp hm with hm | hm
      · exact absurd hs (hverify plain hm)
      · rcases List.mem_cons.mp hm with rfl | hm
        · exact ⟨path, hpath, ((showsValue_exec path r.runArgv value).mp hs).symm⟩
        · rw [List.mem_singleton.mp hm] at hs
          exact absurd hs (not_showsValue_nil frames_width (by decide))
  · intro h
    rcases h with ⟨hdrawn, row, hrow, hv⟩ | ⟨path', hpath', hv⟩
    · refine ⟨row.body gutterGap, List.mem_append_left _ ?_, (showsValue_body row value).mpr hv⟩
      rw [blockLines, if_pos hdrawn]
      exact List.mem_map_of_mem hrow
    · obtain rfl := Option.some.inj (hpath.symm.trans hpath')
      refine ⟨execPlain path r.runArgv, List.mem_append_right _ (List.mem_append_right _ List.mem_cons_self), ?_⟩
      exact (showsValue_exec path r.runArgv value).mpr hv.symm

theorem onTerminal_escaped (raw : Bytes) : OnTerminal gutterGap r.terminal (escapeBytes raw) ↔ r.Named raw := by
  rw [r.onTerminal, ← Request.names_iff]
  exact Iff.rfl

theorem formatted : ∃ path verify ov, resolvedCommand r.commandInfo = some path ∧
    r.sheet.format r.env.alloc = some (r.text, ov) ∧ Overflows r.sheet path verify ov := by
  obtain ⟨path, -, -, hpath, htext, -, -, -⟩ := check_written rfl r.memory r.tty r.raised
  obtain ⟨⟨text, ov⟩, hformat, htext'⟩ := Option.map_eq_some_iff.mp htext
  have hsheet : r.sheet.format r.env.alloc = some (r.text, ov) := by
    rw [← htext']
    unfold SheetInput.format sheet
    rw [hpath]
    exact hformat
  obtain ⟨path', verify, hp, -, -, ho⟩ := format_spec hsheet
  obtain rfl := Option.some.inj (hpath.symm.trans hp)
  exact ⟨path, verify, ov, hpath, hsheet, ho⟩

theorem replaced_iff {path : Bytes} {verify : NSString} {ov : PromptOverflow} (ho : Overflows r.sheet path verify ov) :
    (ov.user = true ↔ maxUserDisplay < (utf16 (escapeBytes (effectiveUser r.sheet.user))).length) ∧
      ∀ dir ∈ effectiveCwd r.sheet.cwd, (ov.path = true ↔ maxCwdDisplay < (utf16 (escapeBytes dir)).length) := by
  constructor
  · rw [ho.userFlag]
    exact decide_eq_true_iff
  · intro dir hd
    rw [ho.cwdFlag, Option.mem_def.mp hd]
    exact decide_eq_true_iff

theorem backed_of_truthful (h : r.Truthful) : r.Backed := by
  obtain ⟨path, verify, ov, -, hformat, ho⟩ := r.formatted
  obtain ⟨huser, hdir⟩ := r.replaced_iff ho
  obtain ⟨hu, hp, -⟩ := h ov hformat
  refine ⟨fun hlong => (r.onTerminal_escaped _).mp (hu (huser.mpr hlong)), fun dir hd hlong => ?_⟩
  exact (r.onTerminal_escaped dir).mp (hp ((hdir dir hd).mpr hlong) dir hd)

theorem truthful_of_backed (h : r.Backed) : r.Truthful := by
  obtain ⟨hu, hd⟩ := h
  obtain ⟨path, verify, ov, -, hformat, ho⟩ := r.formatted
  obtain ⟨huser, hdir⟩ := r.replaced_iff ho
  intro ov' hformat'
  obtain rfl : ov = ov' := (Prod.mk.inj (Option.some.inj (hformat.symm.trans hformat'))).2
  refine ⟨fun hover => (r.onTerminal_escaped _).mpr (hu (huser.mp hover)), fun hover dir hm => ?_, fun _ path hpath => ?_⟩
  · exact (r.onTerminal_escaped dir).mpr (hd dir hm ((hdir dir hm).mp hover))
  -- the resolved line is always there
  · exact (r.onTerminal _).mpr (.inr ⟨path, hpath, rfl⟩)

end SheetRun

/-- The referral is truthful exactly when a user or a directory too long for the sheet is
    one that the audit plugin's arrays name, or the resolved line spells. -/
theorem referral_truthful_iff (r : SheetRun) : r.Truthful ↔ r.Backed := ⟨r.backed_of_truthful, r.truthful_of_backed⟩

/-! ## As built -/

/-- A terminal that takes 4096 bytes a write. -/
def broadTty : Tty := ⟨true, true, fun _ => .wrote 4096⟩

def soundAudit : AuditEnv where
  approvalSignature := .ok ()
  pamSignature := .ok ()
  alloc := fun _ => true
  tty := broadTty
  fuel := 4096

/-- The console user's check, every answer the expected one. -/
def soundCheck : CheckEnv where
  pamSignature := .ok ()
  auditExists := true
  auditSignature := .ok ()
  session := ⟨true, true, false⟩
  consoleUid := 501
  sudoLocal := none
  rootName := some (lit "root")
  pluginPrintf := true
  stderrIsTerminal := true
  tty := fun _ => broadTty
  conversation := none
  alloc := fun _ => true
  openTarget := .ok ()
  fstatTarget := .ok ⟨1, 2⟩
  statTarget := .ok ⟨1, 2⟩
  random := fun _ => 0
  osMajor := 15
  seteuidDrop := .ok ()
  seteuidBack := true
  canCompanion := false
  canBiometricsOrCompanion := false
  canDeviceOwner := .ok ()
  reply := ⟨true, none⟩
  passwordReply := ⟨true, none⟩
  fuel := 4096

theorem broadTty_writable : broadTty.Writable := ⟨rfl, rfl, fun _ => ⟨4095, rfl⟩⟩

/-- `id`, typed in `/x` by uid 501. -/
def typedId : Submission where
  settings := none
  userInfo := some [lit "uid=501", lit "cwd=/x"]
  optind := 1
  argv := some [lit "sudo", lit "id"]
  envp := none

def typedIdCtx : InvokingCtx := { uid := some 501, tty := none, cwd := some (lit "/x"), term := none, noColor := false }

/-- A directory of 501 bytes, as sudoers' `runcwd` may set. -/
def setDir : Bytes := 0x2F :: List.replicate 500 0x61

/-- What sudo resolved it to: that directory among the rest. -/
def resolvedId : List Bytes := [lit "command=/usr/bin/id", lit "runas_user=root", lit "cwd=" ++ setDir]

theorem formats {env : CheckEnv} (halloc : ∀ site, env.alloc site = true) (ctx : InvokingCtx)
    (commandInfo runArgv : List Bytes) (path : Bytes) : ∃ text, sheetText ctx env commandInfo runArgv path = some text := by
  have hverify : ∀ code, ∃ v, verifyLine env.alloc code = some v := by
    intro code
    unfold verifyLine pfEscape
    rw [halloc]
    rcases code with _ | _ | ⟨c, cs⟩ <;> exact ⟨_, rfl⟩
  have hcwd : ∀ cwd, ∃ v, cwdValue env.alloc cwd = some v := by
    intro cwd
    unfold cwdValue pfEscape
    rw [halloc]
    rcases cwd with _ | _ | ⟨c, cs⟩ <;> exact ⟨_, rfl⟩
  have huser : ∀ user, ∃ v, userValue env.alloc user = some v := by
    intro user
    unfold userValue pfEscape
    rw [halloc]
    rcases user with _ | _ | ⟨c, cs⟩ <;> exact ⟨_, rfl⟩
  obtain ⟨v, hv⟩ := hverify (some (generateVerifyNonce env.random 4))
  obtain ⟨d, hd⟩ := hcwd (checkCwd ctx commandInfo)
  obtain ⟨u, hu⟩ := huser (some (swRunasName env commandInfo))
  unfold sheetText formatWithCommandPath pfCommandLine
  rw [hv, hd, hu, halloc]
  exact ⟨_, rfl⟩

theorem typedId_approved :
    SheetApproved (sudowhatCheck Build.stock typedIdCtx soundCheck resolvedId [lit "id"] true) := by
  have hcommand : resolvedCommand resolvedId = some (lit "/usr/bin/id") := by decide
  have hgranted : SheetGranted Build.stock typedIdCtx soundCheck resolvedId [lit "id"] :=
    { bundles := ⟨rfl, .inr rfl⟩
      pinned := ⟨rfl, _, rfl⟩
      shows := ⟨_, hcommand, formats (fun _ => rfl) _ _ _ _, rfl, rfl⟩
      dropped := rfl
      replies := ⟨.deviceOwner, rfl, .inl rfl⟩ }
  exact approved_of_granted rfl (by decide) rfl rfl hgranted

/-- `sudo id` where sudoers sets a long directory: the sheet's DIRECTORY is
    `(see terminal)`, and the terminal's is the caller's own. -/
theorem referral_to_nowhere : ¬ ∀ r : SheetRun, r.Truthful := by
  intro h
  obtain ⟨policy, text, hmem⟩ := typedId_approved
  obtain ⟨before, after, hraised⟩ := List.append_of_mem hmem
  let r : SheetRun :=
    { version := 0x10012, s := typedId, audit := soundAudit, ttys := ⟨none, none, none⟩, ctx := typedIdCtx, env := soundCheck
      commandInfo := resolvedId, runArgv := [lit "id"], marker := true, policy, text, approved := true, before, after
      auditLoaded := ⟨rfl, rfl, ⟨lit "501", rfl, by decide⟩, rfl, rfl⟩
      auditMemory := fun _ => rfl
      auditTty := broadTty_writable
      auditOpened := rfl
      opened := rfl
      memory := fun _ => rfl
      tty := fun _ => broadTty_writable
      raised := hraised }
  have hlong : maxCwdDisplay < (utf16 (escapeBytes setDir)).length := by
    have hunits := bytes_le_shown setDir
    have hlen : setDir.length = 501 := by rw [setDir, List.length_cons, List.length_replicate]
    unfold maxCwdDisplay
    omega
  -- what the terminal shows is short
  have hne : ∀ {t : Text}, (utf16 t).length ≤ maxCwdDisplay → escapeBytes setDir ≠ t := by
    rintro t ht rfl
    exact absurd hlong (Nat.not_lt.mpr ht)
  have hshort : ∀ {b : Bytes}, b.length ≤ 500 → setDir ≠ b := by
    rintro b hb rfl
    rw [setDir, List.length_cons, List.length_replicate] at hb
    omega
  have hnamed := (r.backed_of_truthful (h r)).2 setDir rfl hlong
  rcases hnamed with ⟨-, huser | hdir | hpath | ⟨word, rest, htyped, hline⟩⟩ | ⟨path, hpath, hline⟩
  · exact hshort (show (lit "root").length ≤ 500 by decide) huser
  · exact hshort (show (lit "/x").length ≤ 500 by decide) (Option.some.inj hdir).symm
  · exact absurd hpath (show (none : Option Bytes) ≠ some setDir by simp)
  · obtain ⟨rfl, rfl⟩ := List.cons.inj (htyped.symm.trans (show r.s.asked.typed = [lit "id"] from rfl))
    exact hne (show (utf16 (fullCommandLineBytes (lit "id") [lit "id"])).length ≤ maxCwdDisplay by decide) hline
  · obtain rfl := Option.some.inj (hpath.symm.trans (show resolvedCommand resolvedId = some (lit "/usr/bin/id") by decide))
    exact hne (show (utf16 (fullCommandLineBytes (lit "/usr/bin/id") [lit "id"])).length ≤ maxCwdDisplay by decide) hline

end SudoWhat
