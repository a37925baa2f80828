/-
  SudoWhat.Plugin.Ceremony — what the confirm ceremony runs on (`sw_confirm_answer`,
  `sw_ask_run_confirm`, `sw_confirm_run`).

  A reply says a word when it is that word, each letter in either case, between blanks. An
  outcome of the conversation asks again, runs or declines; the question's answer is that of
  the first outcome that does not ask again.

  Proved: what each reply is taken for (`outcome_yes`, `outcome_unknown`); the question
  returns the first answer (`swAskRunConfirm_returns`); the conversation is used only under a
  line that reached the terminal whole (`asked_below_line`); and a ceremony that returns
  returned 1 exactly on a yes to a shown, pinned and unchanged command, and set errstr
  otherwise (`confirm_runs_on_yes`).
-/

import SudoWhat.Plugin.Confirm
import SudoWhat.Plugin.Terminal

namespace SudoWhat.Plugin

open SudoWhat.Lib

/-! ## What a reply says -/

/-- The reply is the word in any case, between blanks. -/
def Says (word : String) (reply : Bytes) : Prop :=
  ∃ before said after, reply = before ++ said ++ after ∧ (∀ c ∈ before, isAnswerBlank c = true) ∧
    (∀ c ∈ after, isAnswerBlank c = true) ∧ List.Forall₂ (fun letter c => isLetter letter c = true) (lit word) said

/-- Neither case of a letter is a blank. -/
theorem says_iff {word : String} {reply : Bytes}
    (hw : ∀ letter ∈ lit word, isAnswerBlank letter = false ∧ isAnswerBlank (letter - 0x20) = false) :
    Says word reply ↔
      List.Forall₂ (fun letter c => isLetter letter c = true) (lit word) (Fields.trim isAnswerBlank reply) := by
  constructor
  · rintro ⟨before, said, after, rfl, hb, ha, hs⟩
    have hsaid : ∀ c ∈ said, isAnswerBlank c = false := by
      intro c hc
      obtain ⟨i, hi, rfl⟩ := List.mem_iff_getElem.mp hc
      have hil : i < (lit word).length := by rw [hs.length_eq]; exact hi
      have hl : (lit word)[i] ∈ lit word := List.getElem_mem hil
      have hc := hs.get hil hi
      simp only [List.get_eq_getElem] at hc
      generalize (lit word)[i] = letter at hl hc
      generalize said[i] = c at hc
      simp only [isLetter, Bool.or_eq_true, beq_iff_eq] at hc
      rcases hc with rfl | rfl
      · exact (hw _ hl).1
      · exact (hw _ hl).2
    rw [Fields.trim_between hb hsaid ha]
    exact hs
  · intro hs
    obtain ⟨before, after, he, hb, ha⟩ := @Fields.trim_split _ isAnswerBlank reply
    exact ⟨before, _, after, he, hb, ha, hs⟩

theorem says_words {reply : Bytes} (word : String) (hw : word ∈ ["", "y", "n", "no", "yes"]) : Says word reply ↔
    List.Forall₂ (fun letter c => isLetter letter c = true) (lit word) (Fields.trim isAnswerBlank reply) := by
  have hletters : (["", "y", "n", "no", "yes"].all fun word =>
      (lit word).all fun letter => !isAnswerBlank letter && !isAnswerBlank (letter - 0x20)) = true := by decide
  refine says_iff fun letter hl => ?_
  simpa using List.all_eq_true.mp (List.all_eq_true.mp hletters word hw) letter hl

theorem swConfirmAnswer_yes {reply : Bytes} : swConfirmAnswer (some reply) = .yes ↔ Says "y" reply ∨ Says "yes" reply := by
  have hy : lit "y" = [0x79] := by decide
  have hyes : lit "yes" = [0x79, 0x65, 0x73] := by decide
  rw [says_words "y" (by decide), says_words "yes" (by decide), hy, hyes, swConfirmAnswer]
  rcases Fields.trim isAnswerBlank reply with _ | ⟨a, _ | ⟨b, _ | ⟨c, _ | ⟨d, rest⟩⟩⟩⟩
  · simp
  · cases ha : isLetter 0x79 a <;> cases hn : isLetter 0x6E a <;> simp [ha, hn]
  · cases ha : isLetter 0x6E a <;> cases hb : isLetter 0x6F b <;> simp [ha, hb]
  · cases ha : isLetter 0x79 a <;> cases hb : isLetter 0x65 b <;> cases hc : isLetter 0x73 c <;> simp [ha, hb, hc]
  · simp

theorem swConfirmAnswer_no {reply : Bytes} :
    swConfirmAnswer (some reply) = .no ↔ Says "" reply ∨ Says "n" reply ∨ Says "no" reply := by
  have hempty : lit "" = [] := by decide
  have hn : lit "n" = [0x6E] := by decide
  have hno : lit "no" = [0x6E, 0x6F] := by decide
  rw [says_words "" (by decide), says_words "n" (by decide), says_words "no" (by decide), hempty, hn, hno, swConfirmAnswer]
  rcases Fields.trim isAnswerBlank reply with _ | ⟨a, _ | ⟨b, _ | ⟨c, _ | ⟨d, rest⟩⟩⟩⟩
  · simp
  · -- no byte is a letter of both
    have hboth : isLetter 0x79 a = true → isLetter 0x6E a = false := by
      simp only [isLetter, Bool.or_eq_true, beq_iff_eq]
      rintro (rfl | rfl) <;> decide
    cases ha : isLetter 0x79 a with
    | true => simp [ha, hboth ha]
    | false => cases hn : isLetter 0x6E a <;> simp [ha, hn]
  · cases ha : isLetter 0x6E a <;> cases hb : isLetter 0x6F b <;> simp [ha, hb]
  · cases ha : isLetter 0x79 a <;> cases hb : isLetter 0x65 b <;> cases hc : isLetter 0x73 c <;> simp [ha, hb, hc]
  · simp

/-! ## Outcomes -/

/-- What one outcome of the conversation comes to. -/
def outcome (r : ConvReply) : Answer := if r.ok then swConfirmAnswer r.reply else .no

/-- A success whose reply says `y` or `yes`. -/
def ConvReply.Runs (r : ConvReply) : Prop := r.ok = true ∧ ∃ reply, r.reply = some reply ∧ (Says "y" reply ∨ Says "yes" reply)

/-- A success with a reply that says none of the words. -/
def ConvReply.AsksAgain (r : ConvReply) : Prop :=
  r.ok = true ∧ ∃ reply, r.reply = some reply ∧ ∀ word ∈ ["", "n", "no", "y", "yes"], ¬ Says word reply

theorem outcome_yes {r : ConvReply} : outcome r = .yes ↔ r.Runs := by
  obtain ⟨ok, reply⟩ := r
  unfold outcome ConvReply.Runs
  cases ok with
  | false => simp
  | true =>
    cases reply with
    | none => simp [swConfirmAnswer]
    | some reply => simp [swConfirmAnswer_yes]

theorem outcome_unknown {r : ConvReply} : outcome r = .unknown ↔ r.AsksAgain := by
  obtain ⟨ok, reply⟩ := r
  unfold outcome ConvReply.AsksAgain
  cases ok with
  | false => simp
  | true =>
    cases reply with
    | none => simp [swConfirmAnswer]
    | some reply =>
      have hcases : swConfirmAnswer (some reply) = .unknown ↔
          ¬ swConfirmAnswer (some reply) = .no ∧ ¬ swConfirmAnswer (some reply) = .yes := by
        cases swConfirmAnswer (some reply) <;> decide
      rw [if_pos rfl, hcases, swConfirmAnswer_yes, swConfirmAnswer_no]
      constructor
      · intro ⟨hno, hyes⟩
        refine ⟨rfl, reply, rfl, fun word hw h => ?_⟩
        simp only [List.mem_cons, List.not_mem_nil, or_false] at hw
        rcases hw with rfl | rfl | rfl | rfl | rfl
        · exact hno (.inl h)
        · exact hno (.inr (.inl h))
        · exact hno (.inr (.inr h))
        · exact hyes (.inl h)
        · exact hyes (.inr h)
      · rintro ⟨_, reply, ⟨⟩, h⟩
        refine ⟨?_, ?_⟩
        · rintro (hs | hs | hs)
          · exact h "" (by decide) hs
          · exact h "n" (by decide) hs
          · exact h "no" (by decide) hs
        · rintro (hs | hs)
          · exact h "y" (by decide) hs
          · exact h "yes" (by decide) hs

/-- The first outcome that does not ask again runs the command. -/
def FirstAnswerRuns (conversation : Nat → ConvReply) : Prop :=
  ∃ n, (∀ j < n, (conversation j).AsksAgain) ∧ (conversation n).Runs

theorem askLoop_succ (conversation : Nat → ConvReply) (again : Text) (fuel k : Nat) (prompt : Text) (v : Bool) :
    (askLoop conversation again (fuel + 1) k prompt).Returns v ↔
      (outcome (conversation k) ≠ .unknown ∧ v = (outcome (conversation k) == .yes)) ∨
        (outcome (conversation k) = .unknown ∧ (askLoop conversation again fuel (k + 1) again).Returns v) := by
  rw [askLoop, Traced.returns_bind]
  change (∃ u, (Traced.emit (.converse prompt) : Act Unit).Returns u ∧ _) ↔ _
  cases ho : outcome (conversation k) <;> unfold outcome at ho <;> rw [ho] <;> cases v <;> simp

/-- The loop returns the first answer, from the `k`-th question on. -/
theorem askLoop_returns (conversation : Nat → ConvReply) (again : Text) (v : Bool) :
    ∀ fuel k prompt, (askLoop conversation again fuel k prompt).Returns v ↔
      ∃ n < fuel, (∀ j < n, outcome (conversation (k + j)) = .unknown) ∧ outcome (conversation (k + n)) ≠ .unknown ∧
        v = (outcome (conversation (k + n)) == .yes) := by
  intro fuel
  induction fuel with
  | zero => intro k prompt; simp [askLoop]
  | succ fuel ih =>
    intro k prompt
    rw [askLoop_succ, ih]
    constructor
    · rintro (⟨hk, hv⟩ | ⟨hk, n, hn, hbefore, hanswer, hv⟩)
      · exact ⟨0, by omega, fun j hj => by omega, hk, hv⟩
      · have hshift : k + 1 + n = k + (n + 1) := by omega
        rw [hshift] at hanswer hv
        refine ⟨n + 1, by omega, fun j hj => ?_, hanswer, hv⟩
        cases j with
        | zero => exact hk
        | succ j =>
          have := hbefore j (by omega)
          rwa [show k + 1 + j = k + (j + 1) by omega] at this
    · intro ⟨n, hn, hbefore, hanswer, hv⟩
      cases n with
      | zero => exact .inl ⟨hanswer, hv⟩
      | succ n =>
        refine .inr ⟨hbefore 0 (by omega), n, by omega, fun j hj => ?_, ?_, ?_⟩
        · rw [show k + 1 + j = k + (j + 1) by omega]
          exact hbefore (j + 1) (by omega)
        · rwa [show k + 1 + n = k + (n + 1) by omega]
        · rwa [show k + 1 + n = k + (n + 1) by omega]

/-- The first answer is the question's, whatever waits behind it. -/
theorem firstAnswerRuns_iff {conversation : Nat → ConvReply} {n : Nat}
    (hbefore : ∀ j < n, outcome (conversation j) = .unknown) (hanswer : outcome (conversation n) ≠ .unknown) :
    FirstAnswerRuns conversation ↔ outcome (conversation n) = .yes := by
  constructor
  · intro ⟨m, hm, hruns⟩
    rcases Nat.lt_trichotomy m n with h | rfl | h
    · have hyes := outcome_yes.mpr hruns
      rw [hbefore m h] at hyes
      cases hyes
    · exact outcome_yes.mpr hruns
    · exact absurd (outcome_unknown.mpr (hm n h)) hanswer
  · intro h
    exact ⟨n, fun j hj => outcome_unknown.mp (hbefore j hj), outcome_yes.mp h⟩

/-- The question returns YES exactly on a first answer that runs the command. -/
theorem swAskRunConfirm_returns {env : CheckEnv} {ctx : InvokingCtx} {blankFirst v : Bool}
    (h : (swAskRunConfirm env ctx blankFirst).Returns v) :
    v = true ↔ ∃ conversation, env.conversation = some conversation ∧ FirstAnswerRuns conversation := by
  unfold swAskRunConfirm at h
  cases hc : env.conversation with
  | none =>
    rw [hc] at h
    obtain rfl : false = v := Traced.returns_pure.mp h
    simp
  | some conversation =>
    rw [hc] at h
    obtain ⟨n, -, hbefore, hanswer, rfl⟩ := (askLoop_returns conversation _ v env.fuel 0 _).mp h
    simp only [Nat.zero_add] at hbefore hanswer ⊢
    simp [firstAnswerRuns_iff hbefore hanswer]

theorem swAskRunConfirm_answered {env : CheckEnv} {ctx : InvokingCtx} {blankFirst : Bool} {conversation : Nat → ConvReply}
    {n : Nat} (hc : env.conversation = some conversation) (hbefore : ∀ j < n, outcome (conversation j) = .unknown)
    (hanswer : outcome (conversation n) ≠ .unknown) (hfuel : n < env.fuel) :
    (swAskRunConfirm env ctx blankFirst).Returns (outcome (conversation n) == .yes) := by
  unfold swAskRunConfirm
  rw [hc]
  refine (askLoop_returns conversation _ _ env.fuel 0 _).mpr ⟨n, hfuel, ?_, ?_, ?_⟩
  · simpa using hbefore
  · simpa using hanswer
  · simp

/-! ## The line above the question -/

section Run

variable (b : Build) (env : CheckEnv) (ctx : InvokingCtx) (path : Bytes) (runArgv : List Bytes) (layout : ExecLayout)
  (runas : Option Bytes)

/-- The execute line, as this terminal is to be given it. -/
def confirmLine : Option Text :=
  let frameColor := swColorAllowed ctx && (env.tty .execLine).isTerminal
  swFormatExecLine env path runArgv layout runas frameColor (frameColor && b.echoColor)

/-- The terminal was given the whole line, and nothing else. -/
def Delivered (es : List Eff) : Prop :=
  ∃ line, confirmLine b env ctx path runArgv layout runas = some line ∧ written es = Utf8.encode line

variable {b env ctx path runArgv layout runas}

theorem confirmLine_ne_nil {line : Text} (h : confirmLine b env ctx path runArgv layout runas = some line) :
    Utf8.encode line ≠ [] := by
  obtain ⟨value, -, rfl⟩ := swFormatExecLine_eq h
  intro he
  have hnil := Utf8.encode_injective (he.trans Utf8.encode_nil.symm)
  simp at hnil

theorem writeExecLineToTty_delivers {v : Bool}
    (h : (writeExecLineToTty b env path runArgv layout runas (swColorAllowed ctx)).Returns v) :
    v = true ↔ Delivered b env ctx path runArgv layout runas
      (writeExecLineToTty b env path runArgv layout runas (swColorAllowed ctx)).trace := by
  have hunwritten : ¬ Delivered b env ctx path runArgv layout runas [] := by
    intro h
    obtain ⟨line, hl, hw⟩ := h
    exact confirmLine_ne_nil hl hw.symm
  unfold writeExecLineToTty at h ⊢
  dsimp only at h ⊢
  split at h
  · next ho =>
    rw [if_pos ho]
    obtain rfl : false = v := Traced.returns_pure.mp h
    simpa using hunwritten
  · next ho =>
    rw [if_neg ho]
    cases hl : confirmLine b env ctx path runArgv layout runas with
    | none =>
      unfold confirmLine at hl
      dsimp only at hl
      simp only [hl, Traced.returns_pure] at h ⊢
      simpa [← h] using hunwritten
    | some line =>
      have hline := hl
      unfold confirmLine at hline
      dsimp only at hline
      simp only [hline] at h ⊢
      obtain ⟨left, hleft, hv⟩ := writeLoop_delivers (env.tty .execLine).write env.fuel 0 (Utf8.encode line)
      rw [hv v h]
      constructor
      · rintro rfl
        exact ⟨line, hl, (List.append_nil _).symm.trans hleft⟩
      · intro h
        obtain ⟨line', hl', hw⟩ := h
        cases hl.symm.trans hl'
        rw [hw] at hleft
        exact List.append_right_eq_self.mp hleft

/-! ## The ceremony -/

/-- Nothing of it goes to the terminal. -/
def OffTty {α : Type} (x : Act α) : Prop := x.All fun e => e.ttyBytes = []

theorem offTty_of_kinds {α : Type} {ks : List EffKind} {x : Act α} (hks : .display ∉ ks) (h : OnlyKinds ks x) : OffTty x := by
  intro e he
  have hk : e.kind ≠ .display := fun hd => hks (hd ▸ h e he)
  cases e with
  | ttyWrite bytes => exact absurd rfl hk
  | _ => rfl

theorem confirmAnswered_offTty (pin : FileId) (yes : Bool) : OffTty (confirmAnswered env ctx path pin yes) := by
  unfold confirmAnswered OffTty
  cases yes with
  | false => simp [setDecline, Eff.ttyBytes]
  | true =>
    cases env.statTarget with
    | error saved => simp [setErrstrPath, setErrstr, Eff.ttyBytes]
    | ok postSt => by_cases e : postSt = pin <;> simp [e, setErrstr, Eff.ttyBytes]

theorem confirmAnswered_returns {pin : FileId} {yes : Bool} {r : Ret} (h : (confirmAnswered env ctx path pin yes).Returns r) :
    (r = .allow ↔ yes = true ∧ env.statTarget = .ok pin) ∧
      (r ≠ .allow → ∃ text, Eff.errstr text ∈ (confirmAnswered env ctx path pin yes).trace) := by
  refine ⟨⟨fun e => confirmAnswered_allow (e ▸ h), fun ⟨hyes, hst⟩ => ?_⟩, fun hr => ?_⟩
  · refine h.unique ?_
    simp [confirmAnswered, hyes, hst]
  · unfold confirmAnswered at h ⊢
    cases yes with
    | false => simp [setDecline]
    | true =>
      cases hs : env.statTarget with
      | error saved => simp [setErrstrPath, setErrstr]
      | ok postSt =>
        by_cases e : postSt = pin
        · simp only [hs, e, Bool.not_true, Bool.false_eq_true, if_false, if_true, Traced.returns_bind, Traced.returns_pure] at h
          obtain ⟨_, -, _, -, rfl⟩ := h
          exact absurd rfl hr
        · simp [e, setErrstr]

theorem swConfirmRun_pinned {pin : FileId} (ho : env.openTarget = .ok ()) (hf : env.fstatTarget = .ok pin) :
    swConfirmRun b env ctx path runArgv layout runas = (do
      Traced.emit (.openTarget path true)
      Traced.emit (.fstatTarget (some pin))
      let shown ← writeExecLineToTty b env path runArgv layout runas (swColorAllowed ctx)
      if !shown then
        Traced.emit .closeTarget
        setErrstr env (lit "sudowhat: cannot show the command on the terminal; command not run")
        return .deny
      else
        let yes ← swAskRunConfirm env ctx (layout == .solo)
        confirmAnswered env ctx path pin yes) := by
  unfold swConfirmRun
  rw [ho, hf]

theorem swConfirmRun_trace {pin : FileId} (ho : env.openTarget = .ok ()) (hf : env.fstatTarget = .ok pin)
    (hs : (writeExecLineToTty b env path runArgv layout runas (swColorAllowed ctx)).Returns true) :
    (swConfirmRun b env ctx path runArgv layout runas).trace =
      ([.openTarget path true, .fstatTarget (some pin)]
        ++ (writeExecLineToTty b env path runArgv layout runas (swColorAllowed ctx)).trace)
        ++ (swAskRunConfirm env ctx (layout == .solo) >>= confirmAnswered env ctx path pin).trace := by
  rw [swConfirmRun_pinned ho hf, Traced.emit_bind_trace, Traced.emit_bind_trace, Traced.trace_bind hs]
  rfl

theorem delivered_shown {pin : FileId} {rest : List Eff}
    (hs : (writeExecLineToTty b env path runArgv layout runas (swColorAllowed ctx)).Returns true) (hrest : written rest = []) :
    Delivered b env ctx path runArgv layout runas ([.openTarget path true, .fstatTarget (some pin)]
      ++ (writeExecLineToTty b env path runArgv layout runas (swColorAllowed ctx)).trace ++ rest) := by
  obtain ⟨line, hline, hw⟩ := (writeExecLineToTty_delivers hs).mp rfl
  refine ⟨line, hline, ?_⟩
  rw [written_append, written_append, hrest, hw]
  simp [Eff.ttyBytes]

theorem question_offTty (blankFirst : Bool) (pin : FileId) :
    OffTty (swAskRunConfirm env ctx blankFirst >>= confirmAnswered env ctx path pin) := by
  have hask : OffTty (swAskRunConfirm env ctx blankFirst) :=
    @offTty_of_kinds _ [.question] _ (by decide) (swAskRunConfirm_kinds (by simp) _ _ _)
  exact Traced.all_bind.mpr ⟨hask, fun yes _ => confirmAnswered_offTty pin yes⟩

/-- A ceremony that does not show its line gets to no question. -/
theorem unshown_kinds {pin : FileId} (ho : env.openTarget = .ok ()) (hf : env.fstatTarget = .ok pin)
    (hs : ¬ (writeExecLineToTty b env path runArgv layout runas (swColorAllowed ctx)).Returns true) :
    OnlyKinds [.display, .target] (swConfirmRun b env ctx path runArgv layout runas) := by
  have hwrite := @writeExecLineToTty_kinds [.display, .target] (by decide) b env path runArgv layout runas
    (swColorAllowed ctx)
  rw [swConfirmRun_pinned ho hf]
  refine onlyKinds_bind.mpr ⟨by simp, fun _ _ => onlyKinds_bind.mpr ⟨by simp, fun _ _ => onlyKinds_bind.mpr
    ⟨hwrite, fun shown hshown => ?_⟩⟩⟩
  cases shown with
  | true => exact absurd hshown hs
  | false => simp

/-- What comes before the first question, of a trace that asks none in its first part. -/
theorem before_question {first rest before after : List Eff} {prompt : Text} (hfirst : Eff.converse prompt ∉ first)
    (h : first ++ rest = before ++ .converse prompt :: after) :
    ∃ asked, before = first ++ asked ∧ rest = asked ++ .converse prompt :: after := by
  rcases List.append_eq_append_iff.mp h with hb | ⟨cut, hcut, hafter⟩
  · exact hb
  · cases cut with
    | nil => exact ⟨[], by rw [hcut, List.append_nil, List.append_nil], hafter.symm⟩
    | cons e cut =>
      obtain ⟨rfl, -⟩ := List.cons.inj hafter
      exact absurd (hcut ▸ List.mem_append_right _ List.mem_cons_self) hfirst

/-- The conversation is used only under a line that reached the terminal whole. -/
theorem asked_below_line {before after : List Eff} {prompt : Text}
    (h : (swConfirmRun b env ctx path runArgv layout runas).trace = before ++ .converse prompt :: after) :
    Delivered b env ctx path runArgv layout runas before := by
  have hasked : Eff.converse prompt ∈ (swConfirmRun b env ctx path runArgv layout runas).trace := by simp [h]
  have hsilent : ∀ {α : Type} {x : Act α}, OnlyKinds [.display, .target] x → Eff.converse prompt ∉ x.trace :=
    fun hk => hk.not_mem (by rw [kind_converse]; decide)
  cases ho : env.openTarget with
  | error errno =>
    refine absurd hasked (hsilent ?_)
    simp [swConfirmRun, ho]
  | ok =>
    cases hf : env.fstatTarget with
    | error saved =>
      refine absurd hasked (hsilent ?_)
      simp [swConfirmRun, ho, hf]
    | ok pin =>
      by_cases hs : (writeExecLineToTty b env path runArgv layout runas (swColorAllowed ctx)).Returns true
      · have hwrite := @writeExecLineToTty_kinds [.display, .target] (by decide) b env path runArgv layout runas
          (swColorAllowed ctx)
        rw [swConfirmRun_trace ho hf hs] at h
        obtain ⟨asked, rfl, hrest⟩ := before_question (by simpa using hsilent hwrite) h
        have hoff := @question_offTty env ctx path (layout == .solo) pin
        exact delivered_shown hs (written_silent fun e he => hoff e (hrest ▸ List.mem_append_left _ he))
      · exact absurd hasked (hsilent (unshown_kinds ho hf hs))

/-- An allow, spelled out: pinned, shown, answered with a yes, and unchanged. -/
def Passed (b : Build) (env : CheckEnv) (ctx : InvokingCtx) (path : Bytes) (runArgv : List Bytes) (layout : ExecLayout)
    (runas : Option Bytes) (trace : List Eff) : Prop :=
  env.openTarget = .ok () ∧ ∃ pin, env.fstatTarget = .ok pin ∧ Delivered b env ctx path runArgv layout runas trace ∧
    (∃ conversation, env.conversation = some conversation ∧ FirstAnswerRuns conversation) ∧ env.statTarget = .ok pin

/-- What is known of a ceremony's verdict and its trace. -/
structure Judged (b : Build) (env : CheckEnv) (ctx : InvokingCtx) (path : Bytes) (runArgv : List Bytes) (layout : ExecLayout)
    (runas : Option Bytes) (r : Ret) (trace : List Eff) : Prop where
  allow : r = .allow ↔ Passed b env ctx path runArgv layout runas trace
  errstr : r ≠ .allow → ∃ text, Eff.errstr text ∈ trace

theorem judged_stopped {r : Ret} {trace : List Eff} (hr : r ≠ .allow) (hp : ¬ Passed b env ctx path runArgv layout runas trace)
    (he : ∃ text, Eff.errstr text ∈ trace) : Judged b env ctx path runArgv layout runas r trace :=
  ⟨⟨fun h => absurd h hr, fun h => absurd h hp⟩, fun _ => he⟩

theorem swConfirmRun_judged {r : Ret} (h : (swConfirmRun b env ctx path runArgv layout runas).Returns r) :
    Judged b env ctx path runArgv layout runas r (swConfirmRun b env ctx path runArgv layout runas).trace := by
  cases ho : env.openTarget with
  | error errno =>
    have hp : ∀ trace, ¬ Passed b env ctx path runArgv layout runas trace := by
      intro trace hp
      cases ho.symm.trans hp.1
    unfold swConfirmRun at h ⊢
    simp only [ho, Traced.returns_bind, Traced.returns_pure] at h ⊢
    obtain ⟨_, -, _, -, rfl⟩ := h
    exact judged_stopped (by decide) (hp _) (by simp [setErrstrPath, setErrstr])
  | ok =>
    cases hf : env.fstatTarget with
    | error saved =>
      have hp : ∀ trace, ¬ Passed b env ctx path runArgv layout runas trace := by
        intro trace hp
        obtain ⟨_, pin, hpin, _⟩ := hp
        cases hf.symm.trans hpin
      unfold swConfirmRun at h ⊢
      simp only [ho, hf, Traced.returns_bind, Traced.returns_pure] at h ⊢
      obtain ⟨_, -, _, -, _, -, _, -, rfl⟩ := h
      exact judged_stopped (by decide) (hp _) (by simp [setErrstrPath, setErrstr])
    | ok pin =>
      rw [swConfirmRun_pinned ho hf] at h
      obtain ⟨_, -, _, -, shown, hshown, hrest⟩ := by simpa only [Traced.returns_bind] using h
      have hdelivers := writeExecLineToTty_delivers hshown
      cases shown with
      | false =>
        simp only [Bool.not_false, if_true, Traced.returns_bind, Traced.returns_pure] at hrest
        obtain ⟨_, -, _, -, rfl⟩ := hrest
        rw [swConfirmRun_pinned ho hf, Traced.emit_bind_trace, Traced.emit_bind_trace, Traced.trace_bind hshown]
        refine judged_stopped (by decide) ?_ (by simp [setErrstr])
        intro hp
        obtain ⟨_, pin', _, ⟨line, hline, hw⟩, _⟩ := hp
        refine absurd (hdelivers.mpr ⟨line, hline, ?_⟩) Bool.false_ne_true
        change written (_ :: _ :: (_ ++ [.closeTarget, .errstr _, .message _ _])) = _ at hw
        simpa [Eff.ttyBytes] using hw
      | true =>
        simp only [Bool.not_true, Bool.false_eq_true, if_false, Traced.returns_bind] at hrest
        obtain ⟨yes, hyes, hanswered⟩ := hrest
        obtain ⟨hallow, herr⟩ := confirmAnswered_returns hanswered
        have hruns := swAskRunConfirm_returns hyes
        have hwritten := @delivered_shown b env ctx path runArgv layout runas pin _ hshown
          (written_silent (@question_offTty env ctx path (layout == .solo) pin))
        rw [swConfirmRun_trace ho hf hshown]
        refine ⟨⟨fun hr => ?_, fun hp => ?_⟩, fun hr => ?_⟩
        · obtain ⟨hy, hst⟩ := hallow.mp hr
          exact ⟨ho, pin, hf, hwritten, hruns.mp hy, hst⟩
        · obtain ⟨-, pin', hpin, -, hfirst, hst⟩ := hp
          cases hf.symm.trans hpin
          exact hallow.mpr ⟨hruns.mpr hfirst, hst⟩
        · obtain ⟨text, ht⟩ := herr hr
          rw [Traced.trace_bind hyes]
          exact ⟨text, List.mem_append_right _ (List.mem_append_right _ ht)⟩

end Run

/-- The question returns YES exactly on a first answer that says `y` or `yes`; the ceremony
    asks it only under the whole execute line, and what it returns is 1 exactly when the
    target was pinned, the line delivered, the answer a yes and the target unchanged, and
    otherwise comes with errstr set. -/
theorem confirm_runs_on_yes (b : Build) (env : CheckEnv) (ctx : InvokingCtx) :
    (∀ blankFirst v, (swAskRunConfirm env ctx blankFirst).Returns v →
      (v = true ↔ ∃ conversation, env.conversation = some conversation ∧ FirstAnswerRuns conversation)) ∧
    ∀ path runArgv layout runas r, (swConfirmRun b env ctx path runArgv layout runas).Returns r →
      (∀ before prompt after, (swConfirmRun b env ctx path runArgv layout runas).trace = before ++ .converse prompt :: after →
        Delivered b env ctx path runArgv layout runas before) ∧
      (r = .allow ↔ Passed b env ctx path runArgv layout runas (swConfirmRun b env ctx path runArgv layout runas).trace) ∧
      (r ≠ .allow → ∃ text, Eff.errstr text ∈ (swConfirmRun b env ctx path runArgv layout runas).trace) := by
  refine ⟨fun blankFirst v h => swAskRunConfirm_returns h, fun path runArgv layout runas r h => ?_⟩
  have hjudged := swConfirmRun_judged h
  exact ⟨fun before prompt after htrace => asked_below_line htrace, hjudged.allow, hjudged.errstr⟩

/-- A check with a terminal that takes a line in pieces, and somebody who answers at the second
    question. -/
def answeredCheck : CheckEnv where
  pamSignature := .ok ()
  auditExists := false
  auditSignature := .ok ()
  session := ⟨false, false, true⟩
  consoleUid := 501
  sudoLocal := none
  rootName := some (lit "root")
  pluginPrintf := true
  stderrIsTerminal := true
  tty := fun _ => ⟨true, true, fun k => if k = 0 then .interrupted else .wrote (8 * k)⟩
  conversation := some fun k => if k = 0 then ⟨true, some (lit "yep
")⟩ else ⟨true, some (lit " Yes
")⟩
  alloc := fun _ => true
  openTarget := .ok ()
  fstatTarget := .ok ⟨1, 2⟩
  statTarget := .ok ⟨1, 2⟩
  random := fun _ => 0
  osMajor := 26
  seteuidDrop := .ok ()
  seteuidBack := true
  canCompanion := false
  canBiometricsOrCompanion := false
  canDeviceOwner := .ok ()
  reply := ⟨false, none⟩
  passwordReply := ⟨false, none⟩
  fuel := 8

def plainCtx : InvokingCtx := ⟨some 501, none, none, none, true⟩

theorem confirm_runs_on_yes_answered :
    Passed Build.stock answeredCheck plainCtx (lit "/bin/ls") [lit "ls"] .solo none
      (swConfirmRun Build.stock answeredCheck plainCtx (lit "/bin/ls") [lit "ls"] .solo none).trace :=
  ((confirm_runs_on_yes Build.stock answeredCheck plainCtx).2 (lit "/bin/ls") [lit "ls"] .solo none .allow rfl).2.1.mp rfl

end SudoWhat.Plugin
