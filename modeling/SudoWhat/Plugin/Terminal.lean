/-
  SudoWhat.Plugin.Terminal — what a terminal was given, and the values its lines show.

  The bytes a run delivered to `/dev/tty` are put together again from its trace; on a
  terminal where every write takes something, a line is delivered whole. All the rows of
  one table have frames of one length, so a line shows one value (`showsValue_iff`), and
  what a terminal shows is read off its bytes (`onTerminal_iff`).
-/

import SudoWhat.Plugin.ExecLine

namespace SudoWhat.Plugin

open SudoWhat.Lib
open SudoWhat.Lib.Sgr (Span Dressed paintSpans)
open SudoWhat.EscapeCore (Clean escapeBytes fullCommandLineBytes)

/-! ## What was written -/

def Eff.ttyBytes : Eff → Bytes
  | .ttyWrite bytes => bytes
  | _ => []

/-- The bytes delivered to `/dev/tty`, in order. -/
def written (es : List Eff) : Bytes := es.flatMap Eff.ttyBytes

@[simp] theorem written_nil : written [] = [] := rfl
@[simp] theorem written_cons (e : Eff) (es : List Eff) : written (e :: es) = e.ttyBytes ++ written es := rfl
@[simp] theorem written_append (es fs : List Eff) : written (es ++ fs) = written es ++ written fs := List.flatMap_append

theorem written_silent {es : List Eff} (h : ∀ e ∈ es, e.ttyBytes = []) : written es = [] :=
  List.flatMap_eq_nil_iff.mpr h

/-- What the loop wrote is what it was given, up to what is left; it reports that nothing
    is. -/
theorem writeLoop_delivers (write : Nat → WriteResult) :
    ∀ fuel k rest, ∃ left, written (writeLoop write fuel k rest).trace ++ left = rest ∧
      ∀ v, (writeLoop write fuel k rest).Returns v → (v = true ↔ left = []) := by
  intro fuel
  induction fuel with
  | zero =>
    intro k rest
    cases rest with
    | nil => exact ⟨[], rfl, fun v h => by simpa [writeLoop, eq_comm] using h⟩
    | cons c cs => exact ⟨c :: cs, rfl, fun v h => absurd h Traced.returns_halt⟩
  | succ fuel ih =>
    intro k rest
    cases rest with
    | nil => exact ⟨[], rfl, fun v h => by simpa [writeLoop, eq_comm] using h⟩
    | cons c cs =>
      unfold writeLoop
      cases write k with
      | failed =>
        refine ⟨c :: cs, rfl, fun v h => ?_⟩
        obtain rfl : false = v := Traced.returns_pure.mp h
        simp
      | interrupted => exact ih (k + 1) (c :: cs)
      | wrote n =>
        obtain ⟨left, hleft, hv⟩ := ih (k + 1) ((c :: cs).drop n)
        refine ⟨left, ?_, fun v h => ?_⟩
        · rw [Traced.emit_bind_trace, written_cons, Eff.ttyBytes, List.append_assoc, hleft]
          exact List.take_append_drop _ _
        · obtain ⟨_, -, h⟩ := Traced.returns_bind.mp h
          exact hv v h

/-- A controlling terminal on which every write takes something. -/
structure Tty.Writable (tty : Tty) : Prop where
  opens : tty.opens = true
  isTerminal : tty.isTerminal = true
  succeeds : ∀ k, ∃ n, tty.write k = .wrote (n + 1)

theorem writeLoop_written {write : Nat → WriteResult} (hw : ∀ k, ∃ n, write k = .wrote (n + 1)) :
    ∀ fuel k rest v, (writeLoop write fuel k rest).Returns v → written (writeLoop write fuel k rest).trace = rest := by
  intro fuel
  induction fuel with
  | zero =>
    intro k rest v h
    cases rest with
    | nil => rfl
    | cons c cs => simp [writeLoop] at h
  | succ fuel ih =>
    intro k rest v h
    cases rest with
    | nil => rfl
    | cons c cs =>
      obtain ⟨n, hn⟩ := hw k
      unfold writeLoop at h ⊢
      rw [hn] at h ⊢
      obtain ⟨_, -, h⟩ := Traced.returns_bind.mp h
      rw [Traced.emit_bind_trace, written_cons, ih _ _ v h]
      exact List.take_append_drop _ _

/-! ## Lines -/

/-- `shown` is the clean line `plain`, in some colours. -/
def LineShows (plain shown : Text) : Prop := Clean plain ∧ ∃ codes, Dressed codes plain shown

theorem LineShows.strip {plain shown : Text} (h : LineShows plain shown) : Sgr.strip shown = plain := by
  obtain ⟨-, codes, hd⟩ := h
  exact hd.strip

theorem LineShows.lf {plain shown : Text} (h : LineShows plain shown) : '\n' ∉ shown := by
  obtain ⟨hclean, codes, hd⟩ := h
  exact lf_not_mem_dressed hd hclean

theorem lineShows_plain {plain : Text} (h : Clean plain) : LineShows plain plain :=
  ⟨h, [], Sgr.dressed_plain (h.not_mem (by decide))⟩

/-- What stands before the value on the rows of the table: the audit block's and the
    execute line's. -/
def rowFrames (gap : RowKind → Nat) : List Text :=
  [RowKind.runAs, .directory, .input, .path].map (fun kind => (labelFrame gap kind).flatMap Span.text)
    ++ [(bareFrame .grouped).flatMap Span.text]

/-- The line is a row of the table and shows this value. -/
def ShowsValue (gap : RowKind → Nat) (line value : Text) : Prop := ∃ frame ∈ rowFrames gap, line = frame ++ value

/-- The terminal was given a row that shows the value whole. -/
def OnTerminal (gap : RowKind → Nat) (bytes : Bytes) (value : Text) : Prop :=
  ∃ text, Utf8.encode text = bytes ∧ ∃ line ∈ text.splitOn '\n', ShowsValue gap (Sgr.strip line) value

section Lines

variable {gap : RowKind → Nat} {width : Nat} (hwidth : ∀ frame ∈ rowFrames gap, frame.length = width)

include hwidth

theorem showsValue_iff {frame value value' : Text} (hf : frame ∈ rowFrames gap) :
    ShowsValue gap (frame ++ value) value' ↔ value = value' := by
  constructor
  · intro ⟨frame', hf', h⟩
    exact (List.append_inj h ((hwidth frame hf).trans (hwidth frame' hf').symm)).2
  · rintro rfl
    exact ⟨frame, hf, rfl⟩

theorem not_showsValue {frame value value' : Text} (hlen : frame.length = width) (hf : frame ∉ rowFrames gap) :
    ¬ ShowsValue gap (frame ++ value) value' := by
  intro ⟨frame', hf', h⟩
  obtain ⟨rfl, -⟩ := List.append_inj h (hlen.trans (hwidth frame' hf').symm)
  exact hf hf'

theorem not_showsValue_nil {value : Text} (hpos : 0 < width) : ¬ ShowsValue gap [] value := by
  intro ⟨frame, hf, h⟩
  have hlen := hwidth frame hf
  rw [(List.append_eq_nil_iff.mp h.symm).1] at hlen
  exact absurd hlen (Nat.ne_of_lt hpos)

theorem onTerminal_iff (hpos : 0 < width) {plains shown : List Text} (h : List.Forall₂ LineShows plains shown)
    (value : Text) :
    OnTerminal gap (Utf8.encode (unlines shown)) value ↔ ∃ plain ∈ plains, ShowsValue gap plain value := by
  have hlf : ∀ l ∈ shown, '\n' ∉ l := by
    clear hwidth
    induction h with
    | nil => exact fun l hl => absurd hl List.not_mem_nil
    | cons hl _ ih =>
      intro l hm
      rcases List.mem_cons.mp hm with rfl | hm
      · exact hl.lf
      · exact ih l hm
  have hstrip : shown.map Sgr.strip = plains := by
    clear hwidth hlf
    induction h with
    | nil => rfl
    | cons hl _ ih => rw [List.map_cons, hl.strip, ih]
  have hplain : ∀ line ∈ (unlines shown).splitOn '\n', ShowsValue gap (Sgr.strip line) value →
      ∃ plain ∈ plains, ShowsValue gap plain value := by
    intro line hl hs
    rw [splitOn_unlines hlf] at hl
    rcases List.mem_append.mp hl with hl | hl
    · exact ⟨Sgr.strip line, hstrip ▸ List.mem_map_of_mem hl, hs⟩
    · rw [List.mem_singleton.mp hl] at hs
      exact absurd hs (not_showsValue_nil hwidth hpos)
  constructor
  · intro ⟨text, htext, line, hl, hs⟩
    obtain rfl := Utf8.encode_injective htext
    exact hplain line hl hs
  · intro ⟨plain, hp, hs⟩
    rw [← hstrip] at hp
    obtain ⟨line, hl, rfl⟩ := List.mem_map.mp hp
    refine ⟨unlines shown, rfl, line, ?_, hs⟩
    rw [splitOn_unlines hlf]
    exact List.mem_append_left _ hl

end Lines

/-! ## The two lines of a check -/

def verifySpans (code : Text) : List Span :=
  [⟨none, provenance⟩, ⟨some ['1'], "verify:".toList⟩, ⟨none, "     ".toList⟩, ⟨some "1;35".toList, code⟩,
    ⟨none, [' ', ' ']⟩, ⟨some ['2'], "(compare with the dialog)".toList⟩]

/-- The verify line, its frame first. -/
def verifyPlain (code : Text) : Text :=
  "sudowhat: verify:     ".toList ++ (code ++ "  (compare with the dialog)".toList)

theorem formatVerifyLine_eq (code : Text) (colorize : Bool) :
    formatVerifyLine code colorize = Utf8.encode (paintSpans colorize (verifySpans code) ++ ['\n']) := by
  have hhead : "sudowhat: \x1b[1mverify:\x1b[0m     \x1b[1;35m".toList =
      provenance ++ (Sgr.seq ['1'] ++ "verify:".toList ++ Sgr.seq Sgr.reset) ++ "     ".toList ++ Sgr.seq "1;35".toList := by
    decide
  have htail : "\x1b[0m  \x1b[2m(compare with the dialog)\x1b[0m\n".toList =
      Sgr.seq Sgr.reset ++ [' ', ' '] ++ (Sgr.seq ['2'] ++ "(compare with the dialog)".toList ++ Sgr.seq Sgr.reset) ++
        ['\n'] := by
    decide
  have hplain : "sudowhat: verify:     ".toList = provenance ++ "verify:".toList ++ "     ".toList := by decide
  have hend : "  (compare with the dialog)\n".toList = [' ', ' '] ++ "(compare with the dialog)".toList ++ ['\n'] := by decide
  unfold formatVerifyLine lit
  rw [hhead, htail, hplain, hend]
  cases colorize with
  | true =>
    rw [if_pos rfl, ← Utf8.encode_append, ← Utf8.encode_append]
    simp only [paintSpans, verifySpans, if_true, List.flatMap_cons, List.flatMap_nil, Span.shown, List.append_assoc,
      List.append_nil]
  | false =>
    rw [if_neg Bool.false_ne_true, ← Utf8.encode_append, ← Utf8.encode_append]
    simp only [paintSpans, verifySpans, Bool.false_eq_true, if_false, List.flatMap_cons, List.flatMap_nil, List.append_assoc,
      List.append_nil]

theorem clean_nonce (random : Nat → Fin 25) (outsz : Nat) : Clean (generateVerifyNonce random outsz) := by
  have halphabet : ∀ i : Fin 25, EscapeCore.isHidden (verifyAlphabet.getD i '3').toNat = false := by decide
  intro c hc
  obtain ⟨i, -, rfl⟩ := List.mem_map.mp hc
  exact halphabet (random i)

theorem lineShows_verify {code : Text} (h : Clean code) (colorize : Bool) :
    LineShows (verifyPlain code) (paintSpans colorize (verifySpans code)) := by
  have hfixed : ∀ t ∈ [provenance, "verify:".toList, "     ".toList, [' ', ' '], "(compare with the dialog)".toList],
      Clean t := by decide
  have hclean : ∀ p ∈ verifySpans code, Clean p.text := by
    intro p hp
    simp only [verifySpans, List.mem_cons, List.not_mem_nil, or_false] at hp
    rcases hp with rfl | rfl | rfl | rfl | rfl | rfl
    · exact hfixed _ (by simp)
    · exact hfixed _ (by simp)
    · exact hfixed _ (by simp)
    · exact h
    · exact hfixed _ (by simp)
    · exact hfixed _ (by simp)
  have hplain : (verifySpans code).flatMap Span.text = verifyPlain code := by
    have hhead : "sudowhat: verify:     ".toList = provenance ++ "verify:".toList ++ "     ".toList := by decide
    have hend : "  (compare with the dialog)".toList = [' ', ' '] ++ "(compare with the dialog)".toList := by decide
    unfold verifyPlain
    rw [hhead, hend]
    simp only [verifySpans, List.flatMap_cons, List.flatMap_nil, List.append_assoc, List.append_nil]
  have hcode : ∀ p ∈ verifySpans code, ∀ c, p.code = some c →
      (Sgr.IsCode c ∧ c ≠ Sgr.reset) ∧ c ∈ [Sgr.reset, ['1'], "1;35".toList, ['2']] := by
    intro p hp
    simp only [verifySpans, List.mem_cons, List.not_mem_nil, or_false] at hp
    rcases hp with rfl | rfl | rfl | rfl | rfl | rfl <;> (intro c hc; cases hc <;> decide)
  rw [← hplain]
  refine ⟨EscapeCore.clean_flatMap hclean, [Sgr.reset, ['1'], "1;35".toList, ['2']], ?_⟩
  exact Sgr.dressed_paintSpans (fun p hp => ⟨(hclean p hp).not_mem (by decide), fun c hc => (hcode p hp c hc).1⟩) (by decide)
    (fun p hp c hc => (hcode p hp c hc).2) colorize

theorem emitVerifyCode_written {env : CheckEnv} {code : Text} {colorAllowed : Bool} (hcode : Clean code)
    (htty : (env.tty .verifyCode).Writable) (h : (emitVerifyCode env code colorAllowed).Returns ()) :
    ∃ plains shown, (plains = [] ∨ plains = [verifyPlain code]) ∧ List.Forall₂ LineShows plains shown ∧
      written (emitVerifyCode env code colorAllowed).trace = Utf8.encode (unlines shown) := by
  obtain ⟨v, hv, -⟩ := Traced.returns_bind.mp h
  have htrace : (emitVerifyCode env code colorAllowed).trace = (writeVerifyCodeToTty env code colorAllowed).trace := by
    rw [emitVerifyCode, Traced.trace_bind hv]
    exact List.append_nil _
  rw [htrace]
  unfold writeVerifyCodeToTty at hv ⊢
  dsimp only at hv ⊢
  rw [htty.opens] at hv ⊢
  by_cases hlen : (formatVerifyLine code (colorAllowed && (env.tty .verifyCode).isTerminal)).length ≥ 128
  · simp only [Bool.not_true, Bool.false_eq_true, if_false, if_pos hlen] at hv ⊢
    exact ⟨[], [], .inl rfl, .nil, rfl⟩
  · simp only [Bool.not_true, Bool.false_eq_true, if_false, if_neg hlen] at hv ⊢
    have hline := lineShows_verify hcode (colorAllowed && (env.tty .verifyCode).isTerminal)
    refine ⟨[verifyPlain code], [_], .inr rfl, .cons hline .nil, ?_⟩
    rw [writeLoop_written htty.succeeds _ _ _ v hv, formatVerifyLine_eq]
    exact congrArg Utf8.encode (List.append_nil _).symm

/-- The execute line on a row of the table. -/
def execPlain (path : Bytes) (runArgv : List Bytes) : Text :=
  (bareFrame .grouped).flatMap Span.text ++ fullCommandLineBytes path runArgv

theorem swFormatExecLine_grouped {env : CheckEnv} (halloc : ∀ site, env.alloc site = true) (path : Bytes)
    (runArgv : List Bytes) (frameColor valueColor : Bool) : ∃ value,
      Dressed EscapeCore.paletteCodes (fullCommandLineBytes path runArgv) value ∧
      swFormatExecLine env path runArgv .grouped none frameColor valueColor =
        some (paintSpans frameColor (bareFrame .grouped) ++ value ++ ['\n'] ++ ['\n']) := by
  have hvalue : ∃ value, swExecCommandLine env path runArgv valueColor = some value := by
    unfold swExecCommandLine swExecRender
    rw [halloc .execArgv, halloc .execColoured, halloc .execPlain, if_neg (by simp)]
    cases valueColor <;> exact ⟨_, rfl⟩
  obtain ⟨value, hv⟩ := hvalue
  have hd := swExecCommandLine_dressed hv
  have hne : value ≠ [] := by
    rintro rfl
    exact EscapeCore.fullCommandLineBytes_ne_nil path runArgv hd.strip.symm
  refine ⟨value, hd, ?_⟩
  have hline : ∃ line, swFormatExecLine env path runArgv .grouped none frameColor valueColor = some line := by
    unfold swFormatExecLine
    rw [hv]
    dsimp only
    rw [if_neg hne]
    exact ⟨_, rfl⟩
  obtain ⟨line, hl⟩ := hline
  obtain ⟨value', hv', rfl⟩ := swFormatExecLine_eq hl
  rw [hv] at hv'
  obtain rfl := Option.some.inj hv'
  exact hl

theorem emitExecLine_written {b : Build} (hb : b.execDisplay = true) {env : CheckEnv}
    (halloc : ∀ site, env.alloc site = true) (htty : (env.tty .execLine).Writable) {path : Bytes} {runArgv : List Bytes}
    {colorAllowed : Bool} (h : (emitExecLine b env (some path) runArgv .grouped none colorAllowed).Returns ()) :
    ∃ shown, List.Forall₂ LineShows [execPlain path runArgv, []] shown ∧
      written (emitExecLine b env (some path) runArgv .grouped none colorAllowed).trace = Utf8.encode (unlines shown) := by
  unfold emitExecLine at h ⊢
  rw [hb] at h ⊢
  simp only [Bool.not_true, Bool.false_eq_true, if_false] at h ⊢
  obtain ⟨v, hv, -⟩ := Traced.returns_bind.mp h
  rw [Traced.trace_bind hv, written_append]
  unfold writeExecLineToTty at hv ⊢
  dsimp only at hv ⊢
  rw [htty.opens] at hv ⊢
  simp only [Bool.not_true, Bool.false_eq_true, if_false] at hv ⊢
  obtain ⟨value, hd, hline⟩ := swFormatExecLine_grouped halloc path runArgv (colorAllowed && (env.tty .execLine).isTerminal)
    (colorAllowed && (env.tty .execLine).isTerminal && b.echoColor)
  rw [hline] at hv ⊢
  have hf := wellFormed_execFrame .grouped none
  have hrow : LineShows (execPlain path runArgv) (paintSpans (colorAllowed && (env.tty .execLine).isTerminal)
      (bareFrame .grouped) ++ value) := by
    refine ⟨(clean_execFrame .grouped none).append (EscapeCore.clean_fullCommandLineBytes path runArgv), frameCodes, ?_⟩
    exact (Sgr.dressed_paintSpans (fun p hp => (hf p hp).1) (by decide) (fun p hp => (hf p hp).2) _).append (dressed_frame hd)
  refine ⟨[_, []], .cons hrow (.cons (lineShows_plain EscapeCore.clean_nil) .nil), ?_⟩
  rw [writeLoop_written htty.succeeds _ _ _ v hv]
  simp [unlines, written]

end SudoWhat.Plugin
