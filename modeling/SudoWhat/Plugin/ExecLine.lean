/-
  SudoWhat.Plugin.ExecLine — the execute line is one row of the display.

  The line is its frame, four or so fixed spans, and the value; proved: it is one row, a
  grouped one with an empty line after it (`swFormatExecLine_row`), and coloured or not it
  shows the same characters (`swFormatExecLine_dressed`).
-/

import SudoWhat.Plugin.Display
import SudoWhat.Row

namespace SudoWhat.Plugin

open SudoWhat.Lib
open SudoWhat.Lib.Sgr (Span Dressed paintSpans)
open SudoWhat.EscapeCore (Clean escapeBytes fullCommandLineBytes)

/-! ## The frame -/

def bareFrame (layout : ExecLayout) : List Span :=
  [⟨none, provenance⟩, ⟨some ['1'], "execute:".toList⟩, ⟨none, (if layout = .solo then " " else "    ").toList⟩]

/-- The solo frame that names the user: yellow unless it is root. -/
def asFrame (user : Text) : List Span :=
  [⟨none, provenance⟩, ⟨some ['1'], "execute as".toList⟩, ⟨none, [' ']⟩,
    ⟨if user = "root".toList then none else some ['3', '3'], user⟩, ⟨some ['1'], [':']⟩, ⟨none, [' ']⟩]

def execFrame (layout : ExecLayout) (runas : Option Bytes) : List Span :=
  match layout, runas with
  | .solo, some (c :: cs) => asFrame (escapeBytes (c :: cs))
  | _, _ => bareFrame layout

theorem execFrame_cases (layout : ExecLayout) (runas : Option Bytes) :
    (∃ name, execFrame layout runas = asFrame (escapeBytes name)) ∨ execFrame layout runas = bareFrame layout := by
  unfold execFrame
  split
  · exact .inl ⟨_, rfl⟩
  · exact .inr rfl

theorem wellFormed_execFrame (layout : ExecLayout) (runas : Option Bytes) :
    ∀ p ∈ execFrame layout runas, p.WellFormed ∧ ∀ code ∈ p.code, code ∈ frameCodes := by
  rcases execFrame_cases layout runas with ⟨name, h⟩ | h
  · have huser : Sgr.esc ∉ escapeBytes name := (EscapeCore.clean_escapeBytes name).not_mem (by decide)
    have hfixed : ∀ p ∈ [(⟨none, provenance⟩ : Span), ⟨some ['1'], "execute as".toList⟩, ⟨none, [' ']⟩, ⟨some ['1'], [':']⟩],
        p.WellFormed ∧ ∀ code ∈ p.code, code ∈ frameCodes := by decide
    rw [h]
    intro p hp
    simp only [asFrame, List.mem_cons, List.not_mem_nil, or_false] at hp
    rcases hp with rfl | rfl | rfl | rfl | rfl | rfl
    · exact hfixed _ (by simp)
    · exact hfixed _ (by simp)
    · exact hfixed _ (by simp)
    · split
      · exact ⟨⟨huser, fun code hc => by cases hc⟩, fun code hc => by cases hc⟩
      · exact ⟨⟨huser, fun code hc => by cases hc; decide⟩, fun code hc => by cases hc; decide⟩
    · exact hfixed _ (by simp)
    · exact hfixed _ (by simp)
  · rw [h]
    cases layout <;> decide

theorem clean_execFrame (layout : ExecLayout) (runas : Option Bytes) :
    Clean ((execFrame layout runas).flatMap Span.text) := by
  have hclean : ∀ t ∈ [provenance, "execute as".toList, "execute:".toList, [' '], [':'], "    ".toList], Clean t := by decide
  refine EscapeCore.clean_flatMap fun p hp => ?_
  rcases execFrame_cases layout runas with ⟨name, h⟩ | h
  · rw [h] at hp
    simp only [asFrame, List.mem_cons, List.not_mem_nil, or_false] at hp
    rcases hp with rfl | rfl | rfl | rfl | rfl | rfl
    · exact hclean _ (by simp)
    · exact hclean _ (by simp)
    · exact hclean _ (by simp)
    · exact EscapeCore.clean_escapeBytes name
    · exact hclean _ (by simp)
    · exact hclean _ (by simp)
  · rw [h] at hp
    simp only [bareFrame, List.mem_cons, List.not_mem_nil, or_false] at hp
    rcases hp with rfl | rfl | rfl
    · exact hclean _ (by simp)
    · exact hclean _ (by simp)
    · cases layout <;> exact hclean _ (by simp)

/-! ## The line -/

/-- What follows the row. -/
def afterExecRow (layout : ExecLayout) : Text := if layout = .grouped then ['\n'] else []

theorem asFrame_text (user : Text) (frameColor : Bool) :
    (if frameColor then "sudowhat: \x1b[1mexecute as\x1b[0m " else "sudowhat: execute as ").toList
        ++ (if frameColor && user != "root".toList then "\x1b[33m".toList ++ user ++ "\x1b[0m".toList else user)
        ++ (if frameColor then "\x1b[1m:\x1b[0m " else ": ").toList = paintSpans frameColor (asFrame user) := by
  have hhead : "sudowhat: \x1b[1mexecute as\x1b[0m ".toList =
      provenance ++ (Sgr.seq ['1'] ++ "execute as".toList ++ Sgr.seq Sgr.reset) ++ [' '] := by decide
  have hplain : "sudowhat: execute as ".toList = provenance ++ "execute as".toList ++ [' '] := by decide
  have htail : "\x1b[1m:\x1b[0m ".toList = Sgr.seq ['1'] ++ [':'] ++ Sgr.seq Sgr.reset ++ [' '] := by decide
  have hcolon : ": ".toList = [':', ' '] := by decide
  have hon : "\x1b[33m".toList = Sgr.seq ['3', '3'] := by decide
  have hoff : "\x1b[0m".toList = Sgr.seq Sgr.reset := by decide
  cases frameColor with
  | false =>
    simp only [Bool.false_eq_true, if_false, Bool.false_and, hplain, hcolon, paintSpans, asFrame, List.flatMap_cons,
      List.flatMap_nil, List.append_assoc, List.append_nil, List.cons_append, List.nil_append]
  | true =>
    rw [if_pos rfl, if_pos rfl, hhead, htail, hon, hoff, Bool.true_and]
    by_cases hroot : user = "root".toList
    · simp only [hroot, bne_self_eq_false, Bool.false_eq_true, if_false, if_true, paintSpans, asFrame, List.flatMap_cons,
        List.flatMap_nil, Span.shown, List.append_assoc, List.append_nil]
    · simp only [bne_iff_ne.mpr hroot, hroot, if_true, if_false, paintSpans, asFrame, List.flatMap_cons,
        List.flatMap_nil, Span.shown, List.append_assoc, List.append_nil]

theorem swFormatExecLine_eq {env : CheckEnv} {path : Bytes} {runArgv : List Bytes} {layout : ExecLayout}
    {runas : Option Bytes} {frameColor valueColor : Bool} {line : Text}
    (h : swFormatExecLine env path runArgv layout runas frameColor valueColor = some line) :
    ∃ value, swExecCommandLine env path runArgv valueColor = some value ∧
      line = paintSpans frameColor (execFrame layout runas) ++ value ++ ['\n'] ++ afterExecRow layout := by
  unfold swFormatExecLine at h
  cases hv : swExecCommandLine env path runArgv valueColor with
  | none => rw [hv] at h; cases h
  | some value =>
    refine ⟨value, rfl, ?_⟩
    rw [hv] at h
    dsimp only at h
    by_cases hne : value = []
    · rw [if_pos hne] at h; cases h
    rw [if_neg hne] at h
    have hbare : ∀ {prefixText : String}, prefixText.toList = paintSpans frameColor (bareFrame layout) →
        some (prefixText.toList ++ value ++ ['\n'] ++ afterExecRow layout) = some line →
        line = paintSpans frameColor (bareFrame layout) ++ value ++ ['\n'] ++ afterExecRow layout := by
      intro prefixText hp hl
      rw [← Option.some.inj hl, hp]
    cases layout with
    | grouped => exact hbare (by cases frameColor <;> decide) h
    | solo =>
      rcases runas with _ | _ | ⟨c, cs⟩
      · exact hbare (by cases frameColor <;> decide) h
      · exact hbare (by cases frameColor <;> decide) h
      · dsimp only at h
        unfold swExecRender at h
        cases hu : env.alloc .execUser with
        | false => rw [hu, if_neg Bool.false_ne_true] at h; cases h
        | true =>
          rw [hu, if_pos rfl] at h
          have e := (Option.some.inj h).symm
          rw [asFrame_text] at e
          rw [e]
          exact (List.append_nil _).symm

/-- The line without colour. -/
def plainExecLine (path : Bytes) (runArgv : List Bytes) (layout : ExecLayout) (runas : Option Bytes) : Text :=
  (execFrame layout runas).flatMap Span.text ++ fullCommandLineBytes path runArgv ++ ['\n'] ++ afterExecRow layout

theorem swExecCommandLine_plain {env : CheckEnv} {path : Bytes} {runArgv : List Bytes} {value : Text}
    (h : swExecCommandLine env path runArgv false = some value) : value = fullCommandLineBytes path runArgv := by
  unfold swExecCommandLine at h
  split at h
  · cases h
  · have hr : swExecRender (env.alloc .execPlain) (fullCommandLineBytes path runArgv) = some value := h
    unfold swExecRender at hr
    split at hr
    · exact (Option.some.inj hr).symm
    · cases hr

section

variable {env : CheckEnv} {path : Bytes} {runArgv : List Bytes} {layout : ExecLayout} {runas : Option Bytes}
  {frameColor valueColor : Bool} {line : Text}

theorem swFormatExecLine_plain (h : swFormatExecLine env path runArgv layout runas false false = some line) :
    line = plainExecLine path runArgv layout runas := by
  obtain ⟨value, hv, rfl⟩ := swFormatExecLine_eq h
  rw [swExecCommandLine_plain hv]
  rfl

theorem dressed_execBody {value : Text} (h : swExecCommandLine env path runArgv valueColor = some value) :
    Dressed frameCodes ((execFrame layout runas).flatMap Span.text ++ fullCommandLineBytes path runArgv)
      (paintSpans frameColor (execFrame layout runas) ++ value) := by
  have hf := wellFormed_execFrame layout runas
  refine (Sgr.dressed_paintSpans (fun p hp => (hf p hp).1) (by decide) (fun p hp => (hf p hp).2) frameColor).append ?_
  exact dressed_frame (swExecCommandLine_dressed h)

theorem provenance_heads_row (color : Bool) (layout : ExecLayout) (runas : Option Bytes) (value : Text) :
    provenance <+: paintSpans color (execFrame layout runas) ++ value := by
  rcases execFrame_cases layout runas with ⟨name, h⟩ | h
  · rw [h, asFrame, Sgr.paintSpans_plain, List.append_assoc]
    exact List.prefix_append _ _
  · rw [h, bareFrame, Sgr.paintSpans_plain, List.append_assoc]
    exact List.prefix_append _ _

theorem swFormatExecLine_row (h : swFormatExecLine env path runArgv layout runas frameColor valueColor = some line) :
    ∃ row, IsRow row ∧ line = row ++ afterExecRow layout := by
  obtain ⟨value, hv, rfl⟩ := swFormatExecLine_eq h
  refine ⟨paintSpans frameColor (execFrame layout runas) ++ value ++ ['\n'], ?_, rfl⟩
  have hclean := (clean_execFrame layout runas).append (EscapeCore.clean_fullCommandLineBytes path runArgv)
  exact isRow_of_dressed (dressed_execBody hv) hclean (provenance_heads_row frameColor layout runas value)

theorem swFormatExecLine_dressed (h : swFormatExecLine env path runArgv layout runas frameColor valueColor = some line) :
    Dressed frameCodes (plainExecLine path runArgv layout runas) line := by
  obtain ⟨value, hv, rfl⟩ := swFormatExecLine_eq h
  have hend : Dressed frameCodes (['\n'] ++ afterExecRow layout) (['\n'] ++ afterExecRow layout) :=
    Sgr.dressed_plain (by cases layout <;> decide)
  have hbody : Dressed frameCodes ((execFrame layout runas).flatMap Span.text ++ fullCommandLineBytes path runArgv)
      (paintSpans frameColor (execFrame layout runas) ++ value) := dressed_execBody hv
  have hline := hbody.append hend
  rw [← List.append_assoc, ← List.append_assoc] at hline
  exact hline

end

end SudoWhat.Plugin
