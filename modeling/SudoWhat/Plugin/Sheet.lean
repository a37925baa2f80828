/-
  SudoWhat.Plugin.Sheet — what the sheet's text shows, read back from the text.

  The text is a list of lines joined by line feeds: the header, then each label alone on
  its line under a blank one, its value on the line below (`sheetLines`). No value holds a
  line feed, so splitting gives back exactly those lines (`split_format`), and a sheet with
  the clean closing line has every value whole, so it determines the user, the directory
  and the command's tokens (`whole_sheet_determines`).

  The budget: every other part takes at most 359 units, which leaves the command 121 or
  more (`promptOverhead_le`), so the text always fits (`sheet_fits`).
-/

import SudoWhat.EscapeCore.Hidden
import SudoWhat.Plugin.Display
import SudoWhat.Plugin.PromptFormatter

namespace SudoWhat.Plugin

open SudoWhat.Lib
open SudoWhat.EscapeCore (escapeBytes fullCommandLineBytes commandTokens)

/-! ## UTF-16 -/

def lf : UInt16 := 0x0A

@[simp] theorem utf16_nil : utf16 [] = [] := rfl
@[simp] theorem utf16_cons (c : Char) (t : Text) : utf16 (c :: t) = utf16Char c ++ utf16 t := rfl
@[simp] theorem utf16_append (s t : Text) : utf16 (s ++ t) = utf16 s ++ utf16 t := List.flatMap_append

theorem char_range (c : Char) : c.toNat < 0xD800 ∨ (0xDFFF < c.toNat ∧ c.toNat < 0x110000) := c.valid

theorem utf16Char_cases (c : Char) :
    (c.toNat < 0x10000 ∧ ∃ u, utf16Char c = [u] ∧ u.toNat = c.toNat) ∨
      (0x10000 ≤ c.toNat ∧ ∃ hi lo, utf16Char c = [hi, lo] ∧ hi.toNat = 0xD800 + (c.toNat - 0x10000) / 0x400 ∧
        lo.toNat = 0xDC00 + (c.toNat - 0x10000) % 0x400) := by
  have hc := char_range c
  unfold utf16Char
  by_cases h : c.toNat < 0x10000
  · left
    refine ⟨h, UInt16.ofNat c.toNat, if_pos h, ?_⟩
    rw [UInt16.toNat_ofNat']
    omega
  · right
    refine ⟨by omega, _, _, if_neg h, ?_, ?_⟩
    · rw [UInt16.toNat_ofNat']
      omega
    · rw [UInt16.toNat_ofNat']
      omega

theorem utf16Char_append_inj {c d : Char} {s t : NSString} (h : utf16Char c ++ s = utf16Char d ++ t) :
    c = d ∧ s = t := by
  have hc := char_range c
  have hd := char_range d
  rcases utf16Char_cases c with ⟨hcl, u, hu, hun⟩ | ⟨hcl, hi, lo, hu, hhi, hlo⟩
  · rcases utf16Char_cases d with ⟨hdl, v, hv, hvn⟩ | ⟨hdl, hi', lo', hv, hhi', hlo'⟩
    · rw [hu, hv] at h
      obtain ⟨rfl, hs⟩ := List.cons.inj h
      exact ⟨Char.toNat_inj.mp (hun.symm.trans hvn), hs⟩
    · rw [hu, hv] at h
      obtain ⟨rfl, -⟩ := List.cons.inj h
      omega
  · rcases utf16Char_cases d with ⟨hdl, v, hv, hvn⟩ | ⟨hdl, hi', lo', hv, hhi', hlo'⟩
    · rw [hu, hv] at h
      obtain ⟨rfl, -⟩ := List.cons.inj h
      omega
    · simp only [hu, hv, List.cons_append, List.nil_append, List.cons.injEq] at h
      obtain ⟨ehi, elo, hs⟩ := h
      rw [ehi] at hhi
      rw [elo] at hlo
      exact ⟨Char.toNat_inj.mp (by omega), hs⟩

theorem utf16_injective : Function.Injective utf16 := by
  intro s
  induction s with
  | nil =>
    intro t h
    cases t with
    | nil => rfl
    | cons d t => rcases utf16Char_cases d with ⟨-, v, hv, -⟩ | ⟨-, hi, lo, hv, -⟩ <;> simp [hv] at h
  | cons c s ih =>
    intro t h
    cases t with
    | nil => rcases utf16Char_cases c with ⟨-, v, hv, -⟩ | ⟨-, hi, lo, hv, -⟩ <;> simp [hv] at h
    | cons d t =>
      obtain ⟨rfl, h'⟩ := utf16Char_append_inj h
      rw [ih h']

theorem lf_not_mem_utf16 {t : Text} (h : '\n' ∉ t) : lf ∉ utf16 t := by
  intro hm
  obtain ⟨c, hc, hu⟩ := List.mem_flatMap.mp hm
  have hne : c.toNat ≠ 0x0A := fun e => h ((Char.toNat_inj.mp e : c = '\n') ▸ hc)
  have hlf : lf.toNat = 0x0A := rfl
  rcases utf16Char_cases c with ⟨-, v, hv, hvn⟩ | ⟨-, hi, lo, hv, hhi, hlo⟩
  · rw [hv, List.mem_singleton] at hu
    rw [← hvn, ← hu] at hne
    exact hne hlf
  · rw [hv, List.mem_cons, List.mem_singleton] at hu
    rcases hu with hu | hu
    · rw [← hu] at hhi
      omega
    · rw [← hu] at hlo
      omega

theorem utf8_length_le (c : Char) : (String.utf8EncodeChar c).length ≤ 3 * (utf16Char c).length := by
  have hlen : (String.utf8EncodeChar c).length ≤ if c.toNat < 0x10000 then 3 else 4 := by
    unfold String.utf8EncodeChar
    dsimp only
    repeat' split
    all_goals simp only [List.length_cons, List.length_nil]
    all_goals first | omega | (simp only [Char.toNat] at *; omega)
  rcases utf16Char_cases c with ⟨h, u, hu, -⟩ | ⟨h, hi, lo, hu, -⟩
  · rw [if_pos h] at hlen
    rw [hu]
    exact hlen
  · rw [if_neg (by omega)] at hlen
    rw [hu, List.length_cons, List.length_singleton]
    omega

/-! ## The lines -/

/-- What one sheet is made from. -/
structure SheetInput where
  path : Option Bytes
  user : Option Bytes
  cwd : Option Bytes
  verifyCode : Option Text
  argv : List Bytes
  style : PromptStyle

def SheetInput.format (alloc : AllocSite → Bool) (i : SheetInput) : Option (NSString × PromptOverflow) :=
  formatWithCommandPath alloc i.path i.user i.cwd i.verifyCode i.argv i.style

/-- The target user; none, or an empty name, is root. -/
def effectiveUser (user : Option Bytes) : Bytes :=
  match user with
  | some (c :: cs) => c :: cs
  | _ => lit "root"

/-- The directory, if there is one to show. -/
def effectiveCwd (cwd : Option Bytes) : Option Bytes :=
  match cwd with
  | some (c :: cs) => some (c :: cs)
  | _ => none

/-- The value whole, or the marker in its place. -/
def wholeOr (overflow : Bool) (value : Text) : NSString := if overflow then seeTerminal else utf16 value

def sheetLines (user : NSString) (cwd : Option NSString) (command verify closing : NSString) : List NSString :=
  [promptHeader, [], ns "RUN AS", user, []] ++ (match cwd with | some d => [ns "DIRECTORY", d, []] | none => [])
    ++ [ns "EXECUTE", command, [], verify, [], closing]

def cleanClosings : List NSString := [bottomClean, bottomClean.dropLast]
def longClosings : List NSString := [bottomTrunc, bottomTrunc.dropLast]

def PromptOverflow.any (ov : PromptOverflow) : Bool := ov.user || ov.path || ov.command

/-- The lines of a sheet whose items overflowed as `ov` says. -/
def SheetInput.lines (i : SheetInput) (path : Bytes) (verify : NSString) (ov : PromptOverflow) : List NSString :=
  sheetLines (wholeOr ov.user (escapeBytes (effectiveUser i.user)))
    ((effectiveCwd i.cwd).map fun d => wholeOr ov.path (escapeBytes d)) (wholeOr ov.command (fullCommandLineBytes path i.argv))
    verify (promptBottom i.style ov.any)

theorem pfEscape_eq {allocated : Bool} {s : Bytes} {v : NSString} (h : pfEscape allocated s = some v) :
    v = utf16 (escapeBytes s) := by
  unfold pfEscape at h
  split at h
  · exact (Option.some.inj h).symm
  · cases h

theorem userValue_eq {alloc : AllocSite → Bool} {user : Option Bytes} {v : NSString} (h : userValue alloc user = some v) :
    v = utf16 (escapeBytes (effectiveUser user)) := by
  have hroot : ns "root" = utf16 (escapeBytes (lit "root")) := by decide
  rcases user with _ | _ | ⟨c, cs⟩
  · exact (Option.some.inj h).symm.trans hroot
  · exact (Option.some.inj h).symm.trans hroot
  · exact pfEscape_eq h

theorem cwdValue_eq {alloc : AllocSite → Bool} {cwd : Option Bytes} {v : Option NSString} (h : cwdValue alloc cwd = some v) :
    v = (effectiveCwd cwd).map fun d => utf16 (escapeBytes d) := by
  rcases cwd with _ | _ | ⟨c, cs⟩
  · exact (Option.some.inj h).symm
  · exact (Option.some.inj h).symm
  · obtain ⟨w, hw, rfl⟩ := Option.map_eq_some_iff.mp h
    rw [pfEscape_eq hw]
    rfl

theorem pfCommandLine_eq {allocated : Bool} {path : Bytes} {argv : List Bytes} {v : NSString}
    (h : pfCommandLine allocated path argv = some v) : v = utf16 (fullCommandLineBytes path argv) := by
  unfold pfCommandLine at h
  split at h
  · exact (Option.some.inj h).symm
  · cases h

/-- The flags, from the lengths. -/
structure Overflows (i : SheetInput) (path : Bytes) (verify : NSString) (ov : PromptOverflow) : Prop where
  userFlag : ov.user = decide ((utf16 (escapeBytes (effectiveUser i.user))).length > maxUserDisplay)
  cwdFlag : ov.path = (effectiveCwd i.cwd).any fun d => decide ((utf16 (escapeBytes d)).length > maxCwdDisplay)
  commandFlag : ov.command = decide ((utf16 (fullCommandLineBytes path i.argv)).length >
    maxTotal - promptOverhead verify (wholeOr ov.user (escapeBytes (effectiveUser i.user)))
      ((effectiveCwd i.cwd).map fun d => wholeOr ov.path (escapeBytes d)))

theorem shownWithin_eq (budget : Nat) (t : Text) :
    shownWithin budget (utf16 t) = wholeOr (decide ((utf16 t).length > budget)) t := by
  unfold shownWithin wholeOr
  by_cases h : (utf16 t).length > budget <;> simp [h]

theorem intercalate_sheetLines (user : NSString) (cwd : Option NSString) (command verify closing : NSString) :
    [lf].intercalate (sheetLines user cwd command verify closing) =
      promptHeader ++ ns "\n\nRUN AS\n" ++ user ++ ns "\n\n"
        ++ (match cwd with | some p => ns "DIRECTORY\n" ++ p ++ ns "\n\n" | none => [])
        ++ ns "EXECUTE\n" ++ command ++ ns "\n\n" ++ verify ++ ns "\n\n" ++ closing := by
  have hrun : ns "\n\nRUN AS\n" = [lf, lf] ++ ns "RUN AS" ++ [lf] := by decide
  have hdir : ns "DIRECTORY\n" = ns "DIRECTORY" ++ [lf] := by decide
  have hexe : ns "EXECUTE\n" = ns "EXECUTE" ++ [lf] := by decide
  have hgap : ns "\n\n" = [lf, lf] := by decide
  rw [hrun, hdir, hexe, hgap]
  cases cwd <;> simp [sheetLines, List.intercalate_cons_cons]

theorem format_spec {alloc : AllocSite → Bool} {i : SheetInput} {text : NSString} {ov : PromptOverflow}
    (h : i.format alloc = some (text, ov)) :
    ∃ path verify, i.path = some path ∧ verifyLine alloc i.verifyCode = some verify ∧
      text = [lf].intercalate (i.lines path verify ov) ∧ Overflows i path verify ov := by
  unfold SheetInput.format formatWithCommandPath at h
  cases hp : i.path with
  | none => simp [hp] at h
  | some path =>
    simp only [hp] at h
    split at h
    · rename_i verify cwdVal userVal cmdVal hv hc hu hm
      obtain rfl := userValue_eq hu
      obtain rfl := cwdValue_eq hc
      obtain rfl := pfCommandLine_eq hm
      simp only [Option.some.injEq, Prod.mk.injEq] at h
      obtain ⟨htext, rfl⟩ := h
      have hcwd : ((effectiveCwd i.cwd).map fun d => utf16 (escapeBytes d)).map (shownWithin maxCwdDisplay) =
          (effectiveCwd i.cwd).map fun d => wholeOr
            (((effectiveCwd i.cwd).map fun d => utf16 (escapeBytes d)).any fun p => decide (p.length > maxCwdDisplay))
            (escapeBytes d) := by
        cases effectiveCwd i.cwd with
        | none => rfl
        | some d => simp [shownWithin_eq]
      refine ⟨path, verify, rfl, hv, ?_, ?_⟩
      · rw [← htext, SheetInput.lines, intercalate_sheetLines, shownWithin_eq, shownWithin_eq, hcwd]
        rfl
      · refine ⟨rfl, ?_, ?_⟩
        · simp [Option.any_map]
        · dsimp only
          rw [← shownWithin_eq, ← hcwd]
    · cases h

/-! ## Splitting gives the lines back -/

theorem lf_not_mem_clean {t : Text} (h : EscapeCore.Clean t) : lf ∉ utf16 t := lf_not_mem_utf16 (h.not_mem (by decide))

theorem lf_not_mem_wholeOr (overflow : Bool) {t : Text} (h : EscapeCore.Clean t) : lf ∉ wholeOr overflow t := by
  unfold wholeOr
  cases overflow with
  | false => exact lf_not_mem_clean h
  | true => exact (by decide : lf ∉ seeTerminal)

theorem lf_not_mem_promptBottom (style : PromptStyle) (anyOverflow : Bool) : lf ∉ promptBottom style anyOverflow := by
  cases style <;> cases anyOverflow <;> decide

theorem lf_not_mem_verifyLine {alloc : AllocSite → Bool} {code : Option Text} {v : NSString}
    (h : verifyLine alloc code = some v) : lf ∉ v := by
  rcases code with _ | _ | ⟨c, cs⟩
  · cases h
    decide
  · cases h
    decide
  · obtain ⟨w, hw, rfl⟩ := Option.map_eq_some_iff.mp h
    rw [pfEscape_eq hw, List.mem_append, not_or]
    have hclean := lf_not_mem_clean (EscapeCore.clean_escapeBytes (cString (c :: cs)))
    exact ⟨by decide, fun hm => hclean (List.mem_of_mem_take hm)⟩

theorem lf_not_mem_lines {alloc : AllocSite → Bool} {i : SheetInput} {path : Bytes} {verify : NSString}
    (h : verifyLine alloc i.verifyCode = some verify) (ov : PromptOverflow) : ∀ l ∈ i.lines path verify ov, lf ∉ l := by
  have huser := lf_not_mem_wholeOr ov.user (EscapeCore.clean_escapeBytes (effectiveUser i.user))
  have hcmd := lf_not_mem_wholeOr ov.command (EscapeCore.clean_fullCommandLineBytes path i.argv)
  have hcwd : ∀ d, lf ∉ wholeOr ov.path (escapeBytes d) :=
    fun d => lf_not_mem_wholeOr ov.path (EscapeCore.clean_escapeBytes d)
  have hverify := lf_not_mem_verifyLine h
  have hbottom := lf_not_mem_promptBottom i.style ov.any
  have hfixed : ∀ l ∈ [promptHeader, [], ns "RUN AS", ns "DIRECTORY", ns "EXECUTE"], lf ∉ l := by decide
  intro l hl
  unfold SheetInput.lines sheetLines at hl
  cases hc : effectiveCwd i.cwd with
  | none =>
    simp only [hc, Option.map_none, List.append_nil, List.cons_append, List.nil_append, List.mem_cons, List.not_mem_nil,
      or_false] at hl
    rcases hl with rfl | rfl | rfl | rfl | rfl | rfl | rfl | rfl | rfl | rfl | rfl
    all_goals first | assumption | exact hfixed _ (by simp)
  | some d =>
    have hd := hcwd d
    simp only [hc, Option.map_some, List.cons_append, List.nil_append, List.mem_cons, List.not_mem_nil, or_false] at hl
    rcases hl with rfl | rfl | rfl | rfl | rfl | rfl | rfl | rfl | rfl | rfl | rfl | rfl | rfl | rfl
    all_goals first | assumption | exact hfixed _ (by simp)

theorem sheetLines_ne_nil (user : NSString) (cwd : Option NSString) (command verify closing : NSString) :
    sheetLines user cwd command verify closing ≠ [] := by
  simp [sheetLines]

theorem promptBottom_closing (style : PromptStyle) (anyOverflow : Bool) :
    (promptBottom style anyOverflow ∈ longClosings ↔ anyOverflow = true) ∧
      (promptBottom style anyOverflow ∈ cleanClosings ↔ anyOverflow = false) := by
  cases style <;> cases anyOverflow <;> decide

theorem split_format {alloc : AllocSite → Bool} {i : SheetInput} {text : NSString} {ov : PromptOverflow}
    (h : i.format alloc = some (text, ov)) :
    ∃ path verify, i.path = some path ∧ verifyLine alloc i.verifyCode = some verify ∧
      text.splitOn lf = i.lines path verify ov := by
  obtain ⟨path, verify, hp, hv, rfl, -⟩ := format_spec h
  exact ⟨path, verify, hp, hv, List.splitOn_intercalate lf (lf_not_mem_lines hv ov) (sheetLines_ne_nil _ _ _ _ _)⟩

/-! ## A whole sheet determines the request -/

theorem sheetLines_inj {u u' c c' v v' b b' : NSString} {d d' : Option NSString}
    (h : sheetLines u d c v b = sheetLines u' d' c' v' b') : u = u' ∧ d = d' ∧ c = c' ∧ v = v' ∧ b = b' := by
  cases d <;> cases d' <;> simp_all [sheetLines]

theorem getLast_sheetLines (u : NSString) (d : Option NSString) (c v b : NSString) :
    (sheetLines u d c v b).getLast? = some b := by
  cases d <;> simp [sheetLines]

theorem whole_of_clean {style : PromptStyle} {ov : PromptOverflow} (h : promptBottom style ov.any ∈ cleanClosings) :
    ov = ⟨false, false, false⟩ := by
  have hany := (promptBottom_closing style ov.any).2.mp h
  rcases ov with ⟨u, p, c⟩
  simp only [PromptOverflow.any, Bool.or_eq_false_iff] at hany
  obtain ⟨⟨rfl, rfl⟩, rfl⟩ := hany
  rfl

theorem wholeOr_false_inj {s t : Text} (h : wholeOr false s = wholeOr false t) : s = t := utf16_injective h

theorem whole_sheet_determines {alloc alloc' : AllocSite → Bool} {i j : SheetInput} {text : NSString}
    {ov ov' : PromptOverflow} (hi : i.format alloc = some (text, ov)) (hj : j.format alloc' = some (text, ov'))
    (hclean : ∃ closing ∈ cleanClosings, (text.splitOn lf).getLast? = some closing) :
    effectiveUser i.user = effectiveUser j.user ∧ effectiveCwd i.cwd = effectiveCwd j.cwd ∧
      ∃ path path', i.path = some path ∧ j.path = some path' ∧ commandTokens path i.argv = commandTokens path' j.argv := by
  obtain ⟨path, verify, hp, -, hs⟩ := split_format hi
  obtain ⟨path', verify', hp', -, hs'⟩ := split_format hj
  obtain ⟨closing, hmem, hlast⟩ := hclean
  have hbi : promptBottom i.style ov.any = closing := by
    rw [hs, SheetInput.lines, getLast_sheetLines] at hlast
    exact Option.some.inj hlast
  have hbj : promptBottom j.style ov'.any = closing := by
    rw [hs', SheetInput.lines, getLast_sheetLines] at hlast
    exact Option.some.inj hlast
  obtain rfl := whole_of_clean (hbi ▸ hmem)
  obtain rfl := whole_of_clean (hbj ▸ hmem)
  obtain ⟨hu, hd, hc, -, -⟩ := sheetLines_inj (hs.symm.trans hs')
  refine ⟨EscapeCore.escapeBytes_injective (wholeOr_false_inj hu), ?_, path, path', hp, hp', ?_⟩
  · refine Option.map_injective (fun x y h => ?_) hd
    exact EscapeCore.escapeBytes_injective (wholeOr_false_inj h)
  · exact (EscapeCore.fullCommandLineBytes_eq_iff path path' i.argv j.argv).mp (wholeOr_false_inj hc)

/-- The sheet splits into its lines, each value whole unless its flag is set, the closing
    line telling whether some flag is; the command is the execute line's; and a sheet that
    closes clean determines the user, the directory and the command's tokens. -/
theorem sheet_shows_the_request :
    (∀ alloc i text ov, SheetInput.format alloc i = some (text, ov) →
      ∃ path verify closing, i.path = some path ∧ verifyLine alloc i.verifyCode = some verify ∧
        text.splitOn lf = sheetLines (wholeOr ov.user (escapeBytes (effectiveUser i.user)))
          ((effectiveCwd i.cwd).map fun d => wholeOr ov.path (escapeBytes d))
          (wholeOr ov.command (fullCommandLineBytes path i.argv)) verify closing ∧
        (closing ∈ longClosings ↔ ov.user = true ∨ ov.path = true ∨ ov.command = true) ∧
        (closing ∈ cleanClosings ↔ closing ∉ longClosings) ∧
        ∀ env color value, swExecCommandLine env path i.argv color = some value →
          Sgr.strip value = fullCommandLineBytes path i.argv) ∧
      ∀ alloc alloc' i j text ov ov', SheetInput.format alloc i = some (text, ov) →
        SheetInput.format alloc' j = some (text, ov') →
        (∃ closing ∈ cleanClosings, (text.splitOn lf).getLast? = some closing) →
        effectiveUser i.user = effectiveUser j.user ∧ effectiveCwd i.cwd = effectiveCwd j.cwd ∧
          ∃ path path', i.path = some path ∧ j.path = some path' ∧
            commandTokens path i.argv = commandTokens path' j.argv := by
  refine ⟨?_, fun _ _ _ _ _ _ _ hi hj hclean => whole_sheet_determines hi hj hclean⟩
  intro alloc i text ov h
  obtain ⟨path, verify, hp, hv, hs⟩ := split_format h
  obtain ⟨hlong, hclean⟩ := promptBottom_closing i.style ov.any
  refine ⟨path, verify, _, hp, hv, hs, ?_, ?_, fun _ _ _ hval => (swExecCommandLine_dressed hval).strip⟩
  · rw [hlong]
    simp [PromptOverflow.any, or_assoc]
  · rw [hlong, hclean, Bool.not_eq_true]

/-! ## The budget -/

theorem length_wholeOr_le {t : Text} {budget : Nat} (hb : 14 ≤ budget) :
    (wholeOr (decide ((utf16 t).length > budget)) t).length ≤ budget := by
  have hmarker : seeTerminal.length = 14 := by decide
  unfold wholeOr
  by_cases h : (utf16 t).length > budget
  · simp only [h, decide_true, if_true]
    omega
  · simp only [h, decide_false, Bool.false_eq_true, if_false]
    omega

theorem length_verifyLine_le {alloc : AllocSite → Bool} {code : Option Text} {v : NSString}
    (h : verifyLine alloc code = some v) : v.length ≤ 45 := by
  rcases code with _ | _ | ⟨c, cs⟩
  · cases h
    decide
  · cases h
    decide
  · obtain ⟨w, -, rfl⟩ := Option.map_eq_some_iff.mp h
    have hlabel : (ns "Verify Code: ").length = 13 := by decide
    rw [List.length_append, List.length_take, hlabel]
    unfold maxVerifyDisplay
    omega

/-- Whatever they are, the other parts leave the command 121 units. -/
theorem promptOverhead_le {verify user : NSString} {cwd : Option NSString} (hv : verify.length ≤ 45) (hu : user.length ≤ 64)
    (hd : ∀ d, cwd = some d → d.length ≤ 160) : promptOverhead verify user cwd ≤ 359 := by
  have hheader : promptHeader.length = 14 := by decide
  have hreserve : max bottomClean.length bottomTrunc.length = 41 := by decide
  unfold promptOverhead
  rw [hheader, hreserve]
  cases cwd with
  | none => dsimp only; omega
  | some d =>
    have := hd d rfl
    dsimp only
    omega

theorem overhead_of_overflows {alloc : AllocSite → Bool} {i : SheetInput} {path : Bytes} {verify : NSString}
    {ov : PromptOverflow} (hv : verifyLine alloc i.verifyCode = some verify) (ho : Overflows i path verify ov) :
    promptOverhead verify (wholeOr ov.user (escapeBytes (effectiveUser i.user)))
      ((effectiveCwd i.cwd).map fun d => wholeOr ov.path (escapeBytes d)) ≤ 359 := by
  refine promptOverhead_le (length_verifyLine_le hv) ?_ ?_
  · rw [ho.userFlag]
    exact length_wholeOr_le (by decide)
  · intro d hd
    obtain ⟨raw, hraw, rfl⟩ := Option.map_eq_some_iff.mp hd
    rw [ho.cwdFlag, hraw]
    exact @length_wholeOr_le (escapeBytes raw) maxCwdDisplay (by decide)

/-- The lines but for the command and the closing line take what the overhead counts. -/
theorem length_sheet (user : NSString) (cwd : Option NSString) (command verify closing : NSString) :
    ([lf].intercalate (sheetLines user cwd command verify closing)).length + max bottomClean.length bottomTrunc.length =
      promptOverhead verify user cwd + command.length + closing.length := by
  have hrun : (ns "\n\nRUN AS\n").length = 9 := by decide
  have hdir : (ns "DIRECTORY\n").length = 10 := by decide
  have hexe : (ns "EXECUTE\n").length = 8 := by decide
  have hgap : (ns "\n\n").length = 2 := by decide
  rw [intercalate_sheetLines]
  unfold promptOverhead
  cases cwd with
  | none =>
    simp only [List.length_append, List.length_nil, hrun, hexe, hgap]
    omega
  | some d =>
    simp only [List.length_append, hrun, hdir, hexe, hgap]
    omega

theorem length_promptBottom_le (style : PromptStyle) (anyOverflow : Bool) :
    (promptBottom style anyOverflow).length ≤ max bottomClean.length bottomTrunc.length := by
  cases style <;> cases anyOverflow <;> decide

/-- The text fits, and the command's budget is computed without a wrap and holds the marker. -/
theorem sheet_fits {alloc : AllocSite → Bool} {i : SheetInput} {text : NSString} {ov : PromptOverflow}
    (h : i.format alloc = some (text, ov)) :
    text.length ≤ maxTotal ∧ ∃ path verify, i.path = some path ∧ verifyLine alloc i.verifyCode = some verify ∧
      text.splitOn lf = i.lines path verify ov ∧ Overflows i path verify ov ∧
      promptOverhead verify (wholeOr ov.user (escapeBytes (effectiveUser i.user)))
        ((effectiveCwd i.cwd).map fun d => wholeOr ov.path (escapeBytes d)) + 121 ≤ maxTotal := by
  obtain ⟨path, verify, hp, hv, htext, ho⟩ := format_spec h
  have hover := overhead_of_overflows hv ho
  have hlf : ∀ l ∈ i.lines path verify ov, lf ∉ l := lf_not_mem_lines hv ov
  have hsplit := List.splitOn_intercalate lf hlf (sheetLines_ne_nil _ _ _ _ _)
  have htotal : maxTotal = 480 := rfl
  refine ⟨?_, path, verify, hp, hv, by rw [htext]; exact hsplit, ho, by omega⟩
  have hcmd := @length_wholeOr_le (fullCommandLineBytes path i.argv)
    (maxTotal - promptOverhead verify (wholeOr ov.user (escapeBytes (effectiveUser i.user)))
      ((effectiveCwd i.cwd).map fun d => wholeOr ov.path (escapeBytes d))) (by omega)
  rw [← ho.commandFlag] at hcmd
  have hlen := length_sheet (wholeOr ov.user (escapeBytes (effectiveUser i.user)))
    ((effectiveCwd i.cwd).map fun d => wholeOr ov.path (escapeBytes d)) (wholeOr ov.command (fullCommandLineBytes path i.argv))
    verify (promptBottom i.style ov.any)
  have hbottom := length_promptBottom_le i.style ov.any
  have heq : text = [lf].intercalate (i.lines path verify ov) := htext
  rw [SheetInput.lines] at heq
  rw [← heq] at hlen
  omega

/-! ## A long directory overflows -/

/-- A piece shows at least a third as many units as the bytes it stands for. -/
theorem bytes_le_piece (d : EscapeCore.Item) (rest : List EscapeCore.Item) :
    (EscapeCore.Item.bytes d).length ≤ 3 * (utf16 (EscapeCore.pieceOf d rest).text).length := by
  have hunit : ∀ {t : Text}, t.length ≤ (utf16 t).length := by
    intro t
    induction t with
    | nil => exact Nat.le_refl _
    | cons c t ih =>
      rw [utf16_cons, List.length_append, List.length_cons]
      rcases utf16Char_cases c with ⟨-, u, hu, -⟩ | ⟨-, hi, lo, hu, -⟩ <;> (rw [hu]; simp only [List.length_cons]; omega)
  have hpoint : ∀ u, 4 ≤ (utf16 (EscapeCore.pushCodePoint u)).length := by
    intro u
    refine Nat.le_trans ?_ hunit
    simp only [EscapeCore.pushCodePoint, List.length_cons, List.length_append]
    omega
  have hitem : (EscapeCore.Item.bytes d).length ≤ 4 := by
    cases d with
    | error b => exact (by decide : 1 ≤ 4)
    | ok c =>
      rw [EscapeCore.Item.bytes, String.length_utf8EncodeChar]
      exact Char.utf8Size_le_four c
  cases hp : EscapeCore.pieceOf d rest with
  | char c =>
    obtain ⟨rfl, -⟩ := EscapeCore.pieceOf_char hp
    rw [EscapeCore.Piece.text, utf16_cons, utf16_nil, List.append_nil]
    exact utf8_length_le c
  | hidden u =>
    have := hpoint u
    rw [EscapeCore.Piece.text]
    omega
  | byte b =>
    have := @hunit (EscapeCore.pushByte b)
    rw [EscapeCore.Piece.text]
    simp only [EscapeCore.pushByte, List.length_cons] at this ⊢
    omega
  | backslash =>
    have := hpoint 0x5C
    rw [EscapeCore.Piece.text]
    omega

theorem bytes_le_pieces : ∀ ds : List EscapeCore.Item,
    (ds.flatMap EscapeCore.Item.bytes).length ≤ 3 * (utf16 (EscapeCore.textOf (EscapeCore.piecesOf ds))).length
  | [] => Nat.zero_le _
  | d :: ds => by
    have hd := bytes_le_piece d ds
    have ih := bytes_le_pieces ds
    rw [List.flatMap_cons, EscapeCore.piecesOf, EscapeCore.textOf_cons, utf16_append, List.length_append, List.length_append]
    omega

/-- The shown value has at least a third as many units as the raw value has bytes. -/
theorem bytes_le_shown (raw : Bytes) : raw.length ≤ 3 * (utf16 (escapeBytes raw)).length := by
  have h := bytes_le_pieces (EscapeCore.decoded raw)
  rwa [EscapeCore.flatMap_bytes_decoded] at h

end SudoWhat.Plugin
