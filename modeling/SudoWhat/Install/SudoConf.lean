/-
  SudoWhat.Install.SudoConf — what the installer and the uninstaller do to `/etc/sudo.conf`
  (step (3) of `install/install.bash`, `install/uninstall.bash`).

  Installing appends a Plugin line for each symbol that `grep -F` does not find anywhere in
  the file; uninstalling drops every line that mentions a symbol. Appending with `>>` adds
  bytes, not a line: what stands after the last line feed and the new line become one.

  `grep` takes a file with a NUL for binary and prints none of its lines, at most a notice.

  Proved: what the step leaves of a file, by what the file mentions (`sudoConfStep_eq`);
  uninstalling gives the lines back exactly when the file held no NUL and was empty or ended
  with a line feed (`uninstall_undoes_iff`). As built it takes an unterminated last line along
  (`uninstall_takes_a_line`), and all lines of a file with a NUL.
-/

import SudoWhat.Lib.Lines
import SudoWhat.Lib.Resync
import SudoWhat.Pam.SudoConf

namespace SudoWhat.Install

open SudoWhat.Lib
open SudoWhat.Lib.Lines (linesOf)

abbrev Bytes := List UInt8

/-! ## The scripts -/

def lf : UInt8 := 0x0A

def nul : UInt8 := 0x00

/-- The two plugins the installer registers. -/
inductive Plugin where
  | approval
  | audit
  deriving DecidableEq, Repr

def Plugin.symbol : Plugin → Text
  | .approval => "sudowhat_approval_plugin".toList
  | .audit => "sudowhat_audit_plugin".toList

/-- `PLUGIN_DST` and `AUDIT_DST`. -/
def Plugin.path : Plugin → Text
  | .approval => "/usr/local/libexec/sudo/sudowhat_approval.so".toList
  | .audit => "/usr/local/libexec/sudo/sudowhat_audit.so".toList

/-- `SUDO_CONF_LINE` and `AUDIT_CONF_LINE`. -/
def Plugin.confLine : Plugin → Text
  | .approval => "Plugin sudowhat_approval_plugin /usr/local/libexec/sudo/sudowhat_approval.so".toList
  | .audit => "Plugin sudowhat_audit_plugin /usr/local/libexec/sudo/sudowhat_audit.so".toList

/-- `grep -qF`: some line of the file holds the string. -/
def grepF (string file : Bytes) : Bool := (linesOf lf file).any fun line => Lines.contains string line

/-- `grep -qF` for a symbol. -/
def mentions (p : Plugin) (file : Bytes) : Bool := grepF (Utf8.encode p.symbol) file

/-- `printf '%s\n' … >>`. -/
def appendConf (p : Plugin) (file : Bytes) : Bytes := file ++ Utf8.encode p.confLine ++ [lf]

/-- Step (3) of the installer. -/
def sudoConfStep (prior : Option Bytes) : Bytes :=
  -- a file that is not there is created empty
  let conf := prior.getD []
  if !mentions .audit conf || !mentions .approval conf then
    let conf := if mentions .audit conf then conf else appendConf .audit conf
    if mentions .approval conf then conf else appendConf .approval conf
  else conf

/-- A line that `sudowhat_(approval|audit)_plugin` matches. -/
def isOurs (line : Bytes) : Bool :=
  Lines.contains (Utf8.encode Plugin.approval.symbol) line || Lines.contains (Utf8.encode Plugin.audit.symbol) line

/-- What `grep` prints for a binary file of which it selects a line: a notice, or nothing. -/
structure BinaryNotice where
  text : Bytes
  noNul : nul ∉ text
  unmentioned : ∀ p, mentions p text = false

def bsdNotice : BinaryNotice where
  text := lit "Binary file /etc/sudo.conf matches\n"
  noNul := by decide
  unmentioned := by
    intro p
    cases p <;> decide

/-- `grep -vE` for both symbols. -/
def grepV (notice : BinaryNotice) (conf : Bytes) : Bytes :=
  let kept := (linesOf lf conf).filter fun line => !isOurs line
  if nul ∈ conf then if kept = [] then [] else notice.text
  else Fields.unlines lf kept

/-- The sudo.conf step of the uninstaller, on a file that is there. -/
def uninstallConf (notice : BinaryNotice) (conf : Bytes) : Bytes :=
  -- `grep -q` finds the symbols in a binary file too
  if (linesOf lf conf).any isOurs then grepV notice conf else conf

/-- (2) of the self-test: the file names both plugins at their paths. -/
def selfTestConf (conf : Bytes) : Bool :=
  grepF (lit "sudowhat_approval_plugin /usr/local/libexec/sudo/sudowhat_approval.so") conf
    && grepF (lit "sudowhat_audit_plugin /usr/local/libexec/sudo/sudowhat_audit.so") conf

/-! ## Mentions -/

theorem symbol_ascii (p : Plugin) : ∃ c word, p.symbol = c :: word ∧ c.toNat < 0x80 := by
  cases p
  · exact ⟨'s', "udowhat_approval_plugin".toList, by decide, by decide⟩
  · exact ⟨'s', "udowhat_audit_plugin".toList, by decide, by decide⟩

theorem symbol_bytes (p : Plugin) : Utf8.encode p.symbol ≠ [] ∧ lf ∉ Utf8.encode p.symbol ∧ 0x50 ∉ Utf8.encode p.symbol := by
  cases p <;> decide

theorem mentions_iff {p : Plugin} {file : Bytes} : mentions p file = true ↔ Utf8.encode p.symbol <:+: file := by
  have hs := symbol_bytes p
  have h := @Lines.infix_linesOf _ lf _ _ _ file hs.1 hs.2.1
  rw [← h]
  simp [mentions, grepF, Lines.contains_iff]

theorem mentions_encode {p : Plugin} {text : Text} : mentions p (Utf8.encode text) = true ↔ p.symbol <:+: text := by
  obtain ⟨c, word, hs, hc⟩ := symbol_ascii p
  rw [mentions_iff, hs, Utf8.infix_encode_iff hc]

theorem mentions_appendConf {p q : Plugin} (hpq : p ≠ q) (file : Bytes) : mentions p (appendConf q file) = mentions p file := by
  have hline : Lines.contains (Utf8.encode p.symbol) (Utf8.encode q.confLine ++ [lf]).tail = false := by
    cases p <;> cases q <;> first | exact absurd rfl hpq | decide
  have hrest : Utf8.encode q.confLine ++ [lf] = 0x50 :: (Utf8.encode q.confLine ++ [lf]).tail := by
    cases q <;> rfl
  rw [Bool.eq_iff_iff, mentions_iff, mentions_iff, appendConf, List.append_assoc, hrest]
  constructor
  · intro h
    rcases Lines.infix_append_cons (symbol_bytes p).2.2 h with h | h
    · exact h
    · exact absurd (Lines.contains_iff.mpr h) (Bool.eq_false_iff.mp hline)
  · intro h
    exact h.trans (List.prefix_append _ _).isInfix

theorem sudoConfStep_eq (prior : Option Bytes) : sudoConfStep prior =
    prior.getD [] ++ (if mentions .audit (prior.getD []) then [] else Utf8.encode Plugin.audit.confLine ++ [lf])
      ++ (if mentions .approval (prior.getD []) then [] else Utf8.encode Plugin.approval.confLine ++ [lf]) := by
  have happended := @mentions_appendConf .approval .audit (by decide) (prior.getD [])
  unfold sudoConfStep
  dsimp only
  cases ha : mentions .audit (prior.getD []) with
  | true => cases hb : mentions .approval (prior.getD []) <;> simp [hb, appendConf]
  | false =>
    simp only [Bool.false_eq_true, if_false, happended]
    cases hb : mentions .approval (prior.getD []) <;> simp [appendConf]

/-! ## Undoing it -/

theorem isOurs_iff {line : Bytes} : isOurs line = true ↔ ∃ p : Plugin, Utf8.encode p.symbol <:+: line := by
  unfold isOurs
  rw [Bool.or_eq_true, Lines.contains_iff, Lines.contains_iff]
  constructor
  · rintro (h | h)
    · exact ⟨.approval, h⟩
    · exact ⟨.audit, h⟩
  · intro ⟨p, h⟩
    cases p
    · exact .inl h
    · exact .inr h

theorem exists_mentions_of_isOurs {line file : Bytes} (hl : line ∈ linesOf lf file) (h : isOurs line = true) :
    ∃ p, mentions p file = true := by
  obtain ⟨p, hp⟩ := isOurs_iff.mp h
  have hs := symbol_bytes p
  exact ⟨p, mentions_iff.mpr ((Lines.infix_linesOf hs.1 hs.2.1).mp ⟨line, hl, hp⟩)⟩

theorem isOurs_appended (p : Plugin) (before : Bytes) : isOurs (before ++ Utf8.encode p.confLine) = true := by
  have hline : Lines.contains (Utf8.encode p.symbol) (Utf8.encode p.confLine) = true := by cases p <;> decide
  exact isOurs_iff.mpr ⟨p, (Lines.contains_iff.mp hline).trans (List.suffix_append _ _).isInfix⟩

theorem lf_not_mem_confLine (p : Plugin) : lf ∉ Utf8.encode p.confLine := by cases p <;> decide

theorem nul_not_mem_confLine (p : Plugin) : nul ∉ Utf8.encode p.confLine ++ [lf] := by cases p <;> decide

theorem nul_mem_step {file : Bytes} : nul ∈ sudoConfStep (some file) ↔ nul ∈ file := by
  have hline (p : Plugin) : nul ∉ if mentions p file then [] else Utf8.encode p.confLine ++ [lf] := by
    split
    · exact List.not_mem_nil
    · exact nul_not_mem_confLine p
  rw [sudoConfStep_eq, Option.getD_some]
  simp only [List.mem_append, hline, or_false]

theorem nul_not_mem_grepV {notice : BinaryNotice} {conf : Bytes} (h : nul ∈ conf) : nul ∉ grepV notice conf := by
  simp only [grepV, h, if_true]
  split
  · exact List.not_mem_nil
  · exact notice.noNul

/-- What becomes of the text behind the last line feed: the first line appended goes on where
    it stood. -/
def appendedLines (rest : Bytes) : List Bytes :=
  [rest ++ Utf8.encode Plugin.audit.confLine, Utf8.encode Plugin.approval.confLine]

theorem isOurs_of_appendedLines {rest l : Bytes} (hl : l ∈ appendedLines rest) : isOurs l = true := by
  rcases List.mem_pair.mp hl with rfl | rfl
  · exact isOurs_appended .audit rest
  · exact isOurs_appended .approval []

theorem lf_not_mem_appendedLines {rest l : Bytes} (hrest : lf ∉ rest) (hl : l ∈ appendedLines rest) : lf ∉ l := by
  rcases List.mem_pair.mp hl with rfl | rfl
  · intro hm
    rcases List.mem_append.mp hm with hm | hm
    · exact hrest hm
    · exact lf_not_mem_confLine .audit hm
  · exact lf_not_mem_confLine .approval

section
variable {ls : List Bytes} {rest : Bytes} (h : ∀ p, mentions p (Fields.unlines lf ls ++ rest) = false)
include h

/-- The lines the step leaves of a file that mentions neither plugin. -/
theorem sudoConfStep_lines :
    sudoConfStep (some (Fields.unlines lf ls ++ rest)) = Fields.unlines lf (ls ++ appendedLines rest) := by
  rw [sudoConfStep_eq, Option.getD_some, h .audit, h .approval, if_neg Bool.false_ne_true, if_neg Bool.false_ne_true,
    Lines.unlines_append, appendedLines, Lines.unlines_cons, Lines.unlines_singleton]
  simp only [List.append_assoc, List.nil_append, List.cons_append]

variable (hls : ∀ l ∈ ls, lf ∉ l) (hrest : lf ∉ rest)
include hls hrest

theorem not_isOurs {l : Bytes} (hl : l ∈ ls) : isOurs l = false := by
  rw [Bool.eq_false_iff]
  intro hours
  have hline : l ∈ linesOf lf (Fields.unlines lf ls ++ rest) := by
    rw [Lines.linesOf_eq hls hrest]
    exact List.mem_append_left _ hl
  obtain ⟨p, hp⟩ := exists_mentions_of_isOurs hline hours
  exact absurd ((h p).symm.trans hp) Bool.false_ne_true

/-- Both appended lines go, and with the first whatever it was appended to. -/
theorem kept_appended : (linesOf lf (Fields.unlines lf (ls ++ appendedLines rest))).any isOurs = true ∧
    ((linesOf lf (Fields.unlines lf (ls ++ appendedLines rest))).filter fun line => !isOurs line) = ls := by
  have hnew : ∀ l ∈ ls ++ appendedLines rest, lf ∉ l := by
    intro l hl
    rcases List.mem_append.mp hl with hl | hl
    · exact hls l hl
    · exact lf_not_mem_appendedLines hrest hl
  have hours : (appendedLines rest).filter (fun line => !isOurs line) = [] :=
    List.filter_eq_nil_iff.mpr fun l hl => by simp [isOurs_of_appendedLines hl]
  have hkept : ls.filter (fun line => !isOurs line) = ls :=
    List.filter_eq_self.mpr fun l hl => by rw [not_isOurs h hls hrest hl]; rfl
  rw [Lines.linesOf_unlines hnew]
  refine ⟨?_, ?_⟩
  · exact List.any_eq_true.mpr ⟨_, List.mem_append_right _ List.mem_cons_self, isOurs_appended .audit rest⟩
  · rw [List.filter_append, hours, hkept, List.append_nil]

theorem uninstallConf_appended (notice : BinaryNotice) (hnul : nul ∉ Fields.unlines lf ls ++ rest) :
    uninstallConf notice (sudoConfStep (some (Fields.unlines lf ls ++ rest))) = Fields.unlines lf ls := by
  obtain ⟨hours, hkept⟩ := kept_appended h hls hrest
  have hstep : nul ∉ sudoConfStep (some (Fields.unlines lf ls ++ rest)) := fun hn => hnul (nul_mem_step.mp hn)
  rw [sudoConfStep_lines h] at hstep ⊢
  rw [uninstallConf, if_pos hours, grepV, if_neg hstep, hkept]

end

section
variable {notice : BinaryNotice} {file : Bytes} (h : ∀ p, mentions p file = false)
include h

theorem nul_not_mem_uninstallConf (hnul : nul ∈ file) : nul ∉ uninstallConf notice (sudoConfStep (some file)) := by
  have hstep := nul_mem_step.mpr hnul
  obtain ⟨ls, rest, hls, hrest, rfl⟩ := @Lines.exists_lines _ lf file
  rw [sudoConfStep_lines h] at hstep ⊢
  rw [uninstallConf, if_pos (kept_appended h hls hrest).1]
  exact nul_not_mem_grepV hstep

/-- Uninstalling what was installed leaves the lines of the file as they were, exactly when it
    held no NUL and was empty or its last line was ended. -/
theorem uninstall_undoes_iff : linesOf lf (uninstallConf notice (sudoConfStep (some file))) = linesOf lf file ↔
    nul ∉ file ∧ (file = [] ∨ file.getLast? = some lf) := by
  by_cases hnul : nul ∈ file
  · -- the line with the NUL is gone
    have hgone := @nul_not_mem_uninstallConf notice file h hnul
    constructor
    · intro heq
      have hline := (Lines.mem_linesOf_iff (show nul ≠ lf by decide)).mpr hnul
      rw [← heq, Lines.mem_linesOf_iff (show nul ≠ lf by decide)] at hline
      exact absurd hline hgone
    · exact fun hno => absurd hnul hno.1
  · obtain ⟨ls, rest, hls, hrest, rfl⟩ := @Lines.exists_lines _ lf file
    rw [uninstallConf_appended h hls hrest notice hnul, Lines.linesOf_unlines hls, Lines.linesOf_eq hls hrest,
      and_iff_right hnul, Lines.ends_in_break_iff hrest]
    cases rest with
    | nil => simp
    | cons c rest => simp

end

theorem uninstall_undoes_iff_commented :
    linesOf lf (uninstallConf bsdNotice (sudoConfStep (some (lit "# sudo.conf\n")))) = linesOf lf (lit "# sudo.conf\n") :=
  (uninstall_undoes_iff fun p => by cases p <;> decide).mpr ⟨by decide, .inr (by decide)⟩

/-- As built: a last line that was not ended is taken along. -/
theorem uninstall_takes_a_line : (∀ p, mentions p (lit "Set disable_coredump false") = false) ∧
    linesOf lf (uninstallConf bsdNotice (sudoConfStep (some (lit "Set disable_coredump false")))) ≠
      linesOf lf (lit "Set disable_coredump false") := by
  refine ⟨fun p => by cases p <;> decide, ?_⟩
  decide

example : linesOf lf (uninstallConf bsdNotice (sudoConfStep (some (lit "a\x00b\nSet x y\n")))) =
    [lit "Binary file /etc/sudo.conf matches"] := by decide

end SudoWhat.Install
