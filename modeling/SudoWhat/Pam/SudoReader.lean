/-
  SudoWhat.Pam.SudoReader — what `SudoConfChecker` accepts, and what sudo loads from the
  same text.

  sudo's reader is sudo.conf(5)'s: a line that ends in a backslash goes on in the next one,
  a logical line is one directive, `#` begins a comment, and fields stand between spaces and
  tabs. Whether a comment line goes on too is left open (`joinComments`). The checker reads
  physical lines and takes every Unicode space separator for a blank.

  Proved: an accepted file is loaded exactly where some logical line, its physical lines
  joined, is one the checker's rule takes and has no other blank than spaces and tabs up to
  its path (`accepted_is_loaded_iff`). As built the end of another directive is accepted
  (`a_continuation_is_accepted`).
-/

import SudoWhat.Pam.SudoConf

namespace SudoWhat.Pam

open SudoWhat.Lib

/-! ## sudo's reader -/

def isAsciiBlank (c : Char) : Bool := c == ' ' || c == '\t'

/-- A comment, or the first line of one. -/
def isComment (line : Text) : Bool := (line.dropWhile isAsciiBlank).head? == some '#'

/-- The line goes on in the next one. -/
def continues (joinComments : Bool) (line : Text) : Bool :=
  line.getLast? == some '\\' && (joinComments || !isComment line)

/-- The physical lines of each logical line. -/
def lineGroups (joinComments : Bool) : List Text → List (List Text)
  | [] => []
  | l :: ls =>
    if continues joinComments l then
      match lineGroups joinComments ls with
      | [] => [[l]]
      | group :: groups => (l :: group) :: groups
    else [l] :: lineGroups joinComments ls

/-- A group as one line: the backslashes that join it are dropped. -/
def joined (joinComments : Bool) : List Text → Text
  | [] => []
  | l :: ls => (if continues joinComments l then l.dropLast else l) ++ joined joinComments ls

/-- The directive of a logical line, if it is one. -/
def directive (line : Text) : Option (List Text) := if isComment line then none else some (Fields.fields isAsciiBlank line)

/-- sudo registers the plugin from this text. -/
def sudoRegisters (joinComments : Bool) (symbol pluginPath text : Text) : Bool :=
  (lineGroups joinComments (text.splitOn '\n')).any fun group =>
    (directive (joined joinComments group)).any (isPluginLine symbol pluginPath)

/-! ## One line -/

/-- The checker takes this line. -/
def Accepted (symbol pluginPath line : Text) : Prop := (confLine line).any (isPluginLine symbol pluginPath) = true

/-- Up to its third field, and where that ends, the line has no blank but spaces and tabs. -/
def AsciiSpaced (line : Text) : Prop :=
  ∃ lead tail, line = lead ++ tail ∧ (Fields.fields isWhitespace lead).length = 3 ∧
    (∀ c ∈ lead, isWhitespace c = true → isAsciiBlank c = true) ∧ Fields.AtBreak isAsciiBlank tail

theorem whitespace_of_ascii {c : Char} (h : isAsciiBlank c = true) : isWhitespace c = true := by
  simp only [isAsciiBlank, Bool.or_eq_true, beq_iff_eq] at h
  rcases h with rfl | rfl
  · decide
  · decide

theorem break_of_ascii {tail : Text} (h : Fields.AtBreak isAsciiBlank tail) : Fields.AtBreak isWhitespace tail :=
  h.imp id fun ⟨b, t, e, hb⟩ => ⟨b, t, e, whitespace_of_ascii hb⟩

theorem accepted_iff {symbol pluginPath line : Text} : Accepted symbol pluginPath line ↔
    ∃ rest, Fields.fields isWhitespace line = pluginWord :: symbol :: pluginPath :: rest := by
  unfold Accepted
  constructor
  · intro h
    obtain ⟨f, hf, hl⟩ := (Option.any_eq_true _ _).mp h
    obtain ⟨rest, rfl⟩ := isPluginLine_iff.mp hl
    unfold confLine at hf
    dsimp only at hf
    split at hf
    · cases hf
    · rw [Fields.fields_trim] at hf
      exact ⟨rest, Option.some.inj hf⟩
  · intro ⟨rest, h⟩
    -- the line begins with `Plugin`, so it is neither blank nor a comment
    obtain ⟨tail, hd, -, -, -⟩ := Fields.dropWhile_of_fields h
    have htrim : Fields.trim isWhitespace line = Fields.trim isWhitespace (pluginWord ++ tail) := by
      have := @Fields.trim_behind_blanks _ isWhitespace (line.takeWhile isWhitespace) (fun c hc => List.mem_takeWhile_imp hc)
        (line.dropWhile isWhitespace)
      rwa [List.takeWhile_append_dropWhile, hd] at this
    obtain ⟨y, hy⟩ := Fields.trim_cons (show isWhitespace 'P' = false by decide) ("lugin".toList ++ tail)
    have hline : Fields.trim isWhitespace line = 'P' :: y := htrim.trans hy
    have hconf : confLine line = some (Fields.fields isWhitespace line) := by
      unfold confLine
      dsimp only
      rw [if_neg (by simp [hline]), Fields.fields_trim]
    rw [hconf, h]
    exact isPluginLine_iff.mpr ⟨rest, rfl⟩

theorem directive_iff {symbol pluginPath line : Text} : (directive line).any (isPluginLine symbol pluginPath) = true ↔
    ∃ rest, Fields.fields isAsciiBlank line = pluginWord :: symbol :: pluginPath :: rest := by
  unfold directive
  constructor
  · intro h
    split at h
    · cases h
    · exact isPluginLine_iff.mp h
  · intro ⟨rest, h⟩
    obtain ⟨tail, hd, -, -, -⟩ := Fields.dropWhile_of_fields h
    have hcomment : isComment line = false := by
      unfold isComment
      rw [hd]
      rfl
    rw [hcomment, if_neg Bool.false_ne_true, h]
    exact isPluginLine_iff.mpr ⟨rest, rfl⟩

theorem directive_of_accepted {symbol pluginPath line : Text} (ha : Accepted symbol pluginPath line) (hs : AsciiSpaced line) :
    (directive line).any (isPluginLine symbol pluginPath) = true := by
  obtain ⟨rest, hf⟩ := accepted_iff.mp ha
  obtain ⟨lead, tail, rfl, hlen, hblank, hbreak⟩ := hs
  have hsame : Fields.fields isWhitespace lead = Fields.fields isAsciiBlank lead := by
    refine Fields.fields_congr fun c hc => ?_
    rw [Bool.eq_iff_iff]
    exact ⟨hblank c hc, whitespace_of_ascii⟩
  rw [Fields.fields_append_break lead (break_of_ascii hbreak)] at hf
  have hlead : Fields.fields isWhitespace lead = [pluginWord, symbol, pluginPath] := by
    have h3 : pluginWord :: symbol :: pluginPath :: rest = [pluginWord, symbol, pluginPath] ++ rest := rfl
    exact (List.append_inj (hf.trans h3) hlen).1
  rw [directive_iff, Fields.fields_append_break lead hbreak, ← hsame, hlead]
  exact ⟨_, rfl⟩

/-- A symbol and a path without blanks that sudo reads off a line are read off it by the
    checker, and the line is spaced so. -/
theorem accepted_of_directive {symbol pluginPath line : Text} (hsymbol : ∀ c ∈ symbol, isWhitespace c = false)
    (hpath : ∀ c ∈ pluginPath, isWhitespace c = false) (h : (directive line).any (isPluginLine symbol pluginPath) = true) :
    Accepted symbol pluginPath line ∧ AsciiSpaced line := by
  obtain ⟨rest, hf⟩ := directive_iff.mp h
  have h3 : pluginWord :: symbol :: pluginPath :: rest = [pluginWord, symbol, pluginPath] ++ rest := rfl
  obtain ⟨lead, tail, rfl, hlead, hbreak, -⟩ := Fields.fields_append_split (List.cons_ne_nil _ _) (hf.trans h3)
  have hblank : ∀ c ∈ lead, isWhitespace c = true → isAsciiBlank c = true := by
    intro c hc hw
    by_contra hnot
    have hm : c ∈ (Fields.fields isAsciiBlank lead).flatten := by
      rw [Fields.flatten_fields]
      exact List.mem_filter.mpr ⟨hc, by simp [hnot]⟩
    rw [hlead] at hm
    have hword : pluginWord.all (fun c => !isWhitespace c) = true := by decide
    simp only [List.flatten_cons, List.flatten_nil, List.append_nil, List.mem_append] at hm
    rcases hm with hm | hm | hm
    · have := List.all_eq_true.mp hword c hm
      rw [hw] at this
      cases this
    · rw [hsymbol c hm] at hw
      cases hw
    · rw [hpath c hm] at hw
      cases hw
  have hsame : Fields.fields isWhitespace lead = [pluginWord, symbol, pluginPath] := by
    rw [← hlead]
    refine Fields.fields_congr fun c hc => ?_
    rw [Bool.eq_iff_iff]
    exact ⟨hblank c hc, whitespace_of_ascii⟩
  refine ⟨accepted_iff.mpr ⟨Fields.fields isWhitespace tail, ?_⟩, lead, tail, rfl, ?_, hblank, hbreak⟩
  · rw [Fields.fields_append_break lead (break_of_ascii hbreak), hsame]
    rfl
  · rw [hsame]
    rfl

/-! ## The file -/

theorem accepted_file_iff {confPath symbol pluginPath text : Text} :
    verifyConf confPath symbol pluginPath (.ok text) = .ok () ↔
      ∃ line ∈ text.splitOn '\n', Accepted symbol pluginPath line := by
  have hany : (confLines text).any (isPluginLine symbol pluginPath) = true ↔
      ∃ line ∈ text.splitOn '\n', Accepted symbol pluginPath line := by
    unfold confLines Accepted
    rw [List.any_filterMap, List.any_eq_true]
    rfl
  rw [← hany]
  unfold verifyConf
  dsimp only
  split
  · next h => exact iff_of_true rfl h
  · next h => exact iff_of_false nofun h

/-- What is accepted is loaded exactly if some logical line, its physical lines joined, is one
    the checker's rule takes, spaced with spaces and tabs as far as its path. -/
theorem accepted_is_loaded_iff (joinComments : Bool) (confPath symbol pluginPath text : Text) :
    (verifyConf confPath symbol pluginPath (.ok text) = .ok () → sudoRegisters joinComments symbol pluginPath text = true) ↔
    (verifyConf confPath symbol pluginPath (.ok text) = .ok () →
      ∃ group ∈ lineGroups joinComments (text.splitOn '\n'),
        Accepted symbol pluginPath (joined joinComments group) ∧ AsciiSpaced (joined joinComments group)) := by
  refine imp_congr_right fun hfile => ?_
  -- The accepted line says that neither name holds a blank of any kind.
  obtain ⟨line, -, haccepted⟩ := accepted_file_iff.mp hfile
  obtain ⟨rest, hf⟩ := accepted_iff.mp haccepted
  have hsymbol : ∀ c ∈ symbol, isWhitespace c = false :=
    @Fields.not_blank_of_mem_fields _ isWhitespace line symbol (by rw [hf]; simp)
  have hpath : ∀ c ∈ pluginPath, isWhitespace c = false :=
    @Fields.not_blank_of_mem_fields _ isWhitespace line pluginPath (by rw [hf]; simp)
  unfold sudoRegisters
  rw [List.any_eq_true]
  constructor
  · intro ⟨group, hg, hreg⟩
    exact ⟨group, hg, accepted_of_directive hsymbol hpath hreg⟩
  · intro ⟨group, hg, ha, hs⟩
    exact ⟨group, hg, directive_of_accepted ha hs⟩

/-- Another directive, whose last line reads like the plugin's. -/
def continuedEntry : Text :=
  "Set plugin_path \\\nPlugin ".toList ++ pluginSymbol ++ [' '] ++ Build.stock.pluginPath ++ ['\n']

/-- As built: it is accepted, and sudo loads nothing from it. -/
theorem a_continuation_is_accepted :
    verifyConf sudoConfPath pluginSymbol Build.stock.pluginPath (.ok continuedEntry) = .ok () ∧
      ∀ joinComments, sudoRegisters joinComments pluginSymbol Build.stock.pluginPath continuedEntry = false := by
  decide

end SudoWhat.Pam
