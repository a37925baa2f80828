/-
  SudoWhat.Row — the rows of the terminal display, on both platforms.

  A row starts with `sudowhat: ` and ends in its only line feed. A `Row` is what one of
  the audit block's rows says: its kind and its value, which is clean text. A block
  `Displays` some rows when each of its lines is the frame of a row, coloured or not, and
  the row's value dressed in colours.

  A `Request` is what was asked of sudo before it resolved anything; its rows are what a
  block is meant to say.

  Proved: each line of a block is a row (`Displays.isRow`), a coloured block strips to the
  plain one (`Displays.strip`), two plain blocks are equal only if they say the same rows
  (`plainBlock_inj`), and the rows say the whole request (`Request.rows_injective`).
-/

import SudoWhat.EscapeCore.Colour
import SudoWhat.Lib.Fields
import SudoWhat.Shared

namespace SudoWhat

open SudoWhat.Lib
open SudoWhat.Lib.Sgr (Span Dressed paintSpans)
open SudoWhat.EscapeCore (Clean escapeBytes fullCommandLineBytes)

/-! ## Rows -/

def provenance : Text := "sudowhat: ".toList

/-- A line that says where it is from, and holds no other line. -/
def IsRow (row : Text) : Prop := provenance <+: row ∧ ∃ body, '\n' ∉ body ∧ row = body ++ ['\n']

/-- The codes the frames use, and the palette's. -/
def frameCodes : List Sgr.Code := ["0", "1", "33", "1;36", "1;34"].map String.toList ++ EscapeCore.paletteCodes

theorem dressed_frame {plain shown : Text} (h : Dressed EscapeCore.paletteCodes plain shown) :
    Dressed frameCodes plain shown := h.mono fun _ hm => List.mem_append_right _ hm

theorem lf_not_mem_dressed {codes : List Sgr.Code} {plain shown : Text} (h : Dressed codes plain shown)
    (hplain : Clean plain) : '\n' ∉ shown := by
  intro hm
  rcases h.mem hm with hm | hm | hm | hm | hm
  · exact hplain.not_mem (by decide) hm
  · revert hm; decide
  · revert hm; decide
  · revert hm; decide
  · revert hm; decide

theorem isRow_of_dressed {codes : List Sgr.Code} {plain shown : Text} (h : Dressed codes plain shown)
    (hplain : Clean plain) (hp : provenance <+: shown) : IsRow (shown ++ ['\n']) :=
  ⟨hp.trans (List.prefix_append _ _), shown, lf_not_mem_dressed h hplain, rfl⟩

/-! ## The audit block's rows -/

inductive RowKind where
  | runAs
  | directory
  | input
  | path
  deriving DecidableEq, Repr

def RowKind.label : RowKind → Text
  | .runAs => "run as:".toList
  | .directory => "directory:".toList
  | .input => "input:".toList
  | .path => "PATH:".toList

structure Row where
  kind : RowKind
  value : Text
  clean : Clean value

def Row.escaped (kind : RowKind) (raw : Bytes) : Row := ⟨kind, escapeBytes raw, EscapeCore.clean_escapeBytes raw⟩

@[simp] theorem Row.kind_escaped (kind : RowKind) (raw : Bytes) : (Row.escaped kind raw).kind = kind := rfl

def Row.command (path : Bytes) (argv : List Bytes) : Row :=
  ⟨.input, fullCommandLineBytes path argv, EscapeCore.clean_fullCommandLineBytes path argv⟩

/-- The frame of a row: where it is from, its label in bold, and the gap before the value. -/
def labelFrame (gap : RowKind → Nat) (kind : RowKind) : List Span :=
  [⟨none, provenance⟩, ⟨some ['1'], kind.label⟩, ⟨none, List.replicate (gap kind) ' '⟩]

section Row

variable {gap : RowKind → Nat} {color : Bool} {r : Row} {text : Text}

/-- A row without its line feed, without colour. -/
def Row.body (gap : RowKind → Nat) (r : Row) : Text := (labelFrame gap r.kind).flatMap Span.text ++ r.value

/-- `text` is the row, its frame and its value coloured or not. -/
def Row.Shown (gap : RowKind → Nat) (color : Bool) (r : Row) (text : Text) : Prop :=
  ∃ value, Dressed frameCodes r.value value ∧ (color = false → value = r.value) ∧
    text = paintSpans color (labelFrame gap r.kind) ++ value ++ ['\n']

theorem clean_spaces (n : Nat) : Clean (List.replicate n ' ') := by
  intro c hc
  obtain rfl := List.eq_of_mem_replicate hc
  decide

theorem clean_label (kind : RowKind) : Clean kind.label := by cases kind <;> decide

theorem clean_provenance : Clean provenance := by decide

theorem clean_labelFrame (gap : RowKind → Nat) (kind : RowKind) : Clean ((labelFrame gap kind).flatMap Span.text) := by
  refine EscapeCore.clean_flatMap fun p hp => ?_
  simp only [labelFrame, List.mem_cons, List.not_mem_nil, or_false] at hp
  rcases hp with rfl | rfl | rfl
  · exact clean_provenance
  · exact clean_label kind
  · exact clean_spaces _

theorem wellFormed_labelFrame (gap : RowKind → Nat) (kind : RowKind) :
    ∀ p ∈ labelFrame gap kind, p.WellFormed ∧ ∀ code ∈ p.code, code ∈ frameCodes := by
  intro p hp
  have hesc : Sgr.esc ∉ p.text :=
    fun hm => (clean_labelFrame gap kind).not_mem (by decide) (List.mem_flatMap.mpr ⟨p, hp, hm⟩)
  have hcode : ∀ code, p.code = some code → code = ['1'] := by
    simp only [labelFrame, List.mem_cons, List.not_mem_nil, or_false] at hp
    rcases hp with rfl | rfl | rfl
    · intro code h; cases h
    · intro code h; cases h; rfl
    · intro code h; cases h
  refine ⟨⟨hesc, fun code h => ?_⟩, fun code h => ?_⟩
  · rw [hcode code h]; decide
  · rw [hcode code h]; decide

theorem Row.clean_body (gap : RowKind → Nat) (r : Row) : Clean (r.body gap) :=
  (clean_labelFrame gap r.kind).append r.clean

theorem kind_of_label {k k' : RowKind} {s t : Text} (h : k.label ++ s = k'.label ++ t) : k = k' := by
  have hne : ∀ k : RowKind, k.label.head? ≠ none := by intro k; cases k <;> decide
  have hhead : ∀ {l m : Text}, l.head? ≠ none → (l ++ m).head? = l.head? := by
    intro l m hl
    cases l with
    | nil => exact absurd rfl hl
    | cons c l => rfl
  have e : k.label.head? = k'.label.head? := by
    rw [← hhead (hne k), h, hhead (hne k')]
  revert e
  cases k <;> cases k' <;> decide

theorem Row.body_injective (gap : RowKind → Nat) : Function.Injective (Row.body gap) := by
  intro ⟨k, v, hv⟩ ⟨k', v', hv'⟩ h
  simp only [Row.body, labelFrame, List.flatMap_cons, List.flatMap_nil, List.append_nil, List.append_assoc] at h
  have hlabel := List.append_cancel_left h
  obtain rfl := kind_of_label hlabel
  obtain rfl := List.append_cancel_left (List.append_cancel_left hlabel)
  rfl

theorem Row.Shown.dressed (h : r.Shown gap color text) :
    ∃ line, Dressed frameCodes (r.body gap) line ∧ provenance <+: line ∧ text = line ++ ['\n'] := by
  obtain ⟨value, hvalue, -, rfl⟩ := h
  have hf := wellFormed_labelFrame gap r.kind
  have hframe : Dressed frameCodes ((labelFrame gap r.kind).flatMap Span.text) (paintSpans color (labelFrame gap r.kind)) :=
    Sgr.dressed_paintSpans (fun p hp => (hf p hp).1) (by decide) (fun p hp => (hf p hp).2) color
  refine ⟨paintSpans color (labelFrame gap r.kind) ++ value, hframe.append hvalue, ?_, rfl⟩
  rw [labelFrame, Sgr.paintSpans_plain, List.append_assoc]
  exact List.prefix_append _ _

theorem Row.Shown.isRow (h : r.Shown gap color text) : IsRow text := by
  obtain ⟨line, hline, hp, rfl⟩ := h.dressed
  exact isRow_of_dressed hline (r.clean_body gap) hp

theorem Row.Shown.plain (h : r.Shown gap false text) : text = r.body gap ++ ['\n'] := by
  obtain ⟨value, -, hvalue, rfl⟩ := h
  rw [hvalue rfl]
  rfl

end Row

/-! ## Blocks -/

/-- The block is these rows, one after the other. -/
def Displays (gap : RowKind → Nat) (color : Bool) (rows : List Row) (block : Text) : Prop :=
  ∃ texts, List.Forall₂ (Row.Shown gap color) rows texts ∧ block = texts.flatten

/-- The rows without colour. -/
def plainBlock (gap : RowKind → Nat) (rows : List Row) : Text := unlines (rows.map (Row.body gap))

section Block

variable {gap : RowKind → Nat} {color : Bool} {rows rows' : List Row} {block block' : Text}

theorem displays_nil : Displays gap color [] [] := ⟨[], .nil, rfl⟩

theorem displays_singleton {r : Row} {text : Text} (h : r.Shown gap color text) : Displays gap color [r] text :=
  ⟨[text], .cons h .nil, (List.append_nil text).symm⟩

theorem Displays.append (h : Displays gap color rows block) (h' : Displays gap color rows' block') :
    Displays gap color (rows ++ rows') (block ++ block') := by
  obtain ⟨texts, ht, rfl⟩ := h
  obtain ⟨texts', ht', rfl⟩ := h'
  exact ⟨texts ++ texts', List.rel_append ht ht', List.flatten_append.symm⟩

/-- Each text of the block is a row, and shows what the row says. -/
theorem Displays.isRow (h : Displays gap color rows block) :
    ∃ texts, block = texts.flatten ∧ List.Forall₂ (fun r text => IsRow text ∧ r.Shown gap color text) rows texts := by
  obtain ⟨texts, ht, rfl⟩ := h
  exact ⟨texts, rfl, ht.imp fun _ _ hs => ⟨hs.isRow, hs⟩⟩

theorem Displays.dressed (h : Displays gap color rows block) : Dressed frameCodes (plainBlock gap rows) block := by
  obtain ⟨texts, ht, rfl⟩ := h
  induction ht with
  | nil => exact Sgr.dressed_nil
  | cons hs _ ih =>
    obtain ⟨line, hline, -, rfl⟩ := hs.dressed
    exact (hline.append (Sgr.dressed_plain (by decide))).append ih

theorem Displays.strip (h : Displays gap color rows block) : Sgr.strip block = plainBlock gap rows := h.dressed.strip

theorem Displays.plain (h : Displays gap false rows block) : block = plainBlock gap rows := by
  obtain ⟨texts, ht, rfl⟩ := h
  induction ht with
  | nil => rfl
  | cons hs _ ih =>
    rw [List.flatten_cons, hs.plain, ih]
    rfl

theorem plainBlock_inj (h : plainBlock gap rows = plainBlock gap rows') : rows = rows' := by
  have hlf : ∀ rs : List Row, ∀ l ∈ rs.map (Row.body gap), '\n' ∉ l := by
    intro rs l hl
    obtain ⟨r, -, rfl⟩ := List.mem_map.mp hl
    exact (r.clean_body gap).not_mem (by decide)
  exact List.map_injective_iff.mpr (Row.body_injective gap) (Fields.unlines_inj (hlf rows) (hlf rows') h)

end Block

/-! ## Requests -/

/-- What was asked of sudo, before it resolved anything. -/
structure Request where
  user : Bytes
  directory : Option Bytes
  /-- The command as typed; empty for a bare shell. -/
  typed : List Bytes
  /-- The caller's `PATH`, where a block names it. -/
  path : Option Bytes

/-- A value that is there and not empty. -/
def given (value : Option Bytes) : Option Bytes :=
  match value with
  | some (c :: cs) => some (c :: cs)
  | _ => none

/-- sudo names a target user only for `-u`; without one it is root. -/
def targetUser (setting : Bytes → Option Bytes) : Bytes := (given (setting (lit "runas_user"))).getD (lit "root")

/-- `-D` as typed, nothing under `-i`, else the invoking directory. -/
def startDirectory (setting userInfo : Bytes → Option Bytes) : Option Bytes :=
  match given (setting (lit "cmnd_cwd")) with
  | some dir => some dir
  | none => if setting (lit "login_shell") == some (lit "true") then none else given (userInfo (lit "cwd"))

def inputRow (typed : List Bytes) : List Row :=
  match typed with
  | [] => []
  | word :: rest => [Row.command word (word :: rest)]

def Request.rows (q : Request) : List Row :=
  Row.escaped .runAs q.user :: (q.directory.toList.map (Row.escaped .directory) ++ inputRow q.typed
    ++ q.path.toList.map (Row.escaped .path))

theorem Row.escaped_injective (kind : RowKind) : Function.Injective (Row.escaped kind) :=
  fun _ _ h => EscapeCore.escapeBytes_injective (congrArg Row.value h)

/-- The word itself stands for the path, so the line is the words as typed. -/
theorem commandTokens_typed (word : Bytes) (rest : List Bytes) :
    EscapeCore.commandTokens word (word :: rest) = word :: rest := by
  simp [EscapeCore.commandTokens]

theorem inputRow_injective : Function.Injective inputRow := by
  intro typed typed' h
  cases typed with
  | nil =>
    cases typed' with
    | nil => rfl
    | cons word' rest' => cases h
  | cons word rest =>
    cases typed' with
    | nil => cases h
    | cons word' rest' =>
      have hvalue := congrArg Row.value (List.head_eq_of_cons_eq h)
      have htokens := (EscapeCore.fullCommandLineBytes_eq_iff word word' (word :: rest) (word' :: rest')).mp hvalue
      rwa [commandTokens_typed, commandTokens_typed] at htokens

section Kinds

variable (q : Request)

/-- The rows of one kind. -/
def Request.rowsOf (kind : RowKind) : List Row := q.rows.filter fun r => r.kind = kind

theorem filter_escaped (kind kind' : RowKind) (raws : List Bytes) :
    (raws.map (Row.escaped kind)).filter (fun r => r.kind = kind') =
      if kind = kind' then raws.map (Row.escaped kind) else [] := by
  by_cases h : kind = kind'
  · rw [if_pos h]
    refine List.filter_eq_self.mpr fun r hr => ?_
    obtain ⟨raw, -, rfl⟩ := List.mem_map.mp hr
    exact decide_eq_true h
  · rw [if_neg h]
    refine List.filter_eq_nil_iff.mpr fun r hr => ?_
    obtain ⟨raw, -, rfl⟩ := List.mem_map.mp hr
    exact fun e => h (of_decide_eq_true e)

theorem filter_inputRow (kind : RowKind) (typed : List Bytes) :
    (inputRow typed).filter (fun r => r.kind = kind) = if kind = .input then inputRow typed else [] := by
  cases typed with
  | nil => simp [inputRow]
  | cons word rest => cases kind <;> simp [inputRow, Row.command]

theorem Request.rowsOf_eq (kind : RowKind) : q.rowsOf kind =
    match kind with
    | .runAs => [Row.escaped .runAs q.user]
    | .directory => q.directory.toList.map (Row.escaped .directory)
    | .input => inputRow q.typed
    | .path => q.path.toList.map (Row.escaped .path) := by
  have huser : ∀ kind, [Row.escaped .runAs q.user].filter (fun r => r.kind = kind) =
      if .runAs = kind then [Row.escaped .runAs q.user] else [] := fun kind => filter_escaped .runAs kind [q.user]
  have e : q.rows = [Row.escaped .runAs q.user] ++ (q.directory.toList.map (Row.escaped .directory) ++ inputRow q.typed
    ++ q.path.toList.map (Row.escaped .path)) := rfl
  rw [Request.rowsOf, e, List.filter_append, List.filter_append, List.filter_append, huser, filter_escaped, filter_escaped,
    filter_inputRow]
  cases kind <;> simp

end Kinds

theorem Request.rows_injective : Function.Injective Request.rows := by
  intro q q' h
  have hkind : ∀ kind, q.rowsOf kind = q'.rowsOf kind := fun kind => congrArg (List.filter fun r : Row => r.kind = kind) h
  have hoption : ∀ kind, Function.Injective fun o : Option Bytes => o.toList.map (Row.escaped kind) := by
    intro kind o o' ho
    have hl := List.map_injective_iff.mpr (Row.escaped_injective kind) ho
    cases o <;> cases o' <;> simp_all
  have huser := hkind .runAs
  have hdirectory := hkind .directory
  have htyped := hkind .input
  have hpath := hkind .path
  rw [q.rowsOf_eq, q'.rowsOf_eq] at huser hdirectory htyped hpath
  have hu : q.user = q'.user := Row.escaped_injective .runAs (List.head_eq_of_cons_eq huser)
  have hd : q.directory = q'.directory := hoption .directory hdirectory
  have ht : q.typed = q'.typed := inputRow_injective htyped
  have hp : q.path = q'.path := hoption .path hpath
  cases q
  cases q'
  simp_all

/-- The request has this value in it, or spells it as the command. -/
def Request.Names (q : Request) (raw : Bytes) : Prop :=
  raw = q.user ∨ q.directory = some raw ∨ q.path = some raw ∨
    ∃ word rest, q.typed = word :: rest ∧ escapeBytes raw = fullCommandLineBytes word (word :: rest)

theorem Request.names_iff (q : Request) (raw : Bytes) : q.Names raw ↔ ∃ r ∈ q.rows, r.value = escapeBytes raw := by
  have hoption : ∀ kind (o : Option Bytes),
      (∃ r ∈ o.toList.map (Row.escaped kind), r.value = escapeBytes raw) ↔ o = some raw := by
    intro kind o
    cases o with
    | none => simp
    | some v => simpa [Row.escaped] using EscapeCore.escapeBytes_injective.eq_iff
  have hinput : (∃ r ∈ inputRow q.typed, r.value = escapeBytes raw) ↔
      ∃ word rest, q.typed = word :: rest ∧ escapeBytes raw = fullCommandLineBytes word (word :: rest) := by
    cases q.typed with
    | nil => simp [inputRow]
    | cons word rest =>
      constructor
      · intro ⟨r, hr, hv⟩
        obtain rfl := List.mem_singleton.mp hr
        exact ⟨word, rest, rfl, hv.symm⟩
      · intro ⟨word', rest', e, hv⟩
        cases e
        exact ⟨_, List.mem_singleton_self _, hv.symm⟩
  have huser : (Row.escaped .runAs q.user).value = escapeBytes raw ↔ raw = q.user :=
    EscapeCore.escapeBytes_injective.eq_iff.trans eq_comm
  have hsplit : (∃ r ∈ q.rows, r.value = escapeBytes raw) ↔ (Row.escaped .runAs q.user).value = escapeBytes raw ∨
      ((∃ r ∈ q.directory.toList.map (Row.escaped .directory), r.value = escapeBytes raw) ∨
        ∃ r ∈ inputRow q.typed, r.value = escapeBytes raw) ∨
      ∃ r ∈ q.path.toList.map (Row.escaped .path), r.value = escapeBytes raw := by
    unfold Request.rows
    simp only [List.mem_cons, List.mem_append, or_and_right, exists_or, exists_eq_left]
  rw [hsplit, huser, hoption, hoption, hinput, or_assoc (a := q.directory = some raw), or_comm (b := q.path = some raw)]
  exact Iff.rfl

/-- The kinds stand in the table's order, and run as: comes first. -/
theorem Request.kinds (q : Request) :
    q.rows.map Row.kind = .runAs :: ((if q.directory.isSome then [.directory] else []) ++ (if q.typed ≠ [] then [.input] else [])
      ++ (if q.path.isSome then [.path] else [])) := by
  have hoption : ∀ kind (o : Option Bytes),
      (o.toList.map (Row.escaped kind)).map Row.kind = if o.isSome then [kind] else [] := by
    intro kind o
    cases o <;> rfl
  have hinput : (inputRow q.typed).map Row.kind = if q.typed ≠ [] then [.input] else [] := by
    cases q.typed <;> rfl
  simp only [Request.rows, List.map_cons, List.map_append, hoption, hinput]
  rfl

/-- Without its PATH row a block says the request without the `PATH`. -/
theorem Request.rows_without_path (q : Request) :
    q.rows.filter (fun r => r.kind ≠ .path) = { q with path := none }.rows := by
  have hfront : ∀ r ∈ { q with path := none }.rows, decide (r.kind ≠ .path) = true := by
    intro r hr
    have hk := List.mem_map_of_mem (f := Row.kind) hr
    rw [Request.kinds] at hk
    refine decide_eq_true fun e => ?_
    rw [e] at hk
    obtain ⟨user, directory, typed, path⟩ := q
    cases directory <;> cases typed <;> simp at hk
  have e : q.rows = { q with path := none }.rows ++ q.path.toList.map (Row.escaped .path) := by
    simp [Request.rows]
  have hpath : (q.path.toList.map (Row.escaped .path)).filter (fun r => r.kind ≠ .path) = [] := by
    refine List.filter_eq_nil_iff.mpr fun r hr => ?_
    obtain ⟨raw, -, rfl⟩ := List.mem_map.mp hr
    exact fun h => of_decide_eq_true h rfl
  rw [e, List.filter_append, hpath, List.append_nil, List.filter_eq_self.mpr hfront]

end SudoWhat
