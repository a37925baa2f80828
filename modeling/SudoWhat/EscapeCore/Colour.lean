/-
  SudoWhat.EscapeCore.Colour — the coloured command line (`paint`, `split_head`,
  `render_command_line`).

  SGR sequences go only around the rendered parts: each part takes the colour of its
  mark, plain parts take the base colour of the role their token has. Both variants run
  the same walk over the same tokens; `RoleBase` picks the colours under the routine
  roles and nothing else.

  Proved, by following the walk part by part: the coloured line is the plain line dressed
  in the palette (`dressed_renderCommandLine`). So it strips to the plain line, whatever
  the base (`colour_is_layout`), and it holds no hidden character but the ESC of a
  palette sequence (`no_hidden_character_displayed`).
-/

import Mathlib.Data.List.TakeWhile
import SudoWhat.EscapeCore.Hidden
import SudoWhat.Lib.Sgr

namespace SudoWhat.EscapeCore

open SudoWhat.Lib
open SudoWhat.Lib.Sgr (Dressed)

/-! ## The palette -/

def sgr (code : String) : List Char := '\x1b' :: '[' :: (code.toList ++ ['m'])

def sgrReset : List Char := sgr "0"
def sgrHidden : List Char := sgr "7;31"
def sgrMeta : List Char := sgr "1;36"
def sgrSpace : List Char := sgr "100"
def sgrProgHead : List Char := sgr "1;36"
def sgrProgBase : List Char := sgr "1;34"
def sgrOurs : List Char := sgr "2"
def sgrFlag : List Char := sgr "1;34"
def sgrQuiet : List Char := sgr "2"
def sgrQuietProg : List Char := sgr "1;2"

inductive RoleBase where
  /-- The full palette: the resolved command. -/
  | roles
  /-- Flat dim: the command as typed. -/
  | dim
  deriving DecidableEq, Repr

def RoleBase.progHead : RoleBase → List Char
  | .roles => sgrProgHead
  | .dim => sgrQuiet

def RoleBase.progMiddle : RoleBase → List Char
  | .roles => []
  | .dim => sgrQuiet

def RoleBase.progBase : RoleBase → List Char
  | .roles => sgrProgBase
  | .dim => sgrQuietProg

def RoleBase.flag : RoleBase → List Char
  | .roles => sgrFlag
  | .dim => sgrQuiet

def RoleBase.value : RoleBase → List Char
  | .roles => []
  | .dim => sgrQuiet

/-! ## Painting one span -/

/-- Plain text, arming the base first; the text shown, and whether the base is armed. -/
def pushPlain (text base : List Char) (armed : Bool) : List Char × Bool :=
  if base ≠ [] ∧ armed = false then (base ++ text, true) else (text, armed)

/-- A marked span, the armed base dropped around it. -/
def pushSpan (text colour : List Char) (armed : Bool) : List Char × Bool :=
  ((if armed then sgrReset else []) ++ colour ++ text ++ sgrReset, false)

def isSpacePart (p : Part) : Bool := p.mark == .plain && p.text == [' ']

/-- The loop of `paint` from part `i` on, for at most `fuel` rounds. -/
def paintLoop (span : List Part) (base : List Char) (markSpaces : Bool) : Nat → Nat → Bool → List Char
  | 0, _, armed => if armed then sgrReset else []
  | fuel + 1, i, armed =>
    match span[i]? with
    | none => if armed then sgrReset else []
    | some p =>
      match p.mark with
      | .ours => let (out, armed) := pushSpan p.text sgrOurs armed; out ++ paintLoop span base markSpaces fuel (i + 1) armed
      | .metachar =>
        let (out, armed) := pushSpan p.text sgrMeta armed; out ++ paintLoop span base markSpaces fuel (i + 1) armed
      | .hidden =>
        let (out, armed) := pushSpan p.text sgrHidden armed; out ++ paintLoop span base markSpaces fuel (i + 1) armed
      | .plain =>
        if markSpaces && isSpacePart p then
          let j := i + ((span.drop i).takeWhile isSpacePart).length
          let run := List.replicate (j - i) ' '
          -- A run at least two long, or at an end of the span, is invisible padding.
          let (out, armed) :=
            if j - i ≥ 2 ∨ i = 0 ∨ j = span.length then pushSpan run sgrSpace armed else pushPlain run base armed
          out ++ paintLoop span base markSpaces fuel j armed
        else
          let (out, armed) := pushPlain p.text base armed; out ++ paintLoop span base markSpaces fuel (i + 1) armed

/-- Every round passes at least one part, so one round more than there are parts is
    enough. -/
def paint (span : List Part) (base : List Char) (markSpaces : Bool) : List Char :=
  paintLoop span base markSpaces (span.length + 1) 0 false

/-! ## The program token -/

def isSlash (p : Part) : Bool := p.mark == .plain && p.text == ['/']

/-- A rendered directory cut after its first segment. -/
def splitHead (dir : List Part) : List Part × List Part :=
  let start :=
    match dir with
    | p :: q :: _ => if p.mark == .ours && isSlash q then 1 else 0
    | _ => 0
  if (dir[start]?).any isSlash then
    match (dir.drop (start + 1)).findIdx? isSlash with
    | some p => dir.splitAt (start + 1 + p)
    | none => ([], dir)
  else ([], dir)

/-- The index of the last slash. -/
def lastSlash (r : List Part) : Option Nat := (r.reverse.findIdx? isSlash).map fun k => r.length - 1 - k

def renderProgram (tok : Bytes) (base : RoleBase) : List Char :=
  let r := renderToken tok
  match lastSlash r with
  | some idx =>
    let (dir, rest) := r.splitAt (idx + 1)
    let shown :=
      if base.progHead = base.progMiddle then paint dir base.progHead true
      else
        let (head, middle) := splitHead dir
        paint head base.progHead true ++ paint middle base.progMiddle true
    shown ++ paint rest base.progBase true
  | none => paint r base.progBase true

def renderArgument (tok : Bytes) (base : RoleBase) : List Char :=
  let r := renderToken tok
  match r with
  | ⟨['-'], .plain⟩ :: _ => paint r base.flag false
  | _ => paint r base.value false

/-- The one token walk both coloured variants use. -/
def renderCommandLine (path : Bytes) (argv : List Bytes) (base : RoleBase) : List Char :=
  match commandTokens path argv with
  | [] => []
  | program :: args => renderProgram program base ++ args.flatMap fun tok => ' ' :: renderArgument tok base

/-! ## Every piece of the walk adds only palette sequences -/

/-- The fixed palette: every sequence a coloured line can hold. -/
def palette : List (List Char) :=
  [sgrReset, sgrHidden, sgrMeta, sgrSpace, sgrProgHead, sgrProgBase, sgrOurs, sgrFlag, sgrQuiet, sgrQuietProg]

/-- The parameters of the palette's sequences. -/
def paletteCodes : List Sgr.Code := ["0", "7;31", "1;36", "100", "1;34", "2", "1;2"].map String.toList

theorem seq_mem_palette : ∀ code ∈ paletteCodes, Sgr.seq code ∈ palette := by decide

/-- A palette sequence. -/
def InPalette (s : List Char) : Prop := ∃ code ∈ paletteCodes, Sgr.IsCode code ∧ s = Sgr.seq code

theorem InPalette.dressed {s : List Char} (h : InPalette s) : Dressed paletteCodes [] s := by
  obtain ⟨code, hm, hc, rfl⟩ := h
  exact Sgr.dressed_seq hc hm

theorem inPalette_sgr {code : String} (h : code.toList ∈ paletteCodes) : InPalette (sgr code) := by
  have hcode : ∀ code ∈ paletteCodes, Sgr.IsCode code := by decide
  exact ⟨code.toList, h, hcode _ h, rfl⟩

theorem inPalette_reset : InPalette sgrReset := inPalette_sgr (by decide)

/-- A base colour: a palette sequence, or none. -/
def IsBase (base : List Char) : Prop := base = [] ∨ InPalette base

theorem isBase_role (base : RoleBase) :
    IsBase base.progHead ∧ IsBase base.progMiddle ∧ IsBase base.progBase ∧ IsBase base.flag ∧ IsBase base.value := by
  have hs : ∀ {code : String}, code.toList ∈ paletteCodes → IsBase (sgr code) := fun h => .inr (inPalette_sgr h)
  cases base with
  | roles => exact ⟨hs (by decide), .inl rfl, hs (by decide), hs (by decide), .inl rfl⟩
  | dim => exact ⟨hs (by decide), hs (by decide), hs (by decide), hs (by decide), hs (by decide)⟩

theorem dressed_pushPlain {text base : List Char} (htext : Sgr.esc ∉ text) (hbase : IsBase base) (armed : Bool) :
    Dressed paletteCodes text (pushPlain text base armed).1 := by
  unfold pushPlain
  by_cases h : base ≠ [] ∧ armed = false
  · rw [if_pos h]
    exact (hbase.resolve_left h.1).dressed.append (Sgr.dressed_plain htext)
  · rw [if_neg h]
    exact Sgr.dressed_plain htext

theorem dressed_disarm (armed : Bool) : Dressed paletteCodes [] (if armed then sgrReset else []) := by
  cases armed with
  | false => exact Sgr.dressed_nil
  | true => exact inPalette_reset.dressed

theorem dressed_pushSpan {text colour : List Char} (htext : Sgr.esc ∉ text) (hcolour : InPalette colour) (armed : Bool) :
    Dressed paletteCodes text (pushSpan text colour armed).1 := by
  have h := (((dressed_disarm armed).append hcolour.dressed).append (Sgr.dressed_plain htext)).append inPalette_reset.dressed
  simpa [pushSpan] using h

/-- No part holds an ESC of its own. -/
def EscFree (span : List Part) : Prop := ∀ q ∈ span, Sgr.esc ∉ q.text

theorem escFree_renderToken (raw : Bytes) : EscFree (renderToken raw) :=
  fun q hq => (clean_renderToken q hq).not_mem (by decide)

theorem isSpacePart_text {q : Part} (h : isSpacePart q = true) : q.text = [' '] := by
  simp only [isSpacePart, Bool.and_eq_true, beq_iff_eq] at h
  exact h.2

theorem pushRendered_spaces : ∀ {run : List Part}, (∀ q ∈ run, isSpacePart q = true) →
    pushRendered run = List.replicate run.length ' '
  | [], _ => rfl
  | q :: run, h => by
    rw [pushRendered_cons, isSpacePart_text (h q List.mem_cons_self),
      pushRendered_spaces fun r hr => h r (List.mem_cons_of_mem _ hr)]
    rfl

/-- What is left of a span after the run of spaces at `i`. -/
theorem drop_run (span : List Part) (i : Nat) :
    span.drop (i + ((span.drop i).takeWhile isSpacePart).length) = (span.drop i).dropWhile isSpacePart := by
  have hcut := @List.takeWhile_append_dropWhile _ isSpacePart (span.drop i)
  rw [← List.drop_drop]
  generalize (span.drop i).takeWhile isSpacePart = run, (span.drop i).dropWhile isSpacePart = rest at hcut ⊢
  rw [← hcut, List.drop_left]

/-- The run of spaces that begins at `i`. -/
structure RunAt (span : List Part) (i : Nat) (run : List Part) : Prop where
  takes : (span.drop i).takeWhile isSpacePart = run
  split : span.drop i = run ++ span.drop (i + run.length)
  spaces : ∀ q ∈ run, isSpacePart q = true
  pos : 0 < run.length
  fits : i + run.length ≤ span.length
  ends : span.drop (i + run.length) = (span.drop i).dropWhile isSpacePart

theorem exists_runAt {span : List Part} {i : Nat} {p : Part} {rest : List Part} (hdrop : span.drop i = p :: rest)
    (hp : isSpacePart p = true) : ∃ run, RunAt span i run := by
  have hsplit : span.drop i = (span.drop i).takeWhile isSpacePart
      ++ span.drop (i + ((span.drop i).takeWhile isSpacePart).length) := by
    rw [drop_run, List.takeWhile_append_dropWhile]
  have hpos : 0 < ((span.drop i).takeWhile isSpacePart).length := by
    rw [hdrop, List.takeWhile_cons_of_pos hp]
    exact Nat.succ_pos _
  have hlen := congrArg List.length hsplit
  simp only [List.length_append, List.length_drop] at hlen
  exact ⟨_, rfl, hsplit, fun q hq => List.mem_takeWhile_imp hq, hpos, by omega, drop_run span i⟩

theorem esc_not_mem_spaces (n : Nat) : Sgr.esc ∉ List.replicate n ' ' := by
  intro hm
  exact absurd (List.eq_of_mem_replicate hm) (by decide)

/-- The loop shows what is left of the span: each round shows the parts it passes. -/
theorem dressed_paintLoop {span : List Part} {base : List Char} (hspan : EscFree span) (hbase : IsBase base)
    (markSpaces : Bool) : ∀ fuel i armed, span.length - i < fuel →
    Dressed paletteCodes (pushRendered (span.drop i)) (paintLoop span base markSpaces fuel i armed) := by
  intro fuel
  induction fuel with
  | zero => intro i armed h; omega
  | succ fuel ih =>
    intro i armed h
    unfold paintLoop
    cases hp : span[i]? with
    | none =>
      rw [List.drop_eq_nil_of_le (List.getElem?_eq_none_iff.mp hp)]
      exact dressed_disarm armed
    | some p =>
      obtain ⟨hi, hpi⟩ := List.getElem?_eq_some_iff.mp hp
      have hdrop : span.drop i = p :: span.drop (i + 1) := by rw [List.drop_eq_getElem_cons hi, hpi]
      have hesc : Sgr.esc ∉ p.text := hspan p (List.mem_of_getElem? hp)
      have hmark : ∀ {colour : List Char}, InPalette colour → Dressed paletteCodes (pushRendered (span.drop i))
          ((pushSpan p.text colour armed).1 ++
            paintLoop span base markSpaces fuel (i + 1) (pushSpan p.text colour armed).2) := by
        intro colour hc
        rw [hdrop, pushRendered_cons]
        exact (dressed_pushSpan hesc hc armed).append (ih _ _ (by omega))
      dsimp only
      cases p.mark with
      | ours => exact hmark (inPalette_sgr (by decide))
      | metachar => exact hmark (inPalette_sgr (by decide))
      | hidden => exact hmark (inPalette_sgr (by decide))
      | plain =>
        dsimp only
        by_cases hs : (markSpaces && isSpacePart p) = true
        · rw [if_pos hs]
          -- the run of spaces, and the parts after it
          obtain ⟨run, hrun⟩ := exists_runAt hdrop (Bool.and_eq_true _ _ ▸ hs).2
          have hpos := hrun.pos
          rw [hrun.takes, hrun.split, pushRendered_append, pushRendered_spaces hrun.spaces, Nat.add_sub_cancel_left]
          refine Dressed.append ?_ (ih _ _ (by omega))
          split
          · exact dressed_pushSpan (esc_not_mem_spaces _) (inPalette_sgr (by decide)) armed
          · exact dressed_pushPlain (esc_not_mem_spaces _) hbase armed
        · rw [if_neg hs, hdrop, pushRendered_cons]
          exact (dressed_pushPlain hesc hbase armed).append (ih _ _ (by omega))

theorem dressed_paint {span : List Part} {base : List Char} (hspan : EscFree span) (hbase : IsBase base)
    (markSpaces : Bool) : Dressed paletteCodes (pushRendered span) (paint span base markSpaces) :=
  dressed_paintLoop hspan hbase markSpaces (span.length + 1) 0 false (by omega)

/-! ## The coloured line over the plain line -/

theorem splitHead_append (dir : List Part) : (splitHead dir).1 ++ (splitHead dir).2 = dir := by
  have hcut : ∀ cut : List Part × List Part, cut = ([], dir) ∨ (∃ n, cut = dir.splitAt n) → cut.1 ++ cut.2 = dir := by
    intro cut h
    rcases h with rfl | ⟨n, rfl⟩
    · rfl
    · rw [List.splitAt_eq]
      exact List.take_append_drop n dir
  apply hcut
  unfold splitHead
  extract_lets start
  clear_value start
  split
  · split
    · exact .inr ⟨_, rfl⟩
    · exact .inl rfl
  · exact .inl rfl

theorem EscFree.of_append {s t : List Part} (h : EscFree (s ++ t)) : EscFree s ∧ EscFree t :=
  ⟨fun q hq => h q (List.mem_append_left _ hq), fun q hq => h q (List.mem_append_right _ hq)⟩

theorem dressed_renderProgram (tok : Bytes) (base : RoleBase) :
    Dressed paletteCodes (quoteBytes tok) (renderProgram tok base) := by
  obtain ⟨hhead, hmiddle, hbase, -⟩ := isBase_role base
  have hr := escFree_renderToken tok
  unfold renderProgram quoteBytes
  dsimp only
  generalize renderToken tok = r at hr ⊢
  cases lastSlash r with
  | none => exact dressed_paint hr hbase true
  | some idx =>
    simp only [List.splitAt_eq]
    have hcut := List.take_append_drop (idx + 1) r
    obtain ⟨hdir, hrest⟩ := EscFree.of_append (hcut.symm ▸ hr : EscFree (r.take (idx + 1) ++ r.drop (idx + 1)))
    rw [← hcut, pushRendered_append, hcut]
    refine Dressed.append ?_ (dressed_paint hrest hbase true)
    split
    · exact dressed_paint hdir hhead true
    · have hparts := splitHead_append (r.take (idx + 1))
      obtain ⟨h1, h2⟩ := EscFree.of_append (hparts.symm ▸ hdir : EscFree (_ ++ _))
      rw [← hparts, pushRendered_append, hparts]
      exact (dressed_paint h1 hhead true).append (dressed_paint h2 hmiddle true)

theorem dressed_renderArgument (tok : Bytes) (base : RoleBase) :
    Dressed paletteCodes (quoteBytes tok) (renderArgument tok base) := by
  obtain ⟨-, -, -, hflag, hvalue⟩ := isBase_role base
  have hr := escFree_renderToken tok
  unfold renderArgument quoteBytes
  dsimp only
  split
  · exact dressed_paint hr hflag false
  · exact dressed_paint hr hvalue false

theorem intercalate_singleton {α : Type} (x : α) (t : List α) (ts : List (List α)) :
    [x].intercalate (t :: ts) = t ++ ts.flatMap fun u => x :: u := by
  induction ts generalizing t with
  | nil => simp
  | cons u ts ih => rw [List.intercalate_cons_cons, ih, List.flatMap_cons, List.append_assoc, List.singleton_append,
      List.cons_append]

theorem dressed_renderCommandLine (path : Bytes) (argv : List Bytes) (base : RoleBase) :
    Dressed paletteCodes (fullCommandLineBytes path argv) (renderCommandLine path argv base) := by
  unfold fullCommandLineBytes renderCommandLine
  cases commandTokens path argv with
  | nil => exact Sgr.dressed_nil
  | cons program args =>
    rw [List.map_cons, intercalate_singleton, List.flatMap_map]
    refine (dressed_renderProgram program base).append (Sgr.dressed_flatMap fun tok _ => ?_)
    exact (dressed_renderArgument tok base).cons (by decide)

/-- Without its sequences, each of them the palette's, the coloured line is the plain line. -/
theorem colour_is_layout (path : Bytes) (argv : List Bytes) (base : RoleBase) :
    Sgr.strip (renderCommandLine path argv base) = fullCommandLineBytes path argv ∧
      ∀ code, .sgr code ∈ Sgr.lex (renderCommandLine path argv base) → Sgr.seq code ∈ palette := by
  have h := dressed_renderCommandLine path argv base
  exact ⟨h.strip, fun code hm => seq_mem_palette code (h.codes code hm)⟩

/-! ## No hidden character -/

theorem hidden_in_coloured {plain shown : List Char} (h : Dressed paletteCodes plain shown) (hplain : Clean plain)
    {pre suf : List Char} {c : Char} (hs : shown = pre ++ c :: suf) (hc : isHidden c.toNat = true) :
    c = Sgr.esc ∧ ∃ s ∈ palette, s <+: c :: suf := by
  have hesc : c = Sgr.esc := by
    have hcode : ∀ {c : Char}, Sgr.isParam c = true → isHidden c.toNat = false := by
      intro c hp
      apply not_hidden_of_ascii
      rw [Sgr.isParam, Bool.or_eq_true, Char.isDigit, Bool.and_eq_true, decide_eq_true_eq, decide_eq_true_eq,
        beq_iff_eq] at hp
      rcases hp with hp | rfl
      · change 48 ≤ c.toNat ∧ c.toNat ≤ 57 at hp
        omega
      · decide
    rcases h.mem (c := c) (hs ▸ List.mem_append_right _ List.mem_cons_self) with hm | hm | rfl | rfl | hm
    · exact absurd hm (hplain.not_mem hc)
    · exact hm
    · exact absurd hc (by decide)
    · exact absurd hc (by decide)
    · rw [hcode hm] at hc; cases hc
  subst hesc
  obtain ⟨code, hm, hp⟩ := h.esc_begins hs
  exact ⟨rfl, Sgr.seq code, seq_mem_palette code hm, hp⟩

/-- Escaped values, quoted tokens and the plain line hold no hidden character, the
    coloured lines none but the ESC of a palette sequence, and a token that shows an escape
    or an unsafe character stands in the renderer's own quotes. -/
theorem no_hidden_character_displayed :
    (∀ u, isDisguise u = true → isHidden u = true) ∧
      (∀ b, Clean (escapeBytes b)) ∧ (∀ b, Clean (quoteBytes b)) ∧
      (∀ path argv, Clean (fullCommandLineBytes path argv)) ∧
      (∀ path argv base pre c suf, renderCommandLine path argv base = pre ++ c :: suf → isHidden c.toNat = true →
        c = Sgr.esc ∧ ∃ s ∈ palette, s <+: c :: suf) ∧
      ∀ raw, (∃ p ∈ pieces raw, p.isEscape = true) ∨ (∃ c ∈ quoteBytes raw, isSafe c = false) → Enclosed raw := by
  refine ⟨fun _ => isHidden_of_isDisguise, clean_escapeBytes, clean_quoteBytes, clean_fullCommandLineBytes, ?_, ?_⟩
  · intro path argv base pre c suf h hc
    exact hidden_in_coloured (dressed_renderCommandLine path argv base) (clean_fullCommandLineBytes path argv) h hc
  · intro raw h
    rcases h with ⟨p, hp, he⟩ | ⟨c, hc, hu⟩
    · exact enclosed_of_escape hp he
    · exact enclosed_of_unsafe hc hu

end SudoWhat.EscapeCore
