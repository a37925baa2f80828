/-
  SudoWhat.EscapeCore.Drawing — the coloured command line as a terminal draws it.

  `paint` walks a span with a base armed and disarmed around its marks. What a terminal
  draws of it is simpler: each part in the attributes of its mark, a plain part in those of
  the base, and, in the program token, a space in grey when a space or the edge of the span
  stands beside it (`drawnParts`). Proved: that is what the walk draws (`draws_paint`), for
  the spans the program token is cut into (`draws_renderProgram`), for an argument
  (`draws_renderArgument`) and for the whole line, which starts and ends in the default
  state, as every separating space is drawn (`draws_renderCommandLine`).

  A part's attributes depend on its neighbours in the span only, so a span's parts can be
  read off in pieces (`drawnParts_append`) and a run of spaces at once
  (`drawnParts_spaces`).
-/

import SudoWhat.Lib.Screen
import SudoWhat.EscapeCore.Colour

namespace SudoWhat.EscapeCore

open SudoWhat.Lib
open SudoWhat.Lib.Sgr (Attrs Cell Draws)

/-! ## Attributes -/

def dimmed : Attrs := ⟨false, true, false, none, none⟩
def boldDim : Attrs := ⟨true, true, false, none, none⟩
def boldCyan : Attrs := ⟨true, false, false, some 6, none⟩
def boldBlue : Attrs := ⟨true, false, false, some 4, none⟩
def reverseRed : Attrs := ⟨false, false, true, some 1, none⟩
def grey : Attrs := ⟨false, false, false, none, some 8⟩

/-- A part's attributes under the base `a`, where `before` and `after` say that a space or
    the edge of the span stands on that side. -/
def partAttrs (a : Attrs) (markSpaces before after : Bool) (p : Part) : Attrs :=
  match p.mark with
  | .ours => dimmed
  | .metachar => boldCyan
  | .hidden => reverseRed
  | .plain => if markSpaces && isSpacePart p && (before || after) then grey else a

/-- A space first in the span, or `edge` where the span is empty. -/
def spaceFirst (edge : Bool) (span : List Part) : Bool := (span.head?.map isSpacePart).getD edge

def spaceLast (edge : Bool) (span : List Part) : Bool := (span.getLast?.map isSpacePart).getD edge

theorem spaceFirst_append (edge : Bool) (u v : List Part) :
    spaceFirst edge (u ++ v) = spaceFirst (spaceFirst edge v) u := by
  cases u <;> rfl

theorem spaceLast_cons (edge : Bool) (p : Part) (u : List Part) :
    spaceLast edge (p :: u) = spaceLast (isSpacePart p) u := by
  cases u with
  | nil => rfl
  | cons q u => simp [spaceLast, List.getLast?_cons]

/-- Each part of a span with its attributes. -/
def drawnParts (a : Attrs) (markSpaces before after : Bool) : List Part → List (Part × Attrs)
  | [] => []
  | p :: rest =>
    (p, partAttrs a markSpaces before (spaceFirst after rest) p) :: drawnParts a markSpaces (isSpacePart p) after rest

def cellsOfParts (ds : List (Part × Attrs)) : List Cell := ds.flatMap fun d => d.1.text.map fun c => (c, d.2)

@[simp] theorem cellsOfParts_nil : cellsOfParts [] = [] := rfl
@[simp] theorem cellsOfParts_cons (p : Part) (a : Attrs) (ds : List (Part × Attrs)) :
    cellsOfParts ((p, a) :: ds) = p.text.map (fun c => (c, a)) ++ cellsOfParts ds := rfl
@[simp] theorem cellsOfParts_append (ds ds' : List (Part × Attrs)) :
    cellsOfParts (ds ++ ds') = cellsOfParts ds ++ cellsOfParts ds' := List.flatMap_append

theorem map_fst_cellsOfParts (ds : List (Part × Attrs)) :
    (cellsOfParts ds).map Prod.fst = pushRendered (ds.map Prod.fst) := by
  simp [cellsOfParts, pushRendered, List.map_flatMap, List.flatMap_map, Function.comp_def]

section

variable {a : Attrs} {markSpaces before after : Bool}

@[simp] theorem map_fst_drawnParts : ∀ (span : List Part) (before : Bool),
    (drawnParts a markSpaces before after span).map Prod.fst = span
  | [], _ => rfl
  | p :: span, _ => by rw [drawnParts, List.map_cons, map_fst_drawnParts span]

theorem drawnParts_append : ∀ (u v : List Part) (before : Bool), drawnParts a markSpaces before after (u ++ v) =
    drawnParts a markSpaces before (spaceFirst after v) u ++ drawnParts a markSpaces (spaceLast before u) after v
  | [], _, _ => rfl
  | p :: u, v, before => by
    rw [List.cons_append, drawnParts, drawnParts_append u, drawnParts, List.cons_append, spaceFirst_append, spaceLast_cons]

theorem drawnParts_before {span : List Part} (h : spaceFirst false span = false) (x y : Bool) :
    drawnParts a markSpaces x after span = drawnParts a markSpaces y after span := by
  cases span with
  | nil => rfl
  | cons p rest =>
    have hp : isSpacePart p = false := h
    simp [drawnParts, partAttrs, hp]

theorem drawnParts_spaces_after : ∀ {run : List Part}, (∀ q ∈ run, isSpacePart q = true) →
    drawnParts a true true after run = run.map fun q => (q, grey)
  | [], _ => rfl
  | q :: run, h => by
    have hq := h q List.mem_cons_self
    have hm : q.mark = .plain := by
      simp only [isSpacePart, Bool.and_eq_true, beq_iff_eq] at hq
      exact hq.1
    rw [drawnParts, hq, drawnParts_spaces_after fun r hr => h r (List.mem_cons_of_mem _ hr)]
    simp [partAttrs, hm, hq]

/-- A run of spaces is grey when it is two long or an edge stands beside it. -/
theorem drawnParts_spaces {run : List Part} (h : ∀ q ∈ run, isSpacePart q = true) :
    drawnParts a true before after run =
      run.map fun q => (q, if 2 ≤ run.length ∨ before = true ∨ after = true then grey else a) := by
  rcases run with _ | ⟨q, _ | ⟨q', run⟩⟩
  · rfl
  · have hq := h q List.mem_cons_self
    have hm : q.mark = .plain := by
      simp only [isSpacePart, Bool.and_eq_true, beq_iff_eq] at hq
      exact hq.1
    simp [drawnParts, partAttrs, hm, hq, spaceFirst]
  · have hq := h q List.mem_cons_self
    have hq' := h q' (by simp)
    have hm : q.mark = .plain := by
      simp only [isSpacePart, Bool.and_eq_true, beq_iff_eq] at hq
      exact hq.1
    rw [drawnParts, hq, drawnParts_spaces_after fun r hr => h r (List.mem_cons_of_mem _ hr)]
    simp [partAttrs, hm, hq, hq', spaceFirst]

/-- Where spaces are not marked, a part's neighbours do not matter. -/
theorem drawnParts_unmarked : ∀ (span : List Part) (before : Bool),
    drawnParts a false before after span = span.map fun p => (p, partAttrs a false false false p)
  | [], _ => rfl
  | p :: span, _ => by
    rw [drawnParts, drawnParts_unmarked span, List.map_cons]
    simp [partAttrs]

end

/-! ## What the walk draws -/

/-- The base switches `a` on: it is empty and `a` the default, or a sequence that leads to
    `a`. -/
def Arms (base : List Char) (a : Attrs) : Prop := base = [] ∧ a = .default ∨ base ≠ [] ∧ Draws .default base [] a

/-- The terminal's state inside a span. -/
def stateOf (a : Attrs) (armed : Bool) : Attrs := if armed then a else .default

section

variable {a : Attrs} {base text : List Char}

theorem arms_sgr (code : String) (h : Sgr.IsCode code.toList) (ha : Attrs.default.sgr code.toList = a) :
    Arms (sgr code) a := by
  subst ha
  exact .inr ⟨List.cons_ne_nil _ _, Sgr.draws_seq h⟩

theorem draws_pushPlain (hbase : Arms base a) (htext : Sgr.esc ∉ text) (armed : Bool) :
    Draws (stateOf a armed) (pushPlain text base armed).1 (text.map fun c => (c, a))
      (stateOf a (pushPlain text base armed).2) := by
  unfold pushPlain
  rcases hbase with ⟨rfl, rfl⟩ | ⟨hne, hd⟩
  · -- without a base the state is the default throughout
    rw [if_neg (fun h => h.1 rfl)]
    have hstate : stateOf .default armed = .default := by cases armed <;> rfl
    rw [hstate]
    exact Sgr.draws_plain htext
  · cases armed with
    | false =>
      rw [if_pos ⟨hne, rfl⟩]
      exact hd.append (Sgr.draws_plain htext)
    | true =>
      rw [if_neg (fun h => by cases h.2)]
      exact Sgr.draws_plain htext

theorem draws_disarm (armed : Bool) : Draws (stateOf a armed) (if armed then sgrReset else []) [] .default := by
  cases armed with
  | false => exact Sgr.draws_nil
  | true => exact (Sgr.draws_seq (by decide) : Draws a (Sgr.seq Sgr.reset) [] .default)

theorem draws_pushSpan (code : String) (hcode : Sgr.IsCode code.toList) (htext : Sgr.esc ∉ text) (armed : Bool) :
    Draws (stateOf a armed) (pushSpan text (sgr code) armed).1
      (text.map fun c => (c, Attrs.default.sgr code.toList)) .default := by
  have h := (draws_disarm (a := a) armed).append (Sgr.draws_between hcode htext)
  simp only [List.nil_append, ← List.append_assoc] at h
  exact h

end

theorem drawnParts_cons {a : Attrs} {markSpaces before after : Bool} {p : Part} (h : (markSpaces && isSpacePart p) = false)
    (rest : List Part) : drawnParts a markSpaces before after (p :: rest) =
      (p, partAttrs a false false false p) :: drawnParts a markSpaces false after rest := by
  rw [drawnParts]
  cases markSpaces with
  | false => rw [drawnParts_unmarked, drawnParts_unmarked]; simp [partAttrs]
  | true =>
    have hp : isSpacePart p = false := h
    rw [hp]
    simp [partAttrs, hp]

theorem spaceFirst_dropWhile : ∀ span : List Part, spaceFirst false (span.dropWhile isSpacePart) = false
  | [] => rfl
  | p :: span => by
    by_cases h : isSpacePart p = true
    · rw [List.dropWhile_cons_of_pos h, spaceFirst_dropWhile span]
    · rw [List.dropWhile_cons_of_neg h]
      exact Bool.eq_false_iff.mpr h

theorem cellsOfParts_spaces {x : Attrs} : ∀ {run : List Part}, (∀ q ∈ run, isSpacePart q = true) →
    cellsOfParts (run.map fun q => (q, x)) = (List.replicate run.length ' ').map fun c => (c, x)
  | [], _ => rfl
  | q :: run, h => by
    rw [List.map_cons, cellsOfParts_cons, isSpacePart_text (h q List.mem_cons_self),
      cellsOfParts_spaces fun r hr => h r (List.mem_cons_of_mem _ hr)]
    rfl

theorem drawnParts_run {a : Attrs} {before : Bool} {run rest : List Part} (hrun : ∀ q ∈ run, isSpacePart q = true)
    (hrest : spaceFirst false rest = false) : drawnParts a true before true (run ++ rest) =
      (run.map fun q => (q, if 2 ≤ run.length ∨ before = true ∨ rest = [] then grey else a)) ++
        drawnParts a true false true rest := by
  have hedge : spaceFirst true rest = true ↔ rest = [] := by
    cases rest with
    | nil => exact ⟨fun _ => rfl, fun _ => rfl⟩
    | cons p rest =>
      have hp : isSpacePart p = false := hrest
      simp [spaceFirst, hp]
  rw [drawnParts_append, drawnParts_spaces hrun, drawnParts_before hrest _ false]
  simp only [hedge]

/-- The round that passes a run of spaces, given what the next ones draw. -/
theorem draws_run {span run : List Part} {base : List Char} {a : Attrs} {i : Nat} (hbase : Arms base a)
    (hrun : RunAt span i run) (armed : Bool) {out : List Char × Bool}
    (hout : out = if run.length ≥ 2 ∨ i = 0 ∨ i + run.length = span.length then
        pushSpan (List.replicate run.length ' ') sgrSpace armed
      else pushPlain (List.replicate run.length ' ') base armed)
    {next : Bool → List Char} (hnext : ∀ armed', Draws (stateOf a armed') (next armed')
      (cellsOfParts (drawnParts a true false true (span.drop (i + run.length)))) .default) :
    Draws (stateOf a armed) (out.1 ++ next out.2)
      (cellsOfParts (drawnParts a true (decide (i = 0)) true (span.drop i))) .default := by
  have hrest : spaceFirst false (span.drop (i + run.length)) = false := by
    rw [hrun.ends]
    exact spaceFirst_dropWhile _
  have hfits := hrun.fits
  have hcond : (2 ≤ run.length ∨ decide (i = 0) = true ∨ span.drop (i + run.length) = []) ↔
      (run.length ≥ 2 ∨ i = 0 ∨ i + run.length = span.length) := by
    rw [decide_eq_true_eq, List.drop_eq_nil_iff]
    omega
  rw [hrun.split, drawnParts_run hrun.spaces hrest, cellsOfParts_append, cellsOfParts_spaces hrun.spaces]
  simp only [hcond]
  by_cases hc : run.length ≥ 2 ∨ i = 0 ∨ i + run.length = span.length
  · simp only [hout, if_pos hc]
    exact (draws_pushSpan "100" (by decide) (esc_not_mem_spaces _) armed).append (hnext false)
  · simp only [hout, if_neg hc]
    exact (draws_pushPlain hbase (esc_not_mem_spaces _) armed).append (hnext _)

/-- The loop from part `i` on draws what is left of the span. -/
theorem draws_paintLoop {span : List Part} {base : List Char} {a : Attrs} (hspan : EscFree span) (hbase : Arms base a)
    (markSpaces : Bool) : ∀ fuel i armed, span.length - i < fuel →
    Draws (stateOf a armed) (paintLoop span base markSpaces fuel i armed)
      (cellsOfParts (drawnParts a markSpaces (decide (i = 0)) true (span.drop i))) .default := by
  intro fuel
  induction fuel with
  | zero => intro i armed h; omega
  | succ fuel ih =>
    intro i armed h
    unfold paintLoop
    cases hp : span[i]? with
    | none =>
      rw [List.drop_eq_nil_of_le (List.getElem?_eq_none_iff.mp hp)]
      exact draws_disarm armed
    | some p =>
      obtain ⟨hi, hpi⟩ := List.getElem?_eq_some_iff.mp hp
      have hdrop : span.drop i = p :: span.drop (i + 1) := by rw [List.drop_eq_getElem_cons hi, hpi]
      have hesc : Sgr.esc ∉ p.text := hspan p (List.mem_of_getElem? hp)
      have hnext : ∀ armed', Draws (stateOf a armed') (paintLoop span base markSpaces fuel (i + 1) armed')
          (cellsOfParts (drawnParts a markSpaces false true (span.drop (i + 1)))) .default :=
        fun armed' => by simpa using ih (i + 1) armed' (by omega)
      -- a marked part
      have hmark : ∀ code : String, Sgr.IsCode code.toList → p.mark ≠ .plain →
          partAttrs a false false false p = Attrs.default.sgr code.toList →
          Draws (stateOf a armed) ((pushSpan p.text (sgr code) armed).1 ++
              paintLoop span base markSpaces fuel (i + 1) (pushSpan p.text (sgr code) armed).2)
            (cellsOfParts (drawnParts a markSpaces (decide (i = 0)) true (span.drop i))) .default := by
        intro code hcode hm hattrs
        have hs : (markSpaces && isSpacePart p) = false := by simp [isSpacePart, hm]
        rw [hdrop, drawnParts_cons hs, cellsOfParts_cons, hattrs]
        exact (draws_pushSpan code hcode hesc armed).append (hnext false)
      dsimp only
      cases hm : p.mark with
      | ours => exact hmark "2" (by decide) (by simp [hm]) (by simp only [partAttrs, hm]; decide)
      | metachar => exact hmark "1;36" (by decide) (by simp [hm]) (by simp only [partAttrs, hm]; decide)
      | hidden => exact hmark "7;31" (by decide) (by simp [hm]) (by simp only [partAttrs, hm]; decide)
      | plain =>
        dsimp only
        by_cases hs : (markSpaces && isSpacePart p) = true
        · rw [if_pos hs]
          obtain ⟨rfl, hspace⟩ : markSpaces = true ∧ isSpacePart p = true := Bool.and_eq_true _ _ ▸ hs
          obtain ⟨run, hrun⟩ := exists_runAt hdrop hspace
          have hpos := hrun.pos
          rw [hrun.takes, Nat.add_sub_cancel_left]
          refine draws_run hbase hrun armed rfl fun armed' => ?_
          have hj := ih (i + run.length) armed' (by omega)
          rwa [decide_eq_false (by omega)] at hj
        · rw [if_neg hs, hdrop, drawnParts_cons (Bool.eq_false_iff.mpr hs), cellsOfParts_cons]
          have hattrs : partAttrs a false false false p = a := by simp [partAttrs, hm]
          rw [hattrs]
          exact (draws_pushPlain hbase hesc armed).append (hnext _)

theorem draws_paint {span : List Part} {base : List Char} {a : Attrs} (hspan : EscFree span) (hbase : Arms base a)
    (markSpaces : Bool) :
    Draws .default (paint span base markSpaces) (cellsOfParts (drawnParts a markSpaces true true span)) .default :=
  draws_paintLoop hspan hbase markSpaces (span.length + 1) 0 false (by omega)

/-! ## The line -/

/-- The base attributes of a program's last component. -/
def RoleBase.baseAttrs : RoleBase → Attrs
  | .roles => boldBlue
  | .dim => boldDim

/-- The base attributes of a token after the first, a flag or a value. -/
def RoleBase.argumentAttrs : RoleBase → Bool → Attrs
  | .roles, true => boldBlue
  | .roles, false => .default
  | .dim, _ => dimmed

/-- The spans a program's directory is painted in, each with its base. -/
def directorySpans (dir : List Part) : RoleBase → List (List Part × Attrs)
  | .roles => [((splitHead dir).1, boldCyan), ((splitHead dir).2, .default)]
  | .dim => [(dir, dimmed)]

/-- The spans of a rendered program. -/
def programSpans (r : List Part) (base : RoleBase) : List (List Part × Attrs) :=
  match lastSlash r with
  | none => [(r, base.baseAttrs)]
  | some idx => directorySpans (r.take (idx + 1)) base ++ [(r.drop (idx + 1), base.baseAttrs)]

/-- The parts of the spans, each span with an edge on both sides. -/
def drawnSpans (spans : List (List Part × Attrs)) : List (Part × Attrs) :=
  spans.flatMap fun s => drawnParts s.2 true true true s.1

/-- A rendered token that is an option flag. -/
def isFlag : List Part → Bool
  | ⟨['-'], .plain⟩ :: _ => true
  | _ => false

def programCells (tok : Bytes) (base : RoleBase) : List Cell :=
  cellsOfParts (drawnSpans (programSpans (renderToken tok) base))

def argumentCells (tok : Bytes) (base : RoleBase) : List Cell :=
  cellsOfParts (drawnParts (base.argumentAttrs (isFlag (renderToken tok))) false true true (renderToken tok))

/-- The cells of a line: the program's, and a default space and its own for each argument. -/
def lineCells (base : RoleBase) : List Bytes → List Cell
  | [] => []
  | program :: args => programCells program base ++ args.flatMap fun tok => (' ', .default) :: argumentCells tok base

theorem arms_progBase (base : RoleBase) : Arms base.progBase base.baseAttrs := by
  cases base with
  | roles => exact arms_sgr "1;34" (by decide) (by decide)
  | dim => exact arms_sgr "1;2" (by decide) (by decide)

theorem flatten_programSpans (r : List Part) (base : RoleBase) : (programSpans r base).flatMap Prod.fst = r := by
  unfold programSpans
  cases lastSlash r with
  | none => simp
  | some idx =>
    cases base with
    | dim => simp [directorySpans]
    | roles => simp [directorySpans, ← List.append_assoc, splitHead_append]

theorem draws_renderProgram (tok : Bytes) (base : RoleBase) :
    Draws .default (renderProgram tok base) (programCells tok base) .default := by
  have hr := escFree_renderToken tok
  unfold renderProgram programCells programSpans
  dsimp only
  generalize renderToken tok = r at hr ⊢
  cases lastSlash r with
  | none => simpa [drawnSpans] using draws_paint hr (arms_progBase base) true
  | some idx =>
    have hcut := List.take_append_drop (idx + 1) r
    obtain ⟨hdir, hrest⟩ := EscFree.of_append (hcut.symm ▸ hr : EscFree (r.take (idx + 1) ++ r.drop (idx + 1)))
    have hlast := draws_paint hrest (arms_progBase base) true
    cases base with
    | dim =>
      have harm : Arms RoleBase.dim.progHead dimmed := arms_sgr "2" (by decide) (by decide)
      have hd := draws_paint hdir harm true
      dsimp only
      rw [if_pos (show RoleBase.dim.progHead = RoleBase.dim.progMiddle from rfl)]
      simpa [drawnSpans, directorySpans] using hd.append hlast
    | roles =>
      have hparts := splitHead_append (r.take (idx + 1))
      obtain ⟨h1, h2⟩ := EscFree.of_append (hparts.symm ▸ hdir : EscFree (_ ++ _))
      have harm : Arms RoleBase.roles.progHead boldCyan := arms_sgr "1;36" (by decide) (by decide)
      have hnone : Arms RoleBase.roles.progMiddle .default := .inl ⟨rfl, rfl⟩
      have hhead := draws_paint h1 harm true
      have hmiddle := draws_paint h2 hnone true
      dsimp only
      rw [if_neg (show RoleBase.roles.progHead ≠ RoleBase.roles.progMiddle by decide)]
      simpa [drawnSpans, directorySpans] using (hhead.append hmiddle).append hlast

theorem arms_argument (base : RoleBase) (flag : Bool) :
    Arms (if flag then base.flag else base.value) (base.argumentAttrs flag) := by
  cases base with
  | roles =>
    cases flag with
    | false => exact .inl ⟨rfl, rfl⟩
    | true => exact arms_sgr "1;34" (by decide) (by decide)
  | dim => cases flag <;> exact arms_sgr "2" (by decide) (by decide)

theorem not_isFlag {r : List Part} (h : ∀ tail, r = ⟨['-'], .plain⟩ :: tail → False) : isFlag r = false := by
  unfold isFlag
  split
  · exact absurd rfl (h _)
  · rfl

theorem renderArgument_eq (tok : Bytes) (base : RoleBase) : renderArgument tok base =
    paint (renderToken tok) (if isFlag (renderToken tok) then base.flag else base.value) false := by
  unfold renderArgument
  dsimp only
  generalize renderToken tok = r
  split
  · rfl
  · next hother =>
    rw [not_isFlag hother]
    rfl

theorem draws_renderArgument (tok : Bytes) (base : RoleBase) :
    Draws .default (renderArgument tok base) (argumentCells tok base) .default := by
  rw [renderArgument_eq]
  exact draws_paint (escFree_renderToken tok) (arms_argument base _) false

/-- The line is drawn token by token, from the default state back to it. -/
theorem draws_renderCommandLine (path : Bytes) (argv : List Bytes) (base : RoleBase) :
    Draws .default (renderCommandLine path argv base) (lineCells base (commandTokens path argv)) .default := by
  unfold renderCommandLine lineCells
  cases commandTokens path argv with
  | nil => exact Sgr.draws_nil
  | cons program args =>
    refine (draws_renderProgram program base).append (Sgr.draws_flatMap fun tok _ => ?_)
    have hspace : Draws .default [' '] [(' ', .default)] .default := Sgr.draws_plain (by decide)
    exact hspace.append (draws_renderArgument tok base)

end SudoWhat.EscapeCore
