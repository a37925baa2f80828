/-
  SudoWhat.EscapeCore.Indexed — the renderer with every access checked.

  Every function of the renderer that slices, indexes or splits is written again as the
  source computes it, over `Lib.Slices`: an access out of range is a fault, and so is a
  loop still running after the rounds it was given. `paintLoop` also keeps the parts it
  visited.

  Proved: no input reaches a fault, each function gives what the total definition gives,
  and `paint` visits the parts of its span from the first to the last, each one once
  (`renderer_in_range`).
-/

import SudoWhat.EscapeCore.Drawing
import SudoWhat.Lib.Slices

namespace SudoWhat.EscapeCore.Indexed

open SudoWhat.Lib.Slices

/-! ## The renderer -/

/-- One round of `pieces`: item `i` of the decoded ones. -/
def pieceAt (decoded : List Item) (d : Item) (i : Nat) : Checked Piece :=
  match d with
  | .error b => .ok (.byte b)
  | .ok c =>
    if isHidden c.toNat then .ok (.hidden c.toNat)
    else if c = '\\' then do
      let rest ← sliceFrom decoded (i + 1)
      .ok (if beginsEscape rest then .backslash else .char c)
    else .ok (.char c)

def pieces (bytes : Bytes) : Checked (List Piece) :=
  (decoded bytes).zipIdx.mapM fun x => pieceAt (decoded bytes) x.1 x.2

def renderToken (raw : Bytes) : Checked (List Part) :=
  if raw = [] then .ok [ours, ours]
  else do
    let ps ← pieces raw
    .ok (if ps.all Piece.isSafe then ps.map fun p => ⟨p.text, .plain⟩ else ours :: ps.flatMap renderPiece ++ [ours])

def lastPathComponent (p : Bytes) : Checked Bytes :=
  if p = [] then .ok []
  else do
    let stop ← trim (· == slash) p p.length
    if stop = 0 then .ok [slash]
    else do
      let trimmed ← sliceTo p stop
      match rposition (· == slash) trimmed with
      | some idx => sliceFrom trimmed (idx + 1)
      | none => .ok trimmed

def commandTokens (path : Bytes) (argv : List Bytes) : Checked (List Bytes) := do
  let basename ← lastPathComponent path
  let start :=
    match argv.head? with
    | some a0 => if a0 = path ∨ (basename ≠ [] ∧ a0 = basename) then 1 else 0
    | none => 0
  let rest ← sliceFrom argv start
  .ok (path :: rest)

/-- The loop of `paint` from part `i` on: the text, and the parts it visited. A run of
    spaces is visited whole. -/
def paintLoop (span : List Part) (base : List Char) (markSpaces : Bool) :
    Nat → Nat → Bool → List Char → List Nat → Checked (List Char × List Nat)
  | 0, _, _, _, _ => .error .spinning
  | fuel + 1, i, armed, out, visited =>
    if i < span.length then do
      let p ← get span i
      match p.mark with
      | .ours =>
        let (text, armed) := pushSpan p.text sgrOurs armed
        paintLoop span base markSpaces fuel (i + 1) armed (out ++ text) (visited ++ [i])
      | .metachar =>
        let (text, armed) := pushSpan p.text sgrMeta armed
        paintLoop span base markSpaces fuel (i + 1) armed (out ++ text) (visited ++ [i])
      | .hidden =>
        let (text, armed) := pushSpan p.text sgrHidden armed
        paintLoop span base markSpaces fuel (i + 1) armed (out ++ text) (visited ++ [i])
      | .plain =>
        if markSpaces && isSpacePart p then do
          let j ← scan isSpacePart span (span.length + 1) (i + 1)
          let n ← sub j i
          let run := List.replicate n ' '
          let (text, armed) :=
            if n ≥ 2 ∨ i = 0 ∨ j = span.length then pushSpan run sgrSpace armed else pushPlain run base armed
          paintLoop span base markSpaces fuel j armed (out ++ text) (visited ++ List.range' i n)
        else
          let (text, armed) := pushPlain p.text base armed
          paintLoop span base markSpaces fuel (i + 1) armed (out ++ text) (visited ++ [i])
    else .ok (out ++ if armed then sgrReset else [], visited)

/-- One round more than the span has parts. -/
def paint (span : List Part) (base : List Char) (markSpaces : Bool) : Checked (List Char × List Nat) :=
  paintLoop span base markSpaces (span.length + 1) 0 false [] []

/-- `start` of `split_head`. -/
def headStart (dir : List Part) : Checked Nat :=
  if 2 ≤ dir.length then do
    let p ← get dir 0
    if p.mark == .ours then do
      let q ← get dir 1
      .ok (if isSlash q then 1 else 0)
    else .ok 0
  else .ok 0

def splitHead (dir : List Part) : Checked (List Part × List Part) := do
  let start ← headStart dir
  if (dir[start]?).any isSlash then do
    let after ← sliceFrom dir (start + 1)
    match after.findIdx? isSlash with
    | some p => splitAt dir (start + 1 + p)
    | none => do
      let head ← sliceTo dir 0
      .ok (head, dir)
  else do
    let head ← sliceTo dir 0
    .ok (head, dir)

/-- The directory's part of `render_command_line`. -/
def renderDirectory (dir : List Part) (base : RoleBase) : Checked (List Char) :=
  if base.progHead = base.progMiddle then do
    let (whole, _) ← paint dir base.progHead true
    .ok whole
  else do
    let (head, middle) ← splitHead dir
    let (first, _) ← paint head base.progHead true
    let (second, _) ← paint middle base.progMiddle true
    .ok (first ++ second)

def renderProgram (tok : Bytes) (base : RoleBase) : Checked (List Char) := do
  let r ← renderToken tok
  match rposition isSlash r with
  | some idx => do
    let (dir, rest) ← splitAt r (idx + 1)
    let shown ← renderDirectory dir base
    let (last, _) ← paint rest base.progBase true
    .ok (shown ++ last)
  | none => do
    let (whole, _) ← paint r base.progBase true
    .ok whole

def renderArgument (tok : Bytes) (base : RoleBase) : Checked (List Char) := do
  let r ← renderToken tok
  match r with
  | ⟨['-'], .plain⟩ :: _ => do
    let (whole, _) ← paint r base.flag false
    .ok whole
  | _ => do
    let (whole, _) ← paint r base.value false
    .ok whole

/-- The walk from token `i` on. -/
def renderTokens (base : RoleBase) : Nat → List Bytes → Checked (List Char)
  | _, [] => .ok []
  | i, tok :: toks => do
    let shown ← if i = 0 then renderProgram tok base else renderArgument tok base
    let more ← renderTokens base (i + 1) toks
    .ok ((if i > 0 then [' '] else []) ++ shown ++ more)

def renderCommandLine (path : Bytes) (argv : List Bytes) (base : RoleBase) : Checked (List Char) := do
  let toks ← commandTokens path argv
  renderTokens base 0 toks

/-! ## Tokens -/

/-- The slice after item `i` is what follows it. -/
theorem pieceAt_ok (before : List Item) (d : Item) (rest : List Item) :
    pieceAt (before ++ d :: rest) d before.length = .ok (pieceOf d rest) := by
  unfold pieceAt pieceOf
  cases d with
  | error b => rfl
  | ok c =>
    have hlen : before.length + 1 ≤ (before ++ Except.ok c :: rest).length := by simp
    have hdrop : (before ++ Except.ok c :: rest).drop (before.length + 1) = rest := by
      rw [← List.drop_drop, List.drop_left]
      rfl
    by_cases hh : isHidden c.toNat = true
    · simp only [hh, if_true]
    · simp only [hh]
      by_cases hc : c = '\\'
      · rw [if_pos hc, sliceFrom_ok hlen, hdrop]
        simp [hc]
      · simp [hc]

theorem pieces_ok (bytes : Bytes) : pieces bytes = .ok (EscapeCore.pieces bytes) := by
  have hloop : ∀ rest before : List Item, (rest.zipIdx before.length).mapM (fun x => pieceAt (before ++ rest) x.1 x.2) =
      .ok (piecesOf rest) := by
    intro rest
    induction rest with
    | nil => intro before; rfl
    | cons d rest ih =>
      intro before
      have hnext := ih (before ++ [d])
      rw [List.length_append, List.length_singleton, List.append_assoc] at hnext
      rw [List.zipIdx_cons, List.mapM_cons, pieceAt_ok, ok_bind]
      exact congrArg (fun x => x >>= fun ps => Except.ok (pieceOf d rest :: ps)) hnext
  exact hloop (decoded bytes) []

theorem renderToken_ok (raw : Bytes) : renderToken raw = .ok (EscapeCore.renderToken raw) := by
  unfold renderToken EscapeCore.renderToken
  rw [pieces_ok]
  split
  · rfl
  · rfl

theorem lastPathComponent_ok (p : Bytes) : lastPathComponent p = .ok (EscapeCore.lastPathComponent p) := by
  unfold lastPathComponent EscapeCore.lastPathComponent
  by_cases hp : p = []
  · rw [if_pos hp, if_pos hp]
  obtain ⟨kept, hle, hkept, hrev⟩ := trim_ok (p := (· == slash)) (s := p) (Nat.le_refl p.length)
  rw [List.take_length] at hrev
  rw [if_neg hp, if_neg hp, hkept, ok_bind, ← hrev]
  by_cases hzero : kept = 0
  · rw [if_pos hzero, hzero]
    rfl
  have hsome : (p.take kept).reverse ≠ [] := by
    intro h
    have hnil := List.reverse_eq_nil_iff.mp h
    rw [List.take_eq_nil_iff] at hnil
    exact hnil.elim hzero hp
  dsimp only
  rw [if_neg hzero, if_neg hsome, sliceTo_ok hle, ok_bind]
  cases hpos : rposition (· == slash) (p.take kept) with
  | none => exact congrArg Except.ok (takeWhile_of_rposition_none hpos).symm
  | some idx =>
    dsimp only
    rw [sliceFrom_ok (rposition_lt hpos)]
    exact congrArg Except.ok (drop_rposition hpos)

theorem commandTokens_ok (path : Bytes) (argv : List Bytes) :
    commandTokens path argv = .ok (EscapeCore.commandTokens path argv) := by
  unfold commandTokens EscapeCore.commandTokens
  rw [lastPathComponent_ok, ok_bind]
  cases argv with
  | nil => rfl
  | cons a0 rest =>
    dsimp only [List.head?_cons]
    split
    · rw [sliceFrom_ok (by simp)]
      rfl
    · rw [sliceFrom_ok (Nat.zero_le _)]
      rfl

/-! ## Spans -/

/-- By the parts that are left: a round visits the next one, or the run it begins. -/
theorem paintLoop_ok (span : List Part) (base : List Char) (markSpaces : Bool) :
    ∀ fuel i armed out visited, span.length - i < fuel →
      paintLoop span base markSpaces fuel i armed out visited =
        .ok (out ++ EscapeCore.paintLoop span base markSpaces fuel i armed, visited ++ List.range' i (span.length - i)) := by
  intro fuel
  induction fuel with
  | zero => intro i armed out visited h; omega
  | succ fuel ih =>
    intro i armed out visited h
    unfold paintLoop EscapeCore.paintLoop
    cases hd : span.drop i with
    | nil =>
      have hi : span.length ≤ i := List.drop_eq_nil_iff.mp hd
      rw [if_neg (Nat.not_lt.mpr hi), List.getElem?_eq_none hi, Nat.sub_eq_zero_of_le hi]
      simp
    | cons p rest =>
      have hi := length_of_drop hd
      have hget : span[i]? = some p := by rw [← List.head?_drop, hd]; rfl
      have hone : ∀ (text : List Char) (armed : Bool),
          paintLoop span base markSpaces fuel (i + 1) armed (out ++ text) (visited ++ [i]) =
            .ok (out ++ (text ++ EscapeCore.paintLoop span base markSpaces fuel (i + 1) armed),
              visited ++ List.range' i (span.length - i)) := by
        intro text armed
        rw [ih (i + 1) armed _ _ (by omega), List.append_assoc, List.append_assoc]
        have hrange : List.range' i (span.length - i) = i :: List.range' (i + 1) (span.length - (i + 1)) := by
          rw [show span.length - i = span.length - (i + 1) + 1 by omega]
          rfl
        rw [hrange]
        rfl
      rw [if_pos hi, get_of_drop hd, ok_bind, hget]
      dsimp only
      cases p.mark with
      | ours => exact hone _ _
      | metachar => exact hone _ _
      | hidden => exact hone _ _
      | plain =>
        dsimp only
        by_cases hs : (markSpaces && isSpacePart p) = true
        · have hspace : isSpacePart p = true := (Bool.and_eq_true_iff.mp hs).2
          obtain ⟨run, hrun⟩ := exists_runAt hd hspace
          have htakes := hrun.takes
          rw [hd] at htakes
          have hj : i + 1 + ((span.drop (i + 1)).takeWhile isSpacePart).length = i + run.length := by
            rw [drop_next hd, ← htakes, List.takeWhile_cons_of_pos hspace, List.length_cons]
            omega
          have hfits := hrun.fits
          have hpos := hrun.pos
          rw [if_pos hs, if_pos hs, scan_ok isSpacePart (by omega), ok_bind, hj, sub_ok (by omega), ok_bind, htakes,
            Nat.add_sub_cancel_left, ih (i + run.length) _ _ _ (by omega), List.append_assoc, List.append_assoc]
          have hrange : List.range' i run.length ++ List.range' (i + run.length) (span.length - (i + run.length)) =
              List.range' i (span.length - i) := by
            rw [show span.length - i = run.length + (span.length - (i + run.length)) by omega]
            exact List.range'_append_1
          rw [hrange]
        · rw [if_neg hs, if_neg hs]
          exact hone _ _

theorem paint_ok (span : List Part) (base : List Char) (markSpaces : Bool) :
    paint span base markSpaces = .ok (EscapeCore.paint span base markSpaces, List.range span.length) := by
  unfold paint
  rw [paintLoop_ok span base markSpaces _ 0 false [] [] (by omega), List.range_eq_range']
  rfl

/-- The start is in range, and it is the one the cut is made from. -/
theorem headStart_ok (dir : List Part) : ∃ start, headStart dir = .ok start ∧ EscapeCore.splitHead dir =
    if (dir[start]?).any isSlash then
      match (dir.drop (start + 1)).findIdx? isSlash with
      | some p => dir.splitAt (start + 1 + p)
      | none => ([], dir)
    else ([], dir) := by
  rcases dir with _ | ⟨p, _ | ⟨q, rest⟩⟩
  · exact ⟨0, rfl, rfl⟩
  · exact ⟨0, rfl, rfl⟩
  · refine ⟨if p.mark == .ours && isSlash q then 1 else 0, ?_, rfl⟩
    unfold headStart
    rw [if_pos (by simp), get_of_drop List.drop_zero, ok_bind]
    cases p.mark == .ours with
    | false => rfl
    | true => rfl

theorem splitHead_ok (dir : List Part) : splitHead dir = .ok (EscapeCore.splitHead dir) := by
  obtain ⟨start, hstart, hcut⟩ := headStart_ok dir
  rw [splitHead, hstart, ok_bind, hcut]
  have hnone : sliceTo dir 0 = .ok [] := sliceTo_ok (Nat.zero_le _)
  rw [hnone, ok_bind]
  by_cases hs : (dir[start]?).any isSlash = true
  · have hlt : start < dir.length := by
      rw [Option.any_eq_true] at hs
      obtain ⟨p, hp, -⟩ := hs
      exact (List.getElem?_eq_some_iff.mp hp).1
    rw [if_pos hs, if_pos hs, sliceFrom_ok hlt, ok_bind]
    cases hk : (dir.drop (start + 1)).findIdx? isSlash with
    | none => rfl
    | some k =>
      have hlen := (List.findIdx?_eq_some_iff_findIdx_eq.mp hk).1
      rw [List.length_drop] at hlen
      exact splitAt_ok (by omega)
  · rw [if_neg hs, if_neg hs]

/-! ## The line -/

theorem renderProgram_ok (tok : Bytes) (base : RoleBase) : renderProgram tok base = .ok (EscapeCore.renderProgram tok base) := by
  unfold renderProgram EscapeCore.renderProgram
  rw [renderToken_ok, ok_bind]
  show _ = Except.ok (match rposition isSlash (EscapeCore.renderToken tok) with | some idx => _ | none => _)
  cases hpos : rposition isSlash (EscapeCore.renderToken tok) with
  | none =>
    dsimp only
    rw [paint_ok]
    rfl
  | some idx =>
    dsimp only
    rw [splitAt_ok (rposition_lt hpos), ok_bind, List.splitAt_eq]
    unfold renderDirectory
    dsimp only
    by_cases hbase : base.progHead = base.progMiddle
    · rw [if_pos hbase, if_pos hbase, paint_ok, paint_ok]
      rfl
    · rw [if_neg hbase, if_neg hbase, splitHead_ok, paint_ok]
      simp only [paint_ok, ok_bind]

theorem renderArgument_ok (tok : Bytes) (base : RoleBase) :
    renderArgument tok base = .ok (EscapeCore.renderArgument tok base) := by
  rw [EscapeCore.renderArgument_eq]
  unfold renderArgument
  rw [renderToken_ok, ok_bind]
  simp only [paint_ok, ok_bind]
  generalize EscapeCore.renderToken tok = r
  split
  · rfl
  · next hother =>
    rw [not_isFlag hother]
    rfl

theorem renderTokens_ok (base : RoleBase) : ∀ (args : List Bytes) (i : Nat),
    renderTokens base (i + 1) args = .ok (args.flatMap fun tok => ' ' :: EscapeCore.renderArgument tok base) := by
  intro args
  induction args with
  | nil => intro i; rfl
  | cons tok args ih =>
    intro i
    unfold renderTokens
    rw [if_neg (Nat.succ_ne_zero i), renderArgument_ok, ih]
    simp only [ok_bind, if_pos (Nat.succ_pos i)]
    rfl

theorem renderCommandLine_ok (path : Bytes) (argv : List Bytes) (base : RoleBase) :
    renderCommandLine path argv base = .ok (EscapeCore.renderCommandLine path argv base) := by
  unfold renderCommandLine EscapeCore.renderCommandLine
  rw [commandTokens_ok, ok_bind]
  cases EscapeCore.commandTokens path argv with
  | nil => rfl
  | cons program args =>
    unfold renderTokens
    rw [if_pos rfl, renderProgram_ok, renderTokens_ok]
    rfl

/-- No access of the renderer is out of range, whatever the path and the arguments; and the
    loop of `paint`, given one round more than its span has parts, ends and has visited
    each part once, in order. -/
theorem renderer_in_range :
    (∀ bytes, pieces bytes = .ok (EscapeCore.pieces bytes)) ∧
      (∀ path, lastPathComponent path = .ok (EscapeCore.lastPathComponent path)) ∧
      (∀ path argv, commandTokens path argv = .ok (EscapeCore.commandTokens path argv)) ∧
      (∀ dir, splitHead dir = .ok (EscapeCore.splitHead dir)) ∧
      (∀ span base markSpaces, paint span base markSpaces =
        .ok (EscapeCore.paint span base markSpaces, List.range span.length)) ∧
      ∀ path argv base, renderCommandLine path argv base = .ok (EscapeCore.renderCommandLine path argv base) :=
  ⟨pieces_ok, lastPathComponent_ok, commandTokens_ok, splitHead_ok, paint_ok, renderCommandLine_ok⟩

end SudoWhat.EscapeCore.Indexed
