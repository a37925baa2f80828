/-
  SudoWhat.Segments — every path in the frame is split the same way.

  The directory row cuts an escaped path by searches for a slash from both ends of a text;
  the coloured command line cuts the marked parts of a rendered token, where a quote may
  stand first. Both draw one list of pieces, piece by piece, and a slash is one character,
  or one part, of its own: `path_cases` says where the pieces are cut, and either
  segmentation is that cut in its own drawing.

  Proved: everything either draws for one raw character lies in one segment, and in the
  same one of the three (`paths_split_alike`).
-/

import SudoWhat.Audit.Display
import SudoWhat.EscapeCore.Attribution
import SudoWhat.Lib.Slices

namespace SudoWhat

open SudoWhat.Lib SudoWhat.Lib.Slices
open SudoWhat.EscapeCore hiding Bytes
open SudoWhat.Audit (swAuditSgr swAuditColorDir splitParent)

/-! ## The two segmentations -/

inductive Segment where
  | first
  | middle
  | last
  deriving DecidableEq, Repr

/-- A sequence cut in three. -/
structure Segments (α : Type) where
  head : List α
  middle : List α
  last : List α
  deriving DecidableEq, Repr

/-- The segment position `i` lies in. -/
def Segments.at {α : Type} (s : Segments α) (i : Nat) : Segment :=
  if i < s.head.length then .first else if i < s.head.length + s.middle.length then .middle else .last

/-- What `sw_audit_color_dir` cuts a text into. -/
def dirSegments (dir : Text) : Segments Char :=
  match Audit.lastSlash dir with
  | none => ⟨[], [], dir⟩
  | some slash =>
    let (parent, last) := dir.splitAt (slash + 1)
    let (head, middle) := splitParent parent
    ⟨head, middle, last⟩

/-- What `render_command_line` cuts the program token into. -/
def programSegments (r : List Part) : Segments Part :=
  match EscapeCore.lastSlash r with
  | none => ⟨[], [], r⟩
  | some idx =>
    let (dir, rest) := r.splitAt (idx + 1)
    let (head, middle) := splitHead dir
    ⟨head, middle, rest⟩

theorem swAuditColorDir_eq (dir : Text) : swAuditColorDir dir = swAuditSgr "1;36" (dirSegments dir).head
    ++ (dirSegments dir).middle ++ swAuditSgr "1" (dirSegments dir).last := by
  unfold swAuditColorDir dirSegments
  cases Audit.lastSlash dir with
  | none => rfl
  | some slash => rfl

theorem renderProgram_eq (tok : Bytes) : renderProgram tok .roles =
    paint (programSegments (renderToken tok)).head sgrProgHead true
      ++ paint (programSegments (renderToken tok)).middle [] true
      ++ paint (programSegments (renderToken tok)).last sgrProgBase true := by
  unfold renderProgram programSegments
  dsimp only
  cases EscapeCore.lastSlash (renderToken tok) with
  | none => rfl
  | some idx =>
    dsimp only
    rw [if_neg (by decide)]
    rfl

/-! ## Pieces and what draws them -/

def slashPiece : Piece := .char '/'

/-- The quote the renderer puts around a token, if it puts one. -/
def opening (raw : Bytes) : List Part := if raw ≠ [] ∧ (pieces raw).all Piece.isSafe then [] else [ours]

theorem renderToken_opening (raw : Bytes) :
    renderToken raw = opening raw ++ (pieces raw).flatMap renderPiece ++ opening raw := by
  unfold renderToken opening
  by_cases hraw : raw = []
  · rw [if_pos hraw, if_neg fun h => h.1 hraw, hraw]
    rfl
  by_cases hs : (pieces raw).all Piece.isSafe = true
  · rw [if_neg hraw, if_pos hs, if_pos ⟨hraw, hs⟩, flatMap_renderPiece_safe hs]
    simp
  · rw [if_neg hraw, if_neg hs, if_neg fun h => hs h.2]
    rfl

theorem slash_not_mem_pushCodePoint (u : Nat) : '/' ∉ pushCodePoint u := by
  have hhex : '/' ∉ upperHex u := fun h => absurd (isAsciiHexdigit_of_mem_upperHex _ h) (by decide)
  simp [pushCodePoint, hhex]

theorem text_ne_nil (x : Piece) : x.text ≠ [] := by
  cases x with
  | char c => exact List.cons_ne_nil _ _
  | hidden u => exact List.cons_ne_nil _ _
  | byte b => exact List.cons_ne_nil _ _
  | backslash => exact List.cons_ne_nil _ _

theorem slash_text {x : Piece} (h : '/' ∈ x.text) : x = slashPiece := by
  cases x with
  | char c => rw [← List.mem_singleton.mp h]; rfl
  | hidden u => exact absurd h (slash_not_mem_pushCodePoint u)
  | byte b =>
    have hdigit : ∀ d < 16, hexDigit d ≠ '/' := by decide
    have hb : b.toNat < 256 := UInt8.toNat_lt_size b
    have hhi := hdigit (b.toNat / 16) (by omega)
    have hlo := hdigit (b.toNat % 16) (by omega)
    simp [Piece.text, pushByte, hhi.symm, hlo.symm] at h
  | backslash => exact absurd h (slash_not_mem_pushCodePoint _)

theorem slash_part {x : Piece} (h : slashPart ∈ renderPiece x) : x = slashPiece :=
  eq_char_of_solid_mem (b := slash) (.inr rfl) h

/-- The quote idiom begins with a quote of the renderer's, and no slash follows it. -/
theorem renderPiece_head {x : Piece} (h : x ≠ slashPiece) : ∃ y ys, renderPiece x = y :: ys ∧ y ≠ slashPart ∧
    (y.mark = .ours → ∃ z zs, ys = z :: zs ∧ z ≠ slashPart) := by
  have hplain : ∀ m : Mark, m ≠ .ours → renderPiece x = [⟨x.text, m⟩] →
      ∃ y ys, renderPiece x = y :: ys ∧ y ≠ slashPart ∧ (y.mark = .ours → ∃ z zs, ys = z :: zs ∧ z ≠ slashPart) := by
    intro m hm hr
    refine ⟨_, _, hr, fun e => h (slash_part ?_), fun hours => absurd hours hm⟩
    rw [hr, e]
    exact List.mem_singleton.mpr rfl
  unfold renderPiece at hplain ⊢
  split at hplain
  · exact ⟨_, _, rfl, by decide, fun _ => ⟨_, _, rfl, by decide⟩⟩
  · exact hplain .metachar (by decide) rfl
  · exact hplain .metachar (by decide) rfl
  · exact hplain .hidden (by decide) rfl
  · exact hplain .plain (by decide) rfl

/-! ## Where the pieces are cut -/

theorem exists_last {α : Type} {a : α} {s : List α} (h : a ∈ s) : ∃ u v, s = u ++ a :: v ∧ a ∉ v := by
  obtain ⟨v, u, hs, hv⟩ := List.eq_append_cons_of_mem (List.mem_reverse.mpr h)
  refine ⟨u.reverse, v.reverse, ?_, by simpa using hv⟩
  rw [← List.reverse_reverse s, hs]
  simp

/-- No slash; or a last one and none first; or one first, a last one, and the second one,
    which may be the last. -/
theorem path_cases (ps : List Piece) :
    slashPiece ∉ ps ∨
      (∃ dir last, ps = dir ++ slashPiece :: last ∧ slashPiece ∉ last ∧ dir.head? ≠ some slashPiece) ∨
      ∃ dir last name rest, ps = (slashPiece :: dir) ++ slashPiece :: last ∧ slashPiece ∉ last ∧
        dir ++ [slashPiece] = name ++ slashPiece :: rest ∧ slashPiece ∉ name := by
  by_cases h : slashPiece ∈ ps
  · obtain ⟨parent, last, hps, hlast⟩ := exists_last h
    right
    rcases parent with _ | ⟨x, dir⟩
    · exact .inl ⟨[], last, hps, hlast, nofun⟩
    · by_cases hx : x = slashPiece
      · obtain ⟨name, rest, hdir, hname⟩ := @List.eq_append_cons_of_mem _ slashPiece (dir ++ [slashPiece]) (by simp)
        exact .inr ⟨dir, last, name, rest, hx ▸ hps, hlast, hdir, hname⟩
      · exact .inl ⟨x :: dir, last, hps, hlast, fun e => hx (Option.some.inj e)⟩
  · exact .inl h

/-! ## The text -/

theorem splitAt_after {α : Type} (u : List α) (a : α) (v : List α) : (u ++ a :: v).splitAt (u.length + 1) = (u ++ [a], v) := by
  have e : u ++ a :: v = u ++ [a] ++ v := by simp
  rw [e, List.splitAt_eq, ← List.length_singleton (a := a), ← List.length_append, List.take_left, List.drop_left]

theorem slash_not_mem_textOf {ps : List Piece} (h : slashPiece ∉ ps) : ∀ c ∈ textOf ps, (c == '/') = false := by
  intro c hc
  obtain ⟨x, hx, hcx⟩ := List.mem_flatMap.mp hc
  rw [beq_eq_false_iff_ne]
  rintro rfl
  exact h (slash_text hcx ▸ hx)

theorem textOf_append (ps qs : List Piece) : textOf (ps ++ qs) = textOf ps ++ textOf qs := List.flatMap_append

theorem dirSegments_none {ps : List Piece} (h : slashPiece ∉ ps) : dirSegments (textOf ps) = ⟨[], [], textOf ps⟩ := by
  have hlast : Audit.lastSlash (textOf ps) = none := rposition_eq_none (slash_not_mem_textOf h)
  rw [dirSegments, hlast]

theorem dirSegments_last {dir last : List Piece} (hlast : slashPiece ∉ last) :
    dirSegments (textOf (dir ++ slashPiece :: last)) =
      ⟨(splitParent (textOf dir ++ ['/'])).1, (splitParent (textOf dir ++ ['/'])).2, textOf last⟩ := by
  have htext : textOf (dir ++ slashPiece :: last) = textOf dir ++ '/' :: textOf last := textOf_append _ _
  have hpos : Audit.lastSlash (textOf dir ++ '/' :: textOf last) = some (textOf dir).length :=
    rposition_append rfl (slash_not_mem_textOf hlast)
  rw [htext, dirSegments, hpos]
  dsimp only
  rw [splitAt_after]

theorem splitParent_relative {dir : List Piece} (h : dir.head? ≠ some slashPiece) :
    splitParent (textOf dir ++ ['/']) = ([], textOf dir ++ ['/']) := by
  refine if_neg fun ⟨hhead, hlen⟩ => ?_
  rcases dir with _ | ⟨x, dir⟩
  · exact absurd hlen (by decide)
  · have hx : x ≠ slashPiece := fun e => h (congrArg some e)
    have hne := text_ne_nil x
    cases htext : x.text with
    | nil => exact hne htext
    | cons c cs =>
      rw [textOf_cons, htext] at hhead
      obtain rfl : c = '/' := Option.some.inj hhead
      exact hx (slash_text (htext ▸ List.mem_cons_self))

theorem splitParent_segment {dir name rest : List Piece} (hdir : dir ++ [slashPiece] = name ++ slashPiece :: rest)
    (hname : slashPiece ∉ name) :
    splitParent (textOf (slashPiece :: dir) ++ ['/']) = ('/' :: textOf name, '/' :: textOf rest) := by
  have htext : textOf (slashPiece :: dir) ++ ['/'] = '/' :: (textOf name ++ '/' :: textOf rest) := by
    have := congrArg textOf hdir
    rw [textOf_append, textOf_append] at this
    exact congrArg ('/' :: ·) this
  have hnone : (textOf name).findIdx? (· == '/') = none :=
    List.findIdx?_eq_none_iff.mpr (slash_not_mem_textOf hname)
  have hfirst : (textOf name ++ '/' :: textOf rest).findIdx? (· == '/') = some (textOf name).length := by
    rw [List.findIdx?_append, hnone, List.findIdx?_cons, if_pos (by decide)]
    simp
  rw [htext, splitParent, if_pos ⟨rfl, by simp⟩, List.drop_one, List.tail_cons, hfirst]
  dsimp only
  rw [List.splitAt_eq]
  simp

/-! ## The token -/

section

variable {quote : List Part} (hq : quote = [] ∨ quote = [ours])
include hq

theorem quote_isOpening : IsOpening quote := by
  rcases hq with rfl | rfl
  · exact .inl rfl
  · exact .inr ⟨ours, rfl, rfl⟩

theorem slash_not_mem_parts {ps : List Piece} (h : slashPiece ∉ ps) :
    ∀ y ∈ ps.flatMap renderPiece ++ quote, isSlash y = false := by
  intro y hy
  rw [Bool.eq_false_iff]
  intro hslash
  obtain rfl := isSlash_iff.mp hslash
  rcases List.mem_append.mp hy with hy | hy
  · obtain ⟨x, hx, hyx⟩ := List.mem_flatMap.mp hy
    exact h (slash_part hyx ▸ hx)
  · rcases hq with rfl | rfl
    · exact absurd hy List.not_mem_nil
    · exact absurd (List.mem_singleton.mp hy) (by decide)

theorem programSegments_none {ps : List Piece} (h : slashPiece ∉ ps) :
    programSegments (quote ++ ps.flatMap renderPiece ++ quote) = ⟨[], [], quote ++ ps.flatMap renderPiece ++ quote⟩ := by
  have hnone : EscapeCore.lastSlash (quote ++ ps.flatMap renderPiece ++ quote) = none := by
    refine rposition_eq_none fun y hy => ?_
    rw [List.append_assoc] at hy
    rcases List.mem_append.mp hy with hy | hy
    · exact @slash_not_mem_parts _ hq [] List.not_mem_nil y hy
    · exact slash_not_mem_parts hq h y hy
  rw [programSegments, hnone]

theorem programSegments_last {dir last : List Piece} (hlast : slashPiece ∉ last) :
    programSegments (quote ++ (dir ++ slashPiece :: last).flatMap renderPiece ++ quote) =
      ⟨(splitHead (quote ++ dir.flatMap renderPiece ++ [slashPart])).1,
        (splitHead (quote ++ dir.flatMap renderPiece ++ [slashPart])).2, last.flatMap renderPiece ++ quote⟩ := by
  have hparts : quote ++ (dir ++ slashPiece :: last).flatMap renderPiece ++ quote =
      quote ++ dir.flatMap renderPiece ++ slashPart :: (last.flatMap renderPiece ++ quote) := by
    rw [List.flatMap_append, List.flatMap_cons]
    simp [renderPiece, slashPiece, slashPart, Piece.text]
  have hpos : EscapeCore.lastSlash (quote ++ dir.flatMap renderPiece ++ slashPart :: (last.flatMap renderPiece ++ quote)) =
      some (quote ++ dir.flatMap renderPiece).length :=
    rposition_append (by decide) (slash_not_mem_parts hq hlast)
  rw [hparts, programSegments, hpos]
  dsimp only
  rw [splitAt_after]

theorem splitHead_relative {dir : List Piece} (h : dir.head? ≠ some slashPiece) :
    splitHead (quote ++ dir.flatMap renderPiece ++ [slashPart]) = ([], quote ++ dir.flatMap renderPiece ++ [slashPart]) := by
  rcases dir with _ | ⟨x, dir⟩
  · rw [List.flatMap_nil, List.append_nil]
    exact splitHead_slash (quote_isOpening hq) []
  · obtain ⟨y, ys, hx, hy, hidiom⟩ := renderPiece_head fun e => h (congrArg some e)
    refine splitHead_other fun opening tail hopening e => ?_
    rw [List.flatMap_cons, hx] at e
    rcases hq with rfl | rfl
    · rcases hopening with rfl | ⟨p, rfl, hp⟩
      · exact hy (List.cons.inj e).1
      · obtain ⟨rfl, htail⟩ := List.cons.inj e
        obtain ⟨z, zs, rfl, hz⟩ := hidiom hp
        exact hz (List.cons.inj htail).1
    · rcases hopening with rfl | ⟨p, rfl, -⟩
      · exact absurd (List.cons.inj e).1 (by decide)
      · exact hy (List.cons.inj (List.cons.inj e).2).1

theorem splitHead_second {dir name rest : List Piece} (hdir : dir ++ [slashPiece] = name ++ slashPiece :: rest)
    (hname : slashPiece ∉ name) :
    splitHead (quote ++ (slashPiece :: dir).flatMap renderPiece ++ [slashPart]) =
      (quote ++ slashPart :: name.flatMap renderPiece, slashPart :: rest.flatMap renderPiece) := by
  have hslash : renderPiece slashPiece = [slashPart] := rfl
  have hparts := congrArg (List.flatMap renderPiece) hdir
  simp only [List.flatMap_append, List.flatMap_cons, List.flatMap_nil, hslash, List.append_nil, List.singleton_append] at hparts
  have hdirectory : quote ++ (slashPiece :: dir).flatMap renderPiece ++ [slashPart] =
      quote ++ slashPart :: name.flatMap renderPiece ++ slashPart :: rest.flatMap renderPiece := by
    rw [List.flatMap_cons, hslash]
    simpa using hparts
  have hname' : slashPart ∉ name.flatMap renderPiece := by
    intro hm
    obtain ⟨x, hx, hslash⟩ := List.mem_flatMap.mp hm
    exact hname (slash_part hslash ▸ hx)
  rw [hdirectory]
  exact splitHead_segment (quote_isOpening hq) hname' _

end

/-! ## Both cuts are one -/

/-- Position `b` of a drawing stands before item `m` and after all the earlier ones. The
    drawing starts at `o`. -/
def CutBefore {α : Type} (draw : Piece → List α) (o : Nat) (ps : List Piece) (b m : Nat) : Prop :=
  b = o + ((ps.take m).flatMap draw).length ∨ m = 0 ∧ b ≤ o

theorem CutBefore.lt_iff {α : Type} {draw : Piece → List α} {o b m k i : Nat} {ps : List Piece} (h : CutBefore draw o ps b m)
    {x : Piece} (hx : ps[k]? = some x) (hi : i < (draw x).length) :
    o + ((ps.take k).flatMap draw).length + i < b ↔ k < m := by
  have hmono : ∀ j l, j ≤ l → ((ps.take j).flatMap draw).length ≤ ((ps.take l).flatMap draw).length := by
    intro j l hle
    rw [← List.take_append_drop j (ps.take l), List.take_take, Nat.min_eq_left hle, List.flatMap_append, List.length_append]
    exact Nat.le_add_right _ _
  have hitem : ((ps.take (k + 1)).flatMap draw).length = ((ps.take k).flatMap draw).length + (draw x).length := by
    rw [List.take_add_one, hx]
    simp
  rcases h with rfl | ⟨rfl, hb⟩
  · constructor
    · intro hlt
      by_contra hle
      have := hmono m k (by omega)
      omega
    · intro hlt
      have := hmono (k + 1) m hlt
      omega
  · omega

/-- Three segments of a drawing that are cut before items `m` and `n`. -/
structure CutBy {α : Type} (draw : Piece → List α) (o : Nat) (ps : List Piece) (s : Segments α) (m n : Nat) : Prop where
  first : CutBefore draw o ps s.head.length m
  second : CutBefore draw o ps (s.head.length + s.middle.length) n

theorem CutBy.at_eq {α : Type} {draw : Piece → List α} {o m n k i : Nat} {ps : List Piece} {s : Segments α}
    (h : CutBy draw o ps s m n) {x : Piece} (hx : ps[k]? = some x) (hi : i < (draw x).length) :
    s.at (o + ((ps.take k).flatMap draw).length + i) = if k < m then .first else if k < n then .middle else .last := by
  unfold Segments.at
  simp only [h.first.lt_iff hx hi, h.second.lt_iff hx hi]

theorem take_after {α : Type} (u : List α) (a : α) (v : List α) : (u ++ a :: v).take (u.length + 1) = u ++ [a] := by
  have := congrArg Prod.fst (splitAt_after u a v)
  rwa [List.splitAt_eq] at this

theorem segments_cut (ps : List Piece) {quote : List Part} (hq : quote = [] ∨ quote = [ours]) :
    ∃ m n, CutBy Piece.text 0 ps (dirSegments (textOf ps)) m n ∧
      CutBy renderPiece quote.length ps (programSegments (quote ++ ps.flatMap renderPiece ++ quote)) m n := by
  rcases path_cases ps with h | ⟨dir, last, rfl, hlast, hdir⟩ | ⟨dir, last, name, rest, rfl, hlast, hdir, hname⟩
  · rw [dirSegments_none h, programSegments_none hq h]
    exact ⟨0, 0, ⟨.inr ⟨rfl, Nat.zero_le _⟩, .inr ⟨rfl, Nat.zero_le _⟩⟩,
      ⟨.inr ⟨rfl, Nat.zero_le _⟩, .inr ⟨rfl, Nat.zero_le _⟩⟩⟩
  · rw [dirSegments_last hlast, programSegments_last hq hlast, splitParent_relative hdir, splitHead_relative hq hdir]
    refine ⟨0, dir.length + 1, ⟨.inr ⟨rfl, Nat.zero_le _⟩, .inl ?_⟩, ⟨.inr ⟨rfl, Nat.zero_le _⟩, .inl ?_⟩⟩
    · rw [take_after, List.flatMap_append]
      simp [textOf, slashPiece, Piece.text]
    · rw [take_after, List.flatMap_append]
      simp [slashPiece, renderPiece]
  · -- the directory with its last slash is cut before its second
    have hparent : slashPiece :: dir ++ [slashPiece] = slashPiece :: name ++ slashPiece :: rest :=
      congrArg (slashPiece :: ·) hdir
    have hname' : ((slashPiece :: dir) ++ slashPiece :: last).take (slashPiece :: name).length = slashPiece :: name := by
      have e : (slashPiece :: dir) ++ slashPiece :: last = (slashPiece :: name) ++ (slashPiece :: rest ++ last) := by
        rw [← List.append_assoc, ← hparent]
        simp
      rw [e, List.take_left]
    have hlength : ∀ {α : Type} (draw : Piece → List α), ((slashPiece :: dir ++ [slashPiece]).flatMap draw).length =
        ((slashPiece :: name).flatMap draw).length + ((slashPiece :: rest).flatMap draw).length := by
      intro α draw
      rw [hparent, List.flatMap_append, List.length_append]
    rw [dirSegments_last hlast, programSegments_last hq hlast, splitParent_segment hdir hname, splitHead_second hq hdir hname]
    refine ⟨(slashPiece :: name).length, (slashPiece :: dir).length + 1, ⟨.inl ?_, .inl ?_⟩, ⟨.inl ?_, .inl ?_⟩⟩
    · rw [hname', Nat.zero_add]
      rfl
    · rw [take_after, hlength, Nat.zero_add]
      rfl
    · rw [hname']
      exact List.length_append
    · rw [take_after, hlength, ← Nat.add_assoc]
      exact congrArg (· + (slashPart :: rest.flatMap renderPiece).length) List.length_append

/-! ## The frame -/

/-- The directory row and the program token are painted by their three segments, both draw
    the raw characters one after another, and all they draw for one of them lies in one
    segment, the same for both. -/
theorem paths_split_alike (p : Bytes) :
    (swAuditColorDir (escapeBytes p) = swAuditSgr "1;36" (dirSegments (escapeBytes p)).head
        ++ (dirSegments (escapeBytes p)).middle ++ swAuditSgr "1" (dirSegments (escapeBytes p)).last ∧
      escapeBytes p = (pieces p).flatMap Piece.text) ∧
    (renderProgram p .roles = paint (programSegments (renderToken p)).head sgrProgHead true
        ++ paint (programSegments (renderToken p)).middle [] true
        ++ paint (programSegments (renderToken p)).last sgrProgBase true ∧
      renderToken p = opening p ++ (pieces p).flatMap renderPiece ++ opening p) ∧
    ∀ k x, (pieces p)[k]? = some x → ∃ segment,
      (∀ i < x.text.length, (dirSegments (escapeBytes p)).at ((((pieces p).take k).flatMap Piece.text).length + i) = segment) ∧
      ∀ j < (renderPiece x).length, (programSegments (renderToken p)).at
        ((opening p).length + (((pieces p).take k).flatMap renderPiece).length + j) = segment := by
  have hq : opening p = [] ∨ opening p = [ours] := by
    unfold opening
    split
    · exact .inl rfl
    · exact .inr rfl
  refine ⟨⟨swAuditColorDir_eq _, rfl⟩, ⟨renderProgram_eq p, renderToken_opening p⟩, fun k x hx => ?_⟩
  obtain ⟨m, n, hdir, hprogram⟩ := segments_cut (pieces p) hq
  rw [← renderToken_opening] at hprogram
  refine ⟨_, fun i hi => ?_, fun j hj => hprogram.at_eq hx hj⟩
  rw [← hdir.at_eq hx hi, Nat.zero_add]
  rfl

theorem paths_split_alike_quoted : ∃ segment,
    (∀ i < (Piece.char ' ').text.length, (dirSegments (escapeBytes (lit "/a b/c"))).at
      ((((pieces (lit "/a b/c")).take 2).flatMap Piece.text).length + i) = segment) ∧
    ∀ j < (renderPiece (.char ' ')).length, (programSegments (renderToken (lit "/a b/c"))).at
      ((opening (lit "/a b/c")).length + (((pieces (lit "/a b/c")).take 2).flatMap renderPiece).length + j) = segment :=
  (paths_split_alike (lit "/a b/c")).2.2 2 (.char ' ') (by decide)

end SudoWhat
