/-
  SudoWhat.EscapeCore.Variants — the marks in the two coloured variants.

  Both variants run one walk, but cut the program token differently: the resolved line has
  the first segment of the directory in a span of its own, the dim line has the directory
  in one. A mark is read off a drawn character as a reader would: reverse red, one of the
  metacharacters in bold cyan, the grey background (`marksOf`). The base colours hold none
  of them (`marks_drawnParts`), so the two lines differ at most where the spans do, and
  there only in a space at the end of the first segment.

  Proved: the two lines carry the same marks exactly when the path does not begin with a
  slash, a name and a lone space before the next slash (`same_marks_iff`).
-/

import SudoWhat.EscapeCore.Padding

namespace SudoWhat.EscapeCore

open SudoWhat.Lib
open SudoWhat.Lib.Sgr (Attrs Cell screen)

/-- What a drawn character is marked as. -/
structure Marks where
  /-- Reverse red: the escape of a hidden code point. -/
  hidden : Bool
  metachar : Bool
  /-- The grey background. -/
  padding : Bool
  deriving DecidableEq, Repr

/-- A character that is drawn in bold cyan where the data holds it. -/
def isMetachar (c : Char) : Bool := c == '"' || c == '\x60' || c == '\''

def marksOf (c : Cell) : Marks where
  hidden := c.2.reverse && c.2.foreground == some 1
  metachar := isMetachar c.1 && c.2.bold && c.2.foreground == some 6
  padding := c.2.background == some 8

def marks (cells : List Cell) : List Marks := cells.map marksOf

/-! ## The bases hold no mark -/

/-- Attributes that are no mark. -/
def Quiet (a : Attrs) : Prop := a.reverse = false ∧ a.background = none

/-- No plain part holds a metacharacter. -/
def Plainly (r : List Part) : Prop := ∀ p ∈ r, p.mark = .plain → ∀ c ∈ p.text, isMetachar c = false

theorem marks_text {a : Attrs} (ha : Quiet a) : ∀ {text : List Char}, (∀ c ∈ text, isMetachar c = false) →
    marks (text.map fun c => (c, a)) = text.map fun _ => ⟨false, false, false⟩ := by
  intro text h
  simp only [marks, List.map_map]
  refine List.map_congr_left fun c hc => ?_
  simp [marksOf, ha.1, ha.2, h c hc]

theorem quiet_default : Quiet .default := ⟨rfl, rfl⟩

theorem Plainly.of_append {r r' : List Part} (h : Plainly (r ++ r')) : Plainly r ∧ Plainly r' :=
  ⟨fun p hp => h p (List.mem_append_left _ hp), fun p hp => h p (List.mem_append_right _ hp)⟩

theorem marks_partAttrs {a : Attrs} (ha : Quiet a) (markSpaces before after : Bool) {p : Part}
    (h : p.mark = .plain → ∀ c ∈ p.text, isMetachar c = false) :
    marks (p.text.map fun c => (c, partAttrs a markSpaces before after p)) =
      marks (p.text.map fun c => (c, partAttrs .default markSpaces before after p)) := by
  unfold partAttrs
  cases hm : p.mark with
  | plain =>
    dsimp only
    split
    · rfl
    · rw [marks_text ha (h hm), marks_text quiet_default (h hm)]
  | ours => rfl
  | metachar => rfl
  | hidden => rfl

@[simp] theorem marks_append (s t : List Cell) : marks (s ++ t) = marks s ++ marks t := List.map_append

theorem marks_drawnParts {a : Attrs} (ha : Quiet a) (markSpaces after : Bool) : ∀ {span : List Part}, Plainly span →
    ∀ before, marks (cellsOfParts (drawnParts a markSpaces before after span)) =
      marks (cellsOfParts (drawnParts .default markSpaces before after span))
  | [], _, _ => rfl
  | p :: span, h, before => by
    have hp := marks_partAttrs ha markSpaces before (spaceFirst after span) (h p List.mem_cons_self)
    have ih := marks_drawnParts ha markSpaces after (fun q hq => h q (List.mem_cons_of_mem _ hq) : Plainly span)
    simp only [drawnParts, cellsOfParts_cons, marks_append, hp, ih]

theorem isMetachar_pieceText {p : Piece} (hp : ∀ c, p = .char c → isMetachar c = false) :
    ∀ c ∈ p.text, isMetachar c = false := by
  have hhex : ∀ {c : Char}, isAsciiHexdigit c = true → isMetachar c = false := by
    intro c hc
    by_contra hm
    simp only [isMetachar, Bool.not_eq_false, Bool.or_eq_true, beq_iff_eq] at hm
    rcases hm with (rfl | rfl) | rfl <;> exact absurd hc (by decide)
  have hcode : ∀ u, ∀ c ∈ pushCodePoint u, isMetachar c = false := by
    intro u c hc
    simp only [pushCodePoint, List.mem_cons, List.mem_append, List.not_mem_nil, or_false] at hc
    rcases hc with rfl | rfl | rfl | hc | rfl
    · decide
    · decide
    · decide
    · exact hhex (isAsciiHexdigit_of_mem_upperHex c hc)
    · decide
  intro c hc
  cases p with
  | char c' =>
    obtain rfl := List.mem_singleton.mp hc
    exact hp c rfl
  | hidden u => exact hcode u c hc
  | backslash => exact hcode _ c hc
  | byte b =>
    have hb : b.toNat < 256 := UInt8.toNat_lt_size b
    simp only [Piece.text, pushByte, List.mem_cons, List.not_mem_nil, or_false] at hc
    rcases hc with rfl | rfl | rfl | rfl
    · decide
    · decide
    · exact hhex (isAsciiHexdigit_hexDigit (by omega))
    · exact hhex (isAsciiHexdigit_hexDigit (by omega))

theorem plainly_renderPiece (p : Piece) : Plainly (renderPiece p) := by
  intro q hq hplain
  unfold renderPiece at hq
  split at hq
  · simp only [List.mem_cons, List.not_mem_nil, or_false] at hq
    rcases hq with rfl | rfl | rfl | rfl
    · cases hplain
    · intro c hc
      obtain rfl := List.mem_singleton.mp hc
      rfl
    · cases hplain
    · cases hplain
  · obtain rfl := List.mem_singleton.mp hq
    cases hplain
  · obtain rfl := List.mem_singleton.mp hq
    cases hplain
  · obtain rfl := List.mem_singleton.mp hq
    cases hplain
  · rename_i hquote hdouble hback _
    obtain rfl := List.mem_singleton.mp hq
    refine isMetachar_pieceText fun c e => ?_
    subst e
    by_contra hm
    simp only [isMetachar, Bool.not_eq_false, Bool.or_eq_true, beq_iff_eq] at hm
    rcases hm with (rfl | rfl) | rfl
    · exact hdouble rfl
    · exact hback rfl
    · exact hquote rfl

theorem plainly_renderToken (raw : Bytes) : Plainly (renderToken raw) := by
  intro q hq hplain
  unfold renderToken at hq
  split at hq
  · simp only [List.mem_cons, List.not_mem_nil, or_false, or_self] at hq
    subst hq
    cases hplain
  · dsimp only at hq
    split at hq
    · rename_i hsafe
      obtain ⟨p, hp, rfl⟩ := List.mem_map.mp hq
      refine isMetachar_pieceText fun c e => ?_
      subst e
      have hs : isSafe c = true := List.all_eq_true.mp hsafe _ hp
      by_contra hm
      simp only [isMetachar, Bool.not_eq_false, Bool.or_eq_true, beq_iff_eq] at hm
      rcases hm with (rfl | rfl) | rfl <;> exact absurd hs (by decide)
    · simp only [List.cons_append, List.mem_cons, List.mem_append, List.mem_flatMap, List.not_mem_nil, or_false] at hq
      rcases hq with rfl | ⟨p, -, hq⟩ | rfl
      · cases hplain
      · exact plainly_renderPiece p q hq hplain
      · cases hplain

/-! ## The marks of the two lines -/

/-- The marks of one span of the program. -/
def spanMarks (span : List Part) : List Marks := marks (cellsOfParts (drawnParts .default true true true span))

theorem quiet_programBases : ∀ (base : RoleBase), ∀ a ∈ base.programBases, Quiet a
  | .roles => by unfold Quiet; decide
  | .dim => by unfold Quiet; decide

theorem marks_drawnSpans : ∀ {spans : List (List Part × Attrs)}, (∀ s ∈ spans, Quiet s.2) →
    Plainly (spans.flatMap Prod.fst) → marks (cellsOfParts (drawnSpans spans)) = spans.flatMap fun s => spanMarks s.1
  | [], _, _ => rfl
  | s :: spans, hq, hp => by
    rw [List.flatMap_cons] at hp
    obtain ⟨hs, hspans⟩ := hp.of_append
    have ih := marks_drawnSpans (fun t ht => hq t (List.mem_cons_of_mem _ ht)) hspans
    rw [drawnSpans, List.flatMap_cons, cellsOfParts_append, marks_append,
      marks_drawnParts (hq s List.mem_cons_self) true true hs true, List.flatMap_cons]
    exact congrArg _ ih

theorem marks_programCells (tok : Bytes) (base : RoleBase) :
    marks (programCells tok base) = (programSpans (renderToken tok) base).flatMap fun s => spanMarks s.1 := by
  refine marks_drawnSpans (fun s hs => quiet_programBases base s.2 (mem_programBases s hs)) ?_
  rw [flatten_programSpans]
  exact plainly_renderToken tok

theorem marks_argumentCells (tok : Bytes) (base : RoleBase) : marks (argumentCells tok base) =
    marks (cellsOfParts (drawnParts .default false true true (renderToken tok))) := by
  have hquiet : ∀ flag, Quiet (base.argumentAttrs flag) := by
    intro flag
    cases base <;> cases flag <;> exact ⟨rfl, rfl⟩
  exact marks_drawnParts (hquiet _) false true (plainly_renderToken tok) true

theorem marks_line_iff (path : Bytes) (argv : List Bytes) :
    marks (screen (renderCommandLine path argv .roles)) = marks (screen (renderCommandLine path argv .dim)) ↔
      marks (programCells path .roles) = marks (programCells path .dim) := by
  have hargs : ∀ args : List Bytes,
      marks (args.flatMap fun tok => (' ', .default) :: argumentCells tok .roles) =
        marks (args.flatMap fun tok => (' ', .default) :: argumentCells tok .dim) := by
    intro args
    induction args with
    | nil => rfl
    | cons tok args ih =>
      have htok := (marks_argumentCells tok .roles).trans (marks_argumentCells tok .dim).symm
      simp only [List.flatMap_cons, marks_append, ih]
      simp only [marks, List.map_cons] at htok ⊢
      rw [htok]
  rw [(draws_renderCommandLine path argv .roles).screen, (draws_renderCommandLine path argv .dim).screen,
    commandTokens_eq, lineCells, lineCells, marks_append, marks_append, hargs]
  exact List.append_left_inj _

/-- What the cut after the first segment changes: the end of the segment. -/
theorem spanMarks_append {s t : List Part} (ht : t.head? = some slashPart) :
    spanMarks s ++ spanMarks t = spanMarks (s ++ t) ↔
      marks (cellsOfParts (drawnParts .default true true true s)) =
        marks (cellsOfParts (drawnParts .default true true false s)) := by
  obtain ⟨t', rfl⟩ := List.head?_eq_some_iff.mp ht
  have hfirst : ∀ edge, spaceFirst edge (slashPart :: t') = false := fun _ => rfl
  simp only [spanMarks, drawnParts_append, cellsOfParts_append, marks_append, hfirst]
  rw [drawnParts_before (hfirst false) (spaceLast true s) true]
  exact List.append_left_inj _

/-- A span read with a space or an edge after it, and with neither, differs in a lone space
    at its end. -/
theorem marks_after_iff (s : List Part) (p : Part) :
    marks (cellsOfParts (drawnParts .default true true true (s ++ [p]))) =
        marks (cellsOfParts (drawnParts .default true true false (s ++ [p]))) ↔
      ¬ (p = spacePart ∧ spaceLast true s = false) := by
  simp only [drawnParts_append, cellsOfParts_append, marks_append]
  have hfirst : ∀ edge, spaceFirst edge [p] = isSpacePart p := fun _ => rfl
  simp only [hfirst, List.append_right_inj]
  by_cases hp : p = spacePart
  · subst hp
    have hs : isSpacePart spacePart = true := rfl
    cases hl : spaceLast true s with
    | true => simp [drawnParts, partAttrs, spacePart, spaceFirst]
    | false => 
      refine iff_of_false ?_ (fun h => h ⟨rfl, rfl⟩)
      simp only [drawnParts, spaceFirst, partAttrs, hs]
      decide
  · have hs : isSpacePart p = false := Bool.eq_false_iff.mpr fun h => hp (isSpacePart_iff.mp h)
    simp [drawnParts, partAttrs, hs, hp]

/-! ## The path's first segment -/

/-- The path begins with a slash and a name whose end is one space, before the next slash. -/
def SegmentEndsInSpace (path : Bytes) : Prop :=
  ∃ name rest, path = slash :: (name ++ space :: slash :: rest) ∧ slash ∉ name ∧ name.getLast? ≠ some space

/-- The rendered path begins with a quote, a slash and a name whose end is one space, before
    the next slash. -/
def HeadEndsInSpace (dir : List Part) : Prop :=
  ∃ quote name rest, IsOpening quote ∧ slashPart ∉ name ∧
    dir = quote ++ slashPart :: (name ++ [spacePart]) ++ slashPart :: rest ∧ name.getLast? ≠ some spacePart

theorem spaceLast_head {quote name : List Part} : spaceLast true (quote ++ slashPart :: name) = false ↔
    name.getLast? ≠ some spacePart := by
  have hl : spaceLast true (quote ++ slashPart :: name) = spaceLast false name := by
    cases name with
    | nil => simp [spaceLast]; rfl
    | cons p name => simp [spaceLast, List.getLast?_cons]
  rw [hl, spaceLast]
  cases h : name.getLast? with
  | none => simp
  | some p => simp [← isSpacePart_iff]

theorem HeadEndsInSpace.splitHead {dir : List Part} (h : HeadEndsInSpace dir) : ∃ quote name rest,
    IsOpening quote ∧ splitHead dir = ((quote ++ slashPart :: name) ++ [spacePart], slashPart :: rest) ∧
      name.getLast? ≠ some spacePart := by
  obtain ⟨quote, name, rest, hq, hname, rfl, hlast⟩ := h
  have hname' : slashPart ∉ name ++ [spacePart] := by
    rw [List.mem_append, List.mem_singleton]
    rintro (hm | hm)
    · exact hname hm
    · exact spacePart_ne_slashPart hm.symm
  refine ⟨quote, name, rest, hq, ?_, hlast⟩
  simpa using splitHead_segment hq hname' rest

theorem same_marks_directory (dir : List Part) :
    (directorySpans dir .roles).flatMap (fun s => spanMarks s.1) =
        (directorySpans dir .dim).flatMap (fun s => spanMarks s.1) ↔ ¬ HeadEndsInSpace dir := by
  simp only [directorySpans, List.flatMap_cons, List.flatMap_nil, List.append_nil]
  by_cases hends : HeadEndsInSpace dir
  · -- the segment's space is at an edge in one variant only
    refine iff_of_false (fun h => ?_) (fun h => h hends)
    obtain ⟨quote, name, rest, -, hsplit, hlast⟩ := hends.splitHead
    have hdir := splitHead_append dir
    rw [hsplit] at h hdir
    rw [← hdir, spanMarks_append rfl, marks_after_iff] at h
    exact h ⟨rfl, spaceLast_head.mpr hlast⟩
  · refine iff_of_true ?_ hends
    rcases splitHead_cases dir with h | ⟨quote, name, rest, hq, hname, hsplit⟩
    · rw [h]
      rfl
    · have hdir := splitHead_append dir
      rw [hsplit] at hdir ⊢
      conv_rhs => rw [← hdir]
      rw [spanMarks_append rfl]
      rcases List.eq_nil_or_concat name with rfl | ⟨name', p, rfl⟩
      · exact (marks_after_iff quote slashPart).mpr fun h => spacePart_ne_slashPart h.1.symm
      · rw [List.concat_eq_append] at hname hdir ⊢
        have e : quote ++ slashPart :: (name' ++ [p]) = (quote ++ slashPart :: name') ++ [p] := by simp
        dsimp only
        rw [e, marks_after_iff]
        rintro ⟨rfl, hlast⟩
        refine hends ⟨quote, name', rest, hq, fun hm => hname (List.mem_append_left _ hm), ?_, spaceLast_head.mp hlast⟩
        rw [← hdir]

theorem space_mem_of_part {path : Bytes} (h : spacePart ∈ renderToken path) : space ∈ path := by
  unfold renderToken at h
  split at h
  · exact absurd h (by decide)
  · dsimp only at h
    split at h
    · rename_i hsafe
      obtain ⟨p, hp, e⟩ := List.mem_map.mp h
      have hs := List.all_eq_true.mp hsafe p hp
      cases p with
      | char c =>
        obtain rfl : c = ' ' := (List.cons.inj (congrArg Part.text e)).1
        exact absurd hs (by decide)
      | _ => cases hs
    · have hm : spacePart ∈ tokenParts path := by simpa [ours, spacePart, tokenParts, partsOf, pieces] using h
      obtain ⟨u, v, huv⟩ := List.append_of_mem hm
      obtain ⟨pre, suf, rfl, -, -⟩ := tokenParts_split isSolid_space huv
      simp

theorem of_closing {t u v : List Part} (h : t ++ [ours] = u ++ slashPart :: v) : ∃ v', t = u ++ slashPart :: v' := by
  rcases List.eq_nil_or_concat v with rfl | ⟨v', q, rfl⟩
  · exact absurd (List.append_inj_right' h rfl) (by decide)
  · rw [List.concat_eq_append, ← List.cons_append, ← List.append_assoc] at h
    exact ⟨v', List.append_inj_left' h rfl⟩

theorem segmentEndsInSpace_of_head {path : Bytes} {dir last : List Part} (hr : renderToken path = dir ++ last)
    (h : HeadEndsInSpace dir) : SegmentEndsInSpace path := by
  obtain ⟨quote, name, rest, hq, hname, rfl, hend⟩ := h
  have hmem : space ∈ path := space_mem_of_part (by rw [hr]; simp)
  rw [renderToken_of_space hmem] at hr
  -- the opening quote is the renderer's
  have hbody : tokenParts path ++ [ours] = slashPart :: (name ++ [spacePart]) ++ slashPart :: (rest ++ last) := by
    rcases hq with rfl | ⟨p, rfl, -⟩
    · exact absurd (List.cons.inj hr).1 (by decide)
    · simpa using (List.cons.inj hr).2
  obtain ⟨v, hv⟩ := of_closing hbody
  obtain ⟨pre, suf, rfl, hpre, hsuf⟩ := tokenParts_split isSolid_slash
    (show tokenParts path = [] ++ solidPart slash :: (name ++ spacePart :: (slashPart :: v)) by rw [hv]; simp; rfl)
  obtain rfl := tokenParts_eq_nil hpre
  obtain ⟨name', suf', rfl, rfl, hsuf'⟩ := tokenParts_split isSolid_space hsuf
  obtain ⟨pre', rest', rfl, hpre', -⟩ := tokenParts_split isSolid_slash
    (show tokenParts suf' = [] ++ solidPart slash :: v from hsuf')
  obtain rfl := tokenParts_eq_nil hpre'
  refine ⟨name', rest', rfl, ?_, fun hl => hend ((getLast?_tokenParts isSolid_space).mpr hl)⟩
  intro hm
  obtain ⟨n1, n2, rfl⟩ := List.append_of_mem hm
  rw [tokenParts_append isSolid_slash] at hname
  exact hname (by rw [List.mem_append]; exact .inr List.mem_cons_self)

theorem head_of_segmentEndsInSpace {path : Bytes} {dir last : List Part}
    (hr : renderToken path = (dir ++ [slashPart]) ++ last) (hlast : slashPart ∉ last) (h : SegmentEndsInSpace path) :
    HeadEndsInSpace (dir ++ [slashPart]) := by
  obtain ⟨name, rest, rfl, hname, hend⟩ := h
  have hparts : tokenParts (slash :: (name ++ space :: slash :: rest)) =
      slashPart :: (tokenParts name ++ spacePart :: slashPart :: tokenParts rest) := by
    have h1 := tokenParts_append isSolid_slash [] (name ++ space :: slash :: rest)
    have h2 := tokenParts_append isSolid_slash [] rest
    rw [List.nil_append, tokenParts_append isSolid_space] at h1
    rw [List.nil_append] at h2
    rw [h1, h2]
    rfl
  have hsegment : slashPart ∉ tokenParts name := by
    intro hm
    obtain ⟨u, v, huv⟩ := List.append_of_mem hm
    obtain ⟨pre, suf, rfl, -, -⟩ := tokenParts_split isSolid_slash (show tokenParts name = u ++ solidPart slash :: v from huv)
    exact hname (by simp)
  rw [renderToken_of_space (by simp), hparts] at hr
  have hcut : (([ours] ++ slashPart :: (tokenParts name ++ [spacePart])) ++ [slashPart]) ++ (tokenParts rest ++ [ours]) =
      (dir ++ [slashPart]) ++ last := by
    rw [← hr]
    simp
  -- the directory reaches at least to the second slash
  obtain ⟨more, hmore⟩ : ∃ more, dir ++ [slashPart] =
      (([ours] ++ slashPart :: (tokenParts name ++ [spacePart])) ++ [slashPart]) ++ more := by
    rcases List.append_eq_append_iff.mp hcut with ⟨a, hd, -⟩ | ⟨a, hd, ht⟩
    · exact ⟨a, hd⟩
    · rcases List.eq_nil_or_concat a with rfl | ⟨a', q, rfl⟩
      · exact ⟨[], by simpa using hd.symm⟩
      · rw [List.concat_eq_append, ← List.append_assoc] at hd
        obtain rfl : slashPart = q := by simpa using List.append_inj_right' hd rfl
        exact absurd (by rw [ht]; simp) hlast
  refine ⟨[ours], tokenParts name, more, .inr ⟨ours, rfl, rfl⟩, hsegment, ?_, ?_⟩
  · rw [hmore]
    simp
  · exact fun hl => hend ((getLast?_tokenParts isSolid_space).mp hl)

/-- The two variants carry the same marks, unless the path's first segment ends in a lone
    space. -/
theorem same_marks_iff (path : Bytes) (argv : List Bytes) :
    marks (screen (renderCommandLine path argv .roles)) = marks (screen (renderCommandLine path argv .dim)) ↔
      ¬ SegmentEndsInSpace path := by
  rw [marks_line_iff, marks_programCells, marks_programCells]
  rcases programSpans_cases (renderToken path) .roles with ⟨hno, hroles⟩ | ⟨dir, last, hr, hlast, -⟩
  · -- without a slash both are one span
    have hdim : programSpans (renderToken path) .dim = [(renderToken path, boldDim)] := by
      rcases programSpans_cases (renderToken path) .dim with ⟨-, h⟩ | ⟨dir, last, hr, -, -⟩
      · exact h
      · exact absurd (by rw [hr]; simp) hno
    refine iff_of_true (by rw [hroles, hdim]; rfl) ?_
    rintro ⟨name, rest, rfl, -, -⟩
    have hhead : (tokenParts (slash :: (name ++ space :: slash :: rest))).head? = some slashPart :=
      (head?_tokenParts isSolid_slash).mpr rfl
    apply hno
    rw [renderToken_of_space (by simp)]
    exact List.mem_cons_of_mem _ (List.mem_append_left _ (List.mem_of_mem_head? hhead))
  · rw [hr, programSpans_append dir last hlast, programSpans_append dir last hlast, List.flatMap_append,
      List.flatMap_append]
    refine (List.append_left_inj _).trans ((same_marks_directory _).trans (not_congr ⟨?_, ?_⟩))
    · exact segmentEndsInSpace_of_head hr
    · exact head_of_segmentEndsInSpace hr hlast

/-- The first segment of `/opt /bin/ls` ends in a space that only the resolved line marks. -/
theorem a_variant_marks_more : ¬ ∀ (path : Bytes) (argv : List Bytes),
    marks (screen (renderCommandLine path argv .roles)) = marks (screen (renderCommandLine path argv .dim)) := by
  intro h
  exact absurd (h (Utf8.encode "/opt /bin/ls".toList) []) (by decide)

end SudoWhat.EscapeCore
