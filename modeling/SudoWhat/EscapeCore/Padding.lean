/-
  SudoWhat.EscapeCore.Padding — spaces in the program path and the grey background.

  The walk marks a run of spaces two long or at an end of its span. A path with a space
  stands in the renderer's own quotes, so its first and last span begin and end with a
  quote, and never with the path's own first or last space.
-/

import SudoWhat.EscapeCore.Drawing
import SudoWhat.EscapeCore.TokenParts

namespace SudoWhat.EscapeCore

open SudoWhat.Lib
open SudoWhat.Lib.Sgr (Attrs Cell Draws screen)

def space : UInt8 := 0x20

def spacePart : Part := ⟨[' '], .plain⟩
def slashPart : Part := ⟨['/'], .plain⟩

theorem isSpacePart_iff {p : Part} : isSpacePart p = true ↔ p = spacePart := by
  cases p
  simp [isSpacePart, spacePart, and_comm]

theorem isSlash_iff {p : Part} : isSlash p = true ↔ p = slashPart := by
  cases p
  simp [isSlash, slashPart, and_comm]

/-! ## Runs of spaces and seams -/

/-- Two spans meet at a slash: the first ends with one, or the second begins with one and
    the first has an earlier one. An empty span meets anything. -/
def Seam (s t : List Part) : Prop :=
  s = [] ∨ t = [] ∨ s.getLast? = some slashPart ∨ t.head? = some slashPart ∧ slashPart ∈ s

theorem spacePart_ne_slashPart : spacePart ≠ slashPart := by decide

theorem run_beside_seam {s t u run v : List Part} (h : s ++ t = u ++ (run ++ v)) (hseam : Seam s t)
    (hrun : ∀ q ∈ run, q = spacePart) :
    (∃ a, u = s ++ a ∧ t = a ++ (run ++ v)) ∨ ∃ b, s = u ++ (run ++ b) ∧ v = b ++ t := by
  rcases List.append_eq_append_iff.mp h with ⟨a, hu, ht⟩ | ⟨a, hs, hv⟩
  · exact .inl ⟨a, hu, ht⟩
  · rcases List.append_eq_append_iff.mp hv with ⟨b, ha, ht⟩ | ⟨b, ha, ht⟩
    · exact .inr ⟨b, by rw [hs, ha], ht⟩
    · -- the seam lies in the run, or at its start
      cases a with
      | nil => exact .inl ⟨[], by simpa using hs.symm, by simpa using hv.symm⟩
      | cons q a =>
        cases b with
        | nil => exact .inr ⟨[], by simpa [ha] using hs, by simpa using ht.symm⟩
        | cons q' b =>
          exfalso
          have hlast : s.getLast? ≠ some slashPart := by
            intro hl
            have hm : (q :: a).getLast? = some slashPart := by
              rw [hs, List.getLast?_append] at hl
              simpa [List.getLast?_cons] using hl
            have hmem : slashPart ∈ run := by
              rw [ha]
              exact List.mem_append_left _ (List.mem_of_getLast? hm)
            exact spacePart_ne_slashPart (hrun _ hmem).symm
          have hfirst : t.head? ≠ some slashPart := by
            intro hf
            rw [ht] at hf
            obtain rfl : q' = slashPart := by simpa using hf
            exact spacePart_ne_slashPart (hrun _ (by rw [ha]; simp)).symm
          rcases hseam with hs0 | ht0 | hl | ⟨hf, -⟩
          · exact absurd (hs.symm.trans hs0) (by simp)
          · exact absurd (ht.symm.trans ht0) (by simp)
          · exact hlast hl
          · exact hfirst hf

/-- Every span meets what follows it at a slash. -/
def Seams : List (List Part × Attrs) → Prop
  | [] => True
  | s :: spans => Seam s.1 (spans.flatMap Prod.fst) ∧ Seams spans

theorem run_in_span : ∀ {spans : List (List Part × Attrs)} {u run v : List Part}, Seams spans →
    spans.flatMap Prod.fst = u ++ (run ++ v) → (∀ q ∈ run, q = spacePart) → run ≠ [] →
    ∃ before a b x after, spans = before ++ (a ++ (run ++ b), x) :: after ∧
      u = before.flatMap Prod.fst ++ a ∧ v = b ++ after.flatMap Prod.fst := by
  intro spans
  induction spans with
  | nil =>
    intro u run v _ h _ hne
    exact absurd (List.append_eq_nil_iff.mp (List.append_eq_nil_iff.mp h.symm).2).1 hne
  | cons s spans ih =>
    intro u run v hseams h hrun hne
    rw [List.flatMap_cons] at h
    rcases run_beside_seam h hseams.1 hrun with ⟨a, rfl, ht⟩ | ⟨b, hs, rfl⟩
    · obtain ⟨before, a', b, x, after, rfl, rfl, rfl⟩ := ih hseams.2 ht hrun hne
      exact ⟨s :: before, a', b, x, after, rfl, by simp, rfl⟩
    · exact ⟨[], u, b, s.2, spans, by rw [← hs]; rfl, rfl, rfl⟩

/-! ## The program's spans -/

theorem findIdx?_slash {r : List Part} {k : Nat} (h : r.findIdx? isSlash = some k) :
    ∃ name rest, r = name ++ slashPart :: rest ∧ name.length = k ∧ slashPart ∉ name := by
  obtain ⟨hk, hslash, hfirst⟩ := List.findIdx?_eq_some_iff_getElem.mp h
  refine ⟨r.take k, r.drop (k + 1), ?_, by simp; omega, ?_⟩
  · rw [← isSlash_iff.mp hslash, ← List.drop_eq_getElem_cons hk, List.take_append_drop]
  · intro hm
    obtain ⟨j, hj, e⟩ := List.mem_take_iff_getElem.mp hm
    have := hfirst j (by omega)
    rw [e] at this
    exact this rfl

theorem lastSlash_none {r : List Part} (h : lastSlash r = none) : slashPart ∉ r := by
  intro hm
  have hnone := List.findIdx?_eq_none_iff.mp (Option.map_eq_none_iff.mp h) slashPart (by simpa using hm)
  exact absurd hnone (by decide)

theorem lastSlash_some {r : List Part} {idx : Nat} (h : lastSlash r = some idx) :
    ∃ dir last, r = dir ++ slashPart :: last ∧ dir.length = idx ∧ slashPart ∉ last := by
  obtain ⟨k, hk, hidx⟩ := Option.map_eq_some_iff.mp h
  obtain ⟨name, rest, hr, hlen, hname⟩ := findIdx?_slash hk
  have hrev : r = rest.reverse ++ slashPart :: name.reverse := by
    rw [← List.reverse_reverse r, hr]
    simp
  refine ⟨rest.reverse, name.reverse, hrev, ?_, by simpa using hname⟩
  have := congrArg List.length hrev
  simp only [List.length_append, List.length_cons, List.length_reverse] at this ⊢
  omega

/-- Nothing, or a quote of the renderer's. -/
def IsOpening (quote : List Part) : Prop := quote = [] ∨ ∃ p : Part, quote = [p] ∧ p.mark = .ours

theorem splitHead_slash {quote : List Part} (hq : IsOpening quote) (tail : List Part) :
    splitHead (quote ++ slashPart :: tail) =
      match tail.findIdx? isSlash with
      | some k => (quote ++ slashPart :: tail).splitAt (quote.length + 1 + k)
      | none => ([], quote ++ slashPart :: tail) := by
  rcases hq with rfl | ⟨p, rfl, hp⟩
  · cases tail <;> rfl
  · have hstart : ((p :: slashPart :: tail)[1]?).any isSlash = true := rfl
    have hif : (p.mark == Mark.ours && isSlash slashPart) = true := by rw [hp]; rfl
    show splitHead (p :: slashPart :: tail) = _
    simp only [splitHead, hif, if_true, hstart]
    rfl

theorem splitHead_other {dir : List Part} (h : ∀ quote tail, IsOpening quote → dir ≠ quote ++ slashPart :: tail) :
    splitHead dir = ([], dir) := by
  rcases dir with _ | ⟨p, _ | ⟨q, rest⟩⟩
  · rfl
  · by_cases hp : isSlash p = true
    · exact absurd (by rw [isSlash_iff.mp hp]; rfl) (h [] [] (.inl rfl))
    · simp [splitHead, hp]
  · by_cases hp : isSlash p = true
    · exact absurd (by rw [isSlash_iff.mp hp]; rfl) (h [] (q :: rest) (.inl rfl))
    · by_cases hq : p.mark = .ours ∧ isSlash q = true
      · exact absurd (by rw [isSlash_iff.mp hq.2]; rfl) (h [p] rest (.inr ⟨p, rfl, hq.1⟩))
      · simp [splitHead, hp, hq]

/-- A slash, a name and the next slash: the cut is before that one. -/
theorem splitHead_segment {quote name : List Part} (hq : IsOpening quote) (hname : slashPart ∉ name) (rest : List Part) :
    splitHead (quote ++ slashPart :: name ++ slashPart :: rest) = (quote ++ slashPart :: name, slashPart :: rest) := by
  have hnone : name.findIdx? isSlash = none := by
    rw [List.findIdx?_eq_none_iff]
    intro p hp
    exact Bool.eq_false_iff.mpr fun h => hname (isSlash_iff.mp h ▸ hp)
  have hslash : isSlash slashPart = true := rfl
  have hk : (name ++ slashPart :: rest).findIdx? isSlash = some name.length := by
    rw [List.findIdx?_append, hnone, List.findIdx?_cons, if_pos hslash]
    simp
  have hn : quote.length + 1 + name.length = (quote ++ slashPart :: name).length := by
    simp only [List.length_append, List.length_cons]
    omega
  have e : quote ++ slashPart :: name ++ slashPart :: rest = quote ++ slashPart :: (name ++ slashPart :: rest) := by simp
  rw [e, splitHead_slash hq, hk]
  dsimp only
  rw [← e, List.splitAt_eq, hn, List.take_left, List.drop_left]

/-- A directory has no first segment of its own, or is cut between one and the slash after
    it; a quote may stand before the segment. -/
theorem splitHead_cases (dir : List Part) : splitHead dir = ([], dir) ∨
    ∃ quote name rest, IsOpening quote ∧ slashPart ∉ name ∧
      splitHead dir = (quote ++ slashPart :: name, slashPart :: rest) := by
  by_cases h : ∃ quote tail, IsOpening quote ∧ dir = quote ++ slashPart :: tail
  · obtain ⟨quote, tail, hq, rfl⟩ := h
    cases hk : tail.findIdx? isSlash with
    | none =>
      left
      rw [splitHead_slash hq, hk]
    | some k =>
      obtain ⟨name, rest, rfl, -, hname⟩ := findIdx?_slash hk
      refine .inr ⟨quote, name, rest, hq, hname, ?_⟩
      simpa using splitHead_segment hq hname rest
  · exact .inl (splitHead_other fun quote tail hq e => h ⟨quote, tail, hq, e⟩)

/-- A program is one span, or the spans of its directory and what is after the last slash. -/
theorem programSpans_cases (r : List Part) (base : RoleBase) :
    slashPart ∉ r ∧ programSpans r base = [(r, base.baseAttrs)] ∨
      ∃ dir last, r = (dir ++ [slashPart]) ++ last ∧ slashPart ∉ last ∧
        programSpans r base = directorySpans (dir ++ [slashPart]) base ++ [(last, base.baseAttrs)] := by
  unfold programSpans
  cases hl : lastSlash r with
  | none => exact .inl ⟨lastSlash_none hl, rfl⟩
  | some idx =>
    obtain ⟨dir, last, hr, hlen, hlast⟩ := lastSlash_some hl
    have hr' : r = (dir ++ [slashPart]) ++ last := by rw [hr]; simp
    have hn : idx + 1 = (dir ++ [slashPart]).length := by simp [hlen]
    refine .inr ⟨dir, last, hr', hlast, ?_⟩
    dsimp only
    rw [hn, hr', List.take_left, List.drop_left]

/-- The spans of a program end with what stands after its last slash. -/
theorem programSpans_append (dir last : List Part) (hlast : slashPart ∉ last) (base : RoleBase) :
    programSpans ((dir ++ [slashPart]) ++ last) base =
      directorySpans (dir ++ [slashPart]) base ++ [(last, base.baseAttrs)] := by
  rcases programSpans_cases ((dir ++ [slashPart]) ++ last) base with ⟨hno, -⟩ | ⟨dir', last', hr, hlast', hspans⟩
  · exact absurd (by simp) hno
  · -- the last slash is the last slash
    have hpair : dir = dir' ∧ last = last' := by
      simp only [List.append_assoc, List.singleton_append] at hr
      rcases List.append_eq_append_iff.mp hr with ⟨a, hd, ht⟩ | ⟨a, hd, ht⟩
      · cases a with
        | nil => exact ⟨by simpa using hd.symm, by simpa using ht⟩
        | cons q a =>
          obtain ⟨-, ht⟩ := List.cons.inj ht
          exact absurd (by rw [ht]; simp) hlast
      · cases a with
        | nil => exact ⟨by simpa using hd, by simpa using ht.symm⟩
        | cons q a =>
          obtain ⟨-, ht⟩ := List.cons.inj ht
          exact absurd (by rw [ht]; simp) hlast'
    rw [hspans, hpair.1, hpair.2]

theorem seams_programSpans (r : List Part) (base : RoleBase) : Seams (programSpans r base) := by
  rcases programSpans_cases r base with ⟨-, hspans⟩ | ⟨dir, last, -, -, hspans⟩
  · rw [hspans]
    exact ⟨.inr (.inl rfl), trivial⟩
  · rw [hspans]
    have hdir : (dir ++ [slashPart]).getLast? = some slashPart := by simp
    cases base with
    | dim => exact ⟨.inr (.inr (.inl hdir)), .inr (.inl rfl), trivial⟩
    | roles =>
      have hcut := splitHead_append (dir ++ [slashPart])
      refine ⟨?_, ?_, .inr (.inl rfl), trivial⟩
      · rcases splitHead_cases (dir ++ [slashPart]) with h | ⟨quote, name, rest, -, -, h⟩
        · exact .inl (by rw [h])
        · exact .inr (.inr (.inr (by rw [h]; simp)))
      · by_cases hm : (splitHead (dir ++ [slashPart])).2 = []
        · exact .inl hm
        · refine .inr (.inr (.inl ?_))
          rw [← hcut, List.getLast?_append] at hdir
          cases hg : (splitHead (dir ++ [slashPart])).2.getLast? with
          | none => exact absurd (List.getLast?_eq_none_iff.mp hg) hm
          | some p => rw [hg] at hdir; simpa using hdir

/-- The seam between the spans before a point and those after it. -/
theorem Seams.between : ∀ {before after : List (List Part × Attrs)}, Seams (before ++ after) →
    Seam (before.flatMap Prod.fst) (after.flatMap Prod.fst)
  | [], _, _ => .inl rfl
  | s :: before, after, h => by
    have hs : Seam s.1 (before.flatMap Prod.fst ++ after.flatMap Prod.fst) := by
      rw [← List.flatMap_append]
      exact h.1
    rw [List.flatMap_cons]
    rcases Seams.between h.2 with hb | ha | hl | ⟨hf, hm⟩
    · rw [hb] at hs ⊢
      simpa using hs
    · exact .inr (.inl ha)
    · exact .inr (.inr (.inl (by rw [List.getLast?_append, hl]; rfl)))
    · exact .inr (.inr (.inr ⟨hf, List.mem_append_right _ hm⟩))

/-! ## A run as it is drawn -/

@[simp] theorem drawnSpans_append (s t : List (List Part × Attrs)) : drawnSpans (s ++ t) = drawnSpans s ++ drawnSpans t :=
  List.flatMap_append

@[simp] theorem drawnSpans_cons (s : List Part) (x : Attrs) (t : List (List Part × Attrs)) :
    drawnSpans ((s, x) :: t) = drawnParts x true true true s ++ drawnSpans t := rfl

theorem map_fst_drawnSpans (spans : List (List Part × Attrs)) :
    (drawnSpans spans).map Prod.fst = spans.flatMap Prod.fst := by
  simp [drawnSpans, List.map_flatMap]

/-- A run of spaces in a span is grey when it is two long or at an end of the span. -/
theorem drawnSpans_run (before after : List (List Part × Attrs)) (a b : List Part) (x : Attrs) {run : List Part}
    (hrun : ∀ q ∈ run, q = spacePart) :
    ∃ u v, drawnSpans (before ++ (a ++ (run ++ b), x) :: after) =
        u ++ (run.map fun q => (q, if 2 ≤ run.length ∨ spaceLast true a = true ∨ spaceFirst true b = true
          then grey else x)) ++ v ∧
      u.map Prod.fst = before.flatMap Prod.fst ++ a ∧ v.map Prod.fst = b ++ after.flatMap Prod.fst := by
  have hspaces : ∀ q ∈ run, isSpacePart q = true := fun q hq => isSpacePart_iff.mpr (hrun q hq)
  refine ⟨drawnSpans before ++ drawnParts x true true (spaceFirst true (run ++ b)) a,
    drawnParts x true (spaceLast (spaceLast true a) run) true b ++ drawnSpans after, ?_, ?_, ?_⟩
  · rw [drawnSpans_append, drawnSpans_cons, drawnParts_append, drawnParts_append run b, drawnParts_spaces hspaces]
    simp only [List.append_assoc]
  · rw [List.map_append, map_fst_drawnSpans, map_fst_drawnParts]
  · rw [List.map_append, map_fst_drawnSpans, map_fst_drawnParts]

/-- The `n` characters at the place where `text` ends are spaces on the grey background. -/
def DrawnGrey (cells : List Cell) (text : List Char) (n : Nat) : Prop :=
  ∃ before run after, cells = before ++ run ++ after ∧ before.map Prod.fst = text ∧ run.length = n ∧
    ∀ c ∈ run, c.1 = ' ' ∧ c.2.background = some 8

theorem drawnGrey_iff {cells : List Cell} {before run after : List Cell} {n : Nat} (h : cells = before ++ run ++ after)
    (hn : run.length = n) :
    DrawnGrey cells (before.map Prod.fst) n ↔ ∀ c ∈ run, c.1 = ' ' ∧ c.2.background = some 8 := by
  constructor
  · intro ⟨before', run', after', h', ht, hn', hg⟩
    have hlen : before'.length = before.length := by simpa using congrArg List.length ht
    rw [h, List.append_assoc, List.append_assoc] at h'
    obtain ⟨-, h'⟩ := List.append_inj h' hlen.symm
    obtain ⟨rfl, -⟩ := List.append_inj h' (hn.trans hn'.symm)
    exact hg
  · intro hg
    exact ⟨before, run, after, h, rfl, hn, hg⟩

/-- The bases the spans of a program have. -/
def RoleBase.programBases : RoleBase → List Attrs
  | .roles => [boldCyan, .default, boldBlue]
  | .dim => [dimmed, boldDim]

theorem mem_programBases {r : List Part} {base : RoleBase} : ∀ s ∈ programSpans r base, s.2 ∈ base.programBases := by
  intro s hs
  rcases programSpans_cases r base with ⟨-, hspans⟩ | ⟨dir, last, -, -, hspans⟩
  · rw [hspans, List.mem_singleton] at hs
    rw [hs]
    cases base <;> simp [RoleBase.programBases, RoleBase.baseAttrs]
  · rw [hspans, List.mem_append, List.mem_singleton] at hs
    rcases hs with hs | rfl
    · cases base with
      | dim =>
        rw [directorySpans, List.mem_singleton] at hs
        rw [hs]
        simp [RoleBase.programBases]
      | roles =>
        simp only [directorySpans, List.mem_cons, List.not_mem_nil, or_false] at hs
        rcases hs with rfl | rfl <;> simp [RoleBase.programBases]
    · cases base <;> simp [RoleBase.programBases, RoleBase.baseAttrs]

theorem background_programBases : ∀ (base : RoleBase), ∀ a ∈ base.programBases, a.background = none
  | .roles => by decide
  | .dim => by decide

/-! ## The path's bytes -/

theorem isSolid_space : IsSolid space := .inl rfl
theorem isSolid_slash : IsSolid slash := .inr rfl

theorem tokenParts_spaces (suf : Bytes) : ∀ n : Nat,
    tokenParts (List.replicate n space ++ suf) = List.replicate n spacePart ++ tokenParts suf
  | 0 => rfl
  | n + 1 => by
    have h := tokenParts_append isSolid_space [] (List.replicate n space ++ suf)
    rw [List.nil_append, tokenParts_spaces suf n] at h
    exact h

theorem tokenParts_run (pre suf : Bytes) {n : Nat} (hn : 0 < n) :
    tokenParts (pre ++ List.replicate n space ++ suf) =
      tokenParts pre ++ (List.replicate n spacePart ++ tokenParts suf) := by
  obtain ⟨m, rfl⟩ : ∃ m, n = m + 1 := ⟨n - 1, by omega⟩
  rw [List.replicate_succ, List.append_assoc, List.cons_append, tokenParts_append isSolid_space, tokenParts_spaces]
  rfl

theorem renderToken_of_space {raw : Bytes} (h : space ∈ raw) : renderToken raw = ours :: (tokenParts raw ++ [ours]) := by
  obtain ⟨pre, suf, rfl⟩ := List.append_of_mem h
  have hunsafe : ¬ (pieces (pre ++ space :: suf)).all Piece.isSafe = true := by
    intro hall
    have hp : pieces (pre ++ space :: suf) = piecesOf (decoded pre) ++ .char ' ' :: piecesOf (decoded suf) := by
      rw [pieces, decoded_append isSolid_space, piecesOf_append isSolid_space]
      rfl
    rw [hp] at hall
    exact absurd (List.all_eq_true.mp hall (.char ' ') (by simp)) (by decide)
  rw [renderToken, if_neg (by simp), if_neg hunsafe]
  rfl

/-- Where a run of spaces of the path stands in the spans of the program. -/
theorem program_run {pre suf : Bytes} {n : Nat} (hn : 0 < n) (base : RoleBase) :
    ∃ before a b x after, programSpans (renderToken (pre ++ List.replicate n space ++ suf)) base =
        before ++ (a ++ (List.replicate n spacePart ++ b), x) :: after ∧
      ours :: tokenParts pre = before.flatMap Prod.fst ++ a ∧ tokenParts suf ++ [ours] = b ++ after.flatMap Prod.fst := by
  have hmem : space ∈ pre ++ List.replicate n space ++ suf := by
    simp only [List.mem_append, List.mem_replicate]
    exact .inl (.inr ⟨by omega, trivial⟩)
  have hflat := flatten_programSpans (renderToken (pre ++ List.replicate n space ++ suf)) base
  rw [renderToken_of_space hmem, tokenParts_run pre suf hn] at hflat
  rw [renderToken_of_space hmem, tokenParts_run pre suf hn]
  refine run_in_span (seams_programSpans _ base) ?_ (fun q hq => List.eq_of_mem_replicate hq) ?_
  · rw [hflat]
    simp
  · intro h
    have := congrArg List.length h
    rw [List.length_replicate, List.length_nil] at this
    omega

/-- The run is drawn grey exactly where the rule of its span says. -/
theorem drawnGrey_line {pre suf : Bytes} {n : Nat} (hn : 0 < n) (argv : List Bytes) {base : RoleBase}
    {before after : List (List Part × Attrs)} {a b : List Part} {x : Attrs}
    (hspans : programSpans (renderToken (pre ++ List.replicate n space ++ suf)) base =
      before ++ (a ++ (List.replicate n spacePart ++ b), x) :: after)
    (hpre : ours :: tokenParts pre = before.flatMap Prod.fst ++ a) :
    DrawnGrey (screen (renderCommandLine (pre ++ List.replicate n space ++ suf) argv base))
        ('\'' :: pushRendered (tokenParts pre)) n ↔
      2 ≤ n ∨ spaceLast true a = true ∨ spaceFirst true b = true := by
  have hspaces : ∀ q ∈ List.replicate n spacePart, q = spacePart := fun q hq => List.eq_of_mem_replicate hq
  obtain ⟨u, v, hdrawn, hu, -⟩ := drawnSpans_run before after a b x hspaces
  rw [← hspans] at hdrawn
  have hmem : (a ++ (List.replicate n spacePart ++ b), x) ∈
      programSpans (renderToken (pre ++ List.replicate n space ++ suf)) base := by
    rw [hspans]
    simp
  have hx : x.background = none := background_programBases base x (mem_programBases _ hmem)
  have hline := (draws_renderCommandLine (pre ++ List.replicate n space ++ suf) argv base).screen
  rw [commandTokens_eq, lineCells, programCells, hdrawn, cellsOfParts_append, cellsOfParts_append,
    cellsOfParts_spaces (fun q hq => isSpacePart_iff.mpr (hspaces q hq))] at hline
  have htext : (cellsOfParts u).map Prod.fst = '\'' :: pushRendered (tokenParts pre) := by
    rw [map_fst_cellsOfParts, hu, ← hpre]
    rfl
  rw [← htext, drawnGrey_iff (hline.trans (List.append_assoc _ _ _)) (by simp)]
  simp only [List.length_replicate, List.mem_map, List.mem_replicate]
  constructor
  · intro h
    by_contra hc
    have := (h (' ', x) ⟨' ', ⟨by omega, rfl⟩, by rw [if_neg hc]⟩).2
    rw [hx] at this
    cases this
  · rintro hc c ⟨d, ⟨-, rfl⟩, rfl⟩
    rw [if_pos hc]
    exact ⟨rfl, rfl⟩

/-! ## Where a run touches an edge -/

theorem getLast?_after_ours {t : List Part} {q : Part} (h : (ours :: t).getLast? = some q) (hq : q ≠ ours) :
    t.getLast? = some q := by
  cases t with
  | nil => exact absurd (Option.some.inj h).symm hq
  | cons p t => rwa [List.getLast?_cons_cons] at h

section

variable {pre suf : Bytes} {n : Nat} {before after : List (List Part × Attrs)} {a b : List Part} {x : Attrs}
  (hseams : Seams (before ++ (a ++ (List.replicate n spacePart ++ b), x) :: after)) (hn : 0 < n)
  (hpre : ours :: tokenParts pre = before.flatMap Prod.fst ++ a)
  (hsuf : tokenParts suf ++ [ours] = b ++ after.flatMap Prod.fst)
include hseams hn hpre

theorem slash_before (hlast : pre.getLast? ≠ some space) (h : spaceLast true a = true) : pre.getLast? = some slash := by
  by_cases ha : a = []
  · subst ha
    rw [List.append_nil] at hpre
    have hseam := hseams.between
    rw [List.flatMap_cons, ← hpre] at hseam
    obtain ⟨m, rfl⟩ : ∃ m, n = m + 1 := ⟨n - 1, by omega⟩
    rcases hseam with h0 | h0 | hs | ⟨hf, -⟩
    · exact absurd h0 (List.cons_ne_nil _ _)
    · exact absurd h0 (by simp)
    · exact (getLast?_tokenParts isSolid_slash).mp (getLast?_after_ours hs (by decide))
    · exact absurd (Option.some.inj hf) spacePart_ne_slashPart
  · exfalso
    obtain ⟨q, hq⟩ := Option.isSome_iff_exists.mp (List.getLast?_isSome.mpr ha)
    have hspace : q = spacePart := by
      rw [spaceLast, hq] at h
      exact isSpacePart_iff.mp h
    have htoken : (ours :: tokenParts pre).getLast? = some spacePart := by
      rw [hpre, List.getLast?_append, hq, hspace]
      rfl
    exact hlast ((getLast?_tokenParts isSolid_space).mp (getLast?_after_ours htoken (by decide)))

include hsuf

/-- The run ends its span only before a slash, and after an earlier one. -/
theorem slash_after (hfirst : suf.head? ≠ some space) (h : spaceFirst true b = true) :
    suf ≠ [] ∧ slashPart ∈ tokenParts pre := by
  by_cases hb : b = []
  · subst hb
    rw [List.nil_append] at hsuf
    rw [List.append_nil, List.append_cons] at hseams
    have hseam := hseams.between
    rw [← hsuf, List.flatMap_append, List.flatMap_singleton, ← List.append_assoc, ← hpre] at hseam
    obtain ⟨m, rfl⟩ : ∃ m, n = m + 1 := ⟨n - 1, by omega⟩
    rcases hseam with h0 | h0 | hs | ⟨hf, hm⟩
    · exact absurd h0 (by simp)
    · exact absurd h0 (by simp)
    · rw [List.getLast?_append, List.replicate_succ', List.getLast?_concat] at hs
      exact absurd (Option.some.inj hs) spacePart_ne_slashPart
    · constructor
      · rintro rfl
        exact absurd (Option.some.inj hf) (by decide)
      · simpa [ours, slashPart, spacePart] using hm
  · exfalso
    obtain ⟨q, b', rfl⟩ := List.exists_cons_of_ne_nil hb
    obtain rfl : q = spacePart := isSpacePart_iff.mp h
    have hhead : (tokenParts suf).head? = some spacePart := by
      cases ht : tokenParts suf with
      | nil =>
        rw [ht] at hsuf
        exact absurd (List.cons.inj hsuf).1 (by decide)
      | cons p ps =>
        rw [ht] at hsuf
        exact congrArg some (List.cons.inj hsuf).1
    exact hfirst ((head?_tokenParts isSolid_space).mp hhead)

end

/-! ## Which padding is marked -/

/-- A maximal run of `n` spaces of the path, at its start, at its end, or two long. -/
structure IsPadding (path pre : Bytes) (n : Nat) (suf : Bytes) : Prop where
  path : path = pre ++ List.replicate n space ++ suf
  pos : 0 < n
  before : pre.getLast? ≠ some space
  after : suf.head? ≠ some space
  place : pre = [] ∨ suf = [] ∨ 2 ≤ n

/-- The path begins with exactly one space. -/
def LoneSpaceFirst (path : Bytes) : Prop := path.head? = some space ∧ path.tail.head? ≠ some space

/-- The path ends with exactly one space, and not right after a slash. -/
def LoneSpaceLast (path : Bytes) : Prop :=
  path.getLast? = some space ∧ path.dropLast.getLast? ≠ some space ∧ path.dropLast.getLast? ≠ some slash

/-- A single space after the last slash begins its span, and ends it but for the quote. -/
theorem drawnGrey_after_slash (dir : Bytes) (argv : List Bytes) (base : RoleBase) :
    DrawnGrey (screen (renderCommandLine (dir ++ [slash] ++ List.replicate 1 space ++ []) argv base))
      ('\'' :: pushRendered (tokenParts (dir ++ [slash]))) 1 := by
  have hdir : tokenParts (dir ++ [slash]) = tokenParts dir ++ [slashPart] := tokenParts_append isSolid_slash dir []
  have hrender : renderToken (dir ++ [slash] ++ List.replicate 1 space ++ []) =
      (ours :: tokenParts dir ++ [slashPart]) ++ (List.replicate 1 spacePart ++ [ours]) := by
    rw [renderToken_of_space (by simp), tokenParts_run _ _ (by decide), hdir]
    simp [tokenParts_nil]
  have hspans := programSpans_append (ours :: tokenParts dir) (List.replicate 1 spacePart ++ [ours]) (by decide) base
  rw [← hrender] at hspans
  have hflat : (directorySpans (ours :: tokenParts dir ++ [slashPart]) base).flatMap Prod.fst =
      ours :: tokenParts dir ++ [slashPart] := by
    cases base with
    | dim => simp [directorySpans]
    | roles => simp [directorySpans, splitHead_append]
  refine (drawnGrey_line (a := []) (b := [ours]) (by decide) argv hspans ?_).mpr (.inr (.inl rfl))
  rw [hflat, hdir]
  simp

/-- Padding in the program path is marked, unless the path begins with a lone space or ends
    with one that is not right after a slash. -/
theorem padding_marked_iff (path : Bytes) (argv : List Bytes) (base : RoleBase) :
    (∀ pre n suf, IsPadding path pre n suf →
        DrawnGrey (screen (renderCommandLine path argv base)) ('\'' :: pushRendered (tokenParts pre)) n) ↔
      ¬ LoneSpaceFirst path ∧ ¬ LoneSpaceLast path := by
  constructor
  · intro h
    refine ⟨?_, ?_⟩
    · intro ⟨hhead, hnext⟩
      obtain ⟨suf, rfl⟩ := List.head?_eq_some_iff.mp hhead
      have hpad : IsPadding (space :: suf) [] 1 suf := ⟨rfl, by decide, by simp, hnext, .inl rfl⟩
      obtain ⟨before, a, b, x, after, hspans, hpre, hsuf⟩ := @program_run [] suf 1 Nat.one_pos base
      have hseams := hspans ▸ seams_programSpans _ base
      rcases (drawnGrey_line Nat.one_pos argv hspans hpre).mp (h _ _ _ hpad) with h2 | ha | hb
      · omega
      · exact absurd (slash_before hseams Nat.one_pos hpre (by simp) ha) (by simp)
      · exact absurd (slash_after hseams Nat.one_pos hpre hsuf hnext hb).2 (by simp [tokenParts_nil])
    · intro ⟨hlast, hspace, hslash⟩
      obtain ⟨pre, rfl⟩ := List.getLast?_eq_some_iff.mp hlast
      rw [List.dropLast_concat] at hspace hslash
      have hpad : IsPadding (pre ++ [space]) pre 1 [] := ⟨by simp, by decide, hspace, by simp, .inr (.inl rfl)⟩
      obtain ⟨before, a, b, x, after, hspans, hpre, hsuf⟩ := @program_run pre [] 1 Nat.one_pos base
      have hseams := hspans ▸ seams_programSpans _ base
      have hgrey := h _ _ _ hpad
      rw [hpad.path] at hgrey
      rcases (drawnGrey_line Nat.one_pos argv hspans hpre).mp hgrey with h2 | ha | hb
      · omega
      · exact hslash (slash_before hseams Nat.one_pos hpre hspace ha)
      · exact (slash_after hseams Nat.one_pos hpre hsuf (by simp) hb).1 rfl
  · intro ⟨hfirst, hlast⟩ pre n suf hpad
    obtain ⟨hpath, hpos, hbefore, hafter, hplace⟩ := hpad
    subst hpath
    by_cases h2 : 2 ≤ n
    · obtain ⟨before, a, b, x, after, hspans, hpre, -⟩ := @program_run pre suf n hpos base
      exact (drawnGrey_line hpos argv hspans hpre).mpr (.inl h2)
    obtain rfl : n = 1 := by omega
    rcases hplace with rfl | rfl | h
    · exact absurd ⟨rfl, hafter⟩ hfirst
    · -- a lone space at the end: it stands after a slash
      have hslash : pre.getLast? = some slash := by
        by_contra hne
        apply hlast
        have e : pre ++ List.replicate 1 space ++ [] = pre ++ [space] := by simp
        rw [e]
        exact ⟨by simp, by simpa using hbefore, by simpa using hne⟩
      obtain ⟨dir, rfl⟩ := List.getLast?_eq_some_iff.mp hslash
      exact drawnGrey_after_slash dir argv base
    · exact absurd h h2

/-- The trailing space of `/bin/ls ` stands before the closing quote, and is not marked. -/
theorem a_trailing_space_is_not_marked : ¬ ∀ (path : Bytes) (argv : List Bytes) (base : RoleBase) (pre : Bytes) (n : Nat)
    (suf : Bytes), IsPadding path pre n suf →
      DrawnGrey (screen (renderCommandLine path argv base)) ('\'' :: pushRendered (tokenParts pre)) n := by
  intro h
  have hpad : IsPadding (Utf8.encode "/bin/ls ".toList) (Utf8.encode "/bin/ls".toList) 1 [] :=
    ⟨by decide, by decide, by decide, by decide, .inr (.inl rfl)⟩
  have hgrey := h _ [] .dim _ _ _ hpad
  have hspans : programSpans (renderToken (Utf8.encode "/bin/ls".toList ++ List.replicate 1 space ++ [])) .dim =
      [(ours :: tokenParts (Utf8.encode "/bin/".toList), dimmed)] ++
        ([⟨['l'], .plain⟩, ⟨['s'], .plain⟩] ++ (List.replicate 1 spacePart ++ [ours]), boldDim) :: [] := by decide
  rw [hpad.path] at hgrey
  exact absurd ((drawnGrey_line (by decide) [] hspans (by decide)).mp hgrey) (by decide)

end SudoWhat.EscapeCore
