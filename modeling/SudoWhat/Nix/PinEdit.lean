/-
  SudoWhat.Nix.PinEdit — when an edit of the flake changes the pin and nothing else.

  The ref and the rev are read on one line, and then replaced as bare text on every line of
  the flake. `PinIn.OwnTokens` says what that takes of deploy: the tokens read are the
  sudowhat URL's own, and no copy of either stands anywhere else. `PinIn.OwnMatches` says it
  of the sed command, which replaces the first match on each line.

  Proved: an edit that goes line by line is the bump exactly if it changes the pin's line so,
  and no other (`PinIn.editLines_eq_bumped`). Of the rev= pass, for any edit that replaces
  the first match at least: it sets a URL whose ref= token is set already (`Pin.rev_pass`),
  and one it has set shows that what was read is the URL's rev= token (`Pin.rev_read_eq`):
  the part in front of it came through, so it holds no match.
-/

import SudoWhat.Nix.Pin

namespace SudoWhat.Nix

open SudoWhat.Lib
open SudoWhat.Lib.Substitute

variable {text tag rev old : Text}

/-! ## When an edit touches the pin alone -/

/-- The token stands in the line in one place only, behind `front`. -/
def OnlyAfter (front tok line : Text) : Prop := ∀ a b, line = a ++ (tok ++ b) → a = front

namespace PinIn

variable (p : PinIn text) (tag : Text)

/-- deploy's tokens are the pin's own: the first ref= and rev= on the line are the URL's, and
    what perl replaces stands nowhere else. -/
structure OwnTokens : Prop where
  plain : PerlPlain p.pin.refToken ∧ PerlPlain tag
  ref_read : pinRefKv p.pin.line = some p.pin.refToken
  rev_read : pinnedRev p.pin.line = some p.pin.rev
  ref_alone : p.pin.refToken = tagRef tag ∨
    OnlyAfter p.pin.site p.pin.refToken p.pin.line ∧ ∀ l ∈ p.above ++ p.below, ¬ p.pin.refToken <:+: l
  rev_alone : OnlyAfter p.pin.revSite (revToken p.pin.rev) p.pin.line
  rev_elsewhere : ∀ l ∈ p.above ++ p.below, ¬ revToken p.pin.rev <:+: l
  rev_tag : ¬ revToken p.pin.rev <:+: tag

/-- The first match on each line is the pin's own, or reads the target's token already. -/
structure OwnMatches : Prop where
  plain : SedPlain p.pin.refToken ∧ SedReplacement tag
  ref_read : pinnedRef p.pin.line = some p.pin.ref
  rev_read : pinnedRev p.pin.line = some p.pin.rev
  ref_first : ∀ u m r, FirstMatch (sedPattern p.pin.refToken) p.pin.line u m r →
    u = p.pin.site ∨ m = tagRef tag ∧ p.pin.refToken = tagRef tag
  ref_elsewhere : ∀ l ∈ p.above ++ p.below, ∀ u m r, FirstMatch (sedPattern p.pin.refToken) l u m r → m = tagRef tag
  rev_first : ∀ a b, p.pin.line = a ++ (revToken p.pin.rev ++ b) → p.pin.revSite.length ≤ a.length
  rev_elsewhere : ∀ l ∈ p.above ++ p.below, ¬ revToken p.pin.rev <:+: l
  rev_tag : ¬ revToken p.pin.rev <:+: tag

/-- Names as a release and a branch have them: neither holds `rev=`, the tag no `&` and no
    quote, the pinned ref no `?`, and nothing is special to perl or sed in either. -/
structure Ordinary : Prop where
  tag_inRef : ∀ c ∈ tag, inRef c = true
  tag_rev : ¬ revKey <:+: tag
  tag_plain : PerlPlain tag ∧ SedReplacement tag
  ref_rev : ¬ revKey <:+: p.pin.ref
  ref_question : '?' ∉ p.pin.ref
  read_plain : ∀ kv, pinRefKv p.pin.line = some kv → PerlPlain kv ∧ SedPlain kv

end PinIn

/-! ## The tokens -/

theorem length_revToken (h : IsRev rev) : (revToken rev).length = 44 := by
  rw [revToken, List.length_append, h.1]
  rfl

theorem revToken_ne_nil : revToken rev ≠ [] := List.cons_ne_nil _ _

theorem not_mem_revToken {c : Char} (h : IsRev rev) (hkey : c ∉ revKey) (hhex : isHex c = false) : c ∉ revToken rev := by
  intro hm
  rcases List.mem_append.mp hm with hm | hm
  · exact hkey hm
  · exact Bool.false_ne_true (hhex.symm.trans (h.2 c hm))

theorem r_not_mem_tail (h : IsRev rev) : 'r' ∉ (revToken rev).tail := by
  intro hm
  rcases List.mem_append.mp (show 'r' ∈ ['e', 'v', '='] ++ rev from hm) with hm | hm
  · exact absurd hm (by decide)
  · exact absurd (h.2 'r' hm) (by decide)

theorem amp_not_mem_revToken (h : IsRev rev) : '&' ∉ revToken rev := not_mem_revToken h (by decide) (by decide)

theorem revToken_injective {rev' : Text} (h : revToken rev = revToken rev') : rev = rev' := List.append_cancel_left h

theorem revKey_infix_tagRef (h : revKey <:+: tagRef tag) : revKey <:+: tag := by
  have hsplit : tagRef tag = "ref=refs/tags".toList ++ '/' :: tag := rfl
  rw [hsplit] at h
  rcases Lines.infix_append_cons (by decide) h with h | h
  · exact absurd h (by decide)
  · exact h

theorem revToken_infix_tagRef (hrev : IsRev rev) (h : revToken rev <:+: tagRef tag) : revToken rev <:+: tag := by
  have hsplit : tagRef tag = "ref=refs/tags".toList ++ '/' :: tag := rfl
  rw [hsplit] at h
  rcases Lines.infix_append_cons (not_mem_revToken hrev (by decide) (by decide)) h with h | h
  · have := h.length_le
    rw [length_revToken hrev] at this
    exact absurd this (by decide)
  · exact h

theorem revKey_infix_refToken {ref : Text} (h : revKey <:+: refKey ++ ref) : revKey <:+: ref := by
  have hne : revKey ≠ [] := List.cons_ne_nil _ _
  by_contra hnot
  refine (clear_iff_absent hne).mp (clear_append.mpr ⟨?_, (clear_iff_absent hne).mpr hnot⟩) h
  rw [List.append_nil]
  exact ⟨rfl, rfl, rfl, rfl, trivial⟩

theorem revKey_of_revToken {t : Text} (h : revToken rev <:+: t) : revKey <:+: t :=
  (List.prefix_append revKey rev).isInfix.trans h

theorem tagRef_cons (tag : Text) : ∃ t, tagRef tag = 'r' :: t := ⟨_, rfl⟩

theorem tagRef_inRef (h : ∀ c ∈ tag, inRef c = true) : ∀ c ∈ tagRef tag, inRef c = true := by
  intro c hc
  rcases List.mem_append.mp hc with hc | hc
  · exact List.all_eq_true.mp (show (refKey ++ "refs/tags/".toList).all inRef = true from by decide) c hc
  · exact h c hc

theorem question_not_mem_tagRef (h : IsTag tag) : '?' ∉ tagRef tag := by
  intro hm
  rcases List.mem_append.mp hm with hm | hm
  · exact absurd hm (by decide)
  · exact absurd (by decide) (h '?' hm).1

theorem of_all {special s : List Char} (h : (s.all fun c => !special.contains c) = true) : ∀ c ∈ s, c ∉ special := by
  intro c hc hs
  have hnot := List.all_eq_true.mp h c hc
  rw [List.contains_iff_mem.mpr hs] at hnot
  exact Bool.false_ne_true hnot

theorem tagRef_plain {special : List Char} (hkey : ∀ c ∈ refKey ++ "refs/tags/".toList, c ∉ special)
    (h : ∀ c ∈ tag, c ∉ special) : ∀ c ∈ tagRef tag, c ∉ special := by
  intro c hc
  rcases List.mem_append.mp hc with hc | hc
  · exact hkey c hc
  · exact h c hc

theorem revToken_plain {special : List Char} (h : IsRev rev)
    (hkey : (special.all fun c => !isHex c && !revKey.contains c) = true) : ∀ c ∈ revToken rev, c ∉ special := by
  intro c hc hs
  obtain ⟨hhex, hkey⟩ := Bool.and_eq_true_iff.mp (List.all_eq_true.mp hkey c hs)
  refine not_mem_revToken h (fun hm => ?_) (by simpa using hhex) hc
  rw [List.contains_iff_mem.mpr hm] at hkey
  exact Bool.false_ne_true hkey

theorem braces_cons (c : Char) (t : Text) (d : Nat) :
    braces d (c :: t) = if c = '{' then braces (d + 1) t
      else if c = '}' then d.casesOn none fun d => braces d t
      else braces d t := by
  cases d with
  | zero => rfl
  | succ d => rfl

theorem braces_append (s t : Text) (d : Nat) : braces d (s ++ t) = (braces d s).bind (braces · t) := by
  induction s generalizing d with
  | nil => rfl
  | cons c s ih =>
    rw [List.cons_append, braces_cons, braces_cons]
    by_cases hopen : c = '{'
    · rw [if_pos hopen, if_pos hopen]
      exact ih (d + 1)
    · rw [if_neg hopen, if_neg hopen]
      by_cases hclose : c = '}'
      · rw [if_pos hclose, if_pos hclose]
        cases d with
        | zero => rfl
        | succ d => exact ih d
      · rw [if_neg hclose, if_neg hclose]
        exact ih d

theorem braces_eq_self {s : Text} (h : ∀ c ∈ s, c ∉ ['{', '}']) (d : Nat) : braces d s = some d := by
  induction s with
  | nil => rfl
  | cons c s ih =>
    have hc := h c List.mem_cons_self
    have hopen : c ≠ '{' := by
      rintro rfl
      exact hc (by decide)
    have hclose : c ≠ '}' := by
      rintro rfl
      exact hc (by decide)
    rw [braces_cons, if_neg hopen, if_neg hclose]
    exact ih fun c hc => h c (List.mem_cons_of_mem _ hc)

theorem perlPlain_tagRef (h : PerlPlain tag) : PerlPlain (tagRef tag) where
  chars := tagRef_plain (of_all (by decide)) h.chars
  nest := (braces_append _ tag 0).trans h.nest

theorem perlPlain_revToken (h : IsRev rev) : PerlPlain (revToken rev) where
  chars := revToken_plain h (by decide)
  nest := braces_eq_self (revToken_plain h (by decide)) 0

theorem refAt_ne_none {c : Char} (h : inRef c = true) (t : Text) : refAt (refKey ++ c :: t) ≠ none := by
  have hsome : refAt (refKey ++ c :: t) = some (refKey ++ (c :: t).takeWhile inRef) := by
    refine refAt_eq_some.mpr ⟨(c :: t).takeWhile inRef, (c :: t).dropWhile inRef, ?_, rfl, ?_, ?_, ?_⟩
    · rw [List.takeWhile_append_dropWhile]
    · rw [List.takeWhile_cons_of_pos h]
      exact List.cons_ne_nil _ _
    · exact fun d hd => List.mem_takeWhile_imp hd
    · intro d hd
      have := List.head?_dropWhile_not inRef (c :: t)
      rw [Option.mem_def.mp hd] at this
      exact this
  rw [hsome]
  exact Option.some_ne_none _

namespace Pin

variable (p : Pin)

theorem refToken_inRef : ∀ c ∈ p.refToken, inRef c = true := by
  intro c hc
  rcases List.mem_append.mp hc with hc | hc
  · exact List.all_eq_true.mp (show refKey.all inRef = true from by decide) c hc
  · exact p.ref_inRef c hc

theorem amp_not_mem_refToken : '&' ∉ p.refToken := fun h => absurd (p.refToken_inRef '&' h) (by decide)

/-- The rest of the line behind the ref= token begins with `&`. -/
theorem params_amp (rest : Text) : ∃ rest', p.params ++ '&' :: rest = '&' :: rest' := by
  have hopen := p.params_opens
  cases hparams : p.params with
  | nil => exact ⟨rest, rfl⟩
  | cons c params =>
    rw [hparams] at hopen
    obtain rfl := hopen c rfl
    exact ⟨params ++ '&' :: rest, rfl⟩

theorem refAt_site (rest : Text) : refAt (p.refToken ++ (p.params ++ '&' :: rest)) = some p.refToken := by
  obtain ⟨rest', hrest⟩ := p.params_amp rest
  rw [hrest]
  refine refAt_eq_some.mpr ⟨p.ref, '&' :: rest', ?_, rfl, p.ref_ne, p.ref_inRef, ?_⟩
  · rw [refToken, List.append_assoc]
  · intro c hc
    obtain rfl := Option.some.inj hc
    rfl

theorem revAt_revSite : revAt (revToken p.rev ++ p.after) = some p.rev :=
  revAt_eq_some.mpr ⟨p.rev_isRev, p.after, rfl⟩

theorem line_eq_revSite : p.line = p.revSite ++ (revToken p.rev ++ p.after) := by
  simp only [line, lineWith, revSite, List.append_assoc, List.singleton_append]

/-- No match of a rev= token begins before the URL's, if none stands in the parts before it. -/
theorem clear_site_iff {tok rest : Text} (hold : IsRev old) (hr : ∃ t, tok = 'r' :: t) :
    Clear (literal (revToken old)) rest (p.site ++ (tok ++ (p.params ++ ['&']))) ↔
      ¬ revToken old <:+: p.site ∧ ¬ revToken old <:+: tok ∧ ¬ revToken old <:+: p.params := by
  have hamp : '&' ∉ (revToken old).tail := fun h => amp_not_mem_revToken hold (List.mem_of_mem_tail h)
  have hsite : Clear (literal (revToken old)) (tok ++ (p.params ++ ['&']) ++ rest) p.site ↔ ¬ revToken old <:+: p.site := by
    obtain ⟨t, rfl⟩ := hr
    rw [List.cons_append, List.cons_append, clear_barrier (r_not_mem_tail hold), clear_iff_absent revToken_ne_nil]
  have htok : Clear (literal (revToken old)) (p.params ++ ['&'] ++ rest) tok ↔ ¬ revToken old <:+: tok := by
    obtain ⟨rest', hrest⟩ := p.params_amp rest
    rw [List.append_assoc, List.singleton_append, hrest, clear_barrier hamp, clear_iff_absent revToken_ne_nil]
  have hparams : Clear (literal (revToken old)) (['&'] ++ rest) p.params ↔ ¬ revToken old <:+: p.params := by
    rw [List.singleton_append, clear_barrier hamp, clear_iff_absent revToken_ne_nil]
  have hend : Clear (literal (revToken old)) rest ['&'] := @clear_of_not_mem _ _ _ _ _ 'r' (by decide)
  rw [clear_append, clear_append, clear_append, hsite, htok, hparams]
  exact ⟨fun ⟨h, h', h'', _⟩ => ⟨h, h', h''⟩, fun ⟨h, h', h''⟩ => ⟨h, h', h'', hend⟩⟩

theorem refToken_cons : ∃ t, p.refToken = 'r' :: t := ⟨_, rfl⟩

theorem refToken_ne_nil : p.refToken ≠ [] := List.cons_ne_nil _ _

end Pin

/-! ## The lines of the flake -/

theorem editLines_congr {f g : Text → Text} (h : ∀ l ∈ text.splitOn '\n', f l = g l) : editLines f text = editLines g text := by
  rw [editLines, editLines, List.map_congr_left h]

theorem map_eq_self {f : Text → Text} {ls : List Text} : ls.map f = ls ↔ ∀ l ∈ ls, f l = l := by
  simpa only [List.map_id, id] using @List.map_inj_left _ _ ls f id

theorem break_not_mem_tagRef (h : IsTag tag) : '\n' ∉ tagRef tag := by
  intro hm
  rcases List.mem_append.mp hm with hm | hm
  · exact absurd hm (by decide)
  · exact absurd (h '\n' hm).2.1 (by decide)

theorem break_not_mem_revToken (h : IsRev rev) : '\n' ∉ revToken rev := not_mem_revToken h (by decide) (by decide)

namespace PinIn

variable (p : PinIn text)

theorem exists_pinRefKv : ∃ kv, pinRefKv p.pin.line = some kv := by
  refine Option.ne_none_iff_exists'.mp fun h => ?_
  have hnone := List.findSome?_eq_none_iff.mp h _ ((List.mem_tails _ _).mpr (List.suffix_append p.pin.site _))
  rw [p.pin.refAt_site] at hnone
  exact Option.some_ne_none _ hnone

theorem mem_lines {l : Text} : l ∈ text.splitOn '\n' ↔ l ∈ p.above ++ p.below ∨ l = p.pin.line := by
  rw [p.lines]
  simp only [List.mem_append, List.mem_cons]
  tauto

theorem break_not_mem {l : Text} (h : l ∈ text.splitOn '\n') : '\n' ∉ l := Fields.not_mem_of_mem_splitOn l h

theorem break_not_mem_lineWith (htag : IsTag tag) (hrev : IsRev rev) : '\n' ∉ p.pin.lineWith (tagRef tag) rev := by
  have hline := break_not_mem (p.mem_lines.mpr (.inr rfl))
  intro hm
  simp only [Pin.line, Pin.lineWith, List.mem_append, List.mem_cons, not_or] at hline hm
  rcases hm with hm | hm | hm | hm | hm | hm
  · exact hline.1 hm
  · exact break_not_mem_tagRef htag hm
  · exact hline.2.2.1 hm
  · exact hline.2.2.2.1 hm
  · exact break_not_mem_revToken hrev hm
  · exact hline.2.2.2.2.2 hm

/-- An edit of the lines is the bump exactly if it changes the pin's line so, and no other. -/
theorem editLines_eq_bumped {edit : Text → Text} (htag : IsTag tag) (hrev : IsRev rev)
    (hedit : ∀ l ∈ text.splitOn '\n', '\n' ∉ edit l) :
    editLines edit text = p.bumped tag rev ↔
      (∀ l ∈ p.above ++ p.below, edit l = l) ∧ edit p.pin.line = p.pin.lineWith (tagRef tag) rev := by
  have hlines : editLines edit text = ['\n'].intercalate (p.above.map edit ++ edit p.pin.line :: p.below.map edit) := by
    rw [editLines, p.lines, List.map_append, List.map_cons]
  rw [hlines, bumped]
  constructor
  · intro h
    have hleft : ∀ l ∈ p.above.map edit ++ edit p.pin.line :: p.below.map edit, '\n' ∉ l := by
      intro l hl
      rw [← List.map_cons, ← List.map_append, ← p.lines] at hl
      obtain ⟨l', hl', rfl⟩ := List.mem_map.mp hl
      exact hedit l' hl'
    have hright : ∀ l ∈ p.above ++ p.pin.lineWith (tagRef tag) rev :: p.below, '\n' ∉ l := by
      intro l hl
      rcases List.mem_append.mp hl with hl | hl
      · exact break_not_mem (p.mem_lines.mpr (.inl (List.mem_append_left _ hl)))
      · rcases List.mem_cons.mp hl with rfl | hl
        · exact p.break_not_mem_lineWith htag hrev
        · exact break_not_mem (p.mem_lines.mpr (.inl (List.mem_append_right _ hl)))
    have hsplit := congrArg (List.splitOn '\n') h
    rw [List.splitOn_intercalate _ hleft (by simp), List.splitOn_intercalate _ hright (by simp)] at hsplit
    obtain ⟨habove, hrest⟩ := List.append_inj hsplit (List.length_map edit)
    obtain ⟨hpin, hbelow⟩ := List.cons.inj hrest
    refine ⟨fun l hl => ?_, hpin⟩
    rcases List.mem_append.mp hl with hl | hl
    · exact map_eq_self.mp habove l hl
    · exact map_eq_self.mp hbelow l hl
  · intro ⟨hothers, hpin⟩
    have habove : p.above.map edit = p.above := map_eq_self.mpr fun l hl => hothers l (List.mem_append_left _ hl)
    have hbelow : p.below.map edit = p.below := map_eq_self.mpr fun l hl => hothers l (List.mem_append_right _ hl)
    rw [habove, hbelow, hpin]

theorem deploy_edited {perl : Text → Text → Text} {flake edited : Text} :
    deploy perl flake text tag rev = .edited edited ↔
      ∃ old, pinnedRev p.pin.line = some old ∧ old ≠ rev ∧
        edited = editLines (perl (subst (pinRefKv p.pin.line) tag old rev)) text := by
  unfold deploy
  simp only [p.pinLine_eq]
  cases pinnedRev p.pin.line with
  | none =>
    show Deployed.refused _ = .edited edited ↔ _
    simp
  | some old =>
    show (if old = rev then Deployed.inSync else .edited _) = .edited edited ↔ _
    by_cases h : old = rev
    · simp [h]
    · rw [if_neg h]
      constructor
      · intro e
        exact ⟨old, rfl, h, (Deployed.edited.inj e).symm⟩
      · intro ⟨old', hold, _, e⟩
        obtain rfl := Option.some.inj hold
        rw [e]

theorem deployPlan_edited {sed : List Text → Text → Text} {edited : Text} :
    deployPlan sed text tag rev = some edited ↔
      ∃ old ref, pinnedRev p.pin.line = some old ∧ pinnedRef p.pin.line = some ref ∧ old ≠ rev ∧ ref ≠ [] ∧
        edited = editLines (sed [sedSwap (refKey ++ ref) (tagRef tag), sedSwap (revToken old) (revToken rev)]) text := by
  unfold deployPlan planScripts
  simp only [p.pinLine_eq]
  cases pinnedRev p.pin.line with
  | none => simp
  | some old =>
    cases pinnedRef p.pin.line with
    | none => simp
    | some ref =>
      show Option.map _ (if old = rev ∨ ref = [] then none else some _) = some edited ↔ _
      by_cases h : old = rev ∨ ref = []
      · rw [if_pos h]
        constructor
        · intro h'
          exact absurd h' (by simp)
        · intro ⟨old', ref', hold, href, hne, hnil, _⟩
          obtain rfl := Option.some.inj hold
          obtain rfl := Option.some.inj href
          exact absurd h (not_or.mpr ⟨hne, hnil⟩)
      · rw [if_neg h]
        obtain ⟨hne, hnil⟩ := not_or.mp h
        constructor
        · intro e
          exact ⟨old, ref, rfl, rfl, hne, hnil, (Option.some.inj e).symm⟩
        · intro ⟨old', ref', hold, href, _, _, e⟩
          obtain rfl := Option.some.inj hold
          obtain rfl := Option.some.inj href
          rw [e]
          rfl

end PinIn

/-! ## One token, in one place -/

theorem onlyAfter_iff {front tok rest : Text} (hne : tok ≠ []) :
    OnlyAfter front tok (front ++ (tok ++ rest)) ↔ Clear (literal tok) (tok ++ rest) front ∧ ¬ tok <:+: tok.tail ++ rest := by
  constructor
  · intro h
    constructor
    · refine clear_literal_iff.mpr fun a b e => ?_
      rw [h a b (e.trans (List.append_assoc a tok b))]
    · intro ⟨x, y, e⟩
      -- An occurrence past the first character is another one.
      obtain ⟨c, t, htok⟩ := List.exists_cons_of_ne_nil hne
      have hfront := h (front ++ c :: x) y (by rw [htok] at e ⊢; simpa using e.symm)
      simpa using congrArg List.length hfront
  · intro ⟨hclear, hrest⟩ a b e
    have hle := clear_literal_iff.mp hclear a b (by rw [e, List.append_assoc])
    rcases List.append_eq_append_iff.mp e with ⟨x, ha, hx⟩ | ⟨x, hfront, -⟩
    · cases x with
      | nil => rw [ha, List.append_nil]
      | cons c x =>
        obtain ⟨d, t, htok⟩ := List.exists_cons_of_ne_nil hne
        rw [htok] at hx hrest
        refine absurd ⟨x, b, ?_⟩ hrest
        have := (List.cons.inj hx).2
        simpa using this.symm
    · have hlen := congrArg List.length hfront
      rw [List.length_append] at hlen
      have hx : x = [] := List.eq_nil_of_length_eq_zero (by omega)
      rw [hfront, hx, List.append_nil]

theorem OnlyAfter.absent {front tok rest : Text} (hne : tok ≠ []) (h : OnlyAfter front tok (front ++ (tok ++ rest))) :
    ¬ tok <:+: rest :=
  fun hin => ((onlyAfter_iff hne).mp h).2 (hin.trans (List.suffix_append _ _).isInfix)

/-! ## The two passes -/

/-- A ref= token, and what stands behind it, keep their place in the rev= pass. -/
theorem keeps_token {u tok rest t' : Text} (hold : IsRev old) (hrev : IsRev rev) (hr : ∃ t, tok = 'r' :: t)
    (hfree : ¬ revKey <:+: tok) (h : Rewrites (revToken old) (revToken rev) (u ++ (tok ++ rest)) t') :
    ∃ u' rest', t' = u' ++ (tok ++ rest') ∧ u'.length = u.length ∧ rest'.length = rest.length ∧
      Rewrites (revToken old) (revToken rev) (tok ++ rest) (tok ++ rest') := by
  obtain ⟨t, rfl⟩ := hr
  exact h.keeps (r_not_mem_tail hold) (hrev.1.trans hold.1.symm) hfree

theorem not_infix_of_unchanged {edit : Text → Text} {l : Text} (hold : IsRev old) (hrev : IsRev rev) (hne : old ≠ rev)
    (hreplaces : Replaces (revToken old) (revToken rev) edit) (h : edit l = l) : ¬ revToken old <:+: l := by
  have hlen : (revToken rev).length = (revToken old).length := by rw [length_revToken hold, length_revToken hrev]
  refine hreplaces.absent (fun e => hne (revToken_injective e).symm) hlen (?_ : edit (l ++ []) = l ++ [])
  rwa [List.append_nil]

namespace Pin

variable (p : Pin)

theorem rev_pass {edit : Text → Text} {after : Text} (htag : ¬ revToken p.rev <:+: tag)
    (hfirst : ∀ a b, p.line = a ++ (revToken p.rev ++ b) → p.revSite.length ≤ a.length)
    (hedit : ∀ front, Clear (literal (revToken p.rev)) (revToken p.rev ++ p.after) front →
      edit (front ++ (revToken p.rev ++ p.after)) = front ++ (revToken rev ++ after)) :
    edit (p.lineWith (tagRef tag) p.rev) =
      p.site ++ (tagRef tag ++ (p.params ++ '&' :: (revToken rev ++ after))) := by
  have hclear : Clear (literal (revToken p.rev)) (revToken p.rev ++ p.after) p.revSite :=
    clear_literal_iff.mpr fun a b e => hfirst a b (by rw [p.line_eq_revSite, e, List.append_assoc])
  obtain ⟨hsite, -, hparams⟩ := (p.clear_site_iff p.rev_isRev p.refToken_cons).mp hclear
  have htok : ¬ revToken p.rev <:+: tagRef tag := fun h => htag (revToken_infix_tagRef p.rev_isRev h)
  have h := hedit _ ((p.clear_site_iff p.rev_isRev (tagRef_cons tag)).mpr ⟨hsite, htok, hparams⟩)
  have hline : p.lineWith (tagRef tag) p.rev =
      p.site ++ (tagRef tag ++ (p.params ++ ['&'])) ++ (revToken p.rev ++ p.after) := by
    simp only [lineWith, List.append_assoc, List.singleton_append]
  rw [hline]
  refine h.trans ?_
  simp only [List.append_assoc, List.singleton_append]

theorem ref_read_le {a : Text} (hleast : ∀ a' t', p.line = a' ++ t' → a'.length < a.length → refAt t' = none) :
    a.length ≤ p.site.length := by
  by_contra hlt
  have hnone := hleast p.site _ rfl (Nat.lt_of_not_le hlt)
  rw [p.refAt_site] at hnone
  exact Option.some_ne_none _ hnone

variable {p} {edit : Text → Text}

/-- If the pass sets the URL's rev= token, what it replaced is that token. -/
theorem rev_read_eq (hold : IsRev old) (hrev : IsRev rev) (hne : old ≠ rev)
    (hreplaces : Replaces (revToken old) (revToken rev) edit)
    (hedit : edit (p.lineWith (tagRef tag) p.rev) = p.lineWith (tagRef tag) rev)
    (hread : pinnedRev p.line = some old) (href : ¬ revKey <:+: p.ref) :
    old = p.rev ∧ ∀ a b, p.line = a ++ (revToken p.rev ++ b) → p.revSite.length ≤ a.length := by
  have hnot : ¬ revToken old <:+: p.site ++ (tagRef tag ++ (p.params ++ ['&'])) := by
    have hlen : (revToken rev).length = (revToken old).length := by rw [length_revToken hold, length_revToken hrev]
    have hfront : ∀ rev', p.lineWith (tagRef tag) rev' =
        p.site ++ (tagRef tag ++ (p.params ++ ['&'])) ++ (revToken rev' ++ p.after) := by
      intro rev'
      simp only [lineWith, List.append_assoc, List.singleton_append]
    rw [hfront, hfront] at hedit
    exact hreplaces.absent (fun e => hne (revToken_injective e).symm) hlen hedit
  have hsite : ¬ revToken old <:+: p.site := fun h => hnot (h.trans (List.prefix_append _ _).isInfix)
  have hparams : ¬ revToken old <:+: p.params := by
    intro h
    refine hnot (h.trans ⟨p.site ++ tagRef tag, ['&'], ?_⟩)
    simp only [List.append_assoc]
  have htok : ¬ revToken old <:+: p.refToken := fun h => href (revKey_infix_refToken (revKey_of_revToken h))
  have hclear : Clear (literal (revToken old)) (revToken p.rev ++ p.after) p.revSite :=
    (p.clear_site_iff hold p.refToken_cons).mpr ⟨hsite, htok, hparams⟩
  obtain ⟨-, a, b, hline, hleast⟩ := pinnedRev_eq_some.mp hread
  -- Neither reading is left of the other.
  have hge : p.revSite.length ≤ a.length :=
    clear_literal_iff.mp hclear a b (by rw [List.append_assoc, ← hline, p.line_eq_revSite])
  have hle : a.length ≤ p.revSite.length := by
    by_contra hlt
    have hnone := hleast p.revSite _ p.line_eq_revSite (Nat.lt_of_not_le hlt)
    rw [p.revAt_revSite] at hnone
    exact Option.some_ne_none _ hnone
  have hsame := hline.symm.trans p.line_eq_revSite
  obtain ⟨-, htoken⟩ := List.append_inj hsame (Nat.le_antisymm hle hge)
  have hlen : (revToken old).length = (revToken p.rev).length := by rw [length_revToken hold, length_revToken p.rev_isRev]
  obtain rfl := revToken_injective (List.append_inj htoken hlen).1
  exact ⟨rfl, fun a' b' e => clear_literal_iff.mp hclear a' b' (by rw [List.append_assoc, ← e, p.line_eq_revSite])⟩

/-- If the rev= pass alone sets the URL, its ref= token is the target's already. -/
theorem refToken_eq_tagRef (href : ¬ revKey <:+: p.ref) (hold : IsRev old) (hrev : IsRev rev)
    (h : Rewrites (revToken old) (revToken rev) p.line (p.lineWith (tagRef tag) rev)) : p.refToken = tagRef tag := by
  have hrefT : ¬ revKey <:+: p.refToken := fun h => href (revKey_infix_refToken h)
  obtain ⟨u', r', e, hu, hr', -⟩ := keeps_token hold hrev p.refToken_cons hrefT h
  have heq := (List.append_inj e hu.symm).2
  have hlen : (revToken rev).length = (revToken p.rev).length := by rw [length_revToken p.rev_isRev, length_revToken hrev]
  have hrest : r'.length = (p.params ++ '&' :: (revToken rev ++ p.after)).length := by
    rw [hr']
    simp only [List.length_append, List.length_cons, hlen]
  exact (List.append_inj' heq hrest.symm).1.symm

theorem site_split {a w : Text} (hline : p.line = a ++ w) (hle : a.length ≤ p.site.length) :
    ∃ x, p.site = a ++ x ∧ w = x ++ (p.refToken ++ (p.params ++ '&' :: (revToken p.rev ++ p.after))) := by
  rcases List.append_eq_append_iff.mp hline with ⟨y, ha, hy⟩ | ⟨x, hsite, hx⟩
  · have hnil : y = [] := by
      have := congrArg List.length ha
      rw [List.length_append] at this
      exact List.eq_nil_of_length_eq_zero (by omega)
    rw [hnil, List.append_nil] at ha
    rw [hnil, List.nil_append] at hy
    exact ⟨[], by rw [ha, List.append_nil], hy.symm⟩
  · exact ⟨x, hsite, hx⟩

theorem question_mem_site {a x : Text} (h : p.site = a ++ x) (hx : x ≠ []) : '?' ∈ x := by
  have hlast : p.site.getLast? = some '?' := by
    rw [site, show "sudowhat?".toList = "sudowhat".toList ++ ['?'] from rfl, ← List.append_assoc, List.getLast?_concat]
  rw [h, List.getLast?_append_of_ne_nil _ hx] at hlast
  exact List.mem_of_getLast? hlast

theorem ref_ne_of_question (htag : IsTag tag) {x rest rest' : Text} (hx : '?' ∈ x) (h : tagRef tag ++ rest' = x ++ rest) :
    ∃ x', x = tagRef tag ++ x' ∧ rest' = x' ++ rest ∧ x' ≠ [] := by
  rcases List.append_eq_append_iff.mp h with ⟨x', hx', hrest⟩ | ⟨y, hy, -⟩
  · refine ⟨x', hx', hrest, fun e => ?_⟩
    rw [hx', e, List.append_nil] at hx
    exact question_not_mem_tagRef htag hx
  · exact absurd (hy ▸ List.mem_append_left y hx) (question_not_mem_tagRef htag)

end Pin

end SudoWhat.Nix
