/-
  SudoWhat.Nix.PinPlan — the sed command `deploy-plan` prints, and both scripts over a flake.

  sed replaces the first match on each line, and its pattern's full stops match anything, so
  its condition is about first matches (`PinIn.OwnMatches`).

  Proved: `deploy_edits_only_its_pin`, that where its tokens are the pin's own, deploy's edit
  changes the pin's ref= and rev= tokens to the target and nothing else, that with ordinary
  names it does so only then, and the same of the printed command. `first_match_site` is the
  step of the second that the first does not have: a first match left of the URL's token
  holds no `?` (there are as many behind it as behind the target's token), so it is as long
  as the target's and reads the same. Another input at the release the pin is at is moved to
  the target with it (`another_input_is_rewritten`).
-/

import SudoWhat.Nix.PinDeploy

namespace SudoWhat.Nix

open SudoWhat.Lib
open SudoWhat.Lib.Substitute

variable {text tag rev old : Text}

def swapFirst (old new old' new' line : Text) : Text :=
  substFirst (literal old') new' (substFirst (sedPattern old) new line)

theorem matchesHead_sedPattern {s : Text} : ∀ {t : Text}, s <+: t → matchesHead (sedPattern s) t = true := by
  induction s with
  | nil => intro t _; rfl
  | cons c s ih =>
    intro t h
    obtain ⟨rest, rfl⟩ := h
    have hrest : matchesHead (sedPattern s) (s ++ rest) = true := ih (List.prefix_append s rest)
    show matchesHead ((if c = '.' then none else some c) :: sedPattern s) (c :: (s ++ rest)) = true
    by_cases hc : c = '.'
    · rw [if_pos hc]
      exact hrest
    · rw [if_neg hc, matchesHead, beq_self_eq_true, Bool.true_and, hrest]

theorem length_sedPattern (s : Text) : (sedPattern s).length = s.length := List.length_map _

theorem sedPattern_ne_nil {s : Text} (h : s ≠ []) : sedPattern s ≠ [] :=
  List.ne_nil_of_length_pos (length_sedPattern s ▸ List.length_pos_of_ne_nil h)

theorem sedPattern_revToken (h : IsRev rev) : sedPattern (revToken rev) = literal (revToken rev) := by
  refine List.map_congr_left fun c hc => if_neg ?_
  rintro rfl
  exact not_mem_revToken h (by decide) (by decide) hc

theorem substFirst_same {pat : Pattern Char} {l u m r : Text} (hne : pat ≠ []) (h : FirstMatch pat l u m r) :
    substFirst pat m l = l := by
  rw [h.substFirst_eq hne, h.text]

theorem substFirst_not_mem {pat : Pattern Char} {new t : Text} {q : Char} (hne : pat ≠ []) (hq : q ∉ new) (ht : q ∉ t) :
    q ∉ substFirst pat new t := by
  rcases clear_or_firstMatch pat t with h | ⟨u, m, r, h⟩
  · rwa [substFirst_unmatched h]
  · rw [h.substFirst_eq hne]
    rw [h.text] at ht
    simp only [List.mem_append] at ht ⊢
    rintro (hm | hm | hm)
    · exact ht (.inl hm)
    · exact hq hm
    · exact ht (.inr (.inr hm))

/-! ## The pin's own matches are enough -/

namespace PinIn

variable {p : PinIn text}

theorem OwnMatches.swapFirst_line (h : p.OwnMatches tag) :
    swapFirst p.pin.refToken (tagRef tag) (revToken p.pin.rev) (revToken rev) p.pin.line = p.pin.lineWith (tagRef tag) rev := by
  have hpat := sedPattern_ne_nil p.pin.refToken_ne_nil
  have hpass : substFirst (sedPattern p.pin.refToken) (tagRef tag) p.pin.line = p.pin.lineWith (tagRef tag) p.pin.rev := by
    obtain ⟨u, m, r, hf⟩ : ∃ u m r, FirstMatch (sedPattern p.pin.refToken) p.pin.line u m r :=
      exists_firstMatch hpat rfl (matchesHead_sedPattern (List.prefix_append p.pin.refToken _))
    rcases h.ref_first u m r hf with rfl | ⟨rfl, hT⟩
    · have hbehind := List.append_cancel_left (hf.text.symm.trans rfl)
      have hr := (List.append_inj hbehind (hf.length.trans (length_sedPattern _))).2
      rw [hf.substFirst_eq hpat, hr]
      rfl
    · rw [substFirst_same hpat hf, Pin.line, hT]
  rw [swapFirst, hpass]
  refine p.pin.rev_pass h.rev_tag h.rev_first fun front hclear => ?_
  rw [substFirst_clear hclear, substFirst_match (matchesHead_self _ _) (length_literal _).symm revToken_ne_nil]

theorem OwnMatches.swapFirst_others (h : p.OwnMatches tag) {l : Text} (hl : l ∈ p.above ++ p.below) :
    swapFirst p.pin.refToken (tagRef tag) (revToken p.pin.rev) (revToken rev) l = l := by
  have hpat := sedPattern_ne_nil p.pin.refToken_ne_nil
  have hpass : substFirst (sedPattern p.pin.refToken) (tagRef tag) l = l := by
    rcases clear_or_firstMatch (sedPattern p.pin.refToken) l with hc | ⟨u, m, r, hf⟩
    · exact substFirst_unmatched hc
    · rw [← h.ref_elsewhere l hl u m r hf]
      exact substFirst_same hpat hf
  rw [swapFirst, hpass, substFirst_unmatched ((clear_iff_absent revToken_ne_nil).mpr (h.rev_elsewhere l hl))]

end PinIn

/-! ## The match found -/

/-- A line that comes through holds no rev= token, and its first match is the target's. -/
theorem swapFirst_unchanged {tok l : Text} (hold : IsRev old) (hrev : IsRev rev) (hne : old ≠ rev) (htok : tok ≠ [])
    (hfree : ¬ revKey <:+: tagRef tag) (h : swapFirst tok (tagRef tag) (revToken old) (revToken rev) l = l) :
    (∀ u m r, FirstMatch (sedPattern tok) l u m r → m = tagRef tag) ∧ ¬ revToken old <:+: l := by
  have hpat := sedPattern_ne_nil htok
  have hmatch : ∀ u m r, FirstMatch (sedPattern tok) l u m r → m = tagRef tag := by
    intro u m r hf
    rw [swapFirst, hf.substFirst_eq hpat] at h
    obtain ⟨u', r', e, hu, hr, -⟩ := keeps_token hold hrev (tagRef_cons tag) hfree (substFirst_rewrites revToken_ne_nil _)
    have heq := e.symm.trans (h.trans hf.text)
    exact (List.append_inj' (List.append_inj heq hu).2 hr).1.symm
  refine ⟨hmatch, not_infix_of_unchanged hold hrev hne (substFirst_replaces revToken_ne_nil) ?_⟩
  have hself : substFirst (sedPattern tok) (tagRef tag) l = l := by
    rcases clear_or_firstMatch (sedPattern tok) l with hc | ⟨u, m, r, hf⟩
    · exact substFirst_unmatched hc
    · rw [← hmatch u m r hf]
      exact substFirst_same hpat hf
  rwa [swapFirst, hself] at h

namespace Pin

variable {p : Pin}

theorem length_lineWith (p : Pin) (token rev : Text) : (p.lineWith token rev).length =
    p.site.length + (token.length + (p.params.length + ((revToken rev).length + p.after.length + 1))) := by
  rw [lineWith, List.length_append, List.length_append, List.length_append, List.length_cons, List.length_append]

theorem count_question (href : '?' ∉ p.ref) (htag : IsTag tag) (hrev : IsRev rev) :
    (p.refToken ++ (p.params ++ '&' :: (revToken p.rev ++ p.after))).count '?' =
      (tagRef tag ++ (p.params ++ '&' :: (revToken rev ++ p.after))).count '?' := by
  have href' : '?' ∉ p.refToken := by
    intro hm
    rcases List.mem_append.mp hm with hm | hm
    · exact absurd hm (by decide)
    · exact href hm
  have hown : '?' ∉ revToken p.rev := not_mem_revToken p.rev_isRev (by decide) (by decide)
  have hnew : '?' ∉ revToken rev := not_mem_revToken hrev (by decide) (by decide)
  have hcount : ∀ token own : Text, '?' ∉ token → '?' ∉ own →
      (token ++ (p.params ++ '&' :: (own ++ p.after))).count '?' = p.params.count '?' + p.after.count '?' := by
    intro token own ht ho
    rw [List.count_append, List.count_append, List.count_cons_of_ne (by decide), List.count_append,
      List.count_eq_zero_of_not_mem ht, List.count_eq_zero_of_not_mem ho, Nat.zero_add, Nat.zero_add]
  rw [hcount _ _ href' hown, hcount _ _ (question_not_mem_tagRef htag) hnew]

/-- What sed's first match reads is the URL's own token, unless it is the target's already. -/
theorem first_match_site (htag : IsTag tag) (hold : IsRev old) (hrev : IsRev rev) (href : '?' ∉ p.ref) {u m r r' : Text}
    (hline : p.line = u ++ (m ++ r)) (hle : u.length ≤ p.site.length)
    (hrewrites : Rewrites (revToken old) (revToken rev) (tagRef tag ++ r) (tagRef tag ++ r'))
    (hresult : u ++ (tagRef tag ++ r') = p.lineWith (tagRef tag) rev) : u = p.site ∨ m = tagRef tag := by
  obtain ⟨x, hsite, hrest⟩ := site_split hline hle
  by_cases hx : x = []
  · rw [hx, List.append_nil] at hsite
    exact .inl hsite.symm
  right
  have hT := question_not_mem_tagRef htag
  have hquestion := question_mem_site hsite hx
  rw [lineWith, hsite, List.append_assoc] at hresult
  obtain ⟨x', rfl, hr', -⟩ := ref_ne_of_question htag hquestion (List.append_cancel_left hresult)
  have hmark : '?' ∉ revToken old := not_mem_revToken hold (by decide) (by decide)
  have hmark' : '?' ∉ revToken rev := not_mem_revToken hrev (by decide) (by decide)
  -- The match holds no `?`: there are as many behind it as behind the target's token.
  have hx' : '?' ∈ x' := (List.mem_append.mp hquestion).resolve_left hT
  have hcount := hrewrites.count_eq hmark hmark'
  have hcount' := congrArg (List.count '?') hrest
  have happend : ∀ a b : Text, (a ++ b).count '?' = a.count '?' + b.count '?' := fun _ _ => List.count_append
  rw [hr', happend (tagRef tag) r, happend (tagRef tag) (x' ++ _), happend x'] at hcount
  rw [happend m, happend (tagRef tag ++ x'), happend (tagRef tag) x', p.count_question href htag hrev,
    List.count_eq_zero_of_not_mem hT] at hcount'
  have hm : '?' ∉ m := List.count_eq_zero.mp (by omega)
  have hmem : '?' ∈ r := by
    have hpos := List.count_pos_iff.mpr hx'
    exact List.count_pos_iff.mp (by omega)
  -- So the first `?` is the URL's on both sides, equally far behind.
  obtain ⟨y, z, rfl, hy⟩ := List.eq_append_cons_of_mem hmem
  obtain ⟨y', z', rfl, hy'⟩ := List.eq_append_cons_of_mem hx'
  have hTy : '?' ∉ tagRef tag ++ y := fun h => (List.mem_append.mp h).elim hT hy
  have hTy' : '?' ∉ tagRef tag ++ y' := fun h => (List.mem_append.mp h).elim hT hy'
  have hlen : (revToken rev).length = (revToken old).length := by rw [length_revToken hold, length_revToken hrev]
  rw [← List.append_assoc] at hrewrites
  obtain ⟨w, v, hw, hw', hlenw⟩ := hrewrites.first_mark revToken_ne_nil hmark hmark' hlen hTy
  have hfirst : w = tagRef tag ++ y' := by
    rw [hr', List.append_assoc, List.cons_append, ← List.append_assoc] at hw
    exact (first_mark_unique hw hTy' hw').symm
  have hleny : y.length = y'.length := by
    rw [hfirst, List.length_append, List.length_append] at hlenw
    exact (Nat.add_left_cancel hlenw).symm
  have hmy : m ++ y = tagRef tag ++ y' := by
    have hmem : '?' ∉ m ++ y := fun h => (List.mem_append.mp h).elim hm hy
    rw [← List.append_assoc m, ← List.append_assoc (tagRef tag), List.append_assoc (tagRef tag ++ y'),
      List.cons_append] at hrest
    exact first_mark_unique hrest hmem hTy'
  exact (List.append_inj' hmy hleny).1

/-- If the line comes through with the target in it, the pattern sed replaced is the URL's own
    token, and its first match is that token, or what it reads is the target's already. -/
theorem ref_pass_first (htag : IsTag tag) (hfree : ¬ revKey <:+: tag) (href : ¬ revKey <:+: p.ref) (hquestion : '?' ∉ p.ref)
    (hold : IsRev old) (hrev : IsRev rev) {name : Text} (hname : pinnedRef p.line = some name)
    (h : swapFirst (refKey ++ name) (tagRef tag) (revToken old) (revToken rev) p.line = p.lineWith (tagRef tag) rev) :
    name = p.ref ∧ ∃ u m r, FirstMatch (sedPattern p.refToken) p.line u m r ∧
      (u = p.site ∨ m = tagRef tag ∧ p.refToken = tagRef tag) ∧ substFirst (sedPattern p.refToken) (tagRef tag) p.line =
        p.lineWith (tagRef tag) p.rev := by
  obtain ⟨kv, hkv, hcut⟩ := Option.map_eq_some_iff.mp hname
  obtain ⟨a, v, b, hline, rfl, hvne, hv, hb, hleast⟩ := pinRefKv_eq_some hkv
  rw [List.drop_left] at hcut
  have hnamev : name <+: v := hcut ▸ List.takeWhile_prefix _
  have hpat := sedPattern_ne_nil (show refKey ++ name ≠ [] from List.cons_ne_nil _ _)
  -- The pattern matches where the token was read, so its first match is no later.
  have hmatch : matchesHead (sedPattern (refKey ++ name)) (refKey ++ v ++ b) = true := by
    obtain ⟨w, rfl⟩ := hnamev
    exact matchesHead_sedPattern ⟨w ++ b, by simp only [List.append_assoc]⟩
  obtain ⟨u, m, r, hf⟩ := exists_firstMatch hpat hline hmatch
  have hua := hf.le hline hmatch
  have hle := hua.trans (p.ref_read_le hleast)
  have hpass := @FirstMatch.substFirst_eq _ _ _ (tagRef tag) _ _ _ _ hf hpat
  have hfreeT : ¬ revKey <:+: tagRef tag := fun h => hfree (revKey_infix_tagRef h)
  rw [swapFirst, hpass] at h
  obtain ⟨u', r', e, hu, hr, hrewrites⟩ :=
    keeps_token hold hrev (tagRef_cons tag) hfreeT (@substFirst_rewrites _ _ (revToken rev) _ revToken_ne_nil _)
  have hresult := e.symm.trans h
  obtain ⟨x, hsite, hrest⟩ := p.site_split hf.text hle
  obtain rfl : u' = u := by
    rw [lineWith, hsite, List.append_assoc] at hresult
    exact (List.append_inj hresult hu).1
  have hlen : m.length = p.refToken.length := by
    have hlenresult := congrArg List.length hresult
    have hlenline := congrArg List.length hf.text
    have hlenrev := (length_revToken p.rev_isRev).trans (length_revToken hrev).symm
    rw [length_lineWith, List.length_append, List.length_append] at hlenresult
    rw [line, length_lineWith, List.length_append, List.length_append] at hlenline
    omega
  have hlenname : m.length = (refKey ++ name).length := hf.length.trans (length_sedPattern _)
  rcases first_match_site htag hold hrev hquestion hf.text hle hrewrites hresult with rfl | rfl
  · -- The token read is the URL's, and the pattern is all of it.
    obtain ⟨rfl, hbehind⟩ := List.append_inj (hline.symm.trans rfl) (Nat.le_antisymm (p.ref_read_le hleast) hua)
    have hread : refAt (refKey ++ v ++ b) = some (refKey ++ v) :=
      refAt_eq_some.mpr ⟨v, b, by rw [List.append_assoc], rfl, hvne, hv, hb⟩
    rw [hbehind, p.refAt_site] at hread
    obtain rfl : p.ref = v := List.append_cancel_left (Option.some.inj hread)
    obtain rfl : name = p.ref := by
      refine hnamev.eq_of_length ?_
      have := hlenname.symm.trans hlen
      rw [refToken, List.length_append, List.length_append] at this
      exact Nat.add_left_cancel this
    have hmr := List.append_cancel_left (hf.text.symm.trans rfl)
    obtain ⟨-, rfl⟩ := List.append_inj hmr hlen
    exact ⟨rfl, _, _, _, hf, .inl rfl, hpass⟩
  · -- The line comes through the ref= pass as it was.
    rw [← hf.text] at h
    have hT := refToken_eq_tagRef href hold hrev (h ▸ substFirst_rewrites revToken_ne_nil p.line)
    have hau : a.length ≤ u'.length := by
      by_contra hlt
      exact refAt_ne_none (c := 'r') rfl _ (hleast u' _ hf.text (Nat.lt_of_not_le hlt))
    obtain ⟨-, hbehind⟩ := List.append_inj (hline.symm.trans hf.text) (Nat.le_antisymm hau hua)
    obtain rfl : name = p.ref := by
      obtain ⟨w, rfl⟩ := hnamev
      rw [← List.append_assoc, List.append_assoc _ w] at hbehind
      have hsame := (List.append_inj hbehind hlenname.symm).1
      exact List.append_cancel_left (hsame.trans hT.symm)
    refine ⟨rfl, _, _, _, hf, .inr ⟨rfl, hT⟩, hpass.trans ?_⟩
    rw [← hf.text, line, hT]

end Pin

/-! ## Over the flake -/

theorem break_not_mem_swapFirst {tok l : Text} (htok : tok ≠ []) (htag : IsTag tag) (hrev : IsRev rev) (hl : '\n' ∉ l) :
    '\n' ∉ swapFirst tok (tagRef tag) (revToken old) (revToken rev) l :=
  (substFirst_rewrites revToken_ne_nil _).not_mem (break_not_mem_revToken hrev)
    (substFirst_not_mem (sedPattern_ne_nil htok) (break_not_mem_tagRef htag) hl)

namespace PinIn

variable (p : PinIn text)

theorem deployPlan_bumped_iff {sed : List Text → Text → Text} (hsed : LawfulSed sed) (htag : IsTag tag) (hrev : IsRev rev)
    {edited name : Text} (hname : pinnedRef p.pin.line = some name) (hplain : SedPlain (refKey ++ name))
    (hplain' : SedReplacement tag) (h : deployPlan sed text tag rev = some edited) :
    ∃ old, pinnedRev p.pin.line = some old ∧ old ≠ rev ∧ (edited = p.bumped tag rev ↔
      (∀ l ∈ p.above ++ p.below, swapFirst (refKey ++ name) (tagRef tag) (revToken old) (revToken rev) l = l) ∧
        swapFirst (refKey ++ name) (tagRef tag) (revToken old) (revToken rev) p.pin.line =
          p.pin.lineWith (tagRef tag) rev) := by
  obtain ⟨old, name', hread, hname', hne, -, rfl⟩ := p.deployPlan_edited.mp h
  obtain rfl := Option.some.inj (hname.symm.trans hname')
  refine ⟨old, hread, hne, ?_⟩
  have hold := (pinnedRev_eq_some.mp hread).1
  have htok : refKey ++ name ≠ [] := List.cons_ne_nil _ _
  have hrun : editLines (sed [sedSwap (refKey ++ name) (tagRef tag), sedSwap (revToken old) (revToken rev)]) text =
      editLines (swapFirst (refKey ++ name) (tagRef tag) (revToken old) (revToken rev)) text := by
    refine editLines_congr fun l hl => ?_
    rw [hsed.two hplain (tagRef_plain (of_all (by decide)) hplain') htok (revToken_plain hold (by decide))
      (revToken_plain hrev (by decide)) revToken_ne_nil (break_not_mem hl), sedPattern_revToken hold]
    rfl
  rw [hrun]
  exact p.editLines_eq_bumped htag hrev fun l hl => break_not_mem_swapFirst htok htag hrev (break_not_mem hl)

theorem sedPlain_read {line name : Text} (hname : pinnedRef line = some name)
    (h : ∀ kv, pinRefKv line = some kv → SedPlain kv) : SedPlain (refKey ++ name) := by
  obtain ⟨kv, hkv, hcut⟩ := Option.map_eq_some_iff.mp hname
  have hplain := h kv hkv
  obtain ⟨a, v, b, -, rfl, -⟩ := pinRefKv_eq_some hkv
  rw [List.drop_left] at hcut
  intro c hc
  rcases List.mem_append.mp hc with hc | hc
  · exact hplain c (List.mem_append_left v hc)
  · exact hplain c (List.mem_append_right refKey ((List.takeWhile_prefix _).subset (hcut ▸ hc)))

/-- What a bump by the two passes of the printed command shows. -/
theorem OwnMatches.of_bumped (htag : IsTag tag) (hrev : IsRev rev) (hord : p.Ordinary tag) {name : Text}
    (hname : pinnedRef p.pin.line = some name) (hread : pinnedRev p.pin.line = some old) (hne : old ≠ rev)
    (hothers : ∀ l ∈ p.above ++ p.below, swapFirst (refKey ++ name) (tagRef tag) (revToken old) (revToken rev) l = l)
    (hline : swapFirst (refKey ++ name) (tagRef tag) (revToken old) (revToken rev) p.pin.line =
      p.pin.lineWith (tagRef tag) rev) : p.OwnMatches tag := by
  have hold := (pinnedRev_eq_some.mp hread).1
  have hfreeT : ¬ revKey <:+: tagRef tag := fun h => hord.tag_rev (revKey_infix_tagRef h)
  obtain ⟨rfl, u, m, r, hf, hfirst, hpass⟩ :=
    Pin.ref_pass_first htag hord.tag_rev hord.ref_rev hord.ref_question hold hrev hname hline
  have hedit := hline
  rw [swapFirst] at hedit
  obtain ⟨rfl, hrevfirst⟩ := Pin.rev_read_eq hold hrev hne (substFirst_replaces revToken_ne_nil)
    ((congrArg _ hpass).symm.trans hedit) hread hord.ref_rev
  have hunchanged : ∀ l ∈ p.above ++ p.below,
      (∀ u m r, FirstMatch (sedPattern p.pin.refToken) l u m r → m = tagRef tag) ∧ ¬ revToken p.pin.rev <:+: l :=
    fun l hl => swapFirst_unchanged hold hrev hne p.pin.refToken_ne_nil hfreeT (hothers l hl)
  refine ⟨⟨sedPlain_read hname fun kv h => (hord.read_plain kv h).2, hord.tag_plain.2⟩, hname, hread, ?_,
    fun l hl => (hunchanged l hl).1, hrevfirst, fun l hl => (hunchanged l hl).2, fun h => hord.tag_rev (revKey_of_revToken h)⟩
  intro u' m' r' hf'
  obtain ⟨rfl, rfl, -⟩ := hf'.unique hf
  exact hfirst

end PinIn

/-- A deploy changes the pin alone, and sets it to the target, if its tokens are the pin's own;
    with ordinary names, only then. The same of the command `deploy-plan` prints, by its
    matches. -/
theorem deploy_edits_only_its_pin {perl : Text → Text → Text} {sed : List Text → Text → Text} (hperl : LawfulPerl perl)
    (hsed : LawfulSed sed) (htag : IsTag tag) (hrev : IsRev rev) :
    (∀ flake edited, deploy perl flake text tag rev = .edited edited →
      ((∃ p : PinIn text, p.OwnTokens tag) → EditsOnlyPin text tag rev edited) ∧
        ((∀ p : PinIn text, p.Ordinary tag) →
          (EditsOnlyPin text tag rev edited ↔ ∃ p : PinIn text, p.OwnTokens tag))) ∧
      ∀ edited, deployPlan sed text tag rev = some edited →
        ((∃ p : PinIn text, p.OwnMatches tag) → EditsOnlyPin text tag rev edited) ∧
          ((∀ p : PinIn text, p.Ordinary tag) →
            (EditsOnlyPin text tag rev edited ↔ ∃ p : PinIn text, p.OwnMatches tag)) := by
  constructor
  · intro flake edited h
    have henough : (∃ p : PinIn text, p.OwnTokens tag) → EditsOnlyPin text tag rev edited := by
      intro ⟨p, hown⟩
      obtain ⟨old, hread, -, hiff⟩ := p.deploy_bumped_iff hperl htag hrev hown.ref_read hown.plain.1 hown.plain.2 h
      obtain rfl := Option.some.inj (hread.symm.trans hown.rev_read)
      exact ⟨p, hiff.mpr ⟨fun l hl => hown.swapAll_others hl, hown.swapAll_line⟩⟩
    refine ⟨henough, fun hord => ⟨?_, henough⟩⟩
    intro ⟨p, hp⟩
    obtain ⟨kv, hkv⟩ := p.exists_pinRefKv
    obtain ⟨old, hread, hne, hiff⟩ :=
      p.deploy_bumped_iff hperl htag hrev hkv ((hord p).read_plain kv hkv).1 (hord p).tag_plain.1 h
    obtain ⟨hothers, hline⟩ := hiff.mp hp
    exact ⟨p, PinIn.OwnTokens.of_bumped p htag hrev (hord p) hkv hread hne hothers hline⟩
  · intro edited h
    have henough : (∃ p : PinIn text, p.OwnMatches tag) → EditsOnlyPin text tag rev edited := by
      intro ⟨p, hown⟩
      obtain ⟨old, hread, -, hiff⟩ := p.deployPlan_bumped_iff hsed htag hrev hown.ref_read hown.plain.1 hown.plain.2 h
      obtain rfl := Option.some.inj (hread.symm.trans hown.rev_read)
      exact ⟨p, hiff.mpr ⟨fun l hl => hown.swapFirst_others hl, hown.swapFirst_line⟩⟩
    refine ⟨henough, fun hord => ⟨?_, henough⟩⟩
    intro ⟨p, hp⟩
    obtain ⟨_, name, -, hname, -⟩ := p.deployPlan_edited.mp h
    have hplain := PinIn.sedPlain_read hname fun kv hkv => ((hord p).read_plain kv hkv).2
    obtain ⟨old, hread, hne, hiff⟩ := p.deployPlan_bumped_iff hsed htag hrev hname hplain (hord p).tag_plain.2 h
    obtain ⟨hothers, hline⟩ := hiff.mp hp
    exact ⟨p, PinIn.OwnMatches.of_bumped p htag hrev (hord p) hname hread hne hothers hline⟩

/-! ## On a flake -/

/-- The text before the brace that closes it. -/
def inBraces : Nat → Text → Text
  | _, [] => []
  | d, c :: t =>
    if c = '{' then c :: inBraces (d + 1) t
    else if c = '}' then
      match d with
      | 0 => []
      | d + 1 => c :: inBraces d t
    else c :: inBraces d t

/-- A program of perl swaps, read as perl reads one with nothing special in it. -/
def readSwap (program : Text) : Text × Text × Text :=
  let old := (program.drop 4).takeWhile (· != '\\')
  let rest := program.drop (old.length + 8)
  let new := inBraces 0 rest
  (old, new, rest.drop (new.length + 2))

def literalPerl (program line : Text) : Text :=
  let (old, new, rest) := readSwap program
  let swapped := substAll (literal old) new 0 line
  if rest.isEmpty then swapped
  else
    let (old', new', _) := readSwap (rest.drop 2)
    substAll (literal old') new' 0 swapped

def readScript (script : Text) : Text × Text :=
  let old := (script.drop 2).takeWhile (· != '|')
  (old, (script.drop (old.length + 3)).takeWhile (· != '|'))

def literalSed (scripts : List Text) (line : Text) : Text :=
  scripts.foldl (fun line script => substFirst (sedPattern (readScript script).1) (readScript script).2 line) line

theorem drop_length_add (n : Nat) (a b : Text) : (a ++ b).drop (a.length + n) = b.drop n := by
  rw [← List.drop_drop, List.drop_left]

theorem inBraces_cons (c : Char) (t : Text) (d : Nat) :
    inBraces d (c :: t) = if c = '{' then c :: inBraces (d + 1) t
      else if c = '}' then d.casesOn [] fun d => c :: inBraces d t
      else c :: inBraces d t := by
  cases d with
  | zero => rfl
  | succ d => rfl

theorem inBraces_append {s : Text} {d e : Nat} (h : braces d s = some e) (t : Text) :
    inBraces d (s ++ t) = s ++ inBraces e t := by
  induction s generalizing d with
  | nil =>
    obtain rfl := Option.some.inj h
    rfl
  | cons c s ih =>
    rw [braces_cons] at h
    rw [List.cons_append, inBraces_cons]
    by_cases hopen : c = '{'
    · rw [if_pos hopen] at h ⊢
      exact congrArg (c :: ·) (ih h)
    · rw [if_neg hopen] at h ⊢
      by_cases hclose : c = '}'
      · rw [if_pos hclose] at h ⊢
        cases d with
        | zero => cases h
        | succ d => exact congrArg (c :: ·) (ih h)
      · rw [if_neg hclose] at h ⊢
        exact congrArg (c :: ·) (ih h)

theorem readSwap_perlSwap {old new : Text} (rest : Text) (hold : PerlPlain old) (hnew : PerlPlain new) :
    readSwap (perlSwap old new ++ rest) = (old, new, rest) := by
  -- Over any three texts: to compare the program's own is to decode them.
  have hassoc : ∀ a b c : Text, a ++ old ++ b ++ new ++ c ++ rest = a ++ (old ++ (b ++ (new ++ (c ++ rest)))) := by
    intro a b c
    simp only [List.append_assoc]
  have hprogram : perlSwap old new ++ rest =
      "s\x7b\\Q".toList ++ (old ++ ("\\E\x7d\x7b".toList ++ (new ++ ("\x7dg".toList ++ rest)))) := hassoc _ _ _
  have hstop : (old ++ ("\\E\x7d\x7b".toList ++ (new ++ ("\x7dg".toList ++ rest)))).takeWhile (· != '\\') = old := by
    refine takeWhile_stop (fun c hc => bne_iff_ne.mpr ?_) fun c hc => ?_
    · rintro rfl
      exact absurd (by decide) (hold.chars _ hc)
    · obtain rfl := Option.some.inj hc
      rfl
  have hstop' : inBraces 0 (new ++ ("\x7dg".toList ++ rest)) = new := by
    rw [inBraces_append hnew.nest]
    exact List.append_nil new
  have hskip : ("s\x7b\\Q".toList ++ (old ++ ("\\E\x7d\x7b".toList ++ (new ++ ("\x7dg".toList ++ rest))))).drop
      (old.length + 8) = new ++ ("\x7dg".toList ++ rest) := by
    rw [show old.length + 8 = "s\x7b\\Q".toList.length + (old.length + 4) from Nat.add_comm _ 4 ▸ rfl,
      drop_length_add, drop_length_add]
    rfl
  have hfirst : ("s\x7b\\Q".toList ++ (old ++ ("\\E\x7d\x7b".toList ++ (new ++ ("\x7dg".toList ++ rest))))).drop 4 =
      old ++ ("\\E\x7d\x7b".toList ++ (new ++ ("\x7dg".toList ++ rest))) := rfl
  unfold readSwap
  rw [hprogram]
  dsimp only
  rw [hfirst, hstop, hskip, hstop', drop_length_add]
  rfl

theorem literalPerl_lawful : LawfulPerl literalPerl where
  one hold hnew _ _ := by
    have hread := readSwap_perlSwap [] hold hnew
    rw [List.append_nil] at hread
    unfold literalPerl
    rw [hread]
    rfl
  two hold hnew _ hold' hnew' _ _ := by
    have hread := readSwap_perlSwap [] hold' hnew'
    rw [List.append_nil] at hread
    unfold literalPerl
    rw [List.append_assoc, readSwap_perlSwap _ hold hnew]
    show (let (old', new', _) := readSwap (perlSwap _ _); substAll (literal old') new' 0 _) = _
    rw [hread]

theorem readScript_sedSwap {old new : Text} (hold : SedPlain old) (hnew : SedReplacement new) :
    readScript (sedSwap old new) = (old, new) := by
  have hassoc : ∀ a b c : Text, a ++ old ++ b ++ new ++ c = a ++ (old ++ (b ++ (new ++ c))) := by
    intro a b c
    simp only [List.append_assoc]
  have hscript : sedSwap old new = "s|".toList ++ (old ++ ('|' :: (new ++ ['|']))) := hassoc _ _ _
  have hstop : (old ++ '|' :: (new ++ ['|'])).takeWhile (· != '|') = old := by
    refine takeWhile_stop (fun c hc => bne_iff_ne.mpr ?_) fun c hc => ?_
    · rintro rfl
      exact absurd (by decide) (hold _ hc)
    · obtain rfl := Option.some.inj hc
      rfl
  have hstop' : (new ++ ['|']).takeWhile (· != '|') = new := by
    refine takeWhile_stop (fun c hc => bne_iff_ne.mpr ?_) fun c hc => ?_
    · rintro rfl
      exact absurd (by decide) (hnew _ hc)
    · obtain rfl := Option.some.inj hc
      rfl
  have hfirst : ("s|".toList ++ (old ++ '|' :: (new ++ ['|']))).drop 2 = old ++ '|' :: (new ++ ['|']) := rfl
  have hskip : ("s|".toList ++ (old ++ '|' :: (new ++ ['|']))).drop (old.length + 3) = new ++ ['|'] := by
    rw [show old.length + 3 = "s|".toList.length + (old.length + 1) from Nat.add_comm _ 2 ▸ rfl, drop_length_add,
      drop_length_add]
    rfl
  unfold readScript
  rw [hscript]
  dsimp only
  rw [hfirst, hstop, hskip, hstop']

theorem literalSed_lawful : LawfulSed literalSed where
  two hold hnew _ hold' hnew' _ _ := by
    show substFirst (sedPattern (readScript (sedSwap _ _)).1) _ (substFirst (sedPattern (readScript (sedSwap _ _)).1) _ _) = _
    rw [readScript_sedSwap hold hnew, readScript_sedSwap hold' hnew']

def ownRev : Text := "0123456789abcdef0123456789abcdef01234567".toList
def newRev : Text := "89abcdef0123456789abcdef0123456789abcdef".toList
def newTag : Text := "v1.2.3".toList

theorem isRev_of_all {rev : Text} (h : (rev.length == 40 && rev.all isHex) = true) : IsRev rev := by
  obtain ⟨hlen, hhex⟩ := Bool.and_eq_true_iff.mp h
  exact ⟨beq_iff_eq.mp hlen, List.all_eq_true.mp hhex⟩

theorem newRev_isRev : IsRev newRev := isRev_of_all (by decide)

theorem newTag_isTag : IsTag newTag := by
  intro c hc
  refine ⟨of_all (s := newTag) (by decide) c hc, ?_⟩
  have hprintable : newTag.all (fun c => decide (0x20 ≤ c.toNat ∧ c.toNat ≠ 0x7F)) = true := by decide
  exact of_decide_eq_true (List.all_eq_true.mp hprintable c hc)

def ownPin : Pin where
  before := "  sudowhat.url = \"git+file:///x/".toList
  ref := "refs/tags/v1.2.2".toList
  params := []
  rev := ownRev
  after := "\";".toList
  first a b e := by
    have honly : OnlyAfter "  sudowhat.url = \"git+file:///x/".toList repoMatch
        ("  sudowhat.url = \"git+file:///x/".toList ++ (repoMatch ++ [])) :=
      (onlyAfter_iff (List.cons_ne_nil _ _)).mpr ⟨by decide, by decide⟩
    exact honly a b (by rw [List.append_nil]; exact e)
  ref_ne := List.cons_ne_nil _ _
  ref_inRef := List.all_eq_true.mp (by decide)
  params_opens := nofun
  params_quote := List.not_mem_nil
  rev_isRev := isRev_of_all (by decide)
  rev_ends c hc := by
    obtain rfl := Option.some.inj hc
    rfl

/-- A flake with one more input. -/
def flakeWith (line : Text) : Text := ['\n'].intercalate [line, ownPin.line, []]

theorem flakeWith_lines {line : Text} (h : '\n' ∉ line) : (flakeWith line).splitOn '\n' = [line, ownPin.line, []] := by
  refine List.splitOn_intercalate '\n' ?_ (List.cons_ne_nil _ _)
  intro l hl
  rcases List.mem_cons.mp hl with rfl | hl
  · exact h
  · rcases List.mem_cons.mp hl with rfl | hl
    · decide
    · obtain rfl := List.mem_singleton.mp hl
      exact List.not_mem_nil

def pinInWith {line : Text} (h : '\n' ∉ line) (hmatch : ¬ repoMatch <:+: line) : PinIn (flakeWith line) where
  above := [line]
  pin := ownPin
  below := [[]]
  lines := flakeWith_lines h
  first _ hl := List.mem_singleton.mp hl ▸ hmatch

def toolsAtTag : Text := "  tools.url = \"git+file:///x/tools?ref=refs/tags/v1.2.2\";".toList
def toolsAtMain : Text := "  tools.url = \"git+file:///x/tools?ref=main\";".toList

theorem ownPin_read : pinRefKv ownPin.line = some ownPin.refToken ∧ pinnedRev ownPin.line = some ownRev := by decide

theorem deployed_with {line : Text} (h : '\n' ∉ line) (hmatch : ¬ repoMatch <:+: line) :
    ∃ edited, deploy literalPerl [] (flakeWith line) newTag newRev = .edited edited :=
  ⟨_, (pinInWith h hmatch).deploy_edited.mpr ⟨ownRev, ownPin_read.2, by decide, rfl⟩⟩

/-- Another input at the release the pin is at: deploy moves it to the target too. -/
theorem another_input_is_rewritten :
    ¬ ∀ (perl : Text → Text → Text), LawfulPerl perl → ∀ flake text tag rev edited, IsTag tag → IsRev rev →
      deploy perl flake text tag rev = .edited edited → EditsOnlyPin text tag rev edited := by
  intro h
  have hbreak : '\n' ∉ toolsAtTag := by decide
  have hmatch : ¬ repoMatch <:+: toolsAtTag := by decide
  obtain ⟨edited, hrun⟩ := deployed_with hbreak hmatch
  obtain ⟨p, hp⟩ := h literalPerl literalPerl_lawful [] _ newTag newRev edited newTag_isTag newRev_isRev hrun
  -- Whatever pin the flake is said to have, it stands on the second line.
  have hline : p.pin.line = ownPin.line := Option.some.inj (p.pinLine_eq.symm.trans (pinInWith hbreak hmatch).pinLine_eq)
  have hother : toolsAtTag ∈ p.above ++ p.below := by
    refine (p.mem_lines.mp ?_).resolve_right fun e => hmatch (e ▸ p.pin.repoMatch_stands p.pin.ref p.pin.rev)
    rw [flakeWith_lines hbreak]
    exact List.mem_cons_self
  obtain ⟨old, hread, hne, hiff⟩ := p.deploy_bumped_iff literalPerl_lawful newTag_isTag newRev_isRev
    (hline ▸ ownPin_read.1) ⟨of_all (by decide), by decide⟩ ⟨of_all (by decide), by decide⟩ hrun
  have hold := (pinnedRev_eq_some.mp hread).1
  have hunchanged := swapAll_unchanged hold newRev_isRev hne ownPin.refToken_ne_nil (by decide) ((hiff.mp hp).1 _ hother)
  exact hunchanged.1.elim (by decide) fun hnot => hnot (by decide)

def branchPin : PinIn (flakeWith toolsAtMain) := pinInWith (by decide) (by decide)

theorem mem_branchPin_others {l : Text} (hl : l ∈ branchPin.above ++ branchPin.below) : l = toolsAtMain ∨ l = [] :=
  (List.mem_cons.mp (show l ∈ [toolsAtMain, []] from hl)).imp_right List.mem_singleton.mp

theorem ownRev_alone : OnlyAfter ownPin.revSite (revToken ownRev) ownPin.line := by
  rw [Pin.line_eq_revSite]
  have hkey : ∀ {t : Text}, ¬ revKey <:+: t → ¬ revToken ownRev <:+: t := fun h h' => h (revKey_of_revToken h')
  refine (onlyAfter_iff revToken_ne_nil).mpr ⟨?_, hkey (by decide)⟩
  exact (ownPin.clear_site_iff ownPin.rev_isRev ownPin.refToken_cons).mpr
    ⟨hkey (by decide), hkey (by decide), hkey (by decide)⟩

theorem ownRev_elsewhere {l : Text} (hl : l ∈ branchPin.above ++ branchPin.below) : ¬ revToken ownRev <:+: l := by
  rcases mem_branchPin_others hl with rfl | rfl
  · decide
  · decide

set_option maxRecDepth 1000 in
theorem branchPin_ownTokens : branchPin.OwnTokens newTag where
  plain := ⟨⟨of_all (by decide), by decide⟩, ⟨of_all (by decide), by decide⟩⟩
  ref_read := ownPin_read.1
  rev_read := ownPin_read.2
  ref_alone := by
    refine .inr ⟨(onlyAfter_iff ownPin.refToken_ne_nil).mpr ⟨by decide, by decide⟩, fun l hl => ?_⟩
    rcases mem_branchPin_others hl with rfl | rfl
    · decide
    · decide
  rev_alone := ownRev_alone
  rev_elsewhere _ hl := ownRev_elsewhere hl
  rev_tag := by decide

theorem branchPin_ownMatches : branchPin.OwnMatches newTag where
  plain := ⟨of_all (by decide), of_all (by decide)⟩
  ref_read := by decide
  rev_read := ownPin_read.2
  ref_first u m r hf := by
    have hown : FirstMatch (sedPattern ownPin.refToken) ownPin.line ownPin.site ownPin.refToken _ :=
      ⟨rfl, rfl, by decide, by decide⟩
    exact .inl (hf.unique hown).1
  ref_elsewhere l hl u m r hf := by
    refine absurd ?_ (hf.not_clear (List.cons_ne_nil _ _))
    rcases mem_branchPin_others hl with rfl | rfl
    · decide
    · decide
  rev_first a b e := (congrArg List.length (ownRev_alone a b e)).ge
  rev_elsewhere _ hl := ownRev_elsewhere hl
  rev_tag := by decide

/-- Another input on a branch of its own is left alone. -/
theorem deploy_edits_only_its_pin_branch :
    ∃ edited edited', deploy literalPerl [] (flakeWith toolsAtMain) newTag newRev = .edited edited ∧
      EditsOnlyPin (flakeWith toolsAtMain) newTag newRev edited ∧
      deployPlan literalSed (flakeWith toolsAtMain) newTag newRev = some edited' ∧
      EditsOnlyPin (flakeWith toolsAtMain) newTag newRev edited' := by
  obtain ⟨edited, hrun⟩ := @deployed_with toolsAtMain (by decide) (by decide)
  obtain ⟨edited', hplan⟩ : ∃ edited', deployPlan literalSed (flakeWith toolsAtMain) newTag newRev = some edited' :=
    ⟨_, branchPin.deployPlan_edited.mpr
      ⟨ownRev, ownPin.ref, ownPin_read.2, by decide, by decide, ownPin.ref_ne, rfl⟩⟩
  obtain ⟨hdeploy, hdeployPlan⟩ := @deploy_edits_only_its_pin (flakeWith toolsAtMain) _ _ _ _ literalPerl_lawful
    literalSed_lawful newTag_isTag newRev_isRev
  exact ⟨edited, edited', hrun, (hdeploy [] edited hrun).1 ⟨branchPin, branchPin_ownTokens⟩, hplan,
    (hdeployPlan edited' hplan).1 ⟨branchPin, branchPin_ownMatches⟩⟩

end SudoWhat.Nix
