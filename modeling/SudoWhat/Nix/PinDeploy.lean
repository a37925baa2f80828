/-
  SudoWhat.Nix.PinDeploy — deploy's perl program over the flake.

  Two passes over each line: every copy of the ref= token becomes the target's, then every
  copy of the rev= token.

  Proved: `OwnTokens.swapAll_line` and `OwnTokens.swapAll_others`, that with tokens of its own
  the passes set the pin and leave every other line; and `OwnTokens.of_bumped`, the converse
  with ordinary names. There the ref= pass shows that what was read is the URL's ref=
  (`Pin.ref_read_site`): a token read further left would put the target's there, while the
  URL's `?` and the character that ends the token stay. A copy elsewhere changes the length
  of its line or, where the two are of one length, stands there as the target
  (`swapAll_unchanged`, `Pin.refToken_behind`).
-/

import SudoWhat.Nix.PinEdit

namespace SudoWhat.Nix

open SudoWhat.Lib
open SudoWhat.Lib.Substitute

variable {text tag rev old : Text}

def swapAll (old new old' new' line : Text) : Text :=
  substAll (literal old') new' 0 (substAll (literal old) new 0 line)

/-! ## The pin's own tokens are enough -/

theorem substAll_front {front after : Text} (h : Clear (literal (revToken old)) (revToken old ++ after) front) :
    substAll (literal (revToken old)) (revToken rev) 0 (front ++ (revToken old ++ after)) =
      front ++ (revToken rev ++ substAll (literal (revToken old)) (revToken rev) 0 after) := by
  rw [substAll_clear h, substAll_match (matchesHead_self _ _) (length_literal _).symm revToken_ne_nil]

theorem Pin.ref_alone_pass {p : Pin} (h : p.refToken = tagRef tag ∨ OnlyAfter p.site p.refToken p.line) :
    substAll (literal p.refToken) (tagRef tag) 0 p.line = p.lineWith (tagRef tag) p.rev := by
  rcases h with he | honly
  · rw [line, he]
    exact substAll_self (List.cons_ne_nil _ _) _
  · obtain ⟨hclear, -⟩ := (onlyAfter_iff p.refToken_ne_nil).mp honly
    rw [line, lineWith, substAll_clear hclear,
      substAll_match (matchesHead_self _ _) (length_literal _).symm p.refToken_ne_nil,
      substAll_unmatched ((clear_iff_absent p.refToken_ne_nil).mpr (honly.absent p.refToken_ne_nil))]
    rfl

theorem PinIn.OwnTokens.swapAll_line {p : PinIn text} (h : p.OwnTokens tag) :
    swapAll p.pin.refToken (tagRef tag) (revToken p.pin.rev) (revToken rev) p.pin.line = p.pin.lineWith (tagRef tag) rev := by
  have halone := h.rev_alone
  rw [Pin.line_eq_revSite] at halone
  rw [swapAll, Pin.ref_alone_pass (h.ref_alone.imp_right And.left)]
  refine p.pin.rev_pass h.rev_tag (fun a b e => (congrArg List.length (h.rev_alone a b e)).ge) fun front hclear => ?_
  rw [substAll_front hclear,
    substAll_unmatched ((clear_iff_absent revToken_ne_nil).mpr (halone.absent revToken_ne_nil))]

theorem PinIn.OwnTokens.swapAll_others {p : PinIn text} (h : p.OwnTokens tag) {l : Text} (hl : l ∈ p.above ++ p.below) :
    swapAll p.pin.refToken (tagRef tag) (revToken p.pin.rev) (revToken rev) l = l := by
  have hpass : substAll (literal p.pin.refToken) (tagRef tag) 0 l = l := by
    rcases h.ref_alone with he | ⟨-, hothers⟩
    · rw [he]
      exact substAll_self (List.cons_ne_nil _ _) _
    · exact substAll_unmatched ((clear_iff_absent p.pin.refToken_ne_nil).mpr (hothers l hl))
  rw [swapAll, hpass, substAll_unmatched ((clear_iff_absent revToken_ne_nil).mpr (h.rev_elsewhere l hl))]

/-! ## The ref= token read -/

theorem revToken_inRef (h : IsRev rev) : ∀ c ∈ revToken rev, inRef c = true := by
  intro c hc
  by_contra hnot
  have hmem : c = '&' ∨ c = '"' := by
    simp only [inRef, Bool.and_eq_true, bne_iff_ne, not_and_or, ne_eq, not_not] at hnot
    exact hnot
  rcases hmem with rfl | rfl
  · exact amp_not_mem_revToken h hc
  · exact not_mem_revToken h (by decide) (by decide) hc

/-- What ends a token still ends it after a pass whose literal holds no such character. -/
theorem substAll_head {s new t : Text} (hs : s ≠ []) (hs' : ∀ c ∈ s, inRef c = true) (ht : ∀ c ∈ t.head?, inRef c = false) :
    ∀ c ∈ (substAll (literal s) new 0 t).head?, inRef c = false := by
  cases t with
  | nil => exact ht
  | cons c t =>
    have hc : c ∉ s := fun hm => absurd (hs' c hm) (by rw [ht c rfl]; exact Bool.false_ne_true)
    have hcut := @substAll_cut _ _ new s t c hs hc []
    rw [List.nil_append] at hcut
    rw [hcut]
    exact ht

theorem keeps_token_head {u tok rest : Text} (hold : IsRev old) (hrev : IsRev rev) (hr : ∃ t, tok = 'r' :: t)
    (hfree : ¬ revKey <:+: tok) (hrest : ∀ c ∈ rest.head?, inRef c = false) :
    ∃ u' rest', substAll (literal (revToken old)) (revToken rev) 0 (u ++ (tok ++ rest)) = u' ++ (tok ++ rest') ∧
      u'.length = u.length ∧ ∀ c ∈ rest'.head?, inRef c = false := by
  cases rest with
  | nil =>
    obtain ⟨u', rest', e, hlen, hrest', -⟩ := keeps_token hold hrev hr hfree (substAll_rewrites revToken_ne_nil _)
    refine ⟨u', rest', e, hlen, ?_⟩
    rw [List.eq_nil_of_length_eq_zero hrest']
    exact hrest
  | cons c rest =>
    have hc : c ∉ revToken old := fun hm =>
      absurd (revToken_inRef hold c hm) (by rw [hrest c rfl]; exact Bool.false_ne_true)
    obtain ⟨u', rest', e, hlen, hrest', -⟩ :=
      keeps_token hold hrev hr hfree (substAll_rewrites revToken_ne_nil (u ++ (tok ++ [])))
    obtain rfl := List.eq_nil_of_length_eq_zero hrest'
    rw [List.append_nil] at e
    refine ⟨u', c :: substAll (literal (revToken old)) (revToken rev) 0 rest, ?_, hlen, hrest⟩
    rw [← List.append_assoc, substAll_cut revToken_ne_nil hc, e, List.append_assoc]

namespace Pin

variable {p : Pin}

/-- The token perl replaces is the URL's own, unless it is the target's already. -/
theorem ref_read_site (htag : IsTag tag) (hin : ∀ c ∈ tag, inRef c = true) {kv a b a' r : Text}
    (hkv : ∀ c ∈ kv, inRef c = true) (hb : ∀ c ∈ b.head?, inRef c = false) (hline : p.line = a ++ (kv ++ b))
    (hle : a.length ≤ p.site.length) (hlen : a'.length = a.length) (hr : ∀ c ∈ r.head?, inRef c = false)
    (hresult : a' ++ (tagRef tag ++ r) = p.lineWith (tagRef tag) rev) : a = p.site ∨ kv = tagRef tag := by
  obtain ⟨x, hsite, hrest⟩ := site_split hline hle
  by_cases hx : x = []
  · rw [hx, List.append_nil] at hsite
    exact .inl hsite.symm
  right
  have hquestion := question_mem_site hsite hx
  rw [lineWith, hsite, List.append_assoc] at hresult
  obtain ⟨-, hresult⟩ := List.append_inj hresult hlen
  obtain ⟨x', hx', hr', hx'ne⟩ := ref_ne_of_question htag hquestion hresult
  rw [hx', List.append_assoc] at hrest
  rcases List.append_eq_append_iff.mp hrest with ⟨as, has, hbs⟩ | ⟨bs, hbs, htail⟩
  · cases as with
    | nil => rw [has, List.append_nil]
    | cons c as =>
      have hc : c ∈ tagRef tag := has ▸ List.mem_append_right kv List.mem_cons_self
      have hstop := hb c (by rw [hbs]; rfl)
      exact absurd (tagRef_inRef hin c hc) (by rw [hstop]; exact Bool.false_ne_true)
  · cases bs with
    | nil => rw [hbs, List.append_nil]
    | cons c bs =>
      obtain ⟨d, x'', rfl⟩ := List.exists_cons_of_ne_nil hx'ne
      obtain ⟨rfl, -⟩ := List.cons.inj htail
      have hc : d ∈ kv := hbs ▸ List.mem_append_right _ List.mem_cons_self
      have hstop := hr d (by rw [hr']; rfl)
      exact absurd (hkv d hc) (by rw [hstop]; exact Bool.false_ne_true)

end Pin

/-! ## Its copies -/

theorem swapAll_unchanged {tok l : Text} (hold : IsRev old) (hrev : IsRev rev) (hne : old ≠ rev) (htok : tok ≠ [])
    (hfree : ¬ revKey <:+: tagRef tag) (h : swapAll tok (tagRef tag) (revToken old) (revToken rev) l = l) :
    (tok = tagRef tag ∨ ¬ tok <:+: l) ∧ ¬ revToken old <:+: l := by
  have hlit : literal tok ≠ [] := List.ne_nil_of_length_pos (length_literal tok ▸ List.length_pos_of_ne_nil htok)
  have hrewrites := @substAll_rewrites _ _ (revToken rev) (revToken old) revToken_ne_nil
  have hlen : (revToken rev).length = (revToken old).length := by rw [length_revToken hold, length_revToken hrev]
  have hpass : tok = tagRef tag ∨ ¬ tok <:+: l := by
    by_cases hsame : (tagRef tag).length = tok.length
    · rcases clear_or_firstMatch (literal tok) l with hc | ⟨u, m, r, hf⟩
      · exact .inr ((clear_iff_absent htok).mp hc)
      · obtain rfl := firstMatch_literal hf
        rw [swapAll, hf.substAll_eq hlit] at h
        obtain ⟨u', r', e, hu, -⟩ := keeps_token hold hrev (tagRef_cons tag) hfree (hrewrites _)
        have heq := e.symm.trans (h.trans hf.text)
        exact .inl (List.append_inj (List.append_inj heq hu).2 hsame).1.symm
    · refine .inr (clear_of_length htok hsame ?_)
      rw [← (hrewrites _).length_eq hlen]
      exact congrArg List.length h
  refine ⟨hpass, not_infix_of_unchanged hold hrev hne (substAll_replaces revToken_ne_nil) ?_⟩
  have hself : substAll (literal tok) (tagRef tag) 0 l = l := by
    rcases hpass with rfl | hnot
    · exact substAll_self htok l
    · exact substAll_unmatched ((clear_iff_absent htok).mpr hnot)
  rwa [swapAll, hself] at h

theorem swapAll_cut {tok x y : Text} (hold : IsRev old) (htok : tok ≠ []) (hamp : '&' ∉ tok) :
    swapAll tok (tagRef tag) (revToken old) (revToken rev) (x ++ '&' :: y) =
      swapAll tok (tagRef tag) (revToken old) (revToken rev) x ++
        '&' :: swapAll tok (tagRef tag) (revToken old) (revToken rev) y := by
  rw [swapAll, substAll_cut htok hamp, substAll_cut revToken_ne_nil (amp_not_mem_revToken hold)]
  rfl

/-- A rev= token of 40 digits in front is replaced or kept, and the rest goes on from there. -/
theorem substAll_revToken {own t : Text} (hold : IsRev old) (hrev : IsRev rev) (hown : IsRev own) :
    ∃ own', own'.length = (revToken own).length ∧ substAll (literal (revToken old)) (revToken rev) 0 (revToken own ++ t) =
      own' ++ substAll (literal (revToken old)) (revToken rev) 0 t := by
  by_cases he : own = old
  · subst he
    refine ⟨revToken rev, by rw [length_revToken hrev, length_revToken hown], ?_⟩
    rw [substAll_match (matchesHead_self _ _) (length_literal _).symm revToken_ne_nil]
  · refine ⟨revToken own, rfl, substAll_clear ⟨?_, ?_⟩⟩
    · refine Bool.eq_false_iff.mpr fun hm => he ?_
      have hpre := matchesHead_literal.mp hm
      have hlen : (revToken old).length = (revToken own).length := by rw [length_revToken hold, length_revToken hown]
      exact (revToken_injective
        ((List.prefix_of_prefix_length_le hpre (List.prefix_append _ t) hlen.le).eq_of_length hlen)).symm
    · exact clear_of_not_mem (r_not_mem_tail hown)

namespace Pin

variable {p : Pin}

theorem clear_refToken (rest : Text) (h : IsRev rev) : Clear (literal p.refToken) rest (revToken rev) :=
  ⟨rfl, clear_of_not_mem (r_not_mem_tail h)⟩

/-- If the URL comes through with the target in it, no other copy of its ref= token stands
    behind it. -/
theorem refToken_behind (hold : IsRev old) (hrev : IsRev rev) (hne : old ≠ rev) (hfree : ¬ revKey <:+: tagRef tag)
    (hT : p.refToken ≠ tagRef tag)
    (h : swapAll p.refToken (tagRef tag) (revToken old) (revToken rev) (p.params ++ '&' :: (revToken p.rev ++ p.after)) =
      p.params ++ '&' :: (revToken rev ++ p.after)) :
    ¬ p.refToken <:+: p.params ++ '&' :: (revToken p.rev ++ p.after) := by
  have htok := p.refToken_ne_nil
  have hrewrites := @substAll_rewrites _ _ (revToken rev) (revToken old) revToken_ne_nil
  have hlen : (revToken rev).length = (revToken old).length := by rw [length_revToken hold, length_revToken hrev]
  have hlen' : (revToken rev).length = (revToken p.rev).length := by rw [length_revToken p.rev_isRev, length_revToken hrev]
  by_cases hsame : (tagRef tag).length = p.refToken.length
  · have hreplaces := @substAll_rewrites _ _ (tagRef tag) p.refToken htok
    rw [swapAll_cut hold htok p.amp_not_mem_refToken] at h
    have hparams : (swapAll p.refToken (tagRef tag) (revToken old) (revToken rev) p.params).length = p.params.length := by
      rw [swapAll, (hrewrites _).length_eq hlen, (hreplaces _).length_eq hsame]
    obtain ⟨hfront, hback⟩ := List.append_inj h hparams
    have hback := (List.cons.inj hback).2
    rw [swapAll, substAll_clear (p.clear_refToken _ p.rev_isRev)] at hback
    obtain ⟨own', hown, e⟩ :=
      @substAll_revToken _ _ p.rev (substAll (literal p.refToken) (tagRef tag) 0 p.after) hold hrev p.rev_isRev
    rw [e] at hback
    have hafter := (List.append_inj hback (hown.trans hlen'.symm)).2
    have hnot := (swapAll_unchanged hold hrev hne htok hfree hfront).1.resolve_left hT
    have hnot' := (swapAll_unchanged hold hrev hne htok hfree hafter).1.resolve_left hT
    intro hin
    rcases Lines.infix_append_cons p.amp_not_mem_refToken hin with hin | hin
    · exact hnot hin
    · refine (clear_iff_absent htok).mp (clear_append.mpr ⟨?_, (clear_iff_absent htok).mpr hnot'⟩) hin
      exact p.clear_refToken _ p.rev_isRev
  · refine clear_of_length htok hsame ?_
    rw [← (hrewrites _).length_eq hlen]
    refine (congrArg List.length h).trans ?_
    simp only [List.length_append, List.length_cons, hlen']

theorem swapAll_behind {a' : Text} (hold : IsRev old) {x y y' : Text} (ha : a'.length = x.length)
    (h : substAll (literal (revToken old)) (revToken rev) 0
      (a' ++ substAll (literal p.refToken) (tagRef tag) 0 (p.params ++ '&' :: y)) = x ++ (p.params ++ '&' :: y'))
    (hfront : (substAll (literal (revToken old)) (revToken rev) 0 a').length = a'.length) :
    swapAll p.refToken (tagRef tag) (revToken old) (revToken rev) (p.params ++ '&' :: y) = p.params ++ '&' :: y' := by
  have hcut : ∀ z, substAll (literal p.refToken) (tagRef tag) 0 ('&' :: z) =
      '&' :: substAll (literal p.refToken) (tagRef tag) 0 z :=
    fun z => substAll_cut p.refToken_ne_nil p.amp_not_mem_refToken []
  have hcut' : ∀ u z, substAll (literal (revToken old)) (revToken rev) 0 (u ++ '&' :: z) =
      substAll (literal (revToken old)) (revToken rev) 0 u ++ '&' :: substAll (literal (revToken old)) (revToken rev) 0 z :=
    fun u z => substAll_cut revToken_ne_nil (amp_not_mem_revToken hold) u
  obtain ⟨t, ht⟩ := p.params_amp y
  rw [ht, hcut, hcut'] at h
  have hback := (List.append_inj h (hfront.trans ha)).2
  rw [swapAll, ht, hcut, ← hback]
  exact hcut' [] _

/-- If the line comes through with the target in it, the token perl read and replaced is the
    URL's own, and it stands nowhere else on the line. -/
theorem ref_pass (htag : IsTag tag) (hin : ∀ c ∈ tag, inRef c = true) (hfree : ¬ revKey <:+: tag) (href : ¬ revKey <:+: p.ref)
    (hold : IsRev old) (hrev : IsRev rev) (hne : old ≠ rev) {kv : Text} (hkv : pinRefKv p.line = some kv)
    (h : swapAll kv (tagRef tag) (revToken old) (revToken rev) p.line = p.lineWith (tagRef tag) rev) :
    kv = p.refToken ∧ (p.refToken = tagRef tag ∨ OnlyAfter p.site p.refToken p.line) := by
  obtain ⟨a, v, b, hline, hkvv, hvne, hv, hb, hleast⟩ := pinRefKv_eq_some hkv
  have hfreeT : ¬ revKey <:+: tagRef tag := fun h => hfree (revKey_infix_tagRef h)
  have hrefT : ¬ revKey <:+: p.refToken := fun h => href (revKey_infix_refToken h)
  have hrewrites := @substAll_rewrites _ _ (revToken rev) (revToken old) revToken_ne_nil
  have hlenrev : (revToken rev).length = (revToken old).length := by rw [length_revToken hold, length_revToken hrev]
  have hkvne : kv ≠ [] := hkvv ▸ List.cons_ne_nil _ _
  have hkvin : ∀ c ∈ kv, inRef c = true := by
    intro c hc
    rw [hkvv] at hc
    rcases List.mem_append.mp hc with hc | hc
    · exact List.all_eq_true.mp (show refKey.all inRef = true from by decide) c hc
    · exact hv c hc
  have hfirst : Clear (literal kv) (kv ++ b) a := by
    refine clear_literal_iff.mpr fun a' b' e => ?_
    by_contra hlt
    obtain ⟨c, v', rfl⟩ := List.exists_cons_of_ne_nil hvne
    refine refAt_ne_none (hv c List.mem_cons_self) (v' ++ b') ?_
    refine hleast a' _ ?_ (Nat.lt_of_not_le hlt)
    rw [hline, e, hkvv]
    simp only [List.append_assoc, List.cons_append]
  have hpass : substAll (literal kv) (tagRef tag) 0 p.line = a ++ (tagRef tag ++ substAll (literal kv) (tagRef tag) 0 b) := by
    rw [hline, substAll_clear hfirst, substAll_match (matchesHead_self _ _) (length_literal _).symm hkvne]
  have hle := p.ref_read_le hleast
  obtain ⟨a', r, hresult, hlen, hr⟩ :=
    @keeps_token_head _ _ a _ _ hold hrev (tagRef_cons tag) hfreeT (@substAll_head _ (tagRef tag) _ hkvne hkvin hb)
  have hend := h
  rw [swapAll, hpass, hresult] at hend
  rcases ref_read_site htag hin hkvin hb hline hle hlen hr hend with rfl | rfl
  · -- The token read begins where the URL's does.
    have hbehind := List.append_cancel_left (hline.symm.trans rfl)
    have hread : refAt (kv ++ b) = some kv := refAt_eq_some.mpr ⟨v, b, by rw [hkvv, List.append_assoc], hkvv, hvne, hv, hb⟩
    rw [hbehind, p.refAt_site] at hread
    obtain rfl := Option.some.inj hread
    obtain rfl := List.append_cancel_left hbehind
    refine ⟨rfl, or_iff_not_imp_left.mpr fun hT => ?_⟩
    have hedit : substAll (literal (revToken old)) (revToken rev) 0
        ((p.site ++ tagRef tag) ++
          substAll (literal p.refToken) (tagRef tag) 0 (p.params ++ '&' :: (revToken p.rev ++ p.after))) =
        (p.site ++ tagRef tag) ++ (p.params ++ '&' :: (revToken rev ++ p.after)) := by
      rw [List.append_assoc, ← hpass, List.append_assoc]
      exact h
    have hbehind := swapAll_behind hold rfl hedit ((hrewrites _).length_eq hlenrev)
    have hnot := refToken_behind hold hrev hne hfreeT hT hbehind
    refine (onlyAfter_iff p.refToken_ne_nil).mpr ⟨hfirst, fun hmore => ?_⟩
    obtain ⟨t, ht⟩ := p.params_amp (revToken p.rev ++ p.after)
    rw [ht] at hmore hnot
    rcases Lines.infix_append_cons p.amp_not_mem_refToken hmore with hmore | hmore
    · have hlt := hmore.length_le
      rw [List.length_tail] at hlt
      have := List.length_pos_of_ne_nil p.refToken_ne_nil
      omega
    · exact hnot (hmore.trans (List.suffix_cons _ _).isInfix)
  · -- The token read is the target's, and the ref= pass does nothing.
    rw [swapAll, substAll_self hkvne] at h
    have hT := refToken_eq_tagRef href hold hrev (h ▸ hrewrites p.line)
    exact ⟨hT.symm, .inl hT⟩

end Pin

/-! ## Over the flake -/

theorem break_not_mem_swapAll {kv l : Text} (hkv : kv ≠ []) (htag : IsTag tag) (hrev : IsRev rev) (hl : '\n' ∉ l) :
    '\n' ∉ swapAll kv (tagRef tag) (revToken old) (revToken rev) l :=
  (substAll_rewrites revToken_ne_nil _).not_mem (break_not_mem_revToken hrev)
    ((substAll_rewrites hkv l).not_mem (break_not_mem_tagRef htag) hl)

namespace PinIn

variable (p : PinIn text)

/-- deploy's edit, line by line: where the names hold nothing special it is the bump exactly
    if the two passes change the pin's line so, and no other. -/
theorem deploy_bumped_iff {perl : Text → Text → Text} (hperl : LawfulPerl perl) (htag : IsTag tag) (hrev : IsRev rev)
    {flake edited kv : Text} (hkv : pinRefKv p.pin.line = some kv) (hplain : PerlPlain kv) (hplain' : PerlPlain tag)
    (h : deploy perl flake text tag rev = .edited edited) :
    ∃ old, pinnedRev p.pin.line = some old ∧ old ≠ rev ∧ (edited = p.bumped tag rev ↔
      (∀ l ∈ p.above ++ p.below, swapAll kv (tagRef tag) (revToken old) (revToken rev) l = l) ∧
        swapAll kv (tagRef tag) (revToken old) (revToken rev) p.pin.line = p.pin.lineWith (tagRef tag) rev) := by
  obtain ⟨old, hread, hne, rfl⟩ := p.deploy_edited.mp h
  refine ⟨old, hread, hne, ?_⟩
  have hold := (pinnedRev_eq_some.mp hread).1
  have hkvne : kv ≠ [] := by
    obtain ⟨_, _, _, _, rfl, _⟩ := pinRefKv_eq_some hkv
    exact List.cons_ne_nil _ _
  have hrun : editLines (perl (subst (some kv) tag old rev)) text =
      editLines (swapAll kv (tagRef tag) (revToken old) (revToken rev)) text :=
    editLines_congr fun l hl => hperl.two hplain (perlPlain_tagRef hplain') hkvne
      (perlPlain_revToken hold) (perlPlain_revToken hrev) revToken_ne_nil
      (break_not_mem hl)
  rw [hkv, hrun]
  exact p.editLines_eq_bumped htag hrev fun l hl => break_not_mem_swapAll hkvne htag hrev (break_not_mem hl)

theorem OwnTokens.of_bumped (htag : IsTag tag) (hrev : IsRev rev) (hord : p.Ordinary tag) {kv : Text}
    (hkv : pinRefKv p.pin.line = some kv) (hread : pinnedRev p.pin.line = some old) (hne : old ≠ rev)
    (hothers : ∀ l ∈ p.above ++ p.below, swapAll kv (tagRef tag) (revToken old) (revToken rev) l = l)
    (hline : swapAll kv (tagRef tag) (revToken old) (revToken rev) p.pin.line = p.pin.lineWith (tagRef tag) rev) :
    p.OwnTokens tag := by
  have hold := (pinnedRev_eq_some.mp hread).1
  have hfreeT : ¬ revKey <:+: tagRef tag := fun h => hord.tag_rev (revKey_infix_tagRef h)
  obtain ⟨rfl, halone⟩ := Pin.ref_pass htag hord.tag_inRef hord.tag_rev hord.ref_rev hold hrev hne hkv hline
  have hedit := hline
  rw [swapAll, Pin.ref_alone_pass halone] at hedit
  obtain ⟨rfl, hfirst⟩ := Pin.rev_read_eq hold hrev hne (substAll_replaces revToken_ne_nil) hedit hread hord.ref_rev
  have hrevtag : ¬ revToken p.pin.rev <:+: tag := fun h => hord.tag_rev (revKey_of_revToken h)
  have hunchanged : ∀ l ∈ p.above ++ p.below,
      (p.pin.refToken = tagRef tag ∨ ¬ p.pin.refToken <:+: l) ∧ ¬ revToken p.pin.rev <:+: l :=
    fun l hl => swapAll_unchanged hold hrev hne p.pin.refToken_ne_nil hfreeT (hothers l hl)
  have hafter : ¬ revToken p.pin.rev <:+: p.pin.after := by
    refine not_infix_of_unchanged hold hrev hne (substAll_replaces revToken_ne_nil) ?_
    -- The pass leaves what it makes of the text behind the token.
    have hpass := @Pin.rev_pass tag rev p.pin _ _ hrevtag hfirst fun front hclear => substAll_front hclear
    have hrest := List.append_cancel_left (List.append_cancel_left (hpass.symm.trans hedit))
    exact List.append_cancel_left (List.cons.inj (List.append_cancel_left hrest)).2
  refine ⟨⟨(hord.read_plain _ hkv).1, hord.tag_plain.1⟩, hkv, hread, ?_, ?_, fun l hl => (hunchanged l hl).2, hrevtag⟩
  · refine or_iff_not_imp_left.mpr fun hT => ?_
    exact ⟨halone.resolve_left hT, fun l hl => (hunchanged l hl).1.resolve_left hT⟩
  · rw [Pin.line_eq_revSite]
    refine (onlyAfter_iff revToken_ne_nil).mpr ⟨clear_literal_iff.mpr fun a b e => ?_, ?_⟩
    · exact hfirst a b (by rw [Pin.line_eq_revSite, e, List.append_assoc])
    · refine (clear_iff_absent revToken_ne_nil).mp (clear_append.mpr ⟨?_, ?_⟩)
      · exact clear_of_not_mem (r_not_mem_tail hold)
      · exact (clear_iff_absent revToken_ne_nil).mpr hafter

end PinIn

end SudoWhat.Nix
