/-
  SudoWhat.Nix.DeploySettles — a deploy after a deploy.

  The scripts find the pin again in the flake the pin command left: the line is the first with
  a sudowhat URL still, and the first rev= token on it is the target's. A token read further
  left would lie in what the edit left alone, where none was before (`Pin.before_free`), or in
  the target's ref= token. It crosses no border of the two: it holds no `&`, and no `r` but
  its first character (`revAt_stop`).

  Proved: `deploy_settles`, that the next run changes nothing, and that `deploy-plan` has
  nothing to print either.
-/

import SudoWhat.Nix.DeployRuns

namespace SudoWhat.Nix

open SudoWhat.Lib
open Lines (contains contains_iff)

variable {text tag rev : Text}

/-! ## No rev= token further left -/

/-- A token begun in `x` ends in it, where what follows is none of its later characters. -/
theorem revAt_stop {x rest : Text} {c : Char} (hx : x ≠ []) (hc : c = 'r' ∨ c = '&') : revAt (x ++ c :: rest) = revAt x := by
  have hcross : ∀ {r a b : Text}, IsRev r → revToken r = x ++ c :: a → x ++ c :: rest = revToken r ++ b → False := by
    intro r a b hr htoken _
    obtain ⟨d, x, rfl⟩ := List.exists_cons_of_ne_nil hx
    have htail : c ∈ (revToken r).tail := by
      rw [htoken]
      exact List.mem_append_right x List.mem_cons_self
    rcases hc with rfl | rfl
    · exact r_not_mem_tail hr htail
    · exact amp_not_mem_revToken hr (List.mem_of_mem_tail htail)
  refine Option.ext fun r => ?_
  rw [revAt_eq_some, revAt_eq_some]
  constructor
  · intro h
    obtain ⟨hr, b, hb⟩ := h
    rcases List.append_eq_append_iff.mp hb with ⟨a, htoken, ha⟩ | ⟨a, hxa, -⟩
    · cases a with
      | nil => exact ⟨hr, [], by rw [List.append_nil, htoken, List.append_nil]⟩
      | cons d a =>
        obtain ⟨rfl, -⟩ := List.cons.inj ha
        exact (hcross hr htoken hb).elim
    · exact ⟨hr, a, hxa⟩
  · intro h
    obtain ⟨hr, b, hb⟩ := h
    exact ⟨hr, b ++ c :: rest, by rw [hb, List.append_assoc]⟩

/-- No rev= token begins in `front`, where such a character follows it. -/
def Free (front : Text) : Prop := ∀ u x, front = u ++ x → x ≠ [] → revAt x = none

theorem free_iff {front rest : Text} {c : Char} (hc : c = 'r' ∨ c = '&') :
    (∀ a t, front ++ c :: rest = a ++ t → a.length < front.length → revAt t = none) ↔ Free front := by
  constructor
  · intro h u x hfront hx
    rw [← revAt_stop hx hc]
    refine h u (x ++ c :: rest) (by rw [hfront, List.append_assoc]) ?_
    rw [hfront, List.length_append]
    exact Nat.lt_add_of_pos_right (List.length_pos_iff.mpr hx)
  · intro h a t ht ha
    obtain ⟨x, hfront, hx⟩ : ∃ x, front = a ++ x ∧ t = x ++ c :: rest := by
      rcases List.append_eq_append_iff.mp ht with ⟨x, hax, -⟩ | ⟨x, hfront, hx⟩
      · rw [hax, List.length_append] at ha
        omega
      · exact ⟨x, hfront, hx⟩
    have hne : x ≠ [] := by
      rintro rfl
      rw [hfront, List.append_nil] at ha
      exact Nat.lt_irrefl _ ha
    rw [hx, revAt_stop hne hc]
    exact h a x hfront hne

theorem free_append {u v : Text} (hv : ∃ c v', v = c :: v' ∧ (c = 'r' ∨ c = '&')) : Free (u ++ v) ↔ Free u ∧ Free v := by
  obtain ⟨c, v', rfl, hc⟩ := hv
  constructor
  · intro h
    refine ⟨fun a x hu hx => ?_, fun a x hv hx => ?_⟩
    · rw [← revAt_stop hx hc]
      exact h a (x ++ c :: v') (by rw [hu, List.append_assoc]) (List.append_ne_nil_of_left_ne_nil hx _)
    · exact h (u ++ a) x (by rw [hv, List.append_assoc]) hx
  · intro h a x hsplit hx
    obtain ⟨hu, hv⟩ := h
    rcases List.append_eq_append_iff.mp hsplit with ⟨a', -, hv'⟩ | ⟨x', hu', hx'⟩
    · exact hv a' x hv' hx
    · rw [hx']
      by_cases hnil : x' = []
      · rw [hnil, List.nil_append]
        exact hv [] (c :: v') rfl (List.cons_ne_nil _ _)
      · rw [revAt_stop hnil hc]
        exact hu a x' hu' hnil

theorem free_tagRef (h : ¬ revKey <:+: tag) : Free (tagRef tag) := by
  intro u x hsplit _
  refine Option.eq_none_iff_forall_ne_some.mpr fun r hr => h ?_
  obtain ⟨hrev, b, hb⟩ := revAt_eq_some.mp hr
  have hinfix : revToken r <:+: tagRef tag := ⟨u, b, by rw [hsplit, hb, List.append_assoc]⟩
  exact revKey_infix_tagRef (revKey_of_revToken hinfix)

/-! ## The pin of the edited flake -/

namespace PinIn

variable {p : PinIn text}

theorem OwnTokens.before_free (h : p.OwnTokens tag) : Free p.pin.revSite := by
  obtain ⟨-, a, b, hline, hleast⟩ := pinnedRev_eq_some.mp h.rev_read
  obtain rfl := h.rev_alone a b hline
  rw [hline] at hleast
  exact (free_iff (.inl rfl)).mp hleast

theorem border_params (p : Pin) : ∃ c v', p.params ++ ['&'] = c :: v' ∧ (c = 'r' ∨ c = '&') := by
  obtain ⟨v', hv'⟩ := p.params_amp []
  exact ⟨'&', v', hv', .inr rfl⟩

theorem border_token (token : Text) (ht : ∃ t, token = 'r' :: t) (v : Text) :
    ∃ c v', token ++ v = c :: v' ∧ (c = 'r' ∨ c = '&') := by
  obtain ⟨t, rfl⟩ := ht
  exact ⟨'r', t ++ v, rfl, .inl rfl⟩

/-- The target's rev= token is the first on the pin's new line. -/
theorem OwnTokens.rev_read_again (h : p.OwnTokens tag) (hfree : ¬ revKey <:+: tag) (hrev : IsRev rev) :
    pinnedRev (p.pin.lineWith (tagRef tag) rev) = some rev := by
  have hold := h.before_free
  rw [Pin.revSite, free_append (border_token _ p.pin.refToken_cons _), free_append (border_params p.pin)] at hold
  obtain ⟨hsite, -, hparams⟩ := hold
  have hnew : Free (p.pin.site ++ (tagRef tag ++ (p.pin.params ++ ['&']))) := by
    rw [free_append (border_token _ (tagRef_cons tag) _), free_append (border_params p.pin)]
    exact ⟨hsite, free_tagRef hfree, hparams⟩
  refine pinnedRev_eq_some.mpr ⟨hrev, p.pin.site ++ (tagRef tag ++ (p.pin.params ++ ['&'])), p.pin.after, ?_, ?_⟩
  · simp only [Pin.lineWith, List.append_assoc, List.cons_append, List.nil_append]
  · have hline : p.pin.lineWith (tagRef tag) rev =
        (p.pin.site ++ (tagRef tag ++ (p.pin.params ++ ['&']))) ++ 'r' :: ((revToken rev).tail ++ p.pin.after) := by
      simp only [Pin.lineWith, List.append_assoc, List.cons_append, List.nil_append]
      rfl
    rw [hline]
    exact (free_iff (.inl rfl)).mpr hnew

theorem pinLine_bumped (htag : IsTag tag) (hrev : IsRev rev) :
    pinLine (p.bumped tag rev) = some (p.pin.lineWith (tagRef tag) rev) := by
  have hbreaks : ∀ l ∈ p.above ++ p.pin.lineWith (tagRef tag) rev :: p.below, '\n' ∉ l := by
    intro l hl
    rcases List.mem_append.mp hl with hl | hl
    · exact break_not_mem (p.mem_lines.mpr (.inl (List.mem_append_left _ hl)))
    · rcases List.mem_cons.mp hl with rfl | hl
      · exact p.break_not_mem_lineWith htag hrev
      · exact break_not_mem (p.mem_lines.mpr (.inl (List.mem_append_right _ hl)))
  have hmatch : contains repoMatch (p.pin.lineWith (tagRef tag) rev) = true :=
    contains_iff.mpr (p.pin.repoMatch_stands _ rev)
  have habove : p.above.find? (contains repoMatch) = none :=
    List.find?_eq_none.mpr fun l hl h => p.first l hl (contains_iff.mp h)
  rw [pinLine, bumped, List.splitOn_intercalate _ hbreaks (by simp), List.find?_append, habove,
    List.find?_cons_of_pos hmatch]
  rfl

/-- deploy's edit is the bump, where its tokens are the pin's own. -/
theorem OwnTokens.bumps (h : p.OwnTokens tag) {perl : Text → Text → Text} (hperl : LawfulPerl perl) (htag : IsTag tag)
    (hrev : IsRev rev) (hne : p.pin.rev ≠ rev) :
    editLines (perl (subst (pinRefKv p.pin.line) tag p.pin.rev rev)) text = p.bumped tag rev := by
  have hedited : deploy perl [] text tag rev =
      .edited (editLines (perl (subst (pinRefKv p.pin.line) tag p.pin.rev rev)) text) :=
    p.deploy_edited.mpr ⟨p.pin.rev, h.rev_read, hne, rfl⟩
  obtain ⟨old, hread, -, hiff⟩ := p.deploy_bumped_iff hperl htag hrev h.ref_read h.plain.1 h.plain.2 hedited
  obtain rfl := Option.some.inj (h.rev_read.symm.trans hread)
  exact hiff.mpr ⟨fun l hl => h.swapAll_others hl, h.swapAll_line⟩

end PinIn

/-! ## The next run -/

namespace Deploy

theorem says_two (first last : Text) :
    commands (do say first; say last : Script Unit).trace = [] ∧ exitStatus (do say first; say last) = 0 ∧
      screen (do say first; say last : Script Unit).trace = Utf8.encode (first ++ last) := by
  refine ⟨rfl, rfl, ?_⟩
  rw [Utf8.encode_append]
  exact congrArg (Utf8.encode first ++ ·) (List.append_nil _)

theorem inSync_run {env : Env} {t : Target} {p : Found} (hargs : ∀ a ∈ env.args, a = lit "--yes" ∨ a = lit "--dry-run")
    (hrelease : Release env t) (hpinned : Pinned env p) (hsync : p.rev = t.rev) : script env = inSync env t p := by
  have hreturns : (readArgs env env.args ⟨false, false⟩).Returns
      ⟨env.args.contains (lit "--yes"), env.args.contains (lit "--dry-run")⟩ :=
    readArgs_returns.mpr ⟨hargs, by simp⟩
  unfold script
  rw [readArgs_eq hreturns, Traced.pure_bind_eq, readTarget_eq hrelease, Traced.pure_bind_eq, readPin_eq hpinned,
    Traced.pure_bind_eq, if_pos hsync]

/-- Once the pin command has run, the next deploy of the same release finds the pin at the
    target, says so and changes nothing, however it is called; and `deploy-plan` prints no
    command. -/
theorem deploy_settles {perl : Text → Text → Text} (hperl : LawfulPerl perl) {env again : Env} {t : Target} {found : Found}
    (hcleared : Cleared env t found) {text : Text} (hflake : env.flake = some text) {p : PinIn text} (htokens : p.OwnTokens t.tag)
    (htag : IsTag t.tag) (hfree : ¬ revKey <:+: t.tag) (hrev : IsRev t.rev) {edited : Text}
    (hedited : edited = editLines (perl (subst found.refKv t.tag found.rev t.rev)) text)
    (hrelease : Release again t) (hagain : again.flake = some edited)
    (hargs : ∀ a ∈ again.args, a = lit "--yes" ∨ a = lit "--dry-run") :
    edited = p.bumped t.tag t.rev ∧ commands (script again).trace = [] ∧ exitStatus (script again) = 0 ∧
      (∃ p', Pinned again p' ∧
        screen (script again).trace = Utf8.encode (printHeader again.outColor again t p' ++ alreadyInSync again)) ∧
      planScripts edited t.tag t.rev = none := by
  obtain ⟨text', line, htext, hline, hrevRead, hkv⟩ := hcleared.pinned
  obtain rfl := Option.some.inj (hflake.symm.trans htext)
  obtain rfl := Option.some.inj (p.pinLine_eq.symm.trans hline)
  have hold : p.pin.rev = found.rev := Option.some.inj (htokens.rev_read.symm.trans hrevRead)
  have hbumped : edited = p.bumped t.tag t.rev := by
    rw [hedited, ← hkv, ← hold]
    exact htokens.bumps hperl htag hrev (hold ▸ hcleared.behind)
  have hreadLine : pinLine edited = some (p.pin.lineWith (tagRef t.tag) t.rev) := by
    rw [hbumped]
    exact PinIn.pinLine_bumped htag hrev
  have hreadRev := htokens.rev_read_again hfree hrev
  have hpinned : Pinned again ⟨pinRefKv (p.pin.lineWith (tagRef t.tag) t.rev), t.rev⟩ :=
    ⟨edited, _, hagain, hreadLine, hreadRev, rfl⟩
  obtain ⟨hcommands, hstatus, hscreen⟩ := says_two
    (printHeader again.outColor again t ⟨pinRefKv (p.pin.lineWith (tagRef t.tag) t.rev), t.rev⟩) (alreadyInSync again)
  have hrun := inSync_run hargs hrelease hpinned rfl
  rw [inSync] at hrun
  rw [← hrun] at hcommands hstatus hscreen
  refine ⟨hbumped, hcommands, hstatus, ⟨_, hpinned, hscreen⟩, ?_⟩
  · rw [planScripts, hreadLine]
    dsimp only
    rw [hreadRev]
    cases pinnedRef (p.pin.lineWith (tagRef t.tag) t.rev) with
    | none => rfl
    | some ref => exact if_pos (.inl rfl)

/-- The flake a release behind, once the pin command has run on it. -/
def releasedFlake : Text :=
  editLines (literalPerl (subst (some ownPin.refToken) newTag ownRev newRev)) (flakeWith toolsAtMain)

theorem deploy_settles_release :
    releasedFlake = branchPin.bumped newTag newRev ∧
      commands (script { releaseEnv with args := [], flake := some releasedFlake }).trace = [] ∧
      exitStatus (script { releaseEnv with args := [], flake := some releasedFlake }) = 0 ∧
      planScripts releasedFlake newTag newRev = none := by
  have hagain : Release { releaseEnv with args := [], flake := some releasedFlake } ⟨newRev, newTag, newRev⟩ :=
    ⟨⟨rfl, rfl⟩, ⟨rfl, rfl⟩, rfl, releaseEnv_release.tag, rfl⟩
  obtain ⟨hbumped, hcommands, hstatus, -, hplan⟩ := deploy_settles literalPerl_lawful releaseEnv_cleared rfl
    branchPin_ownTokens newTag_isTag (by decide) newRev_isRev rfl hagain rfl (by simp)
  exact ⟨hbumped, hcommands, hstatus, hplan⟩

end Deploy

end SudoWhat.Nix
