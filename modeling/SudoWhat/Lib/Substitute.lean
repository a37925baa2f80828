/-
  SudoWhat.Lib.Substitute — a pattern of fixed length replaced in a text.

  A pattern asks for one element at each place, or takes any. `substAll` replaces its
  matches from left to right, none overlapping, `substFirst` the leftmost one. What matters
  is where matches begin: `Clear pat rest u` says that none begins in `u` where `rest`
  follows. Both operations pass over a clear text and replace the match behind it
  (`substAll_clear`, `substAll_match`), and a text is clear of a literal pattern exactly if
  the literal does not stand in it (`clear_literal_iff`, `clear_iff_absent`).

  Read backwards: of a literal replaced by another of its length, the part of the text
  that came through as it was holds no match (`Replaces.absent`); replaced by one of
  another length, the text keeps its length only where nothing is replaced
  (`clear_of_length`); and a piece that no match reaches with what is new in it stands in
  the result where it stood (`Rewrites.keeps`).
-/

import Mathlib.Data.List.Infix

namespace SudoWhat.Lib.Substitute

variable {α : Type} [DecidableEq α]

abbrev Pattern (α : Type) := List (Option α)

def literal (s : List α) : Pattern α := s.map some

/-- The pattern matches what the text begins with. -/
def matchesHead : Pattern α → List α → Bool
  | [], _ => true
  | _ :: _, [] => false
  | some a :: pat, b :: t => a == b && matchesHead pat t
  | none :: pat, _ :: t => matchesHead pat t

/-- Replace every match, `skip` elements of the last one still to pass over. -/
def substAll (pat : Pattern α) (repl : List α) : Nat → List α → List α
  | _, [] => []
  | skip + 1, _ :: t => substAll pat repl skip t
  | 0, c :: t =>
    if matchesHead pat (c :: t) then repl ++ substAll pat repl (pat.length - 1) t else c :: substAll pat repl 0 t

def substFirst (pat : Pattern α) (repl : List α) : List α → List α
  | [] => []
  | c :: t => if matchesHead pat (c :: t) then repl ++ (c :: t).drop pat.length else c :: substFirst pat repl t

/-- No match begins in the text where `rest` follows it. -/
def Clear (pat : Pattern α) (rest : List α) : List α → Prop
  | [] => True
  | c :: u => matchesHead pat (c :: (u ++ rest)) = false ∧ Clear pat rest u

instance decidableClear (pat : Pattern α) (rest : List α) : (u : List α) → Decidable (Clear pat rest u)
  | [] => isTrue trivial
  | c :: u =>
    have : Decidable (Clear pat rest u) := decidableClear pat rest u
    inferInstanceAs (Decidable (matchesHead pat (c :: (u ++ rest)) = false ∧ Clear pat rest u))

variable {pat : Pattern α} {repl rest s t u v w : List α}

@[simp] theorem clear_nil : Clear pat rest [] := trivial

theorem clear_append : Clear pat rest (u ++ v) ↔ Clear pat (v ++ rest) u ∧ Clear pat rest v := by
  induction u with
  | nil => simp
  | cons c u ih => simp only [List.cons_append, Clear, ih, List.append_assoc, and_assoc]

/-! ## The two operations -/

theorem substAll_clear (h : Clear pat rest u) : substAll pat repl 0 (u ++ rest) = u ++ substAll pat repl 0 rest := by
  induction u with
  | nil => rfl
  | cons c u ih =>
    obtain ⟨hc, hu⟩ := h
    rw [List.cons_append, substAll, hc, if_neg Bool.false_ne_true, ih hu]
    rfl

theorem substAll_skip (w rest : List α) : substAll pat repl w.length (w ++ rest) = substAll pat repl 0 rest := by
  induction w with
  | nil => rfl
  | cons c w ih => exact ih

theorem substAll_match (h : matchesHead pat (w ++ rest) = true) (hlen : w.length = pat.length) (hne : w ≠ []) :
    substAll pat repl 0 (w ++ rest) = repl ++ substAll pat repl 0 rest := by
  cases w with
  | nil => exact absurd rfl hne
  | cons c w =>
    have hskip : pat.length - 1 = w.length := by rw [← hlen]; rfl
    rw [List.cons_append] at h ⊢
    rw [substAll, if_pos h, hskip, substAll_skip]

theorem substFirst_clear (h : Clear pat rest u) : substFirst pat repl (u ++ rest) = u ++ substFirst pat repl rest := by
  induction u with
  | nil => rfl
  | cons c u ih =>
    obtain ⟨hc, hu⟩ := h
    rw [List.cons_append, substFirst, hc, if_neg Bool.false_ne_true, ih hu]
    rfl

theorem substFirst_match (h : matchesHead pat (w ++ rest) = true) (hlen : w.length = pat.length) (hne : w ≠ []) :
    substFirst pat repl (w ++ rest) = repl ++ rest := by
  cases w with
  | nil => exact absurd rfl hne
  | cons c w =>
    rw [List.cons_append] at h ⊢
    rw [substFirst, if_pos h, ← hlen, ← List.cons_append, List.drop_left]

theorem substAll_unmatched (h : Clear pat [] t) : substAll pat repl 0 t = t := by
  have := @substAll_clear _ _ pat repl [] t h
  rw [List.append_nil] at this
  rw [this]
  exact List.append_nil t

theorem substFirst_unmatched (h : Clear pat [] t) : substFirst pat repl t = t := by
  have := @substFirst_clear _ _ pat repl [] t h
  rw [List.append_nil] at this
  rw [this]
  exact List.append_nil t

/-! ## Literal patterns -/

omit [DecidableEq α] in
theorem length_literal (s : List α) : (literal s).length = s.length := List.length_map some

theorem matchesHead_literal : matchesHead (literal s) t = true ↔ s <+: t := by
  induction s generalizing t with
  | nil => simp [literal, matchesHead]
  | cons a s ih =>
    cases t with
    | nil => simp [literal, matchesHead]
    | cons b t =>
      show (a == b && matchesHead (literal s) t) = true ↔ _
      rw [Bool.and_eq_true, beq_iff_eq, ih, List.cons_prefix_cons]

theorem matchesHead_self (s rest : List α) : matchesHead (literal s) (s ++ rest) = true :=
  matchesHead_literal.mpr (List.prefix_append s rest)

/-- Clear of a literal: wherever the literal stands, it begins behind the text. -/
theorem clear_literal_iff :
    Clear (literal s) rest u ↔ ∀ a b, u ++ rest = a ++ s ++ b → u.length ≤ a.length := by
  induction u with
  | nil => simp
  | cons c u ih =>
    have hhead : matchesHead (literal s) (c :: (u ++ rest)) = false ↔ ∀ b, c :: (u ++ rest) ≠ s ++ b := by
      rw [Bool.eq_false_iff, ne_eq, matchesHead_literal]
      constructor
      · intro h b e
        exact h ⟨b, e.symm⟩
      · intro h ⟨b, e⟩
        exact h b e.symm
    unfold Clear
    rw [hhead, ih]
    constructor
    · intro ⟨hfirst, hrest⟩ a b e
      cases a with
      | nil => exact absurd e (hfirst b)
      | cons d a => exact Nat.succ_le_succ (hrest a b (List.cons.inj e).2)
    · intro h
      refine ⟨fun b e => ?_, fun a b e => ?_⟩
      · exact absurd (h [] b e) (Nat.not_succ_le_zero _)
      · exact Nat.le_of_succ_le_succ (h (c :: a) b (by rw [List.cons_append, e]; rfl))

theorem clear_iff_absent (hs : s ≠ []) : Clear (literal s) [] t ↔ ¬ s <:+: t := by
  rw [clear_literal_iff, List.append_nil]
  constructor
  · intro h ⟨a, b, e⟩
    have hle := h a b e.symm
    have hlen := congrArg List.length e
    have hpos := List.length_pos_of_ne_nil hs
    simp only [List.length_append] at hlen
    omega
  · intro h a b e
    exact absurd ⟨a, b, e.symm⟩ h

theorem matchesHead_barrier {c : α} (hc : c ∉ s.tail) (hu : u ≠ []) :
    matchesHead (literal s) (u ++ c :: rest) = matchesHead (literal s) u := by
  have hstop : ∀ (s u : List α), c ∉ s → matchesHead (literal s) (u ++ c :: rest) = matchesHead (literal s) u := by
    intro s
    induction s with
    | nil => intro u _; rfl
    | cons a s ih =>
      intro u hm
      cases u with
      | nil =>
        have hne : (a == c) = false := beq_eq_false_iff_ne.mpr fun e => hm (e ▸ List.mem_cons_self)
        show (a == c && matchesHead (literal s) rest) = false
        rw [hne, Bool.false_and]
      | cons b u =>
        show (a == b && matchesHead (literal s) (u ++ c :: rest)) = (a == b && matchesHead (literal s) u)
        rw [ih u fun h => hm (List.mem_cons_of_mem a h)]
  cases u with
  | nil => exact absurd rfl hu
  | cons b u =>
    cases s with
    | nil => rfl
    | cons a s =>
      show (a == b && matchesHead (literal s) (u ++ c :: rest)) = (a == b && matchesHead (literal s) u)
      rw [hstop s u hc]

/-- A literal does not reach across an element that stands in it at most in front. -/
theorem clear_barrier {c : α} (hc : c ∉ s.tail) : Clear (literal s) (c :: rest) u ↔ Clear (literal s) [] u := by
  induction u with
  | nil => simp
  | cons b u ih =>
    have hhead : matchesHead (literal s) (b :: (u ++ c :: rest)) = matchesHead (literal s) (b :: (u ++ [])) := by
      rw [List.append_nil]
      exact matchesHead_barrier hc (List.cons_ne_nil b u)
    exact and_congr (iff_of_eq (congrArg (· = false) hhead)) ih

/-- Nothing begins where the literal's first element does not stand. -/
theorem clear_of_not_mem {a : α} (ha : a ∉ u) : Clear (literal (a :: s)) rest u := by
  induction u with
  | nil => exact clear_nil
  | cons b u ih =>
    refine ⟨?_, ih fun h => ha (List.mem_cons_of_mem b h)⟩
    have hne : (a == b) = false := beq_eq_false_iff_ne.mpr fun e => ha (e ▸ List.mem_cons_self)
    show (a == b && matchesHead (literal s) (u ++ rest)) = false
    rw [hne, Bool.false_and]

theorem substAll_barrier {c : α} (hs : s ≠ []) (hc : c ∉ s.tail) :
    ∀ u, substAll (literal s) repl 0 (u ++ c :: v) = substAll (literal s) repl 0 u ++ substAll (literal s) repl 0 (c :: v) := by
  intro u
  induction hn : u.length using Nat.strongRecOn generalizing u with
  | ind n ih =>
    subst hn
    cases u with
    | nil => rfl
    | cons b u =>
      have hhead := @matchesHead_barrier _ _ v s (b :: u) c hc (List.cons_ne_nil b u)
      by_cases hm : matchesHead (literal s) (b :: u) = true
      · obtain ⟨u', hu⟩ := matchesHead_literal.mp hm
        have hpos := List.length_pos_of_ne_nil hs
        rw [← hu, List.append_assoc, substAll_match (matchesHead_self s _) (length_literal s).symm hs,
          substAll_match (matchesHead_self s _) (length_literal s).symm hs,
          ih u'.length (by rw [← hu, List.length_append]; omega) u' rfl, List.append_assoc]
      · rw [List.cons_append] at hhead ⊢
        rw [substAll, hhead, if_neg hm, substAll, if_neg hm, ih u.length (Nat.lt_succ_self _) u rfl]
        rfl

theorem substAll_cut {c : α} (hs : s ≠ []) (hc : c ∉ s) (u : List α) :
    substAll (literal s) repl 0 (u ++ c :: v) = substAll (literal s) repl 0 u ++ c :: substAll (literal s) repl 0 v := by
  have hhead : Clear (literal s) v [c] := by
    cases s with
    | nil => exact absurd rfl hs
    | cons a s => exact clear_of_not_mem fun hm => hc (List.mem_singleton.mp hm ▸ List.mem_cons_self)
  rw [substAll_barrier hs (fun hm => hc (List.mem_of_mem_tail hm)), ← List.singleton_append, substAll_clear hhead]
  rfl

theorem substAll_self (hs : s ≠ []) : ∀ t, substAll (literal s) s 0 t = t := by
  intro t
  induction hn : t.length using Nat.strongRecOn generalizing t with
  | ind n ih =>
    subst hn
    cases t with
    | nil => rfl
    | cons c t =>
      by_cases hm : matchesHead (literal s) (c :: t) = true
      · obtain ⟨rest, hrest⟩ := matchesHead_literal.mp hm
        have hpos := List.length_pos_of_ne_nil hs
        rw [← hrest, substAll_match (matchesHead_self s rest) (length_literal s).symm hs,
          ih rest.length (by rw [← hrest, List.length_append]; omega) rest rfl]
      · rw [substAll, if_neg hm, ih t.length (Nat.lt_succ_self _) t rfl]

/-! ## The first match -/

structure FirstMatch (pat : Pattern α) (t u m r : List α) : Prop where
  text : t = u ++ (m ++ r)
  length : m.length = pat.length
  head : matchesHead pat (m ++ r) = true
  first : Clear pat (m ++ r) u

theorem length_le_of_matchesHead : ∀ {pat : Pattern α} {t : List α}, matchesHead pat t = true → pat.length ≤ t.length
  | [], _, _ => Nat.zero_le _
  | some _ :: _, _ :: _, h => Nat.succ_le_succ (length_le_of_matchesHead (Bool.and_eq_true_iff.mp h).2)
  | none :: _, _ :: _, h => Nat.succ_le_succ (length_le_of_matchesHead (by exact h))

theorem clear_or_firstMatch (pat : Pattern α) (t : List α) : Clear pat [] t ∨ ∃ u m r, FirstMatch pat t u m r := by
  induction t with
  | nil => exact .inl clear_nil
  | cons c t ih =>
    by_cases hm : matchesHead pat (c :: t) = true
    · have hsplit := List.take_append_drop pat.length (c :: t)
      refine .inr ⟨[], (c :: t).take pat.length, (c :: t).drop pat.length, hsplit.symm, ?_, ?_, clear_nil⟩
      · exact List.length_take_of_le (length_le_of_matchesHead hm)
      · rwa [hsplit]
    · have hm : matchesHead pat (c :: t) = false := Bool.eq_false_iff.mpr hm
      rcases ih with h | ⟨u, m, r, h⟩
      · exact .inl ⟨by rwa [List.append_nil], h⟩
      · refine .inr ⟨c :: u, m, r, by rw [h.text]; rfl, h.length, h.head, ?_, h.first⟩
        rwa [← h.text]

theorem FirstMatch.le {m r front : List α} (h : FirstMatch pat t u m r) (e : t = front ++ w) (hm : matchesHead pat w = true) :
    u.length ≤ front.length := by
  have htext := h.text
  have hfirst := h.first
  rw [e] at htext
  rcases List.append_eq_append_iff.mp htext with ⟨x, hu, hw⟩ | ⟨x, hfront, -⟩
  · cases x with
    | nil => rw [hu, List.append_nil]
    | cons c x =>
      rw [hu] at hfirst
      have hnot := (clear_append.mp hfirst).2.1
      rw [hw] at hm
      exact absurd hm (Bool.eq_false_iff.mp hnot)
  · rw [hfront, List.length_append]
    exact Nat.le_add_right _ _

theorem exists_firstMatch {front : List α} (hne : pat ≠ []) (e : t = front ++ w) (hm : matchesHead pat w = true) :
    ∃ u m r, FirstMatch pat t u m r := by
  refine (clear_or_firstMatch pat t).resolve_left fun h => ?_
  rw [e] at h
  have hclear := (clear_append.mp h).2
  cases w with
  | nil =>
    have := length_le_of_matchesHead hm
    exact hne (List.eq_nil_of_length_eq_zero (Nat.le_zero.mp this))
  | cons c w =>
    rw [Clear, List.append_nil] at hclear
    exact absurd hm (Bool.eq_false_iff.mp hclear.1)

theorem FirstMatch.not_clear {m r : List α} (h : FirstMatch pat t u m r) (hne : pat ≠ []) : ¬ Clear pat [] t := by
  intro hclear
  rw [h.text] at hclear
  have hm : m ≠ [] := List.ne_nil_of_length_pos (h.length ▸ List.length_pos_of_ne_nil hne)
  obtain ⟨c, m', rfl⟩ := List.exists_cons_of_ne_nil hm
  have hnot := (clear_append.mp hclear).2.1
  rw [List.append_nil] at hnot
  exact absurd h.head (Bool.eq_false_iff.mp hnot)

theorem FirstMatch.unique {m r u' m' r' : List α} (h : FirstMatch pat t u m r) (h' : FirstMatch pat t u' m' r') :
    u = u' ∧ m = m' ∧ r = r' := by
  have hlen := Nat.le_antisymm (h.le h'.text h'.head) (h'.le h.text h.head)
  obtain ⟨rfl, e⟩ := List.append_inj (h.text.symm.trans h'.text) hlen
  exact ⟨rfl, List.append_inj e (h.length.trans h'.length.symm)⟩

theorem FirstMatch.substAll_eq {m r : List α} (h : FirstMatch pat t u m r) (hne : pat ≠ []) :
    substAll pat repl 0 t = u ++ (repl ++ substAll pat repl 0 r) := by
  have hm : m ≠ [] := List.ne_nil_of_length_pos (h.length ▸ List.length_pos_of_ne_nil hne)
  rw [h.text, substAll_clear h.first, substAll_match h.head h.length hm]

theorem FirstMatch.substFirst_eq {m r : List α} (h : FirstMatch pat t u m r) (hne : pat ≠ []) :
    substFirst pat repl t = u ++ (repl ++ r) := by
  have hm : m ≠ [] := List.ne_nil_of_length_pos (h.length ▸ List.length_pos_of_ne_nil hne)
  rw [h.text, substFirst_clear h.first, substFirst_match h.head h.length hm]

theorem firstMatch_literal {m r : List α} (h : FirstMatch (literal s) t u m r) : m = s := by
  have hpre := matchesHead_literal.mp h.head
  have hlen : m.length = s.length := by rw [h.length, length_literal]
  exact (List.prefix_of_prefix_length_le hpre (List.prefix_append m r) hlen.ge).eq_of_length hlen.symm |>.symm

/-! ## Some matches replaced -/

/-- The second text is the first with some of the literal's matches replaced. -/
inductive Rewrites (s repl : List α) : List α → List α → Prop
  | nil : Rewrites s repl [] []
  | keep {t t' : List α} (c : α) : Rewrites s repl t t' → Rewrites s repl (c :: t) (c :: t')
  | swap {t t' : List α} : Rewrites s repl t t' → Rewrites s repl (s ++ t) (repl ++ t')

omit [DecidableEq α] in
theorem Rewrites.refl : ∀ t, Rewrites s repl t t
  | [] => .nil
  | c :: t => .keep c (refl t)

omit [DecidableEq α] in
theorem Rewrites.append {t' : List α} (h : Rewrites s repl t t') : ∀ u, Rewrites s repl (u ++ t) (u ++ t')
  | [] => h
  | c :: u => .keep c (append h u)

omit [DecidableEq α] in
theorem Rewrites.length_eq {t' : List α} (hlen : repl.length = s.length) (h : Rewrites s repl t t') :
    t'.length = t.length := by
  induction h with
  | nil => rfl
  | keep c _ ih => exact congrArg Nat.succ ih
  | swap _ ih => rw [List.length_append, List.length_append, hlen, ih]

omit [DecidableEq α] in
theorem Rewrites.not_mem {t' : List α} {q : α} (hq : q ∉ repl) (h : Rewrites s repl t t') : q ∉ t → q ∉ t' := by
  induction h with
  | nil => exact id
  | keep c _ ih =>
    intro ht hm
    rcases List.mem_cons.mp hm with rfl | hm
    · exact ht List.mem_cons_self
    · exact ih (fun h => ht (List.mem_cons_of_mem c h)) hm
  | swap _ ih =>
    intro ht hm
    rcases List.mem_append.mp hm with hm | hm
    · exact hq hm
    · exact ih (fun h => ht (List.mem_append_right s h)) hm

theorem Rewrites.count_eq {t' : List α} {q : α} (hs : q ∉ s) (hq : q ∉ repl) (h : Rewrites s repl t t') :
    t'.count q = t.count q := by
  induction h with
  | nil => rfl
  | keep c _ ih => rw [List.count_cons, List.count_cons, ih]
  | swap _ ih =>
    rw [List.count_append, List.count_append, List.count_eq_zero_of_not_mem hs, List.count_eq_zero_of_not_mem hq, ih]

omit [DecidableEq α] in
theorem Rewrites.split {t' : List α} {c : α} (hc : c ∉ s.tail) (h : Rewrites s repl (u ++ c :: v) t') :
    ∃ u' v', t' = u' ++ v' ∧ Rewrites s repl u u' ∧ Rewrites s repl (c :: v) v' := by
  generalize e : u ++ c :: v = t at h
  induction h generalizing u with
  | nil => exact absurd e (by simp)
  | keep b h ih =>
    cases u with
    | nil =>
      rw [List.nil_append] at e
      exact ⟨[], _, rfl, .nil, e ▸ .keep b h⟩
    | cons d u =>
      obtain ⟨rfl, erest⟩ := List.cons.inj e
      obtain ⟨u', v', rfl, hu, hv⟩ := ih erest
      exact ⟨d :: u', v', rfl, .keep d hu, hv⟩
  | swap h ih =>
    rcases List.append_eq_append_iff.mp e with ⟨as, hsu, hcv⟩ | ⟨bs, hus, ht⟩
    · cases as with
      | nil =>
        rw [List.append_nil] at hsu
        rw [List.nil_append] at hcv
        have hself := @Rewrites.swap _ s repl _ _ .nil
        rw [List.append_nil, List.append_nil] at hself
        exact ⟨repl, _, rfl, hsu ▸ hself, hcv ▸ h⟩
      | cons d as =>
        cases u with
        | nil =>
          rw [List.nil_append] at e
          exact ⟨[], _, rfl, .nil, e ▸ .swap h⟩
        | cons b u =>
          obtain ⟨rfl, -⟩ := List.cons.inj hcv
          refine absurd ?_ hc
          rw [hsu]
          exact List.mem_append_right u List.mem_cons_self
    · obtain ⟨u', v', rfl, hu, hv⟩ := ih ht.symm
      exact ⟨repl ++ u', v', by rw [List.append_assoc], hus ▸ .swap hu, hv⟩

omit [DecidableEq α] in
theorem Rewrites.cons_of_not_mem {t' : List α} {c : α} (hs : s ≠ []) (hc : c ∉ s) (h : Rewrites s repl (c :: v) t') :
    ∃ v', t' = c :: v' := by
  generalize e : c :: v = t at h
  cases h with
  | nil => exact absurd e (by simp)
  | keep b _ =>
    obtain ⟨rfl, -⟩ := List.cons.inj e
    exact ⟨_, rfl⟩
  | swap _ =>
    cases s with
    | nil => exact absurd rfl hs
    | cons b s =>
      obtain ⟨rfl, -⟩ := List.cons.inj e
      exact absurd List.mem_cons_self hc

omit [DecidableEq α] in
theorem first_mark_unique {q : α} {a b c d : List α} (e : a ++ q :: b = c ++ q :: d) (ha : q ∉ a) (hc : q ∉ c) : a = c := by
  rcases List.append_eq_append_iff.mp e with ⟨x, hx, hrest⟩ | ⟨x, hx, hrest⟩
  · cases x with
    | nil => rw [hx, List.append_nil]
    | cons y x =>
      obtain ⟨rfl, -⟩ := List.cons.inj hrest
      exact absurd (hx ▸ List.mem_append_right a List.mem_cons_self) hc
  · cases x with
    | nil => rw [hx, List.append_nil]
    | cons y x =>
      obtain ⟨rfl, -⟩ := List.cons.inj hrest
      exact absurd (hx ▸ List.mem_append_right c List.mem_cons_self) ha

omit [DecidableEq α] in
/-- An element of neither literal stays where it first stands. -/
theorem Rewrites.first_mark {t' : List α} {q : α} (hs : s ≠ []) (hq : q ∉ s) (hq' : q ∉ repl)
    (hlen : repl.length = s.length) (hu : q ∉ u) (h : Rewrites s repl (u ++ q :: v) t') :
    ∃ u' v', t' = u' ++ q :: v' ∧ q ∉ u' ∧ u'.length = u.length := by
  obtain ⟨u', w, rfl, hu', hw⟩ := h.split fun hm => hq (List.mem_of_mem_tail hm)
  obtain ⟨v', rfl⟩ := hw.cons_of_not_mem hs hq
  exact ⟨u', v', rfl, hu'.not_mem hq' hu, hu'.length_eq hlen⟩

section

variable {head old new piece : List α} {t' : List α}

omit [DecidableEq α] in
theorem Rewrites.over (hfree : ¬ head <:+: piece) (h : Rewrites (head ++ old) (head ++ new) (piece ++ rest) t') :
    ∃ rest', t' = piece ++ rest' := by
  generalize e : piece ++ rest = t at h
  induction h generalizing piece with
  | nil =>
    obtain ⟨rfl, -⟩ := List.append_eq_nil_iff.mp e
    exact ⟨[], rfl⟩
  | keep c _ ih =>
    cases piece with
    | nil => exact ⟨_, rfl⟩
    | cons b piece =>
      obtain ⟨rfl, erest⟩ := List.cons.inj e
      obtain ⟨rest', rfl⟩ := ih (fun h => hfree (h.trans (List.suffix_cons b piece).isInfix)) erest
      exact ⟨rest', rfl⟩
  | swap _ _ =>
    rw [List.append_assoc] at e
    -- A match begins here only if the piece ends before the head of the literal does.
    rcases List.append_eq_append_iff.mp e with ⟨as, hhead, -⟩ | ⟨bs, hpiece, -⟩
    · rw [hhead, List.append_assoc, List.append_assoc]
      exact ⟨_, rfl⟩
    · exact absurd ⟨[], bs, by rw [hpiece]; rfl⟩ hfree

omit [DecidableEq α] in
/-- A piece whose first element stands in the literal at most in front, and that does not
    hold what the literal and its replacement begin with alike, stays where it is. -/
theorem Rewrites.keeps {c : α} (hc : c ∉ (head ++ old).tail) (hlen : new.length = old.length)
    (hfree : ¬ head <:+: c :: piece) (h : Rewrites (head ++ old) (head ++ new) (u ++ (c :: piece ++ rest)) t') :
    ∃ u' rest', t' = u' ++ (c :: piece ++ rest') ∧ u'.length = u.length ∧ rest'.length = rest.length ∧
      Rewrites (head ++ old) (head ++ new) (c :: piece ++ rest) (c :: piece ++ rest') := by
  have hlen : (head ++ new).length = (head ++ old).length := by rw [List.length_append, List.length_append, hlen]
  obtain ⟨u', v', rfl, hu, hv⟩ := h.split hc
  obtain ⟨rest', rfl⟩ := hv.over hfree
  have hback : (c :: piece ++ rest').length = (c :: piece ++ rest).length := hv.length_eq hlen
  rw [List.length_append, List.length_append] at hback
  exact ⟨u', rest', rfl, hu.length_eq hlen, Nat.add_left_cancel hback, hv⟩

end

theorem substAll_rewrites (hs : s ≠ []) : ∀ t, Rewrites s repl t (substAll (literal s) repl 0 t) := by
  intro t
  induction hn : t.length using Nat.strongRecOn generalizing t with
  | ind n ih =>
    subst hn
    have hlit : literal s ≠ [] := List.ne_nil_of_length_pos (length_literal s ▸ List.length_pos_of_ne_nil hs)
    rcases clear_or_firstMatch (literal s) t with h | ⟨u, m, r, h⟩
    · rw [substAll_unmatched h]
      exact .refl t
    · obtain rfl := firstMatch_literal h
      have hpos := List.length_pos_of_ne_nil hs
      have hlen : r.length < t.length := by rw [h.text]; simp only [List.length_append]; omega
      rw [h.substAll_eq hlit, h.text]
      exact (Rewrites.swap (ih r.length hlen r rfl)).append u

theorem substFirst_rewrites (hs : s ≠ []) (t : List α) : Rewrites s repl t (substFirst (literal s) repl t) := by
  have hlit : literal s ≠ [] := List.ne_nil_of_length_pos (length_literal s ▸ List.length_pos_of_ne_nil hs)
  rcases clear_or_firstMatch (literal s) t with h | ⟨u, m, r, h⟩
  · rw [substFirst_unmatched h]
    exact .refl t
  · obtain rfl := firstMatch_literal h
    rw [h.substFirst_eq hlit, h.text]
    exact (Rewrites.swap (.refl r)).append u

/-- The edit replaces the literal's first match, and maybe more of them. -/
structure Replaces (s repl : List α) (edit : List α → List α) : Prop where
  rewrites : ∀ t, Rewrites s repl t (edit t)
  unmatched : ∀ t, Clear (literal s) [] t → edit t = t
  first : ∀ t u r, FirstMatch (literal s) t u s r → ∃ r', edit t = u ++ (repl ++ r')

theorem substAll_replaces (hs : s ≠ []) : Replaces s repl (substAll (literal s) repl 0) where
  rewrites := substAll_rewrites hs
  unmatched _ := substAll_unmatched
  first _ _ _ h :=
    ⟨_, h.substAll_eq (List.ne_nil_of_length_pos (length_literal s ▸ List.length_pos_of_ne_nil hs))⟩

theorem substFirst_replaces (hs : s ≠ []) : Replaces s repl (substFirst (literal s) repl) where
  rewrites := substFirst_rewrites hs
  unmatched _ := substFirst_unmatched
  first _ _ r h :=
    ⟨r, h.substFirst_eq (List.ne_nil_of_length_pos (length_literal s ▸ List.length_pos_of_ne_nil hs))⟩

theorem Replaces.absent {edit : List α → List α} {w : List α} (h : Replaces s repl edit) (hne : repl ≠ s)
    (hlen : repl.length = s.length) (e : edit (u ++ rest) = u ++ w) : ¬ s <:+: u := by
  intro ⟨x, y, hu⟩
  have hwhole : u ++ rest = x ++ s ++ (y ++ rest) := by rw [← hu, List.append_assoc]
  rcases clear_or_firstMatch (literal s) (u ++ rest) with hclear | ⟨a, m, r, hf⟩
  · have hs : s ≠ [] := fun hs => hne (by rw [hs] at hlen ⊢; exact List.eq_nil_of_length_eq_zero hlen)
    exact (clear_iff_absent hs).mp hclear ⟨x, y ++ rest, hwhole.symm⟩
  · obtain rfl := firstMatch_literal hf
    obtain ⟨r', hr'⟩ := h.first _ _ _ hf
    -- The first match ends inside the piece, where the result is the text.
    have hle := clear_literal_iff.mp hf.first x (y ++ rest) (by rw [← hf.text, hwhole])
    have hin : a.length + m.length ≤ u.length := by
      rw [← hu]
      simp only [List.length_append]
      omega
    have htake : u.take (a.length + m.length) = a ++ m := by
      have := congrArg (List.take (a.length + m.length)) hf.text
      rwa [List.take_append_of_le_length hin, ← List.append_assoc, List.take_left' List.length_append] at this
    have htake' : u.take (a.length + m.length) = a ++ repl := by
      have := congrArg (List.take (a.length + m.length)) (e.symm.trans hr')
      rwa [List.take_append_of_le_length hin, ← List.append_assoc, List.take_left' (by rw [List.length_append, hlen])]
        at this
    exact hne (List.append_cancel_left (htake'.symm.trans htake))

/-- Replaced by a literal of another length, the text keeps its length only if nothing is
    replaced. -/
theorem clear_of_length (hs : s ≠ []) (hlen : repl.length ≠ s.length) (h : (substAll (literal s) repl 0 t).length = t.length) :
    ¬ s <:+: t := by
  have hlit : literal s ≠ [] := List.ne_nil_of_length_pos (length_literal s ▸ List.length_pos_of_ne_nil hs)
  -- The change of length has the sign of the difference, match after match.
  have hgrow : ∀ (n : Nat) (t : List α), t.length = n →
      (s.length ≤ repl.length → t.length ≤ (substAll (literal s) repl 0 t).length) ∧
      (repl.length ≤ s.length → (substAll (literal s) repl 0 t).length ≤ t.length) := by
    intro n
    induction n using Nat.strongRecOn with
    | ind n ih =>
      intro t hn
      rcases clear_or_firstMatch (literal s) t with hc | ⟨u, m, r, hf⟩
      · rw [substAll_unmatched hc]
        exact ⟨fun _ => Nat.le_refl _, fun _ => Nat.le_refl _⟩
      · obtain rfl := firstMatch_literal hf
        have hpos := List.length_pos_of_ne_nil hs
        have htext := congrArg List.length hf.text
        have ih := ih r.length (by simp only [List.length_append] at htext; omega) r rfl
        rw [hf.substAll_eq hlit]
        simp only [List.length_append] at htext ⊢
        constructor <;> intro hle <;> [have := ih.1 hle; have := ih.2 hle] <;> omega
  rw [← clear_iff_absent hs]
  rcases clear_or_firstMatch (literal s) t with hc | ⟨u, m, r, hf⟩
  · exact hc
  · obtain rfl := firstMatch_literal hf
    have htext := congrArg List.length hf.text
    have hr := hgrow r.length r rfl
    rw [hf.substAll_eq hlit] at h
    simp only [List.length_append] at h htext
    rcases Nat.lt_or_gt_of_ne hlen with hlt | hgt
    · have := hr.2 hlt.le
      omega
    · have := hr.1 hgt.le
      omega

end SudoWhat.Lib.Substitute
