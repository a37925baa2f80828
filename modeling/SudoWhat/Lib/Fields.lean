/-
  SudoWhat.Lib.Fields — a text as lines, and a line as its blank-separated fields.

  `fields` cuts a line at every blank and drops the empty pieces; `trim` takes the blanks
  off both ends. Proved: a blank between two texts separates their fields
  (`fields_append_blank`), which with `fields_word` reads any spelled-out line back, and
  trimming changes no field (`fields_trim`). Lines that hold no break, each with one after
  it, are read back whole (`unlines_inj`).
-/

import Mathlib.Data.List.TakeWhile

namespace SudoWhat.Lib.Fields

variable {α : Type} (blank : α → Bool)

/-- The maximal runs of non-blanks. -/
def fields (line : List α) : List (List α) := (line.splitOnP blank).filter fun w => !w.isEmpty

def trim (line : List α) : List α := ((line.dropWhile blank).reverse.dropWhile blank).reverse

variable {blank}

@[simp] theorem fields_nil : fields blank [] = [] := rfl

theorem fields_append_blank (x y : List α) {b : α} (h : blank b = true) :
    fields blank (x ++ b :: y) = fields blank x ++ fields blank y := by
  unfold fields
  rw [List.splitOnP_append_cons x y h, List.filter_append]

theorem fields_cons_blank (y : List α) {b : α} (h : blank b = true) : fields blank (b :: y) = fields blank y := by
  simpa using fields_append_blank [] y h

theorem fields_word {w : List α} (hne : w ≠ []) (h : ∀ c ∈ w, blank c = false) : fields blank w = [w] := by
  rw [fields, List.splitOnP_eq_singleton h]
  simp [hne]

theorem fields_word_blank {w : List α} (y : List α) {b : α} (hne : w ≠ []) (h : ∀ c ∈ w, blank c = false)
    (hb : blank b = true) : fields blank (w ++ b :: y) = w :: fields blank y := by
  rw [fields_append_blank w y hb, fields_word hne h, List.singleton_append]

/-- What holds of a line without blanks, and of two lines around a blank, holds of every line. -/
theorem fields_induction {motive : List α → List (List α) → Prop}
    (hword : ∀ w, (∀ c ∈ w, blank c = false) → motive w (if w.isEmpty then [] else [w]))
    (happend : ∀ x b y, blank b = true → motive x (fields blank x) → motive y (fields blank y) →
      motive (x ++ b :: y) (fields blank x ++ fields blank y)) (line : List α) : motive line (fields blank line) := by
  induction hn : line.length using Nat.strongRecOn generalizing line with
  | ind n ih =>
    subst hn
    by_cases hb : ∃ b ∈ line, blank b = true
    · obtain ⟨b, hm, hb⟩ := hb
      obtain ⟨x, y, rfl⟩ := List.append_of_mem hm
      rw [fields_append_blank x y hb]
      simp only [List.length_append, List.length_cons] at ih
      exact happend x b y hb (ih _ (by omega) x rfl) (ih _ (by omega) y rfl)
    · have hnone : ∀ c ∈ line, blank c = false := fun c hc => Bool.eq_false_iff.mpr fun h => hb ⟨c, hc, h⟩
      have hfields : fields blank line = if line.isEmpty then [] else [line] := by
        cases line with
        | nil => rfl
        | cons c line => exact fields_word (List.cons_ne_nil c line) hnone
      rw [hfields]
      exact hword line hnone

theorem infix_of_mem_fields {line : List α} : ∀ w ∈ fields blank line, w <:+: line := by
  refine fields_induction (motive := fun line ws => ∀ w ∈ ws, w <:+: line) (fun w _ v hv => ?_)
    (fun x b y _ hx hy w hw => ?_) line
  · cases w with
    | nil => exact absurd hv List.not_mem_nil
    | cons c w => exact List.mem_singleton.mp hv ▸ List.infix_refl _
  · rcases List.mem_append.mp hw with hw | hw
    · exact (hx w hw).trans (List.prefix_append _ _).isInfix
    · exact (hy w hw).trans ((List.suffix_cons b y).trans (List.suffix_append _ _)).isInfix

theorem flatten_fields (line : List α) : (fields blank line).flatten = line.filter fun c => !blank c := by
  refine fields_induction (motive := fun line ws => ws.flatten = line.filter fun c => !blank c) (fun w hw => ?_)
    (fun x b y hb hx hy => ?_) line
  · have hall : w.filter (fun c => !blank c) = w := List.filter_eq_self.mpr fun c hc => by rw [hw c hc]; rfl
    rw [hall]
    cases w with
    | nil => rfl
    | cons c w => exact List.append_nil _
  · rw [List.flatten_append, hx, hy, List.filter_append, List.filter_cons_of_neg (by simp [hb])]

/-! ## Trimming -/

theorem fields_append_blanks (x : List α) {bs : List α} (h : ∀ b ∈ bs, blank b = true) :
    fields blank (x ++ bs) = fields blank x := by
  induction bs generalizing x with
  | nil => rw [List.append_nil]
  | cons b bs ih =>
    rw [fields_append_blank x bs (h b List.mem_cons_self)]
    simpa using ih [] fun c hc => h c (List.mem_cons_of_mem _ hc)

theorem fields_dropWhile (x : List α) : fields blank (x.dropWhile blank) = fields blank x := by
  induction x with
  | nil => rfl
  | cons c x ih =>
    by_cases hc : blank c = true
    · rw [List.dropWhile_cons_of_pos hc, ih, fields_cons_blank x hc]
    · rw [List.dropWhile_cons_of_neg hc]

theorem fields_trim (x : List α) : fields blank (trim blank x) = fields blank x := by
  have key : ∀ y : List α, fields blank (y.reverse.dropWhile blank).reverse = fields blank y := by
    intro y
    have hy : (y.reverse.dropWhile blank).reverse ++ (y.reverse.takeWhile blank).reverse = y := by
      rw [← List.reverse_append, List.takeWhile_append_dropWhile, List.reverse_reverse]
    have hb : ∀ b ∈ (y.reverse.takeWhile blank).reverse, blank b = true :=
      fun b hb => List.mem_takeWhile_imp (List.mem_reverse.mp hb)
    rw [← fields_append_blanks _ hb, hy]
  rw [trim, key, fields_dropWhile]

theorem trim_split (line : List α) : ∃ before after, line = before ++ trim blank line ++ after ∧
    (∀ c ∈ before, blank c = true) ∧ ∀ c ∈ after, blank c = true := by
  refine ⟨line.takeWhile blank, ((line.dropWhile blank).reverse.takeWhile blank).reverse, ?_, fun c hc => ?_, fun c hc => ?_⟩
  · rw [List.append_assoc, trim, ← List.reverse_append, List.takeWhile_append_dropWhile, List.reverse_reverse,
      List.takeWhile_append_dropWhile]
  · exact List.mem_takeWhile_imp hc
  · exact List.mem_takeWhile_imp (List.mem_reverse.mp hc)

theorem trim_behind_blanks {before : List α} (hb : ∀ c ∈ before, blank c = true) (line : List α) :
    trim blank (before ++ line) = trim blank line := by
  rw [trim, List.dropWhile_append, List.dropWhile_eq_nil_iff.mpr hb, List.isEmpty_nil, if_pos rfl, trim]

/-- A text without blanks is what is left of it between blanks. -/
theorem trim_between {before text after : List α} (hb : ∀ c ∈ before, blank c = true) (ht : ∀ c ∈ text, blank c = false)
    (ha : ∀ c ∈ after, blank c = true) : trim blank (before ++ text ++ after) = text := by
  have hkeep : ∀ {t : List α}, (∀ c ∈ t, blank c = false) → t.dropWhile blank = t := by
    intro t ht
    cases t with
    | nil => rfl
    | cons c t => exact List.dropWhile_cons_of_neg (by simp [ht c List.mem_cons_self])
  have hdrop : ∀ {bs : List α} (t : List α), (∀ c ∈ bs, blank c = true) → (bs ++ t).dropWhile blank = t.dropWhile blank := by
    intro bs t hbs
    rw [List.dropWhile_append, List.dropWhile_eq_nil_iff.mpr hbs, List.isEmpty_nil, if_pos rfl]
  rw [trim, List.append_assoc, hdrop _ hb]
  cases text with
  | nil => rw [List.nil_append, List.dropWhile_eq_nil_iff.mpr ha]; rfl
  | cons c t =>
    rw [List.cons_append, List.dropWhile_cons_of_neg (by simp [ht c List.mem_cons_self]), ← List.cons_append,
      List.reverse_append, hdrop _ (fun d hd => ha d (List.mem_reverse.mp hd)),
      hkeep fun d hd => ht d (List.mem_reverse.mp hd), List.reverse_reverse]

/-- A line that starts with a non-blank still starts with it once trimmed. -/
theorem trim_cons {c : α} (h : blank c = false) (x : List α) : ∃ y, trim blank (c :: x) = c :: y := by
  refine ⟨(x.reverse.dropWhile blank).reverse, ?_⟩
  have hd : ∀ y : List α, (y ++ [c]).dropWhile blank = y.dropWhile blank ++ [c] := by
    intro y
    induction y with
    | nil => simp [h]
    | cons d y ih => by_cases hb : blank d = true <;> simp [hb, ih]
  rw [trim, List.dropWhile_cons_of_neg (by simp [h]), List.reverse_cons, hd, List.reverse_append]
  rfl

/-! ## The first fields -/

theorem fields_congr {other : α → Bool} {line : List α} (h : ∀ c ∈ line, blank c = other c) :
    fields blank line = fields other line := by
  revert h
  refine fields_induction (motive := fun line ws => (∀ c ∈ line, blank c = other c) → ws = fields other line)
    (fun w hw h => ?_) (fun x b y hb hx hy h => ?_) line
  · cases w with
    | nil => rfl
    | cons c w => exact (fields_word (List.cons_ne_nil c w) fun d hd => (h d hd).symm.trans (hw d hd)).symm
  · have hb' : other b = true := (h b (by simp)).symm.trans hb
    rw [fields_append_blank x y hb', hx fun c hc => h c (by simp [hc]), hy fun c hc => h c (by simp [hc])]

/-- Nothing, or a text that begins with a blank: what follows a whole field. -/
def AtBreak (blank : α → Bool) (tail : List α) : Prop := tail = [] ∨ ∃ b t, tail = b :: t ∧ blank b = true

theorem fields_append_break (x : List α) {tail : List α} (h : AtBreak blank tail) :
    fields blank (x ++ tail) = fields blank x ++ fields blank tail := by
  rcases h with rfl | ⟨b, t, rfl, hb⟩
  · rw [List.append_nil, fields_nil, List.append_nil]
  · rw [fields_append_blank x t hb, fields_cons_blank t hb]

/-- Past its leading blanks a line begins with its first field. -/
theorem dropWhile_of_fields {line w : List α} {rest : List (List α)} (h : fields blank line = w :: rest) :
    ∃ tail, line.dropWhile blank = w ++ tail ∧ fields blank w = [w] ∧ AtBreak blank tail ∧ fields blank tail = rest := by
  have hfields : fields blank (line.dropWhile blank) = w :: rest := (fields_dropWhile line).trans h
  have hfirst := List.head?_dropWhile_not blank line
  cases hd : line.dropWhile blank with
  | nil => rw [hd] at hfields; cases hfields
  | cons c text =>
    rw [hd] at hfields hfirst
    have hc : blank c = false := by simpa using hfirst
    have hcut : (c :: text).takeWhile (!blank ·) ++ (c :: text).dropWhile (!blank ·) = c :: text :=
      List.takeWhile_append_dropWhile
    have hbreak : AtBreak blank ((c :: text).dropWhile (!blank ·)) := by
      have hnext := List.head?_dropWhile_not (!blank ·) (c :: text)
      cases ht : (c :: text).dropWhile (!blank ·) with
      | nil => exact .inl rfl
      | cons b t =>
        rw [ht] at hnext
        exact .inr ⟨b, t, rfl, by simpa using hnext⟩
    have hword : fields blank ((c :: text).takeWhile (!blank ·)) = [(c :: text).takeWhile (!blank ·)] := by
      refine fields_word ?_ fun d hd => by simpa using List.mem_takeWhile_imp hd
      rw [List.takeWhile_cons_of_pos (by simp [hc])]
      exact List.cons_ne_nil _ _
    rw [← hcut, fields_append_break _ hbreak, hword] at hfields
    obtain ⟨rfl, hrest⟩ := List.cons.inj hfields
    exact ⟨(c :: text).dropWhile (!blank ·), hcut.symm, hword, hbreak, hrest⟩

theorem fields_cons_split {line w : List α} {rest : List (List α)} (h : fields blank line = w :: rest) :
    ∃ before tail, line = before ++ w ++ tail ∧ fields blank (before ++ w) = [w] ∧ AtBreak blank tail ∧
      fields blank tail = rest := by
  obtain ⟨tail, hd, hw, hbreak, hrest⟩ := dropWhile_of_fields h
  refine ⟨line.takeWhile blank, tail, ?_, ?_, hbreak, hrest⟩
  · rw [List.append_assoc, ← hd, List.takeWhile_append_dropWhile]
  · rw [← fields_dropWhile, List.dropWhile_append, List.dropWhile_eq_nil_iff.mpr fun d hd => List.mem_takeWhile_imp hd,
      List.isEmpty_nil, if_pos rfl, fields_dropWhile, hw]

theorem not_blank_of_mem_fields {line w : List α} (h : w ∈ fields blank line) : ∀ c ∈ w, blank c = false := by
  intro c hc
  have hm : c ∈ (fields blank line).flatten := List.mem_flatten.mpr ⟨w, h, hc⟩
  rw [flatten_fields] at hm
  simpa using (List.mem_filter.mp hm).2

/-- The first fields of a line stand in a text of their own, which ends with the last. -/
theorem fields_append_split : ∀ {ws : List (List α)} {line : List α} {rest : List (List α)}, ws ≠ [] →
    fields blank line = ws ++ rest → ∃ lead tail, line = lead ++ tail ∧ fields blank lead = ws ∧ AtBreak blank tail ∧
      fields blank tail = rest := by
  intro ws
  induction ws with
  | nil => intro line rest hne _; exact absurd rfl hne
  | cons w ws ih =>
    intro line rest _ h
    obtain ⟨before, tail, rfl, hw, hbreak, htail⟩ := fields_cons_split h
    by_cases hws : ws = []
    · subst hws
      exact ⟨before ++ w, tail, rfl, hw, hbreak, htail⟩
    · obtain ⟨lead, tail', rfl, hlead, hbreak', htail'⟩ := ih hws htail
      have hjoin : AtBreak blank lead := by
        cases lead with
        | nil => exact absurd hlead.symm hws
        | cons b t =>
          rcases hbreak with hnil | ⟨b', t', e, hb⟩
          · cases hnil
          · exact .inr ⟨b, t, rfl, (List.cons.inj e).1 ▸ hb⟩
      refine ⟨before ++ w ++ lead, tail', by simp, ?_, hbreak', htail'⟩
      rw [fields_append_break _ hjoin, hw, hlead]
      rfl

/-! ## Lines -/

section Lines

variable [BEq α] [LawfulBEq α] {brk : α}

/-- Each line with its break after it. -/
def unlines (brk : α) (ls : List (List α)) : List α := ls.flatMap fun l => l ++ [brk]

theorem splitOn_unlines : ∀ {ls : List (List α)}, (∀ l ∈ ls, brk ∉ l) → (unlines brk ls).splitOn brk = ls ++ [[]]
  | [], _ => List.splitOn_nil brk
  | l :: ls, h => by
    have e : unlines brk (l :: ls) = l ++ brk :: unlines brk ls := by simp [unlines]
    rw [e, List.splitOn_append_cons_self_of_not_mem (h l List.mem_cons_self),
      splitOn_unlines fun m hm => h m (List.mem_cons_of_mem _ hm), List.cons_append]

theorem unlines_inj {ls ls' : List (List α)} (h : ∀ l ∈ ls, brk ∉ l) (h' : ∀ l ∈ ls', brk ∉ l)
    (e : unlines brk ls = unlines brk ls') : ls = ls' := by
  have hs := congrArg (List.splitOn brk) e
  rw [splitOn_unlines h, splitOn_unlines h'] at hs
  exact List.append_cancel_right hs

theorem not_mem_of_mem_splitOn : ∀ {text : List α}, ∀ piece ∈ text.splitOn brk, brk ∉ piece
  | [], piece, h => by
    obtain rfl := List.mem_singleton.mp (List.splitOn_nil brk ▸ h)
    exact List.not_mem_nil
  | c :: text, piece, h => by
    have ih : ∀ piece ∈ text.splitOn brk, brk ∉ piece := not_mem_of_mem_splitOn
    rw [List.splitOn_cons_eq_if_modifyHead] at h
    by_cases hc : (c == brk) = true
    · rw [if_pos hc] at h
      rcases List.mem_cons.mp h with rfl | h
      · exact List.not_mem_nil
      · exact ih piece h
    · rw [if_neg hc] at h
      obtain ⟨first, rest, e⟩ := List.exists_cons_of_ne_nil (List.splitOn_ne_nil brk text)
      rw [e, List.modifyHead_cons] at h
      rw [e] at ih
      rcases List.mem_cons.mp h with rfl | h
      · intro hm
        rcases List.mem_cons.mp hm with rfl | hm
        · exact hc (beq_self_eq_true _)
        · exact ih first List.mem_cons_self hm
      · exact ih piece (List.mem_cons_of_mem _ h)

end Lines

end SudoWhat.Lib.Fields
