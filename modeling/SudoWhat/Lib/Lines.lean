/-
  SudoWhat.Lib.Lines — a text as the lines a line-wise tool reads.

  A text is a number of lines, each with its break after it, and a rest without one
  (`exists_lines`). The rest is a line too, unless it is empty (`linesOf_eq`). A text that
  holds no break stands in the text exactly where it stands in one of its lines
  (`infix_linesOf`, for one character `mem_linesOf_iff`), and a piece without some character is on one side of it
  (`infix_append_cons`).
-/

import Mathlib.Data.List.Infix
import SudoWhat.Lib.Fields

namespace SudoWhat.Lib.Lines

open Fields (unlines)

variable {α : Type}

theorem infix_append_cons {x : α} {s a b : List α} (hx : x ∉ s) (h : s <:+: a ++ x :: b) : s <:+: a ∨ s <:+: b := by
  obtain ⟨before, after, h⟩ := h
  rcases List.append_eq_append_iff.mp h with ⟨as, ha, -⟩ | ⟨bs, hbs, hb⟩
  · exact .inl (ha ▸ (List.infix_append before s as))
  · rcases bs with _ | ⟨y, bs⟩
    · rw [List.append_nil] at hbs
      exact .inl ⟨before, [], by rw [List.append_nil, hbs]⟩
    · obtain ⟨rfl, hrest⟩ := List.cons.inj hb
      rcases List.append_eq_append_iff.mp hbs with ⟨as, -, hs⟩ | ⟨cs, -, hs⟩
      · exact absurd (hs ▸ List.mem_append_right _ List.mem_cons_self) hx
      · rcases cs with _ | ⟨z, cs⟩
        · rw [List.nil_append] at hs
          exact absurd (hs ▸ List.mem_cons_self) hx
        · obtain ⟨-, hs⟩ := List.cons.inj hs
          rw [hrest, hs]
          exact .inr (List.infix_append cs s after)

variable {brk : α}

theorem unlines_cons (l : List α) (ls : List (List α)) : unlines brk (l :: ls) = l ++ brk :: unlines brk ls := by
  simp [unlines]

theorem unlines_append (ls ls' : List (List α)) : unlines brk (ls ++ ls') = unlines brk ls ++ unlines brk ls' :=
  List.flatMap_append

theorem unlines_singleton (l : List α) : unlines brk [l] = l ++ [brk] := by simp [unlines]

theorem exists_lines (text : List α) :
    ∃ ls rest, (∀ l ∈ ls, brk ∉ l) ∧ brk ∉ rest ∧ text = unlines brk ls ++ rest := by
  induction text with
  | nil => exact ⟨[], [], fun l hl => absurd hl List.not_mem_nil, List.not_mem_nil, rfl⟩
  | cons c text ih =>
    obtain ⟨ls, rest, hls, hrest, rfl⟩ := ih
    by_cases hc : c = brk
    · subst hc
      refine ⟨[] :: ls, rest, ?_, hrest, ?_⟩
      · intro l hl
        rcases List.mem_cons.mp hl with rfl | hl
        · exact List.not_mem_nil
        · exact hls l hl
      · rw [unlines_cons]
        rfl
    · have hcons : ∀ {l : List α}, brk ∉ l → brk ∉ c :: l := by
        intro l hl hm
        rcases List.mem_cons.mp hm with h | h
        · exact hc h.symm
        · exact hl h
      cases ls with
      | nil => exact ⟨[], c :: rest, hls, hcons hrest, rfl⟩
      | cons l ls =>
        refine ⟨(c :: l) :: ls, rest, ?_, hrest, ?_⟩
        · intro m hm
          rcases List.mem_cons.mp hm with rfl | hm
          · exact hcons (hls l List.mem_cons_self)
          · exact hls m (List.mem_cons_of_mem _ hm)
        · rw [unlines_cons, unlines_cons]
          rfl

theorem ends_in_break_iff {ls : List (List α)} {rest : List α} (hrest : brk ∉ rest) :
    unlines brk ls ++ rest = [] ∨ (unlines brk ls ++ rest).getLast? = some brk ↔ rest = [] := by
  constructor
  · intro h
    by_contra hne
    obtain ⟨front, c, rfl⟩ := List.eq_nil_or_concat' rest |>.resolve_left hne
    rcases h with h | h
    · simp at h
    · rw [← List.append_assoc, List.getLast?_concat] at h
      exact hrest (Option.some.inj h ▸ List.mem_append_right _ List.mem_cons_self)
  · intro h
    rw [h, List.append_nil]
    rcases List.eq_nil_or_concat' ls with rfl | ⟨front, l, rfl⟩
    · exact .inl rfl
    · rw [unlines_append, unlines_singleton, ← List.append_assoc, List.getLast?_concat]
      exact .inr rfl

variable [BEq α] [LawfulBEq α]

/-- Whether the needle stands in the text. -/
def contains (needle text : List α) : Bool := text.tails.any fun t => needle.isPrefixOf t

theorem contains_iff {needle text : List α} : contains needle text = true ↔ needle <:+: text := by
  rw [contains, List.any_eq_true, List.infix_iff_prefix_suffix]
  refine exists_congr fun t => ?_
  rw [List.mem_tails, List.isPrefixOf_iff_prefix, and_comm]

/-- The lines a tool reads: what stands after the last break is one, unless it is empty. -/
def linesOf (brk : α) (text : List α) : List (List α) :=
  match (text.splitOn brk).getLast? with
  | some [] => (text.splitOn brk).dropLast
  | _ => text.splitOn brk

section

variable {ls : List (List α)} {rest : List α} (hls : ∀ l ∈ ls, brk ∉ l) (hrest : brk ∉ rest)
include hls hrest

theorem splitOn_lines : (unlines brk ls ++ rest).splitOn brk = ls ++ [rest] := by
  induction ls with
  | nil => exact List.splitOn_eq_singleton hrest
  | cons l ls ih =>
    rw [unlines_cons, List.append_assoc, List.cons_append,
      List.splitOn_append_cons_self_of_not_mem (hls l List.mem_cons_self),
      ih fun m hm => hls m (List.mem_cons_of_mem _ hm), List.cons_append]

theorem linesOf_eq : linesOf brk (unlines brk ls ++ rest) = ls ++ if rest.isEmpty then [] else [rest] := by
  unfold linesOf
  rw [splitOn_lines hls hrest, List.getLast?_concat]
  cases rest with
  | nil =>
    show (ls ++ [[]]).dropLast = ls ++ []
    rw [List.dropLast_concat, List.append_nil]
  | cons c rest => rfl

end

theorem linesOf_unlines {ls : List (List α)} (hls : ∀ l ∈ ls, brk ∉ l) : linesOf brk (unlines brk ls) = ls := by
  have h := linesOf_eq hls (@List.not_mem_nil _ brk)
  rwa [List.append_nil, List.isEmpty_nil, if_pos rfl, List.append_nil] at h

theorem not_mem_linesOf {text l : List α} (hl : l ∈ linesOf brk text) : brk ∉ l := by
  obtain ⟨ls, rest, hls, hrest, rfl⟩ := @exists_lines _ brk text
  rw [linesOf_eq hls hrest] at hl
  rcases List.mem_append.mp hl with hl | hl
  · exact hls l hl
  · cases rest with
    | nil => cases hl
    | cons c rest => exact List.mem_singleton.mp hl ▸ hrest

theorem infix_linesOf {needle text : List α} (hne : needle ≠ []) (hbrk : brk ∉ needle) :
    (∃ l ∈ linesOf brk text, needle <:+: l) ↔ needle <:+: text := by
  obtain ⟨ls, rest, hls, hrest, rfl⟩ := @exists_lines _ brk text
  have hnil : ¬ needle <:+: [] := fun h => hne (List.infix_nil.mp h)
  have hlines : (∃ l ∈ linesOf brk (unlines brk ls ++ rest), needle <:+: l) ↔ (∃ l ∈ ls, needle <:+: l) ∨ needle <:+: rest := by
    rw [linesOf_eq hls hrest]
    cases rest with
    | nil => simp [hnil]
    | cons c rest => simp [or_and_right, exists_or]
  rw [hlines]
  clear hlines hls hrest
  induction ls with
  | nil => simp [unlines]
  | cons l ls ih =>
    rw [unlines_cons, List.append_assoc, List.cons_append]
    constructor
    · rintro (⟨m, hm, h⟩ | h)
      · rcases List.mem_cons.mp hm with rfl | hm
        · exact h.trans (List.prefix_append _ _).isInfix
        · exact (ih.mp (.inl ⟨m, hm, h⟩)).trans ((List.suffix_cons brk _).trans (List.suffix_append _ _)).isInfix
      · exact (ih.mp (.inr h)).trans ((List.suffix_cons brk _).trans (List.suffix_append _ _)).isInfix
    · intro h
      rcases infix_append_cons hbrk h with h | h
      · exact .inl ⟨l, List.mem_cons_self, h⟩
      · rcases ih.mpr h with ⟨m, hm, h⟩ | h
        · exact .inl ⟨m, List.mem_cons_of_mem _ hm, h⟩
        · exact .inr h

theorem mem_linesOf_iff {c : α} {text : List α} (hc : c ≠ brk) : (∃ l ∈ linesOf brk text, c ∈ l) ↔ c ∈ text := by
  have h := @infix_linesOf _ brk _ _ [c] text (List.cons_ne_nil _ _) fun hb => hc (List.mem_singleton.mp hb).symm
  simpa only [List.singleton_infix_iff] using h

end SudoWhat.Lib.Lines
