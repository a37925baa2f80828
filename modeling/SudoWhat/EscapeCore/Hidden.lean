/-
  SudoWhat.EscapeCore.Hidden — what a rendered text can hold.

  A text is `Clean` when no character of it is on the hidden list. Every piece shows a
  clean text: a hidden code point and an undecodable byte show as escapes, whose
  characters are a backslash, `u`, `x`, braces and hex digits. So escaped values, quoted
  tokens and the plain line are clean (`clean_escapeBytes`, `clean_quoteBytes`,
  `clean_fullCommandLineBytes`), and a token that shows anything outside the safe set
  stands between two quotes of the renderer's own (`enclosed_of_unsafe`).
-/

import SudoWhat.EscapeCore.CommandLine

namespace SudoWhat.EscapeCore

/-! ## The families the list covers -/

/-- C0, DEL and C1. -/
def isControl (u : Nat) : Bool := decide (u ≤ 0x1F) || decide (0x7F ≤ u ∧ u ≤ 0x9F)

/-- LF, VT, FF, CR, NEL and the two Unicode separators. -/
def isLineBreak (u : Nat) : Bool := decide (0x0A ≤ u ∧ u ≤ 0x0D) || u == 0x85 || u == 0x2028 || u == 0x2029

def isBidiControl (u : Nat) : Bool :=
  u == 0x61C || u == 0x200E || u == 0x200F || decide (0x202A ≤ u ∧ u ≤ 0x202E) || decide (0x2066 ≤ u ∧ u ≤ 0x2069)

def isZeroWidth (u : Nat) : Bool := decide (0x200B ≤ u ∧ u ≤ 0x200D) || u == 0x2060 || u == 0xFEFF

def isTag (u : Nat) : Bool := decide (0xE0000 ≤ u ∧ u ≤ 0xE007F)

def isDisguise (u : Nat) : Bool := isControl u || isLineBreak u || isBidiControl u || isZeroWidth u || isTag u

theorem isHidden_of_isDisguise {u : Nat} (h : isDisguise u = true) : isHidden u = true := by
  simp only [isDisguise, isControl, isLineBreak, isBidiControl, isZeroWidth, isTag, Bool.or_eq_true, decide_eq_true_eq,
    beq_iff_eq] at h
  simp only [isHidden, Bool.or_eq_true, decide_eq_true_eq, beq_iff_eq]
  omega

/-! ## Clean texts -/

/-- No character of the text is on the hidden list. -/
def Clean (t : List Char) : Prop := ∀ c ∈ t, isHidden c.toNat = false

instance (t : List Char) : Decidable (Clean t) := List.decidableBAll (fun c : Char => isHidden c.toNat = false) t

theorem clean_nil : Clean [] := fun _ hc => absurd hc (List.not_mem_nil)

theorem Clean.append {s t : List Char} (hs : Clean s) (ht : Clean t) : Clean (s ++ t) := by
  intro c hc
  rcases List.mem_append.mp hc with hc | hc
  · exact hs c hc
  · exact ht c hc

theorem clean_flatMap {α : Type} {f : α → List Char} {xs : List α} (h : ∀ x ∈ xs, Clean (f x)) :
    Clean (xs.flatMap f) := by
  intro c hc
  obtain ⟨x, hx, hc⟩ := List.mem_flatMap.mp hc
  exact h x hx c hc

theorem Clean.not_mem {t : List Char} (h : Clean t) {c : Char} (hc : isHidden c.toNat = true) : c ∉ t := by
  intro hm
  rw [h c hm] at hc
  cases hc

theorem not_hidden_of_ascii {u : Nat} (h : 0x20 ≤ u ∧ u ≤ 0x7E) : isHidden u = false := by
  rw [Bool.eq_false_iff, Ne]
  simp only [isHidden, Bool.or_eq_true, decide_eq_true_eq, beq_iff_eq]
  omega

theorem hexdigit_ascii {c : Char} (h : isAsciiHexdigit c = true) : 0x20 ≤ c.toNat ∧ c.toNat ≤ 0x7E := by
  simp only [isAsciiHexdigit, Bool.or_eq_true, Bool.and_eq_true, decide_eq_true_eq, Char.le_def,
    UInt32.le_iff_toNat_le] at h
  unfold Char.toNat
  rcases h with (h | h) | h
  · change 48 ≤ c.val.toNat ∧ c.val.toNat ≤ 57 at h
    omega
  · change 97 ≤ c.val.toNat ∧ c.val.toNat ≤ 102 at h
    omega
  · change 65 ≤ c.val.toNat ∧ c.val.toNat ≤ 70 at h
    omega

theorem clean_pushCodePoint (u : Nat) : Clean (pushCodePoint u) := by
  intro c hc
  apply not_hidden_of_ascii
  simp only [pushCodePoint, List.mem_cons, List.mem_append, List.not_mem_nil, or_false] at hc
  rcases hc with rfl | rfl | rfl | hc | rfl
  · decide
  · decide
  · decide
  · exact hexdigit_ascii (isAsciiHexdigit_of_mem_upperHex c hc)
  · decide

theorem clean_pushByte (b : UInt8) : Clean (pushByte b) := by
  have hb : b.toNat < 256 := UInt8.toNat_lt_size b
  intro c hc
  apply not_hidden_of_ascii
  simp only [pushByte, List.mem_cons, List.not_mem_nil, or_false] at hc
  rcases hc with rfl | rfl | rfl | rfl
  · decide
  · decide
  · exact hexdigit_ascii (isAsciiHexdigit_hexDigit (by omega))
  · exact hexdigit_ascii (isAsciiHexdigit_hexDigit (by omega))

/-! ## Pieces -/

theorem pieceOf_char_not_hidden {d : Item} {rest : List Item} {c : Char} (h : pieceOf d rest = .char c) :
    isHidden c.toNat = false := by
  cases d with
  | error b => cases h
  | ok c' =>
    simp only [pieceOf] at h
    by_cases hh : isHidden c'.toNat = true
    · simp [hh] at h
    · rw [if_neg hh] at h
      by_cases hb : c' = '\\' ∧ beginsEscape rest = true
      · simp [hb] at h
      · rw [if_neg hb] at h
        cases h
        exact Bool.eq_false_iff.mpr hh

theorem clean_text {d : Item} {rest : List Item} : Clean (pieceOf d rest).text := by
  cases hp : pieceOf d rest with
  | char c =>
    intro c' hc
    obtain rfl : c' = c := List.mem_singleton.mp hc
    exact pieceOf_char_not_hidden hp
  | hidden u => exact clean_pushCodePoint u
  | byte b => exact clean_pushByte b
  | backslash => exact clean_pushCodePoint _

theorem clean_piecesOf : ∀ (ds : List Item), ∀ p ∈ piecesOf ds, Clean p.text
  | [], p, hp => absurd hp (List.not_mem_nil)
  | d :: ds, p, hp => by
    rcases List.mem_cons.mp hp with rfl | hp
    · exact clean_text
    · exact clean_piecesOf ds p hp

theorem clean_pieces {raw : Bytes} : ∀ p ∈ pieces raw, Clean p.text := clean_piecesOf (decoded raw)

theorem clean_escapeBytes (raw : Bytes) : Clean (escapeBytes raw) := clean_flatMap clean_pieces

/-! ## Rendered tokens -/

theorem clean_ours : Clean ours.text := by
  intro c hc
  obtain rfl : c = '\'' := List.mem_singleton.mp hc
  decide

theorem clean_renderPiece {p : Piece} (h : Clean p.text) : ∀ q ∈ renderPiece p, Clean q.text := by
  intro q hq
  by_cases hp : p = .char '\''
  · subst hp
    simp only [renderPiece, List.mem_cons, List.not_mem_nil, or_false] at hq
    rcases hq with rfl | rfl | rfl | rfl
    · exact clean_ours
    · intro c hc
      obtain rfl : c = '\\' := List.mem_singleton.mp hc
      decide
    · exact h
    · exact clean_ours
  · -- any other piece is one part with the piece's text
    intro c hc
    apply h c
    rw [← pushRendered_renderPiece hp]
    exact List.mem_flatMap.mpr ⟨q, hq, hc⟩

theorem clean_renderToken {raw : Bytes} : ∀ q ∈ renderToken raw, Clean q.text := by
  intro q hq
  unfold renderToken at hq
  split at hq
  · simp only [List.mem_cons, List.not_mem_nil, or_false, or_self] at hq
    exact hq ▸ clean_ours
  · dsimp only at hq
    split at hq
    · obtain ⟨p, hp, rfl⟩ := List.mem_map.mp hq
      exact clean_pieces p hp
    · simp only [List.cons_append, List.mem_cons, List.mem_append, List.mem_flatMap, List.not_mem_nil, or_false] at hq
      rcases hq with rfl | ⟨p, hp, hq⟩ | rfl
      · exact clean_ours
      · exact clean_renderPiece (clean_pieces p hp) q hq
      · exact clean_ours

theorem clean_quoteBytes (raw : Bytes) : Clean (quoteBytes raw) := clean_flatMap clean_renderToken

theorem clean_space : Clean [' '] := by
  intro c hc
  obtain rfl : c = ' ' := List.mem_singleton.mp hc
  decide

theorem clean_intercalate {sep : List Char} (hsep : Clean sep) : ∀ {ts : List (List Char)}, (∀ t ∈ ts, Clean t) →
    Clean (sep.intercalate ts)
  | [], _ => clean_nil
  | [t], h => by simpa using h t
  | t :: u :: ts, h => by
    rw [List.intercalate_cons_cons]
    have htail := @clean_intercalate sep hsep (u :: ts) fun v hv => h v (List.mem_cons_of_mem _ hv)
    exact ((h t List.mem_cons_self).append hsep).append htail

theorem clean_fullCommandLineBytes (path : Bytes) (argv : List Bytes) : Clean (fullCommandLineBytes path argv) := by
  apply clean_intercalate clean_space
  intro t ht
  obtain ⟨raw, -, rfl⟩ := List.mem_map.mp ht
  exact clean_quoteBytes raw

/-! ## The renderer's own quotes -/

/-- The token stands between two quotes the renderer added. -/
def Enclosed (raw : Bytes) : Prop := ∃ inner, renderToken raw = ours :: inner ++ [ours]

/-- Only a token all of whose pieces are safe characters is shown bare. -/
theorem enclosed_or_safe (raw : Bytes) : Enclosed raw ∨ (pieces raw).all Piece.isSafe = true ∧
    quoteBytes raw = textOf (pieces raw) := by
  by_cases h : raw = []
  · subst h
    exact .inl ⟨[], rfl⟩
  by_cases hs : (pieces raw).all Piece.isSafe = true
  · right
    refine ⟨hs, ?_⟩
    rw [quoteBytes, renderToken, if_neg h, if_pos hs, pushRendered_map]
  · left
    refine ⟨(pieces raw).flatMap renderPiece, ?_⟩
    rw [renderToken, if_neg h, if_neg hs]

theorem enclosed_of_escape {raw : Bytes} {p : Piece} (hp : p ∈ pieces raw) (he : p.isEscape = true) : Enclosed raw := by
  rcases enclosed_or_safe raw with h | ⟨hs, -⟩
  · exact h
  · have hp' := List.all_eq_true.mp hs p hp
    cases p with
    | char c => cases he
    | _ => cases hp'

theorem enclosed_of_unsafe {raw : Bytes} {c : Char} (hc : c ∈ quoteBytes raw) (hu : isSafe c = false) :
    Enclosed raw := by
  rcases enclosed_or_safe raw with h | ⟨hs, hq⟩
  · exact h
  · rw [hq] at hc
    rw [isSafe_of_mem_textOf hs c hc] at hu
    cases hu

theorem Enclosed.quoteBytes {raw : Bytes} (h : Enclosed raw) : ∃ inner, quoteBytes raw = '\'' :: inner ++ ['\''] := by
  obtain ⟨inner, hi⟩ := h
  refine ⟨pushRendered inner, ?_⟩
  rw [EscapeCore.quoteBytes, hi, pushRendered_append, pushRendered_cons]
  rfl

end SudoWhat.EscapeCore
