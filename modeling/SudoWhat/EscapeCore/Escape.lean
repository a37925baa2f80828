/-
  SudoWhat.EscapeCore.Escape — `escape_bytes` (`shared/escape_core/src/lib.rs`): raw
  bytes to the text every surface shows.

  Valid UTF-8 decodes first; a byte that fails to decode stays a byte. A code point on
  the hidden list shows as `\u{HEX}`, an undecodable byte as `\xHH`, a backslash that
  would otherwise begin an escape as its own `\u{5C}`, and everything else as itself.

  `unescape` reads a displayed text back, left to right: `\u{HEX}` is that code point,
  `\x` and two hex digits is that byte, any other character is itself. Proved:
  - `unescape_escapeBytes`: it gives back exactly the bytes that were shown, so
    `escapeBytes` is injective.
  - `introducer_begins_escape`: in the output a backslash stands before `u{`, or before
    `x` and a hex digit, only at the first character of an escape.
  The argument is one induction over the decoded items. What a literal backslash was
  checked against (the next two items) is what follows it on screen, because a piece
  that shows anything but its own character starts with a backslash
  (`decoded_of_displayed`).
-/

import Mathlib.Data.Nat.Digits.Defs
import SudoWhat.Lib.Utf8

namespace SudoWhat.EscapeCore

open SudoWhat.Lib

abbrev Bytes := List UInt8

/-- A decoded item: a character, or a byte that is not valid UTF-8. -/
abbrev Item := Except UInt8 Char

/-- The hidden list: code points that draw nothing, draw as something else, or reorder
    the text after them. -/
def isHidden (u : Nat) : Bool :=
  decide (u ≤ 0x1F) || decide (0x7F ≤ u ∧ u ≤ 0x9F) || u == 0xA0 || u == 0xAD || u == 0x34F || u == 0x61C
    || decide (0x115F ≤ u ∧ u ≤ 0x1160) || decide (0x17B4 ≤ u ∧ u ≤ 0x17B5) || decide (0x180B ≤ u ∧ u ≤ 0x180E)
    || decide (0x2000 ≤ u ∧ u ≤ 0x200F) || decide (0x2028 ≤ u ∧ u ≤ 0x202F) || decide (0x205F ≤ u ∧ u ≤ 0x206F)
    || u == 0x3000 || u == 0x3164 || decide (0xFE00 ≤ u ∧ u ≤ 0xFE0F) || u == 0xFEFF || u == 0xFFA0
    || decide (0xFFF9 ≤ u ∧ u ≤ 0xFFFB) || decide (0xE0000 ≤ u ∧ u ≤ 0xE007F) || decide (0xE0100 ≤ u ∧ u ≤ 0xE01EF)

/-- One displayed unit of an escaped value. -/
inductive Piece where
  /-- A character the value really holds, drawn as itself. -/
  | char (c : Char)
  /-- A hidden-list code point, drawn as its escape in the reserved style. -/
  | hidden (u : Nat)
  /-- A byte that is not valid UTF-8: a kept escape. -/
  | byte (b : UInt8)
  /-- A literal backslash that would otherwise begin an escape: a kept escape. -/
  | backslash
  deriving DecidableEq, Repr

/-- The digit `d < 16` in uppercase hexadecimal. -/
def hexDigit (d : Nat) : Char := Char.ofNat (if d < 10 then 48 + d else 55 + d)

/-- `{u:X}`: uppercase hex, no leading zeros. -/
def upperHex (u : Nat) : List Char := if u = 0 then ['0'] else ((Nat.digits 16 u).map hexDigit).reverse

def pushCodePoint (u : Nat) : List Char := '\\' :: 'u' :: '{' :: (upperHex u ++ ['}'])

/-- `\x{b:02X}`. -/
def pushByte (b : UInt8) : List Char := ['\\', 'x', hexDigit (b.toNat / 16), hexDigit (b.toNat % 16)]

def Piece.text : Piece → List Char
  | .char c => [c]
  | .hidden u => pushCodePoint u
  | .byte b => pushByte b
  | .backslash => pushCodePoint 0x5C

def isAsciiHexdigit (c : Char) : Bool :=
  ('0' ≤ c && c ≤ '9') || ('a' ≤ c && c ≤ 'f') || ('A' ≤ c && c ≤ 'F')

/-- Whether a backslash followed by `rest` would read as the start of an escape. -/
def beginsEscape : List Item → Bool
  | .ok 'u' :: .ok '{' :: _ => true
  | .ok 'x' :: .ok h :: _ => isAsciiHexdigit h
  | _ => false

def pieceOf (d : Item) (rest : List Item) : Piece :=
  match d with
  | .error b => .byte b
  | .ok c =>
    if isHidden c.toNat then .hidden c.toNat
    else if c = '\\' ∧ beginsEscape rest = true then .backslash
    else .char c

def piecesOf : List Item → List Piece
  | [] => []
  | d :: rest => pieceOf d rest :: piecesOf rest

/-- The bytes decoded chunk by chunk: the valid characters, then the bytes that fail. -/
def decoded (bytes : Bytes) : List Item :=
  (Utf8.chunks bytes).flatMap fun c => c.valid.map .ok ++ c.invalid.map .error

def pieces (bytes : Bytes) : List Piece := piecesOf (decoded bytes)

def escapeBytes (input : Bytes) : List Char := (pieces input).flatMap Piece.text

/-! ## The reader -/

def digitValue (c : Char) : Nat :=
  if c ≤ '9' then c.toNat - 48 else if c ≤ 'F' then c.toNat - 55 else c.toNat - 87

def hexValue (hs : List Char) : Nat := Nat.ofDigits 16 (hs.reverse.map digitValue)

/-- The escape a text begins with: its bytes, and how many characters it takes after the
    backslash. -/
def escapeAt : List Char → Option (Bytes × Nat)
  | '\\' :: 'u' :: '{' :: rest =>
    let hex := rest.takeWhile isAsciiHexdigit
    if hex ≠ [] ∧ (hexValue hex).isValidChar ∧ (rest.drop hex.length).head? = some '}' then
      some (String.utf8EncodeChar (Char.ofNat (hexValue hex)), hex.length + 3)
    else none
  | '\\' :: 'x' :: a :: b :: _ =>
    if isAsciiHexdigit a ∧ isAsciiHexdigit b then some ([UInt8.ofNat (hexValue [a, b])], 3) else none
  | _ => none

/-- Read on, with `skip` characters of the current escape still to pass over. -/
def unescapeFrom : Nat → List Char → Bytes
  | _, [] => []
  | skip + 1, _ :: s => unescapeFrom skip s
  | 0, c :: s =>
    match escapeAt (c :: s) with
    | some (bytes, more) => bytes ++ unescapeFrom more s
    | none => String.utf8EncodeChar c ++ unescapeFrom 0 s

def unescape (text : List Char) : Bytes := unescapeFrom 0 text

/-- What follows a backslash makes it read as the start of an escape. -/
def introduces : List Char → Bool
  | 'u' :: '{' :: _ => true
  | 'x' :: h :: _ => isAsciiHexdigit h
  | _ => false

/-! ## Hex digits -/

theorem isAsciiHexdigit_hexDigit {d : Nat} (h : d < 16) : isAsciiHexdigit (hexDigit d) = true := by
  revert d; decide

theorem digitValue_hexDigit {d : Nat} (h : d < 16) : digitValue (hexDigit d) = d := by
  revert d; decide

theorem upperHex_ne_nil (u : Nat) : upperHex u ≠ [] := by
  unfold upperHex
  split
  · simp
  · simpa [Nat.digits_ne_nil_iff_ne_zero] using ‹u ≠ 0›

theorem isAsciiHexdigit_of_mem_upperHex {u : Nat} : ∀ c ∈ upperHex u, isAsciiHexdigit c = true := by
  unfold upperHex
  intro c hc
  split at hc
  · simp only [List.mem_singleton] at hc; subst hc; decide
  · simp only [List.mem_reverse, List.mem_map] at hc
    obtain ⟨d, hd, rfl⟩ := hc
    exact isAsciiHexdigit_hexDigit (Nat.digits_lt_base (by omega) hd)

theorem hexValue_upperHex (u : Nat) : hexValue (upperHex u) = u := by
  unfold hexValue upperHex
  split
  · rename_i h; subst h; decide
  · have : ((Nat.digits 16 u).map hexDigit).map digitValue = Nat.digits 16 u := by
      rw [List.map_map, List.map_congr_left , List.map_id]
      intro d hd
      exact digitValue_hexDigit (Nat.digits_lt_base (by omega) hd)
    rw [List.reverse_reverse, this, Nat.ofDigits_digits]

/-! ## One escape read back -/

theorem unescapeFrom_append : ∀ (s t : List Char), unescapeFrom s.length (s ++ t) = unescapeFrom 0 t
  | [], _ => rfl
  | _ :: s, t => unescapeFrom_append s t

theorem takeWhile_upperHex (u : Nat) (t : List Char) :
    (upperHex u ++ '}' :: t).takeWhile isAsciiHexdigit = upperHex u := by
  rw [List.takeWhile_append_of_pos isAsciiHexdigit_of_mem_upperHex]
  simp [isAsciiHexdigit]

theorem escapeAt_pushCodePoint {u : Nat} (hu : u.isValidChar) (t : List Char) :
    escapeAt (pushCodePoint u ++ t) = some (String.utf8EncodeChar (Char.ofNat u), (upperHex u).length + 3) := by
  simp [pushCodePoint, escapeAt, takeWhile_upperHex, upperHex_ne_nil, hexValue_upperHex, hu]

theorem unescape_pushCodePoint {u : Nat} (hu : u.isValidChar) (t : List Char) :
    unescape (pushCodePoint u ++ t) = String.utf8EncodeChar (Char.ofNat u) ++ unescape t := by
  have hcons : pushCodePoint u ++ t = '\\' :: (('u' :: '{' :: (upperHex u ++ ['}'])) ++ t) := rfl
  have hlen : (upperHex u).length + 3 = ('u' :: '{' :: (upperHex u ++ ['}'])).length := by simp
  unfold unescape
  rw [hcons, unescapeFrom, ← hcons, escapeAt_pushCodePoint hu, hlen]
  simp only [unescapeFrom_append]

theorem unescape_pushByte (b : UInt8) (t : List Char) : unescape (pushByte b ++ t) = b :: unescape t := by
  have hb : b.toNat < 256 := UInt8.toNat_lt_size b
  have hhi := isAsciiHexdigit_hexDigit (d := b.toNat / 16) (by omega)
  have hlo := isAsciiHexdigit_hexDigit (d := b.toNat % 16) (by omega)
  have hv : hexValue [hexDigit (b.toNat / 16), hexDigit (b.toNat % 16)] = b.toNat := by
    simp only [hexValue, List.reverse_cons, List.reverse_nil, List.nil_append, List.cons_append, List.map_cons,
      List.map_nil, digitValue_hexDigit (show b.toNat / 16 < 16 by omega),
      digitValue_hexDigit (show b.toNat % 16 < 16 by omega), Nat.ofDigits_cons, Nat.ofDigits_nil]
    omega
  simp [unescape, unescapeFrom, pushByte, escapeAt, hhi, hlo, hv]

theorem isValidChar_toNat (c : Char) : c.toNat.isValidChar := c.valid

theorem unescape_char {c : Char} {t : List Char} (h : escapeAt (c :: t) = none) :
    unescape (c :: t) = String.utf8EncodeChar c ++ unescape t := by
  simp [unescape, unescapeFrom, h]

theorem escapeAt_of_ne {c : Char} (h : c ≠ '\\') (t : List Char) : escapeAt (c :: t) = none := by
  unfold escapeAt
  split <;> simp_all

theorem escapeAt_of_not_introduces {t : List Char} (h : introduces t = false) : escapeAt ('\\' :: t) = none := by
  unfold escapeAt
  split
  · rename_i heq; obtain ⟨-, rfl⟩ := List.cons.inj heq; cases h
  · rename_i heq
    obtain ⟨-, rfl⟩ := List.cons.inj heq
    simp only [introduces] at h
    simp [h]
  · rfl

/-! ## What a piece shows -/

def textOf (ps : List Piece) : List Char := ps.flatMap Piece.text

@[simp] theorem textOf_nil : textOf [] = [] := rfl
@[simp] theorem textOf_cons (p : Piece) (ps : List Piece) : textOf (p :: ps) = p.text ++ textOf ps := rfl

def Piece.isEscape : Piece → Bool
  | .char _ => false
  | _ => true

theorem pieceOf_char {d : Item} {rest : List Item} {c : Char} (h : pieceOf d rest = .char c) :
    d = .ok c ∧ (c = '\\' → beginsEscape rest = false) := by
  cases d with
  | error b => cases h
  | ok c' =>
    simp only [pieceOf] at h
    split at h
    · cases h
    · split at h
      · cases h
      · rename_i hn
        cases h
        exact ⟨rfl, fun e => by simpa [e] using hn⟩

theorem pieceOf_hidden {d : Item} {rest : List Item} {u : Nat} (h : pieceOf d rest = .hidden u) :
    ∃ c, d = .ok c ∧ u = c.toNat ∧ isHidden c.toNat = true := by
  cases d with
  | error b => cases h
  | ok c =>
    simp only [pieceOf] at h
    by_cases hc : isHidden c.toNat = true
    · rw [if_pos hc] at h
      exact ⟨c, rfl, (Piece.hidden.inj h).symm, hc⟩
    · rw [if_neg hc] at h
      split at h <;> cases h

theorem pieceOf_byte {d : Item} {rest : List Item} {b : UInt8} (h : pieceOf d rest = .byte b) : d = .error b := by
  cases d with
  | error b' => rw [Piece.byte.inj h]
  | ok c =>
    simp only [pieceOf] at h
    repeat' split at h
    all_goals cases h

theorem pieceOf_backslash {d : Item} {rest : List Item} (h : pieceOf d rest = .backslash) : d = .ok '\\' := by
  cases d with
  | error b => cases h
  | ok c =>
    simp only [pieceOf] at h
    split at h
    · cases h
    · split at h
      · rename_i hc; rw [hc.1]
      · cases h

/-- A displayed character other than a backslash is the next decoded item: every other
    piece shows a backslash first. -/
theorem decoded_of_displayed {ds : List Item} {c : Char} {t : List Char} (h : textOf (piecesOf ds) = c :: t)
    (hc : c ≠ '\\') : ∃ ds', ds = .ok c :: ds' ∧ t = textOf (piecesOf ds') := by
  cases ds with
  | nil => cases h
  | cons d ds' =>
    simp only [piecesOf, textOf_cons] at h
    cases hp : pieceOf d ds' with
    | char c' =>
      rw [hp] at h
      obtain ⟨rfl, ht⟩ := List.cons.inj h
      obtain ⟨rfl, -⟩ := pieceOf_char hp
      exact ⟨ds', rfl, ht.symm⟩
    | hidden u => rw [hp] at h; exact absurd (List.cons.inj h).1.symm hc
    | byte b => rw [hp] at h; exact absurd (List.cons.inj h).1.symm hc
    | backslash => rw [hp] at h; exact absurd (List.cons.inj h).1.symm hc

/-- What a backslash introduces on screen it introduces among the decoded items. -/
theorem beginsEscape_of_introduces {ds : List Item} (h : introduces (textOf (piecesOf ds)) = true) :
    beginsEscape ds = true := by
  unfold introduces at h
  split at h
  · rename_i s t heq
    obtain ⟨ds', rfl, ht⟩ := decoded_of_displayed heq (by decide)
    obtain ⟨ds'', rfl, -⟩ := decoded_of_displayed ht.symm (by decide)
    rfl
  · rename_i s hx t heq
    obtain ⟨ds', rfl, ht⟩ := decoded_of_displayed heq (by decide)
    have hne : hx ≠ '\\' := by rintro rfl; cases h
    obtain ⟨ds'', rfl, -⟩ := decoded_of_displayed ht.symm hne
    exact h
  · cases h

/-! ## The text reads back to the bytes -/

def Item.bytes : Item → Bytes
  | .ok c => String.utf8EncodeChar c
  | .error b => [b]

theorem flatMap_bytes_chunk (c : Utf8.Chunk) :
    (c.valid.map Except.ok ++ c.invalid.map Except.error : List Item).flatMap Item.bytes = c.bytes := by
  simp [Utf8.Chunk.bytes, Utf8.encode, Item.bytes, List.flatMap_map, List.flatMap_append]

theorem flatMap_bytes_decoded (b : Bytes) : (decoded b).flatMap Item.bytes = b := by
  unfold decoded
  rw [List.flatMap_assoc, ← Utf8.flatMap_bytes_chunks b]
  simp only [flatMap_bytes_chunk, Utf8.flatMap_bytes_chunks]

theorem unescape_text (d : Item) (ds : List Item) :
    unescape (textOf (piecesOf (d :: ds))) = Item.bytes d ++ unescape (textOf (piecesOf ds)) := by
  simp only [piecesOf, textOf_cons]
  cases d with
  | error b => exact unescape_pushByte b _
  | ok c =>
    cases hp : pieceOf (.ok c) ds with
    | char c' =>
      obtain ⟨he, hn⟩ := pieceOf_char hp
      cases he
      refine unescape_char ?_
      by_cases hc : c = '\\'
      · subst hc
        refine escapeAt_of_not_introduces ?_
        cases hi : introduces (textOf (piecesOf ds))
        · exact hi
        · rw [beginsEscape_of_introduces hi] at hn; exact absurd (hn rfl) (by decide)
      · exact escapeAt_of_ne hc _
    | hidden u =>
      obtain ⟨c', he, rfl, -⟩ := pieceOf_hidden hp
      obtain rfl := Except.ok.inj he
      simp only [Piece.text]
      rw [unescape_pushCodePoint (isValidChar_toNat c), Char.ofNat_toNat]
      rfl
    | byte b => cases pieceOf_byte hp
    | backslash =>
      obtain rfl := Except.ok.inj (pieceOf_backslash hp)
      exact unescape_pushCodePoint (by decide) _

theorem unescape_textOf : ∀ ds : List Item, unescape (textOf (piecesOf ds)) = ds.flatMap Item.bytes
  | [] => rfl
  | d :: ds => by rw [unescape_text, unescape_textOf ds, List.flatMap_cons]

theorem unescape_escapeBytes (b : Bytes) : unescape (escapeBytes b) = b :=
  (unescape_textOf (decoded b)).trans (flatMap_bytes_decoded b)

theorem escapeBytes_injective : Function.Injective escapeBytes :=
  Function.LeftInverse.injective unescape_escapeBytes

/-! ## An introducer always begins an escape -/

theorem not_mem_upperHex (u : Nat) : '\\' ∉ upperHex u := fun h => by
  have := isAsciiHexdigit_of_mem_upperHex _ h
  revert this; decide

theorem backslash_not_mem_tail (p : Piece) : '\\' ∉ p.text.tail := by
  have hd : ∀ d < 16, hexDigit d ≠ '\\' := by decide
  cases p with
  | char c => simp [Piece.text]
  | hidden u => simp [Piece.text, pushCodePoint, not_mem_upperHex]
  | byte b =>
    have hb : b.toNat < 256 := UInt8.toNat_lt_size b
    simp [Piece.text, pushByte, (hd (b.toNat / 16) (by omega)).symm, (hd (b.toNat % 16) (by omega)).symm]
  | backslash => simp [Piece.text, pushCodePoint, not_mem_upperHex]

theorem eq_nil_of_text {p : Piece} {pre suf : List Char} (h : p.text = pre ++ '\\' :: suf) : pre = [] := by
  cases pre with
  | nil => rfl
  | cons x pre =>
    have := backslash_not_mem_tail p
    rw [h] at this
    simp at this

/-- In the shown text of `ds`, a backslash that introduces is the first character of an
    escape. -/
theorem introducer_begins : ∀ (ds : List Item) (pre suf : List Char), textOf (piecesOf ds) = pre ++ '\\' :: suf →
    introduces suf = true → ∃ ps p qs, piecesOf ds = ps ++ p :: qs ∧ pre = textOf ps ∧ p.isEscape = true := by
  intro ds
  induction ds with
  | nil => intro pre suf h _; simp [piecesOf] at h
  | cons d ds ih =>
    intro pre suf h hi
    simp only [piecesOf, textOf_cons] at h
    rcases List.append_eq_append_iff.mp h with ⟨a, hpre, ht⟩ | ⟨a, htext, hsuf⟩
    · -- the backslash lies in a later piece
      obtain ⟨ps, p, qs, hps, ha, hp⟩ := ih a suf ht hi
      exact ⟨pieceOf d ds :: ps, p, qs, by simp [piecesOf, hps], by rw [hpre, ha, textOf_cons], hp⟩
    · cases a with
      | nil =>
        obtain ⟨ps, p, qs, hps, ha, hp⟩ := ih [] suf (by simpa using hsuf.symm) hi
        exact ⟨pieceOf d ds :: ps, p, qs, by simp [piecesOf, hps], by rw [textOf_cons, ← ha, htext]; simp, hp⟩
      | cons x a =>
        obtain ⟨rfl, rfl⟩ := List.cons.inj hsuf
        obtain rfl := eq_nil_of_text htext
        refine ⟨[], pieceOf d ds, piecesOf ds, rfl, rfl, ?_⟩
        cases hp : pieceOf d ds with
        | char c =>
          -- a literal backslash was checked against what follows it
          rw [hp] at htext
          obtain ⟨rfl, rfl⟩ := List.cons.inj htext
          have hb := (pieceOf_char hp).2 rfl
          rw [beginsEscape_of_introduces hi] at hb
          cases hb
        | hidden u => rfl
        | byte b => rfl
        | backslash => rfl

theorem introducer_begins_escape {b : Bytes} {pre suf : List Char} (h : escapeBytes b = pre ++ '\\' :: suf)
    (hi : introduces suf = true) :
    ∃ ps p qs, pieces b = ps ++ p :: qs ∧ pre = textOf ps ∧ p.isEscape = true :=
  introducer_begins (decoded b) pre suf h hi

/-- Escaping loses nothing: the text reads back to the bytes, an introducer in it is the
    first character of an escape, and two byte strings never show the same text. -/
theorem escape_bytes_loses_nothing :
    (∀ b, unescape (escapeBytes b) = b) ∧
      (∀ b pre suf, escapeBytes b = pre ++ '\\' :: suf → introduces suf = true →
        ∃ ps p qs, pieces b = ps ++ p :: qs ∧ pre = textOf ps ∧ p.isEscape = true) ∧
      ∀ b b', escapeBytes b = escapeBytes b' → b = b' :=
  ⟨unescape_escapeBytes, fun _ _ _ => introducer_begins_escape, fun _ _ h => escapeBytes_injective h⟩

example : escapeBytes [0x5C, 0x78, 0x41, 0xFF] = "\\u\x7b5C\x7dxA\\xFF".toList := by decide

end SudoWhat.EscapeCore
