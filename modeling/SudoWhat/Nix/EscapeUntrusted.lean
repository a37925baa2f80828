/-
  SudoWhat.Nix.EscapeUntrusted — `escape_untrusted` as the deploy scripts have it
  (`nix/bin/deploy`; `nix/bin/deploy-plan` holds the same lines), over the bytes of its
  argument.

  The script runs under `LC_ALL=C`: `${s:i:1}` is one byte, `${#s}` counts bytes, and a
  bracket expression names bytes. What `printf '%d' "'…"` makes of a byte is `ord`, a
  parameter: bash 3.2 reads a high byte as a negative number.

  It decodes by hand what the Rust reads through the standard library. Proved:
  `escapeUntrusted_eq`, that with no highlight text the loop ends, after at most one round
  a byte, and prints exactly `escape_bytes` of its argument. One round reads one item
  (`sequenceAt_eq`): the lead ranges, the continuation loop and the range checks together
  accept what the standard's table does, and past anything else the script steps one byte,
  which reads the items `utf8_chunks` leaves (`items_cons`). Its lookahead is on raw bytes
  and Rust's on decoded items; for the bytes of `u{` and `x` the two agree
  (`beginsEscape_items`).
-/

import SudoWhat.Lib.Resync
import SudoWhat.EscapeCore.Escape

namespace SudoWhat.Nix

open SudoWhat.EscapeCore
open SudoWhat.Lib.Utf8 hiding Bytes

/-! ## The script -/

def isHidden (u : Nat) : Bool :=
  decide (u ≤ 0x1F ∨ (u ≥ 0x7F ∧ u ≤ 0x9F) ∨ u = 0xA0 ∨ u = 0xAD
    ∨ u = 0x34F ∨ u = 0x61C ∨ (u ≥ 0x115F ∧ u ≤ 0x1160)
    ∨ (u ≥ 0x17B4 ∧ u ≤ 0x17B5) ∨ (u ≥ 0x180B ∧ u ≤ 0x180E)
    ∨ (u ≥ 0x2000 ∧ u ≤ 0x200F) ∨ (u ≥ 0x2028 ∧ u ≤ 0x202F)
    ∨ (u ≥ 0x205F ∧ u ≤ 0x206F) ∨ u = 0x3000 ∨ u = 0x3164
    ∨ (u ≥ 0xFE00 ∧ u ≤ 0xFE0F) ∨ u = 0xFEFF ∨ u = 0xFFA0
    ∨ (u ≥ 0xFFF9 ∧ u ≤ 0xFFFB) ∨ (u ≥ 0xE0000 ∧ u ≤ 0xE007F)
    ∨ (u ≥ 0xE0100 ∧ u ≤ 0xE01EF))

/-- `${s:i:n}`. -/
def substring (s : Bytes) (i n : Nat) : Bytes := (s.drop i).take n

/-- `printf -v b '%d' "'${s:i:1}"`, and 256 added to a negative value. -/
def byteValue (ord : UInt8 → Int) (b : UInt8) : Nat := (if ord b < 0 then ord b + 256 else ord b).toNat

/-- `%02X`. -/
def twoHex (b : Nat) : List Char := if (upperHex b).length < 2 then '0' :: upperHex b else upperHex b

/-- `len`, `cp` and `min` by the lead byte. -/
def lead (b : Nat) : Nat × Nat × Nat :=
  if b < 0x80 then (1, b, 0)
  else if b ≥ 0xC2 ∧ b ≤ 0xDF then (2, b &&& 0x1F, 0x80)
  else if b ≥ 0xE0 ∧ b ≤ 0xEF then (3, b &&& 0x0F, 0x800)
  else if b ≥ 0xF0 ∧ b ≤ 0xF4 then (4, b &&& 0x07, 0x10000)
  else (0, 0, 0)

/-- The inner loop with `more` rounds to go (`len - k`): the code point, or none where it
    sets `len=0` and breaks. -/
def continuations (ord : UInt8 → Int) (s : Bytes) (i : Nat) : Nat → Nat → Nat → Option Nat
  | 0, _, cp => some cp
  | more + 1, k, cp =>
    match s[i + k]? with
    | none => none
    | some byte =>
      let nb := byteValue ord byte
      if nb < 0x80 ∨ nb > 0xBF then none
      else continuations ord s i more (k + 1) ((cp <<< 6) ||| (nb &&& 0x3F))

/-- `len` and `cp` after the checks, none where `len` is 0. -/
def sequenceAt (ord : UInt8 → Int) (s : Bytes) (i b : Nat) : Option (Nat × Nat) :=
  let (len, cp, min) := lead b
  match continuations ord s i (len - 1) 1 cp with
  | none => none
  | some cp =>
    if len > 1 ∧ (cp < min ∨ (cp ≥ 0xD800 ∧ cp ≤ 0xDFFF) ∨ cp > 0x10FFFF) then none
    else if len = 0 then none
    else some (len, cp)

/-- `[[ next == 'u{' || next == x[0-9A-Fa-f] ]]`. -/
def looksLikeEscape : Bytes → Bool
  | [0x75, 0x7B] => true
  | [0x78, h] =>
    decide ((0x30 ≤ h.toNat ∧ h.toNat ≤ 0x39) ∨ (0x41 ≤ h.toNat ∧ h.toNat ≤ 0x46) ∨
      (0x61 ≤ h.toNat ∧ h.toNat ≤ 0x66))
  | _ => false

/-- What one decoded sequence shows as. -/
def shown (s on off : Bytes) (i len cp : Nat) : Bytes :=
  if isHidden cp then on ++ encode ("\\u\x7b".toList ++ upperHex cp ++ ['}']) ++ off
  else if cp = 0x5C ∧ looksLikeEscape (substring s (i + 1) 2) = true then encode "\\u\x7b5C\x7d".toList
  else substring s i len

/-- The outer loop from `i`, with `out` so far. -/
def escapeLoop (ord : UInt8 → Int) (s on off : Bytes) : Nat → Nat → Bytes → Option Bytes
  | 0, _, _ => none
  | rounds + 1, i, out =>
    match s[i]? with
    | none => some out
    | some byte =>
      let b := byteValue ord byte
      match sequenceAt ord s i b with
      | none => escapeLoop ord s on off rounds (i + 1) (out ++ encode ('\\' :: 'x' :: twoHex b))
      | some (len, cp) => escapeLoop ord s on off rounds (i + len) (out ++ shown s on off i len cp)

/-- `escape_untrusted <text> <on> <off>`: what it prints, none where `rounds` rounds of the
    loop do not end it. -/
def escapeUntrusted (ord : UInt8 → Int) (rounds : Nat) (s on off : Bytes) : Option Bytes :=
  escapeLoop ord s on off rounds 0 []

/-! ## The same list, digits and bits -/

theorem isHidden_eq (u : Nat) : isHidden u = EscapeCore.isHidden u := by
  rw [Bool.eq_iff_iff]
  simp only [isHidden, EscapeCore.isHidden, decide_eq_true_eq, Bool.or_eq_true, beq_iff_eq]
  omega

theorem twoHex_eq {b : Nat} (h : b < 256) : twoHex b = [hexDigit (b / 16), hexDigit (b % 16)] := by
  unfold twoHex upperHex
  by_cases h0 : b = 0
  · subst h0; decide
  · by_cases h16 : b < 16
    · rw [if_neg h0, Nat.digits_of_lt 16 b h0 h16, Nat.div_eq_of_lt h16, Nat.mod_eq_of_lt h16]
      rfl
    · have hd : Nat.digits 16 b = [b % 16, b / 16] := by
        rw [Nat.digits_def' (by omega) (by omega), Nat.digits_of_lt 16 (b / 16) (by omega) (by omega)]
      rw [if_neg h0, hd]
      rfl

theorem shift_or (cp nb : Nat) : (cp <<< 6) ||| (nb &&& 0x3F) = cp * 64 + nb % 64 := by
  have h : nb &&& 0x3F = nb % 64 := Nat.and_two_pow_sub_one_eq_mod nb 6
  rw [h, ← Nat.shiftLeft_add_eq_or_of_lt (Nat.mod_lt _ (by decide)), Nat.shiftLeft_eq]

/-! ## One round reads one item -/

section

variable {ord : UInt8 → Int} {s : Bytes}

theorem byteValue_eq {b : UInt8} (h : ord b = b.toNat ∨ ord b = b.toNat - 256) : byteValue ord b = b.toNat := by
  have hb : b.toNat < 256 := UInt8.toNat_lt_size b
  unfold byteValue
  split <;> omega

variable (hord : ∀ b ∈ s, byteValue ord b = b.toNat) {i : Nat} {b : UInt8} {rest : Bytes} (hs : s.drop i = b :: rest)
include hs

theorem getElem?_lead : s[i]? = some b := by
  rw [← List.head?_drop, hs]; rfl

theorem getElem?_after (j : Nat) : s[i + (j + 1)]? = rest[j]? := by
  rw [← List.getElem?_drop, hs, List.getElem?_cons_succ]

theorem drop_after (k : Nat) : s.drop (i + (k + 1)) = rest.drop k := by
  rw [← List.drop_drop, hs, List.drop_succ_cons]

include hord

/-- A round of the inner loop: one more continuation byte, or none and the loop breaks. -/
theorem continuations_succ (more j cp : Nat) :
    continuations ord s i (more + 1) (j + 1) cp =
      match rest[j]? with
      | none => none
      | some nb =>
        if isCont nb then continuations ord s i more (j + 2) (cp * 64 + nb.toNat % 64) else none := by
  rw [continuations, getElem?_after hs]
  cases h : rest[j]? with
  | none => rfl
  | some nb =>
    have hmem : nb ∈ s := List.mem_of_getElem? ((getElem?_after hs j).trans h)
    simp only [hord nb hmem, shift_or]
    by_cases hc : isCont nb = true
    · have := isCont_bounds hc
      rw [if_pos hc, if_neg (by omega)]
    · have hn : nb.toNat < 0x80 ∨ nb.toNat > 0xBF := by
        simp only [isCont, Bool.and_eq_true, decide_eq_true_eq] at hc
        omega
      rw [if_neg hc, if_pos hn]

/-- What `head` finds, as the script's `len` and `cp`. -/
def asSequence : Head → Option (Nat × Nat)
  | .seq c k => some (k + 1, c.toNat)
  | .cut _ => none

omit hs hord in
theorem asSequence_seq {n k : Nat} (h : n.isValidChar) : asSequence (.seq (Char.ofNat n) k) = some (k + 1, n) := by
  show some (k + 1, (Char.ofNat n).val.toNat) = _
  rw [toNat_ofNat h]

omit hord hs in
theorem sequenceAt_one (h : b.toNat < 0x80) : sequenceAt ord s i b.toNat = asSequence (head b rest) := by
  rw [head, if_pos h, asSequence_seq (Or.inl (by omega))]
  simp [sequenceAt, lead, h, continuations]

theorem sequenceAt_two (h : 0xC2 ≤ b.toNat ∧ b.toNat ≤ 0xDF) :
    sequenceAt ord s i b.toNat = asSequence (two b rest) := by
  have hl : lead b.toNat = (2, b.toNat % 32, 0x80) := by
    rw [lead, if_neg (by omega), if_pos ⟨h.1, h.2⟩, show b.toNat &&& 0x1F = b.toNat % 32 from
      Nat.and_two_pow_sub_one_eq_mod b.toNat 5]
  simp only [sequenceAt, hl, Nat.reduceSub, continuations_succ hord hs 0 0]
  cases rest with
  | nil => rfl
  | cons b1 rest =>
    simp only [List.getElem?_cons_zero, two]
    by_cases h1 : isCont b1 = true
    · have := isCont_bounds h1
      rw [if_pos h1, if_pos h1, asSequence_seq (Or.inl (by omega))]
      simp only [continuations]
      rw [if_neg (by omega), if_neg (by omega)]
      simp; omega
    · rw [if_neg h1, if_neg h1]
      rfl

omit hord hs in
/-- Past a continuation byte, the table's bounds on a second byte are the script's checks on
    the code point. -/
theorem isSecond_three {b1 : UInt8} (b2 : UInt8) (h : 0xE0 ≤ b.toNat ∧ b.toNat ≤ 0xEF) (h1 : isCont b1 = true) :
    isSecond b b1 = true ↔
      ¬ (((b.toNat % 16) * 64 + b1.toNat % 64) * 64 + b2.toNat % 64 < 0x800 ∨
        (((b.toNat % 16) * 64 + b1.toNat % 64) * 64 + b2.toNat % 64 ≥ 0xD800 ∧
          ((b.toNat % 16) * 64 + b1.toNat % 64) * 64 + b2.toNat % 64 ≤ 0xDFFF) ∨
        ((b.toNat % 16) * 64 + b1.toNat % 64) * 64 + b2.toNat % 64 > 0x10FFFF) := by
  have hc := isCont_bounds h1
  unfold isSecond
  repeat' split
  all_goals simp only [isCont, Bool.and_eq_true, decide_eq_true_eq]; omega

omit hord hs in
theorem isSecond_four {b1 : UInt8} (b2 b3 : UInt8) (h : 0xF0 ≤ b.toNat ∧ b.toNat ≤ 0xF4) (h1 : isCont b1 = true) :
    isSecond b b1 = true ↔
      ¬ ((((b.toNat % 8) * 64 + b1.toNat % 64) * 64 + b2.toNat % 64) * 64 + b3.toNat % 64 < 0x10000 ∨
        ((((b.toNat % 8) * 64 + b1.toNat % 64) * 64 + b2.toNat % 64) * 64 + b3.toNat % 64 ≥ 0xD800 ∧
          (((b.toNat % 8) * 64 + b1.toNat % 64) * 64 + b2.toNat % 64) * 64 + b3.toNat % 64 ≤ 0xDFFF) ∨
        (((b.toNat % 8) * 64 + b1.toNat % 64) * 64 + b2.toNat % 64) * 64 + b3.toNat % 64 > 0x10FFFF) := by
  have hc := isCont_bounds h1
  unfold isSecond
  repeat' split
  all_goals simp only [isCont, Bool.and_eq_true, decide_eq_true_eq]; omega

omit hord hs in
theorem not_isSecond {b1 : UInt8} (h1 : ¬ isCont b1 = true) : ¬ isSecond b b1 = true :=
  fun h => h1 (isCont_of_isSecond h)

theorem sequenceAt_three (h : 0xE0 ≤ b.toNat ∧ b.toNat ≤ 0xEF) :
    sequenceAt ord s i b.toNat = asSequence (three b rest) := by
  have hl : lead b.toNat = (3, b.toNat % 16, 0x800) := by
    rw [lead, if_neg (by omega), if_neg (by omega), if_pos ⟨h.1, h.2⟩, show b.toNat &&& 0x0F = b.toNat % 16 from
      Nat.and_two_pow_sub_one_eq_mod b.toNat 4]
  simp only [sequenceAt, hl, Nat.reduceSub, continuations_succ hord hs 1 0, continuations_succ hord hs 0 1]
  rcases rest with _ | ⟨b1, _ | ⟨b2, rest⟩⟩
  · rfl
  · -- the string ends after the second byte
    simp only [List.getElem?_cons_zero, List.getElem?_cons_succ, List.getElem?_nil, three]
    by_cases h1 : isCont b1 = true <;> by_cases h2 : isSecond b b1 = true <;> simp [h1, h2, asSequence]
  · simp only [List.getElem?_cons_zero, List.getElem?_cons_succ, three]
    by_cases h1 : isCont b1 = true
    · by_cases h2 : isCont b2 = true
      · simp only [if_pos h1, if_pos h2, continuations]
        have hiff := isSecond_three b2 h h1
        by_cases hs2 : isSecond b b1 = true
        · have hbs := isSecond_bounds hs2
          have hb2 := isCont_bounds h2
          have hv : ((b.toNat - 0xE0) * 4096 + (b1.toNat - 0x80) * 64 + (b2.toNat - 0x80)).isValidChar := by
            by_cases he : b.toNat = 0xEE ∨ b.toNat = 0xEF
            · exact Or.inr (by omega)
            · exact Or.inl (by omega)
          rw [if_pos hs2, asSequence_seq hv, if_neg (fun hn => hiff.mp hs2 hn.2), if_neg (by omega)]
          simp; omega
        · rw [if_neg hs2, if_pos ⟨by omega, not_not.mp (fun hn => hs2 (hiff.mpr hn))⟩]
          rfl
      · by_cases hs2 : isSecond b b1 = true <;> simp [h1, h2, hs2, asSequence]
    · simp [h1, not_isSecond h1, asSequence]

theorem sequenceAt_four (h : 0xF0 ≤ b.toNat ∧ b.toNat ≤ 0xF4) :
    sequenceAt ord s i b.toNat = asSequence (four b rest) := by
  have hl : lead b.toNat = (4, b.toNat % 8, 0x10000) := by
    rw [lead, if_neg (by omega), if_neg (by omega), if_neg (by omega), if_pos ⟨h.1, h.2⟩,
      show b.toNat &&& 0x07 = b.toNat % 8 from Nat.and_two_pow_sub_one_eq_mod b.toNat 3]
  simp only [sequenceAt, hl, Nat.reduceSub, continuations_succ hord hs 2 0, continuations_succ hord hs 1 1,
    continuations_succ hord hs 0 2]
  rcases rest with _ | ⟨b1, _ | ⟨b2, _ | ⟨b3, rest⟩⟩⟩
  · rfl
  · simp only [List.getElem?_cons_zero, List.getElem?_cons_succ, List.getElem?_nil, four]
    by_cases h1 : isCont b1 = true <;> by_cases h2 : isSecond b b1 = true <;> simp [h1, h2, asSequence]
  · simp only [List.getElem?_cons_zero, List.getElem?_cons_succ, List.getElem?_nil, four]
    by_cases h1 : isCont b1 = true <;> by_cases h2 : isSecond b b1 = true <;> by_cases h3 : isCont b2 = true <;>
      simp [h1, h2, h3, asSequence]
  · simp only [List.getElem?_cons_zero, List.getElem?_cons_succ, four]
    by_cases h1 : isCont b1 = true
    · by_cases h23 : isCont b2 = true ∧ isCont b3 = true
      · obtain ⟨h2, h3⟩ := h23
        simp only [if_pos h1, if_pos h2, if_pos h3, continuations]
        have hiff := isSecond_four b2 b3 h h1
        by_cases hs2 : isSecond b b1 = true
        · have hbs := isSecond_bounds hs2
          have hb2 := isCont_bounds h2
          have hb3 := isCont_bounds h3
          rw [if_pos hs2, asSequence_seq (Or.inr (by omega)), if_neg (fun hn => hiff.mp hs2 hn.2), if_neg (by omega)]
          simp; omega
        · rw [if_neg hs2, if_pos ⟨by omega, not_not.mp (fun hn => hs2 (hiff.mpr hn))⟩]
          rfl
      · by_cases h2 : isCont b2 = true <;> by_cases h3 : isCont b3 = true <;>
          by_cases hs2 : isSecond b b1 = true <;> simp_all [asSequence]
    · simp [h1, not_isSecond h1, asSequence]

theorem sequenceAt_eq : sequenceAt ord s i b.toNat = asSequence (head b rest) := by
  by_cases h1 : b.toNat < 0x80
  · exact sequenceAt_one h1
  by_cases h2 : 0xC2 ≤ b.toNat ∧ b.toNat ≤ 0xDF
  · rw [sequenceAt_two hord hs h2, head, if_neg h1, if_pos h2]
  by_cases h3 : 0xE0 ≤ b.toNat ∧ b.toNat ≤ 0xEF
  · rw [sequenceAt_three hord hs h3, head, if_neg h1, if_neg h2, if_pos h3]
  by_cases h4 : 0xF0 ≤ b.toNat ∧ b.toNat ≤ 0xF4
  · rw [sequenceAt_four hord hs h4, head, if_neg h1, if_neg h2, if_neg h3, if_pos h4]
  have hl : lead b.toNat = (0, 0, 0) := by
    rw [lead, if_neg h1, if_neg h2, if_neg h3, if_neg h4]
  rw [head, if_neg h1, if_neg h2, if_neg h3, if_neg h4]
  simp [sequenceAt, hl, continuations, asSequence]

end

/-! ## The lookahead -/

/-- An item below U+0080 is one byte, and the items after it are those of the rest. -/
theorem items_ok_ascii {bs : Bytes} {c : Char} {ds : List Item} (h : items bs = .ok c :: ds) (hc : c.toNat < 0x80) :
    ∃ rest, bs = UInt8.ofNat c.toNat :: rest ∧ ds = items rest := by
  cases bs with
  | nil => cases h
  | cons b rest =>
    rw [items_cons] at h
    cases hh : head b rest with
    | cut k => rw [hh] at h; cases h
    | seq d k =>
      rw [hh] at h
      obtain ⟨hd, rfl⟩ := List.cons.inj h
      obtain rfl : d = c := Except.ok.inj hd
      obtain ⟨hk, he⟩ := head_seq hh
      have hlt : d.val.toNat ≤ 0x7F := Nat.le_of_lt_succ hc
      rw [String.utf8EncodeChar, if_pos hlt] at he
      obtain ⟨hb, ht⟩ := List.cons.inj he
      have hk0 : k = 0 := by
        have := congrArg List.length ht
        rw [List.length_take, List.length_nil] at this
        omega
      subst hk0
      exact ⟨rest, by rw [← hb]; rfl, rfl⟩

theorem isAsciiHexdigit_ofNat (h : UInt8) (hh : h.toNat < 0x80) :
    isAsciiHexdigit (Char.ofNat h.toNat) = looksLikeEscape [0x78, h] := by
  have hall : ∀ n < 0x80, isAsciiHexdigit (Char.ofNat n) = decide ((0x30 ≤ n ∧ n ≤ 0x39) ∨ (0x41 ≤ n ∧ n ≤ 0x46) ∨
      (0x61 ≤ n ∧ n ≤ 0x66)) := by decide
  exact hall h.toNat hh

/-- The two lookaheads agree: one on the decoded items, one on the next two bytes. -/
theorem beginsEscape_items (rest : Bytes) : beginsEscape (items rest) = looksLikeEscape (rest.take 2) := by
  rw [Bool.eq_iff_iff]
  constructor
  · intro h
    unfold beginsEscape at h
    split at h
    · rename_i ds heq
      obtain ⟨r, rfl, hr⟩ := items_ok_ascii heq (by decide)
      obtain ⟨r', rfl, -⟩ := items_ok_ascii hr.symm (by decide)
      rfl
    · rename_i hx ds heq
      obtain ⟨r, rfl, hr⟩ := items_ok_ascii heq (by decide)
      have hlt : hx.toNat < 0x80 := by
        simp only [isAsciiHexdigit, Bool.or_eq_true, Bool.and_eq_true, decide_eq_true_eq, Char.le_def,
          UInt32.le_iff_toNat_le] at h
        show hx.val.toNat < 0x80
        rcases h with (⟨-, h⟩ | ⟨-, h⟩) | ⟨-, h⟩
        all_goals exact Nat.lt_of_le_of_lt h (by decide)
      obtain ⟨r', rfl, -⟩ := items_ok_ascii hr.symm hlt
      have hback : (UInt8.ofNat hx.toNat).toNat = hx.toNat := by
        rw [UInt8.toNat_ofNat']; exact Nat.mod_eq_of_lt (by omega)
      have hh := isAsciiHexdigit_ofNat (UInt8.ofNat hx.toNat) (by omega)
      rw [hback, Char.ofNat_toNat, h] at hh
      exact hh.symm
    · cases h
  · intro h
    unfold looksLikeEscape at h
    split at h
    · rename_i heq
      obtain ⟨r, rfl⟩ : ∃ r, rest = 0x75 :: 0x7B :: r := ⟨rest.drop 2, by rw [← List.take_append_drop 2 rest, heq]; rfl⟩
      rw [items_ascii (by decide), items_ascii (by decide)]
      rfl
    · rename_i hx heq
      obtain ⟨r, rfl⟩ : ∃ r, rest = 0x78 :: hx :: r := ⟨rest.drop 2, by rw [← List.take_append_drop 2 rest, heq]; rfl⟩
      have hlt : hx.toNat < 0x80 := by
        have := of_decide_eq_true h
        omega
      rw [items_ascii (by decide), items_ascii hlt]
      exact (isAsciiHexdigit_ofNat hx hlt).trans h
    · cases h

/-! ## The whole text -/

section

variable {ord : UInt8 → Int} {s : Bytes} {i : Nat} {b : UInt8} {rest : Bytes} (hs : s.drop i = b :: rest)
include hs

theorem shown_eq {c : Char} {k : Nat} (h : head b rest = .seq c k) :
    shown s [] [] i (k + 1) c.toNat = encode (pieceOf (.ok c) (items (rest.drop k))).text := by
  obtain ⟨hk, he⟩ := head_seq h
  unfold shown
  rw [isHidden_eq]
  simp only [pieceOf]
  by_cases hh : EscapeCore.isHidden c.toNat = true
  · rw [if_pos hh, if_pos hh]
    simp only [List.nil_append, List.append_nil]
    rfl
  rw [if_neg hh, if_neg hh]
  by_cases hc : c = '\\'
  · subst hc
    have hk0 : k = 0 := by
      have := congrArg List.length he
      rw [List.length_cons, List.length_take, show (String.utf8EncodeChar '\\').length = 1 by decide] at this
      omega
    subst hk0
    have hnext : substring s (i + 1) 2 = rest.take 2 := by rw [substring, drop_after hs 0, List.drop_zero]
    rw [hnext, List.drop_zero, beginsEscape_items]
    by_cases hl : looksLikeEscape (rest.take 2) = true
    · rw [if_pos ⟨by decide, hl⟩, if_pos ⟨rfl, hl⟩]
      decide
    · rw [if_neg (fun hn => hl hn.2), if_neg (fun hn => hl hn.2), substring, hs]
      simpa [Piece.text] using he.symm
  · have hne : c.toNat ≠ 0x5C := by
      intro e
      exact hc (by rw [← Char.ofNat_toNat c, e])
    rw [if_neg (fun hn => hne hn.1), if_neg (fun hn => hc hn.1), substring, hs, List.take_succ_cons]
    simpa [Piece.text] using he.symm

end

/-- From any `i` the loop adds the text of the items still to come. -/
theorem escapeLoop_eq {ord : UInt8 → Int} {s : Bytes} (hord : ∀ b ∈ s, byteValue ord b = b.toNat) :
    ∀ (rounds i : Nat) (out : Bytes), s.length - i < rounds →
      escapeLoop ord s [] [] rounds i out = some (out ++ encode (textOf (piecesOf (items (s.drop i))))) := by
  intro rounds
  induction rounds with
  | zero => intro i out h; omega
  | succ rounds ih =>
    intro i out h
    cases hs : s.drop i with
    | nil =>
      rw [escapeLoop, List.getElem?_eq_none (List.drop_eq_nil_iff.mp hs)]
      simp [items, chunks, chunksN, piecesOf]
    | cons b rest =>
      have hlen : i < s.length := by
        by_contra hn
        rw [List.drop_eq_nil_of_le (by omega)] at hs
        cases hs
      have hb : byteValue ord b = b.toNat := hord b (List.mem_of_mem_drop (hs ▸ List.mem_cons_self))
      have hb256 : b.toNat < 256 := UInt8.toNat_lt_size b
      simp only [escapeLoop, getElem?_lead hs, hb, sequenceAt_eq hord hs]
      rw [items_cons]
      cases hh : head b rest with
      | cut k =>
        simp only [asSequence]
        rw [ih _ _ (by omega), drop_after hs 0, List.drop_zero, twoHex_eq hb256, List.append_assoc, ← encode_append]
        rfl
      | seq c k =>
        simp only [asSequence]
        rw [ih _ _ (by omega), drop_after hs k, shown_eq hs hh, List.append_assoc, ← encode_append]
        rfl

/-- With no highlight text, the deploy scripts' escaper ends and prints `escape_bytes`. -/
theorem escapeUntrusted_eq (ord : UInt8 → Int) (s : Bytes) (rounds : Nat) (hs : (0 : UInt8) ∉ s)
    (hord : ∀ b, b ≠ 0 → ord b = b.toNat ∨ ord b = b.toNat - 256) (hr : s.length < rounds) :
    escapeUntrusted ord rounds s [] [] = some (encode (escapeBytes s)) := by
  have hbytes : ∀ b ∈ s, byteValue ord b = b.toNat :=
    fun b hb => byteValue_eq (hord b (fun h => hs (h ▸ hb)))
  rw [escapeUntrusted, escapeLoop_eq hbytes rounds 0 [] (by omega)]
  rfl

/-- Bash 3.2's reading of a high byte, on a letter, a cut sequence, a direction override, a
    backslash that would begin an escape and a stray byte. -/
theorem escapeUntrusted_eq_signed :
    let ord : UInt8 → Int := fun b => if b.toNat < 0x80 then b.toNat else b.toNat - 256
    let s : Bytes := [0xC3, 0xA9, 0xE2, 0x82, 0xE2, 0x80, 0xAE, 0x5C, 0x78, 0x41, 0xFF]
    escapeUntrusted ord 12 s [] [] = some (encode (escapeBytes s)) := by
  refine escapeUntrusted_eq _ _ _ (by decide) (fun b _ => ?_) (by decide)
  by_cases h : b.toNat < 0x80
  · exact Or.inl (if_pos h)
  · exact Or.inr (if_neg h)

end SudoWhat.Nix
