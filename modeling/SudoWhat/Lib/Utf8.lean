/-
  SudoWhat.Lib.Utf8 — UTF-8 read from raw bytes, whatever the bytes are.

  A byte string is cut into chunks from the left. A chunk is a run of well-formed
  sequences (the Unicode standard's table of well-formed UTF-8 byte sequences) and the
  bytes that follow it and begin none: the maximal subpart of an ill-formed sequence,
  one to three bytes. Only the last chunk may have no such bytes. The chunks hold every
  byte of the input, in order (`flatMap_bytes_chunks`); a text is read back from its
  encoding (`encode_injective`).
-/

import Mathlib.Data.List.Basic

namespace SudoWhat.Lib.Utf8

abbrev Bytes := List UInt8

def encode (cs : List Char) : Bytes := cs.flatMap String.utf8EncodeChar

/-! ## One sequence -/

def isCont (b : UInt8) : Bool := 0x80 ≤ b.toNat && b.toNat ≤ 0xBF

/-- The second byte a three- or four-byte sequence may have after `lead`. -/
def isSecond (lead b : UInt8) : Bool :=
  if lead.toNat = 0xE0 then 0xA0 ≤ b.toNat && b.toNat ≤ 0xBF
  else if lead.toNat = 0xED then 0x80 ≤ b.toNat && b.toNat ≤ 0x9F
  else if lead.toNat = 0xF0 then 0x90 ≤ b.toNat && b.toNat ≤ 0xBF
  else if lead.toNat = 0xF4 then 0x80 ≤ b.toNat && b.toNat ≤ 0x8F
  else isCont b

/-- What a byte and the bytes after it begin with; `more` counts the bytes it takes
    after the first. -/
inductive Head where
  | seq (c : Char) (more : Nat)
  | cut (more : Nat)
  deriving DecidableEq, Repr

def two (lead : UInt8) : Bytes → Head
  | b1 :: _ =>
    if isCont b1 then .seq (Char.ofNat ((lead.toNat - 0xC0) * 64 + (b1.toNat - 0x80))) 1 else .cut 0
  | [] => .cut 0

def three (lead : UInt8) : Bytes → Head
  | b1 :: rest =>
    if isSecond lead b1 then
      match rest with
      | b2 :: _ =>
        if isCont b2 then
          .seq (Char.ofNat ((lead.toNat - 0xE0) * 4096 + (b1.toNat - 0x80) * 64 + (b2.toNat - 0x80))) 2
        else .cut 1
      | [] => .cut 1
    else .cut 0
  | [] => .cut 0

def four (lead : UInt8) : Bytes → Head
  | b1 :: rest =>
    if isSecond lead b1 then
      match rest with
      | b2 :: rest =>
        if isCont b2 then
          match rest with
          | b3 :: _ =>
            if isCont b3 then
              .seq (Char.ofNat ((lead.toNat - 0xF0) * 262144 + (b1.toNat - 0x80) * 4096 +
                (b2.toNat - 0x80) * 64 + (b3.toNat - 0x80))) 3
            else .cut 2
          | [] => .cut 2
        else .cut 1
      | [] => .cut 1
    else .cut 0
  | [] => .cut 0

def head (lead : UInt8) (rest : Bytes) : Head :=
  if lead.toNat < 0x80 then .seq (Char.ofNat lead.toNat) 0
  else if 0xC2 ≤ lead.toNat ∧ lead.toNat ≤ 0xDF then two lead rest
  else if 0xE0 ≤ lead.toNat ∧ lead.toNat ≤ 0xEF then three lead rest
  else if 0xF0 ≤ lead.toNat ∧ lead.toNat ≤ 0xF4 then four lead rest
  else .cut 0

/-! ## Chunks -/

structure Chunk where
  valid : List Char
  invalid : Bytes
  deriving DecidableEq, Repr

def Chunk.bytes (c : Chunk) : Bytes := encode c.valid ++ c.invalid

/-- The first chunk and the bytes after it; `n` bounds the sequences it reads. -/
def nextChunk : Nat → Bytes → Chunk × Bytes
  | 0, bs => (⟨[], []⟩, bs)
  | _ + 1, [] => (⟨[], []⟩, [])
  | n + 1, b :: rest =>
    match head b rest with
    | .seq c more =>
      let r := nextChunk n (rest.drop more)
      (⟨c :: r.1.valid, r.1.invalid⟩, r.2)
    | .cut more => (⟨[], b :: rest.take more⟩, rest.drop more)

def chunksN : Nat → Bytes → List Chunk
  | 0, _ => []
  | _ + 1, [] => []
  | n + 1, b :: rest =>
    let r := nextChunk (rest.length + 1) (b :: rest)
    r.1 :: chunksN n r.2

def chunks (bs : Bytes) : List Chunk := chunksN bs.length bs

/-! ## A sequence is its character's encoding -/

theorem toNat_ofNat {n : Nat} (h : n.isValidChar) : (Char.ofNat n).val.toNat = n := by
  rw [Char.ofNat, dif_pos h]
  rfl

theorem encode_two {n : Nat} (hv : n.isValidChar) (h1 : 0x7f < n) (h2 : n ≤ 0x7ff) :
    String.utf8EncodeChar (Char.ofNat n) = [UInt8.ofNat (n / 64 % 32 + 192), UInt8.ofNat (n % 64 + 128)] := by
  simp only [String.utf8EncodeChar, toNat_ofNat hv]
  rw [if_neg (by omega), if_pos h2]

theorem encode_three {n : Nat} (hv : n.isValidChar) (h1 : 0x7ff < n) (h2 : n ≤ 0xffff) :
    String.utf8EncodeChar (Char.ofNat n) =
      [UInt8.ofNat (n / 4096 % 16 + 224), UInt8.ofNat (n / 64 % 64 + 128), UInt8.ofNat (n % 64 + 128)] := by
  simp only [String.utf8EncodeChar, toNat_ofNat hv]
  rw [if_neg (by omega), if_neg (by omega), if_pos h2]

theorem encode_four {n : Nat} (hv : n.isValidChar) (h1 : 0xffff < n) :
    String.utf8EncodeChar (Char.ofNat n) =
      [UInt8.ofNat (n / 262144 % 8 + 240), UInt8.ofNat (n / 4096 % 64 + 128),
        UInt8.ofNat (n / 64 % 64 + 128), UInt8.ofNat (n % 64 + 128)] := by
  simp only [String.utf8EncodeChar, toNat_ofNat hv]
  rw [if_neg (by omega), if_neg (by omega), if_neg (by omega)]

theorem ofNat_eq {b : UInt8} {n : Nat} (h : n = b.toNat) : UInt8.ofNat n = b := by
  rw [h]; exact UInt8.ofNat_toNat

theorem isCont_bounds {b : UInt8} (h : isCont b = true) : 0x80 ≤ b.toNat ∧ b.toNat ≤ 0xBF := by
  simpa [isCont] using h

/-- A second byte is a continuation byte, and keeps the value out of the shorter forms,
    the surrogates and what lies past U+10FFFF. -/
theorem isSecond_bounds {lead b : UInt8} (h : isSecond lead b = true) :
    (0x80 ≤ b.toNat ∧ b.toNat ≤ 0xBF) ∧ (lead.toNat = 0xE0 → 0xA0 ≤ b.toNat) ∧
      (lead.toNat = 0xED → b.toNat ≤ 0x9F) ∧ (lead.toNat = 0xF0 → 0x90 ≤ b.toNat) ∧
      (lead.toNat = 0xF4 → b.toNat ≤ 0x8F) := by
  unfold isSecond at h
  repeat' split at h
  all_goals simp only [isCont, Bool.and_eq_true, decide_eq_true_eq] at h; omega

/-- The bytes a well-formed head takes are its character's encoding. -/
theorem two_seq {lead : UInt8} {rest : Bytes} {c : Char} {k : Nat} (hl : 0xC2 ≤ lead.toNat ∧ lead.toNat ≤ 0xDF)
    (h : two lead rest = .seq c k) : k ≤ rest.length ∧ String.utf8EncodeChar c = lead :: rest.take k := by
  cases rest with
  | nil => simp [two] at h
  | cons b1 rest =>
    simp only [two] at h
    split at h
    · rename_i h1
      obtain ⟨rfl, rfl⟩ := Head.seq.inj h
      have := isCont_bounds h1
      have hv : ((lead.toNat - 0xC0) * 64 + (b1.toNat - 0x80)).isValidChar := Or.inl (by omega)
      rw [encode_two hv (by omega) (by omega)]
      refine ⟨by simp, ?_⟩
      rw [ofNat_eq (b := lead) (by omega), ofNat_eq (b := b1) (by omega)]
      rfl
    · cases h

theorem three_seq {lead : UInt8} {rest : Bytes} {c : Char} {k : Nat} (hl : 0xE0 ≤ lead.toNat ∧ lead.toNat ≤ 0xEF)
    (h : three lead rest = .seq c k) : k ≤ rest.length ∧ String.utf8EncodeChar c = lead :: rest.take k := by
  rcases rest with _ | ⟨b1, _ | ⟨b2, rest⟩⟩
  · simp [three] at h
  · simp only [three] at h
    split at h <;> cases h
  · simp only [three] at h
    split at h
    · rename_i h1
      split at h
      · rename_i h2
        obtain ⟨rfl, rfl⟩ := Head.seq.inj h
        have hs := isSecond_bounds h1
        have hc := isCont_bounds h2
        have hv : ((lead.toNat - 0xE0) * 4096 + (b1.toNat - 0x80) * 64 + (b2.toNat - 0x80)).isValidChar := by
          by_cases he : lead.toNat = 0xEE ∨ lead.toNat = 0xEF
          · exact Or.inr (by omega)
          · exact Or.inl (by omega)
        rw [encode_three hv (by omega) (by omega)]
        refine ⟨by simp, ?_⟩
        rw [ofNat_eq (b := lead) (by omega), ofNat_eq (b := b1) (by omega), ofNat_eq (b := b2) (by omega)]
        rfl
      · cases h
    · cases h

theorem four_seq {lead : UInt8} {rest : Bytes} {c : Char} {k : Nat} (hl : 0xF0 ≤ lead.toNat ∧ lead.toNat ≤ 0xF4)
    (h : four lead rest = .seq c k) : k ≤ rest.length ∧ String.utf8EncodeChar c = lead :: rest.take k := by
  rcases rest with _ | ⟨b1, _ | ⟨b2, _ | ⟨b3, rest⟩⟩⟩
  · simp [four] at h
  · simp only [four] at h
    split at h <;> cases h
  · simp only [four] at h
    repeat' split at h
    all_goals cases h
  · simp only [four] at h
    split at h
    · rename_i h1
      split at h
      · rename_i h2
        split at h
        · rename_i h3
          obtain ⟨rfl, rfl⟩ := Head.seq.inj h
          have hs := isSecond_bounds h1
          have hc2 := isCont_bounds h2
          have hc3 := isCont_bounds h3
          have hv : ((lead.toNat - 0xF0) * 262144 + (b1.toNat - 0x80) * 4096 + (b2.toNat - 0x80) * 64 +
              (b3.toNat - 0x80)).isValidChar := Or.inr (by omega)
          rw [encode_four hv (by omega)]
          refine ⟨by simp, ?_⟩
          rw [ofNat_eq (b := lead) (by omega), ofNat_eq (b := b1) (by omega), ofNat_eq (b := b2) (by omega),
            ofNat_eq (b := b3) (by omega)]
          rfl
        · cases h
      · cases h
    · cases h

theorem head_seq {lead : UInt8} {rest : Bytes} {c : Char} {k : Nat} (h : head lead rest = .seq c k) :
    k ≤ rest.length ∧ String.utf8EncodeChar c = lead :: rest.take k := by
  unfold head at h
  split at h
  · rename_i hl
    obtain ⟨rfl, rfl⟩ := Head.seq.inj h
    refine ⟨Nat.zero_le _, ?_⟩
    simp only [String.utf8EncodeChar, toNat_ofNat (Or.inl (by omega) : lead.toNat.isValidChar)]
    rw [if_pos (by omega), UInt8.ofNat_toNat]
    rfl
  · split at h
    · exact two_seq ‹_› h
    · split at h
      · exact three_seq ‹_› h
      · split at h
        · exact four_seq ‹_› h
        · cases h

/-! ## Encoding -/

@[simp] theorem encode_nil : encode [] = [] := rfl
@[simp] theorem encode_cons (c : Char) (cs : List Char) : encode (c :: cs) = String.utf8EncodeChar c ++ encode cs := rfl
@[simp] theorem encode_append (s t : List Char) : encode (s ++ t) = encode s ++ encode t := List.flatMap_append

/-- A character is read off the front of its encoding, whatever follows. -/
theorem utf8EncodeChar_append_inj {c d : Char} {s t : Bytes}
    (h : String.utf8EncodeChar c ++ s = String.utf8EncodeChar d ++ t) : c = d ∧ s = t := by
  have hc := @ByteArray.utf8DecodeChar?_utf8EncodeChar_append s.toByteArray c
  have hd := @ByteArray.utf8DecodeChar?_utf8EncodeChar_append t.toByteArray d
  have e : (String.utf8EncodeChar c).toByteArray ++ s.toByteArray =
      (String.utf8EncodeChar d).toByteArray ++ t.toByteArray := by
    rw [← List.toByteArray_append, h, List.toByteArray_append]
  rw [e, hd] at hc
  obtain rfl := Option.some.inj hc
  exact ⟨rfl, List.append_cancel_left h⟩

theorem encode_ne_nil {c : Char} {cs : List Char} : encode (c :: cs) ≠ [] := by
  intro h
  have hlen := congrArg List.length h
  have hpos := c.utf8Size_pos
  simp only [encode_cons, List.length_append, String.length_utf8EncodeChar, List.length_nil] at hlen
  omega

theorem encode_injective : Function.Injective encode := by
  intro s
  induction s with
  | nil =>
    intro t h
    cases t with
    | nil => rfl
    | cons d t => exact absurd h.symm encode_ne_nil
  | cons c s ih =>
    intro t h
    cases t with
    | nil => exact absurd h encode_ne_nil
    | cons d t =>
      obtain ⟨rfl, hrest⟩ := utf8EncodeChar_append_inj h
      rw [ih hrest]

/-! ## The chunks hold every byte -/

/-- The first chunk and the rest are the input, and the chunk takes at least a byte. -/
theorem nextChunk_bytes : ∀ (n : Nat) (bs : Bytes), bs.length ≤ n →
    (nextChunk n bs).1.bytes ++ (nextChunk n bs).2 = bs ∧ (bs ≠ [] → (nextChunk n bs).2.length < bs.length) := by
  intro n
  induction n with
  | zero =>
    intro bs h
    obtain rfl : bs = [] := List.eq_nil_of_length_eq_zero (by omega)
    simp [nextChunk, Chunk.bytes]
  | succ n ih =>
    intro bs h
    cases bs with
    | nil => simp [nextChunk, Chunk.bytes]
    | cons b rest =>
      simp only [List.length_cons] at h
      simp only [nextChunk]
      cases hh : head b rest with
      | seq c k =>
        obtain ⟨hk, he⟩ := head_seq hh
        obtain ⟨ih1, ih2⟩ := ih (rest.drop k) (by simp; omega)
        refine ⟨?_, fun _ => ?_⟩
        · calc (encode (c :: (nextChunk n (rest.drop k)).1.valid) ++ (nextChunk n (rest.drop k)).1.invalid)
                ++ (nextChunk n (rest.drop k)).2
              = String.utf8EncodeChar c ++ ((nextChunk n (rest.drop k)).1.bytes ++ (nextChunk n (rest.drop k)).2) := by
                simp [Chunk.bytes]
            _ = b :: rest := by rw [ih1, he, List.cons_append, List.take_append_drop]
        · have : (nextChunk n (rest.drop k)).2.length ≤ (rest.drop k).length := by
            by_cases e : rest.drop k = []
            · have := congrArg List.length ih1
              simp only [List.length_append] at this; omega
            · exact Nat.le_of_lt (ih2 e)
          simp only [List.length_drop, List.length_cons] at this ⊢; omega
      | cut k =>
        have hk : (rest.drop k).length ≤ rest.length := by rw [List.length_drop]; omega
        refine ⟨by simp [Chunk.bytes], fun _ => ?_⟩
        show (rest.drop k).length < (b :: rest).length
        rw [List.length_cons]
        omega

theorem chunksN_bytes : ∀ (n : Nat) (bs : Bytes), bs.length ≤ n → (chunksN n bs).flatMap Chunk.bytes = bs := by
  intro n
  induction n with
  | zero => intro bs h; simp [chunksN, List.eq_nil_of_length_eq_zero (Nat.le_zero.mp h)]
  | succ n ih =>
    intro bs h
    cases bs with
    | nil => rfl
    | cons b rest =>
      obtain ⟨h1, h2⟩ := nextChunk_bytes (rest.length + 1) (b :: rest) (Nat.le_refl _)
      have hlt := h2 (List.cons_ne_nil _ _)
      simp only [List.length_cons] at h hlt
      simp only [chunksN, List.flatMap_cons]
      rw [ih _ (by omega), h1]

theorem flatMap_bytes_chunks (bs : Bytes) : (chunks bs).flatMap Chunk.bytes = bs := chunksN_bytes _ bs (Nat.le_refl _)

example : chunks [0xC3, 0xA9, 0xFF, 0xE2, 0x82, 0x41] = [⟨['é'], [0xFF]⟩, ⟨[], [0xE2, 0x82]⟩, ⟨['A'], []⟩] := by decide

end SudoWhat.Lib.Utf8
