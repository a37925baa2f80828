/-
  SudoWhat.Lib.Decode — a strict UTF-8 decoder.

  It gives the text of bytes that are well formed throughout, and nothing otherwise. Proved:
  an encoded text is read character by character (`items_encode`), so decoding it gives it
  back (`decode_encode`).
-/

import SudoWhat.Lib.Resync

namespace SudoWhat.Lib.Utf8

/-- The text, if every byte belongs to a character. -/
def decode (bs : Bytes) : Option (List Char) := (items bs).mapM Except.toOption

theorem toNat_byte {n : Nat} (h : n < 256) : (UInt8.ofNat n).toNat = n := by
  rw [UInt8.toNat_ofNat']
  exact Nat.mod_eq_of_lt h

theorem head_two {n : Nat} (h1 : 0x7f < n) (h2 : n ≤ 0x7ff) (rest : Bytes) :
    head (UInt8.ofNat (n / 64 % 32 + 192)) (UInt8.ofNat (n % 64 + 128) :: rest) = .seq (Char.ofNat n) 1 := by
  have hb : (UInt8.ofNat (n / 64 % 32 + 192)).toNat = n / 64 + 192 := by rw [toNat_byte (by omega)]; omega
  have hc : (UInt8.ofNat (n % 64 + 128)).toNat = n % 64 + 128 := toNat_byte (by omega)
  have hcont : isCont (UInt8.ofNat (n % 64 + 128)) = true := by
    rw [isCont, hc]
    simp
    omega
  have hn : (n / 64 + 192 - 0xC0) * 64 + (n % 64 + 128 - 0x80) = n := by omega
  rw [head, hb, if_neg (by omega), if_pos (by omega), two, if_pos hcont, hb, hc, hn]

theorem head_three {n : Nat} (hv : n.isValidChar) (h1 : 0x7ff < n) (h2 : n ≤ 0xffff) (rest : Bytes) :
    head (UInt8.ofNat (n / 4096 % 16 + 224)) (UInt8.ofNat (n / 64 % 64 + 128) :: UInt8.ofNat (n % 64 + 128) :: rest) =
      .seq (Char.ofNat n) 2 := by
  have hb : (UInt8.ofNat (n / 4096 % 16 + 224)).toNat = n / 4096 + 224 := by rw [toNat_byte (by omega)]; omega
  have hc : (UInt8.ofNat (n / 64 % 64 + 128)).toNat = n / 64 % 64 + 128 := toNat_byte (by omega)
  have hd : (UInt8.ofNat (n % 64 + 128)).toNat = n % 64 + 128 := toNat_byte (by omega)
  have hsecond : isSecond (UInt8.ofNat (n / 4096 % 16 + 224)) (UInt8.ofNat (n / 64 % 64 + 128)) = true := by
    unfold Nat.isValidChar at hv
    rw [isSecond, isCont, hb, hc]
    split
    · simp; omega
    · split
      · simp; omega
      · split
        · omega
        · split
          · omega
          · simp; omega
  have hcont : isCont (UInt8.ofNat (n % 64 + 128)) = true := by
    rw [isCont, hd]
    simp
    omega
  have hn : (n / 4096 + 224 - 0xE0) * 4096 + (n / 64 % 64 + 128 - 0x80) * 64 + (n % 64 + 128 - 0x80) = n := by omega
  rw [head, hb, if_neg (by omega), if_neg (by omega), if_pos (by omega), three, if_pos hsecond, if_pos hcont, hb, hc, hd, hn]

theorem head_four {n : Nat} (hv : n.isValidChar) (h1 : 0xffff < n) (rest : Bytes) :
    head (UInt8.ofNat (n / 262144 % 8 + 240)) (UInt8.ofNat (n / 4096 % 64 + 128) :: UInt8.ofNat (n / 64 % 64 + 128) ::
      UInt8.ofNat (n % 64 + 128) :: rest) = .seq (Char.ofNat n) 3 := by
  have hlt : n < 0x110000 := by
    unfold Nat.isValidChar at hv
    omega
  have hb : (UInt8.ofNat (n / 262144 % 8 + 240)).toNat = n / 262144 + 240 := by rw [toNat_byte (by omega)]; omega
  have hc : (UInt8.ofNat (n / 4096 % 64 + 128)).toNat = n / 4096 % 64 + 128 := toNat_byte (by omega)
  have hd : (UInt8.ofNat (n / 64 % 64 + 128)).toNat = n / 64 % 64 + 128 := toNat_byte (by omega)
  have he : (UInt8.ofNat (n % 64 + 128)).toNat = n % 64 + 128 := toNat_byte (by omega)
  have hsecond : isSecond (UInt8.ofNat (n / 262144 % 8 + 240)) (UInt8.ofNat (n / 4096 % 64 + 128)) = true := by
    rw [isSecond, isCont, hb, hc]
    split
    · omega
    · split
      · omega
      · split
        · simp; omega
        · split
          · simp; omega
          · simp; omega
  have hcont : isCont (UInt8.ofNat (n / 64 % 64 + 128)) = true := by
    rw [isCont, hd]
    simp
    omega
  have hcont' : isCont (UInt8.ofNat (n % 64 + 128)) = true := by
    rw [isCont, he]
    simp
    omega
  have hn : (n / 262144 + 240 - 0xF0) * 262144 + (n / 4096 % 64 + 128 - 0x80) * 4096 + (n / 64 % 64 + 128 - 0x80) * 64 +
      (n % 64 + 128 - 0x80) = n := by omega
  rw [head, hb, if_neg (by omega), if_neg (by omega), if_neg (by omega), if_pos (by omega), four, if_pos hsecond, if_pos hcont,
    if_pos hcont', hb, hc, hd, he, hn]

theorem items_encodeChar (c : Char) (rest : Bytes) : items (String.utf8EncodeChar c ++ rest) = .ok c :: items rest := by
  have hv : c.toNat.isValidChar := c.valid
  have hc : Char.ofNat c.toNat = c := Char.ofNat_toNat c
  by_cases h1 : c.toNat ≤ 0x7f
  · have hb : (UInt8.ofNat c.toNat).toNat = c.toNat := toNat_byte (by omega)
    have henc : String.utf8EncodeChar c = [UInt8.ofNat c.toNat] := by
      have := utf8EncodeChar_ascii (b := UInt8.ofNat c.toNat) (by omega)
      rwa [hb, hc] at this
    have hitems := items_ascii (a := UInt8.ofNat c.toNat) (by omega) rest
    rw [henc]
    rwa [hb, hc] at hitems
  · by_cases h2 : c.toNat ≤ 0x7ff
    · have henc := encode_two hv (by omega) h2
      rw [hc] at henc
      rw [henc]
      have hseq := items_seq (head_two (by omega) h2 rest)
      rwa [hc] at hseq
    · by_cases h3 : c.toNat ≤ 0xffff
      · have henc := encode_three hv (by omega) h3
        rw [hc] at henc
        rw [henc]
        have hseq := items_seq (head_three hv (by omega) h3 rest)
        rwa [hc] at hseq
      · have henc := encode_four hv (by omega)
        rw [hc] at henc
        rw [henc]
        have hseq := items_seq (head_four hv (by omega) rest)
        rwa [hc] at hseq

theorem items_encode (t : List Char) : items (encode t) = t.map .ok := by
  induction t with
  | nil => rfl
  | cons c cs ih => rw [encode_cons, items_encodeChar, ih, List.map_cons]

theorem decode_encode (t : List Char) : decode (encode t) = some t := by
  have hall : ∀ t : List Char, (t.map (Except.ok : Char → Except UInt8 Char)).mapM Except.toOption = some t := by
    intro t
    induction t with
    | nil => rfl
    | cons c cs ih =>
      rw [List.map_cons, List.mapM_cons, ih]
      rfl
  rw [decode, items_encode, hall]

end SudoWhat.Lib.Utf8
