/-
  SudoWhat.Lib.Resync — the chunks of a byte string read one item at a time.

  A reader that takes a sequence's character where one begins, and otherwise gives up a
  single byte and tries again at the next, reads the same items as the chunks hold:
  what a chunk gives up after its first byte are continuation bytes, and none of those
  begins a sequence (`items_cons`). A byte below 0x80 is in no longer sequence, so the
  items of a string are those before it, itself, and those after (`items_append_ascii`).
-/

import SudoWhat.Lib.Utf8

namespace SudoWhat.Lib.Utf8

/-- What the chunks hold, in order: each character, and each byte that begins none. -/
def items (bs : Bytes) : List (Except UInt8 Char) :=
  (chunks bs).flatMap fun c => c.valid.map .ok ++ c.invalid.map .error

/-! ## Any bound that suffices reads the same chunks -/

theorem nextChunk_enough : ∀ (n m : Nat) (bs : Bytes), bs.length ≤ n → bs.length ≤ m →
    nextChunk n bs = nextChunk m bs := by
  intro n
  induction n with
  | zero =>
    intro m bs hn _
    obtain rfl : bs = [] := List.eq_nil_of_length_eq_zero (by omega)
    cases m <;> rfl
  | succ n ih =>
    intro m bs hn hm
    cases bs with
    | nil => cases m <;> rfl
    | cons b rest =>
      cases m with
      | zero => simp at hm
      | succ m =>
        simp only [List.length_cons] at hn hm
        simp only [nextChunk]
        cases head b rest with
        | seq c k => simp only [ih m (rest.drop k) (by simp; omega) (by simp; omega)]
        | cut k => rfl

theorem chunksN_enough : ∀ (n m : Nat) (bs : Bytes), bs.length ≤ n → bs.length ≤ m →
    chunksN n bs = chunksN m bs := by
  intro n
  induction n with
  | zero =>
    intro m bs hn _
    obtain rfl : bs = [] := List.eq_nil_of_length_eq_zero (by omega)
    cases m <;> rfl
  | succ n ih =>
    intro m bs hn hm
    cases bs with
    | nil => cases m <;> rfl
    | cons b rest =>
      cases m with
      | zero => simp at hm
      | succ m =>
        have hlt := (nextChunk_bytes (rest.length + 1) (b :: rest) (Nat.le_refl _)).2 (List.cons_ne_nil _ _)
        simp only [List.length_cons] at hn hm hlt
        simp only [chunksN]
        rw [ih m _ (by omega) (by omega)]

theorem chunksN_eq {n : Nat} {bs : Bytes} (h : bs.length ≤ n) : chunksN n bs = chunks bs :=
  chunksN_enough n bs.length bs h (Nat.le_refl _)

/-! ## One item -/

/-- The items of a byte string are those of its first chunk and those of what is left. -/
theorem items_next {n : Nat} {bs : Bytes} (h : bs.length ≤ n) :
    items bs = (nextChunk n bs).1.valid.map .ok ++ (nextChunk n bs).1.invalid.map .error ++
      items (nextChunk n bs).2 := by
  cases bs with
  | nil => cases n <;> rfl
  | cons b rest =>
    have hlt := (nextChunk_bytes n (b :: rest) h).2 (List.cons_ne_nil _ _)
    simp only [List.length_cons] at hlt
    rw [items, chunks, List.length_cons, chunksN, List.flatMap_cons,
      nextChunk_enough (rest.length + 1) n (b :: rest) (Nat.le_refl _) h, chunksN_eq (by omega)]
    rfl

theorem items_seq {b : UInt8} {rest : Bytes} {c : Char} {k : Nat} (h : head b rest = .seq c k) :
    items (b :: rest) = .ok c :: items (rest.drop k) := by
  have hk : (rest.drop k).length ≤ rest.length := by rw [List.length_drop]; omega
  rw [items_next (n := rest.length + 1) (by simp), items_next hk]
  simp [nextChunk, h]

theorem items_cut {b : UInt8} {rest : Bytes} {k : Nat} (h : head b rest = .cut k) :
    items (b :: rest) = .error b :: (rest.take k).map .error ++ items (rest.drop k) := by
  rw [items_next (n := rest.length + 1) (by simp)]
  simp [nextChunk, h]

theorem head_cont {b : UInt8} (h : isCont b = true) (rest : Bytes) : head b rest = .cut 0 := by
  have := isCont_bounds h
  unfold head
  rw [if_neg (by omega), if_neg (by omega), if_neg (by omega), if_neg (by omega)]

theorem items_cont {b : UInt8} (h : isCont b = true) (rest : Bytes) : items (b :: rest) = .error b :: items rest := by
  rw [items_cut (head_cont h rest)]
  simp

theorem items_conts : ∀ (bs rest : Bytes), (∀ b ∈ bs, isCont b = true) →
    items (bs ++ rest) = bs.map .error ++ items rest
  | [], _, _ => rfl
  | b :: bs, rest, h => by
    have hb : isCont b = true := h b (by simp)
    rw [List.cons_append, items_cont hb, items_conts bs rest (fun x hx => h x (by simp [hx]))]
    rfl

theorem isCont_of_isSecond {lead b : UInt8} (h : isSecond lead b = true) : isCont b = true := by
  simpa [isCont] using (isSecond_bounds h).1

theorem two_cut {lead : UInt8} {rest : Bytes} {k : Nat} (h : two lead rest = .cut k) : k = 0 := by
  unfold two at h
  repeat' split at h
  all_goals first | exact (Head.cut.inj h).symm | cases h

theorem three_cut {lead : UInt8} {rest : Bytes} {k : Nat} (h : three lead rest = .cut k) :
    ∀ x ∈ rest.take k, isCont x = true := by
  rcases rest with _ | ⟨b1, rest⟩
  · simp
  · by_cases h1 : isSecond lead b1 = true
    · -- the second byte fits: it is all that a cut can take
      have hk : k = 1 := by
        simp only [three, h1, if_true] at h
        repeat' split at h
        all_goals first | exact (Head.cut.inj h).symm | cases h
      subst hk
      simpa using isCont_of_isSecond h1
    · obtain rfl : k = 0 := by simpa [three, h1] using h.symm
      simp

theorem four_cut {lead : UInt8} {rest : Bytes} {k : Nat} (h : four lead rest = .cut k) :
    ∀ x ∈ rest.take k, isCont x = true := by
  rcases rest with _ | ⟨b1, rest⟩
  · simp
  · by_cases h1 : isSecond lead b1 = true
    · have hb1 := isCont_of_isSecond h1
      rcases rest with _ | ⟨b2, rest⟩
      · intro x hx
        have := List.mem_of_mem_take hx
        simp_all
      · by_cases h2 : isCont b2 = true
        · have hk : k = 2 := by
            simp only [four, h1, h2, if_true] at h
            repeat' split at h
            all_goals first | exact (Head.cut.inj h).symm | cases h
          subst hk
          simpa using ⟨hb1, h2⟩
        · obtain rfl : k = 1 := by simpa [four, h1, h2] using h.symm
          simpa using hb1
    · obtain rfl : k = 0 := by simpa [four, h1] using h.symm
      simp

/-- The bytes a chunk gives up after its first are continuation bytes. -/
theorem head_cut {b : UInt8} {rest : Bytes} {k : Nat} (h : head b rest = .cut k) :
    ∀ x ∈ rest.take k, isCont x = true := by
  unfold head at h
  split at h
  · cases h
  · split at h
    · simp [two_cut h]
    · split at h
      · exact three_cut h
      · split at h
        · exact four_cut h
        · obtain rfl := Head.cut.inj h
          simp

/-- The items, read with a step of one byte past each byte that begins no sequence. -/
theorem items_cons (b : UInt8) (rest : Bytes) :
    items (b :: rest) =
      match head b rest with
      | .seq c k => .ok c :: items (rest.drop k)
      | .cut _ => .error b :: items rest := by
  cases h : head b rest with
  | seq c k => exact items_seq h
  | cut k =>
    have hrest : items rest = (rest.take k).map .error ++ items (rest.drop k) := by
      rw [← items_conts _ _ (head_cut h), List.take_append_drop]
    rw [items_cut h, List.cons_append, ← hrest]

/-! ## Bytes below 0x80 -/

section

variable {a : UInt8} (ha : a.toNat < 0x80)
include ha

theorem isCont_ascii : isCont a = false := by
  by_contra h
  have := isCont_bounds (by simpa using h)
  omega

theorem isSecond_ascii (lead : UInt8) : isSecond lead a = false := by
  by_contra h
  have := (@isSecond_bounds lead a (by simpa using h)).1
  omega

theorem head_append_ascii (b : UInt8) (rest suf : Bytes) : head b (rest ++ a :: suf) = head b rest := by
  have hc := isCont_ascii ha
  have hs := isSecond_ascii ha b
  have h2 : two b (rest ++ a :: suf) = two b rest := by
    rcases rest with _ | ⟨b1, rest⟩ <;> simp [two, hc]
  have h3 : three b (rest ++ a :: suf) = three b rest := by
    rcases rest with _ | ⟨b1, _ | ⟨b2, rest⟩⟩ <;> simp [three, hc, hs]
  have h4 : four b (rest ++ a :: suf) = four b rest := by
    rcases rest with _ | ⟨b1, _ | ⟨b2, _ | ⟨b3, rest⟩⟩⟩ <;> simp [four, hc, hs]
  simp only [head, h2, h3, h4]

theorem items_ascii (rest : Bytes) : items (a :: rest) = .ok (Char.ofNat a.toNat) :: items rest := by
  have h : head a rest = .seq (Char.ofNat a.toNat) 0 := if_pos ha
  rw [items_seq h]
  rfl

theorem items_append_ascii (pre suf : Bytes) :
    items (pre ++ a :: suf) = items pre ++ .ok (Char.ofNat a.toNat) :: items suf := by
  induction hn : pre.length using Nat.strongRecOn generalizing pre with
  | ind n ih =>
    subst hn
    cases pre with
    | nil => exact items_ascii ha suf
    | cons b rest =>
      rw [List.cons_append, items_cons, items_cons b rest, head_append_ascii ha]
      cases h : head b rest with
      | seq c k =>
        have hk := (head_seq h).1
        simp only [List.drop_append_of_le_length hk, List.cons_append]
        rw [ih _ (by rw [List.length_drop, List.length_cons]; omega) _ rfl]
      | cut k =>
        simp only [List.cons_append]
        rw [ih _ (by simp) _ rfl]

end

/-! ## Bytes below 0x80 alone -/

def asciiText (bs : Bytes) : List Char := bs.map fun b => Char.ofNat b.toNat

theorem utf8EncodeChar_ascii {b : UInt8} (h : b.toNat < 0x80) : String.utf8EncodeChar (Char.ofNat b.toNat) = [b] := by
  have hv : (Char.ofNat b.toNat).val.toNat = b.toNat := toNat_ofNat (.inl (by omega))
  unfold String.utf8EncodeChar
  simp only [hv]
  rw [if_pos (by omega), ofNat_eq rfl]

theorem encoded_ascii {c : Char} {b : UInt8} (hb : b ∈ String.utf8EncodeChar c) (h : b.toNat < 0x80) :
    String.utf8EncodeChar c = [b] ∧ c.toNat = b.toNat := by
  have hbyte : ∀ n, b = UInt8.ofNat n → b.toNat = n % 256 := fun n hn => (congrArg UInt8.toNat hn)
  have hhigh : ∀ n, b = UInt8.ofNat n → ¬ (0x80 ≤ n ∧ n < 256) := by
    intro n hn hlt
    have := hbyte n hn
    omega
  unfold String.utf8EncodeChar at hb ⊢
  dsimp only at hb ⊢
  by_cases h1 : c.val.toNat ≤ 0x7f
  · rw [if_pos h1] at hb ⊢
    obtain rfl := List.mem_singleton.mp hb
    have hn := hbyte _ rfl
    have hc : c.toNat = c.val.toNat := rfl
    exact ⟨rfl, by omega⟩
  · rw [if_neg h1] at hb
    exfalso
    split at hb
    · simp only [List.mem_cons, List.not_mem_nil, or_false] at hb
      rcases hb with hb | hb <;> exact hhigh _ hb (by omega)
    · split at hb
      · simp only [List.mem_cons, List.not_mem_nil, or_false] at hb
        rcases hb with hb | hb | hb <;> exact hhigh _ hb (by omega)
      · simp only [List.mem_cons, List.not_mem_nil, or_false] at hb
        rcases hb with hb | hb | hb | hb <;> exact hhigh _ hb (by omega)

theorem zero_not_mem_encode {cs : List Char} (h : ∀ c ∈ cs, c.toNat ≠ 0) : 0 ∉ encode cs := by
  intro hm
  obtain ⟨c, hc, hb⟩ := List.mem_flatMap.mp hm
  exact h c hc (encoded_ascii hb (by decide)).2

theorem encode_eq_append_ascii {a : UInt8} (ha : a.toNat < 0x80) : ∀ {text : List Char} {before after : Bytes},
    encode text = before ++ a :: after →
      ∃ t c t', text = t ++ c :: t' ∧ encode t = before ∧ String.utf8EncodeChar c = [a] ∧ encode t' = after
  | [], before, after, h => absurd h (by simp)
  | c :: cs, before, after, h => by
    rw [encode_cons] at h
    rcases List.append_eq_append_iff.mp h with ⟨as, hbefore, hcs⟩ | ⟨bs, hc, hbs⟩
    · obtain ⟨t, d, t', rfl, ht, hd, ht'⟩ := encode_eq_append_ascii ha hcs
      exact ⟨c :: t, d, t', rfl, by rw [encode_cons, ht, hbefore], hd, ht'⟩
    · rcases bs with _ | ⟨b, bs⟩
      · have hempty : encode cs = [] ++ a :: after := hbs.symm
        obtain ⟨t, d, t', rfl, ht, hd, ht'⟩ := encode_eq_append_ascii ha hempty
        refine ⟨c :: t, d, t', rfl, ?_, hd, ht'⟩
        rw [encode_cons, ht, hc]
        simp
      · obtain ⟨rfl, hafter⟩ := List.cons.inj hbs
        have hone := (encoded_ascii (hc ▸ List.mem_append_right _ List.mem_cons_self) ha).1
        rw [hc] at hone
        obtain ⟨rfl, hnil⟩ : before = [] ∧ bs = [] := by
          cases before with
          | nil => exact ⟨rfl, (List.cons.inj hone).2⟩
          | cons d before => simp at hone
        subst hnil
        exact ⟨[], c, cs, rfl, rfl, hc, hafter.symm⟩

theorem prefix_of_encode {needle : List Char} : ∀ {text : List Char} {after : Bytes},
    encode text = encode needle ++ after → ∃ rest, text = needle ++ rest := by
  induction needle with
  | nil => intro text after _; exact ⟨text, rfl⟩
  | cons c needle ih =>
    intro text after he
    cases text with
    | nil =>
      have hlen := congrArg List.length he
      have hpos := c.utf8Size_pos
      simp only [encode_nil, encode_cons, List.length_append, String.length_utf8EncodeChar, List.length_nil] at hlen
      omega
    | cons d text =>
      rw [encode_cons, encode_cons, List.append_assoc] at he
      obtain ⟨rfl, hrest⟩ := utf8EncodeChar_append_inj he
      obtain ⟨rest, rfl⟩ := ih hrest
      exact ⟨rest, rfl⟩

/-- A word that begins below 0x80 stands in the bytes where it stands in the text. -/
theorem infix_encode_iff {c : Char} {word text : List Char} (hc : c.toNat < 0x80) :
    encode (c :: word) <:+: encode text ↔ c :: word <:+: text := by
  constructor
  · intro ⟨before, after, h⟩
    have hlt : (UInt8.ofNat c.toNat).toNat < 0x80 := by
      show c.toNat % 256 < 0x80
      omega
    have hone : String.utf8EncodeChar c = [UInt8.ofNat c.toNat] := by
      have hv : c.val.toNat ≤ 0x7f := Nat.le_of_lt_succ hc
      unfold String.utf8EncodeChar
      exact if_pos hv
    rw [encode_cons, hone, List.append_assoc, List.append_assoc, List.singleton_append] at h
    obtain ⟨t, d, t', rfl, -, hd, ht'⟩ := encode_eq_append_ascii hlt h.symm
    obtain ⟨rfl, -⟩ := @utf8EncodeChar_append_inj c d [] [] (by rw [hone, hd])
    obtain ⟨rest, rfl⟩ := prefix_of_encode ht'
    exact ⟨t, rest, by simp⟩
  · intro ⟨before, after, h⟩
    exact ⟨encode before, encode after, by rw [← encode_append, ← encode_append, h]⟩

theorem encode_asciiText : ∀ {bs : Bytes}, (∀ b ∈ bs, b.toNat < 0x80) → encode (asciiText bs) = bs
  | [], _ => rfl
  | b :: bs, h => by
    have ih := encode_asciiText fun c hc => h c (List.mem_cons_of_mem _ hc)
    show String.utf8EncodeChar (Char.ofNat b.toNat) ++ encode (asciiText bs) = b :: bs
    rw [ih, utf8EncodeChar_ascii (h b List.mem_cons_self), List.singleton_append]

end SudoWhat.Lib.Utf8
