/-
  SudoWhat.EscapeCore.TokenParts — the parts of a quoted token, byte by byte.

  A space or a slash is one byte, stands in no longer sequence, begins no escape and ends
  any lookahead; it is drawn as one part of its own. So a token's parts are cut where its
  bytes are: the parts of `pre ++ [b] ++ suf` are those of `pre`, the byte's, and those of
  `suf` (`tokenParts_append`), and a part that shows a space or a slash stands for that
  byte (`tokenParts_split`).
-/

import SudoWhat.Lib.Resync
import SudoWhat.EscapeCore.CommandLine

namespace SudoWhat.EscapeCore

open SudoWhat.Lib

/-- A space or a slash. -/
def IsSolid (b : UInt8) : Prop := b = 0x20 ∨ b = slash

/-- The part such a byte is drawn as. -/
def solidPart (b : UInt8) : Part := ⟨[Char.ofNat b.toNat], .plain⟩

def partsOf (ds : List Item) : List Part := (piecesOf ds).flatMap renderPiece

/-- The parts between the quotes of a quoted token. -/
def tokenParts (raw : Bytes) : List Part := partsOf (decoded raw)

@[simp] theorem partsOf_nil : partsOf [] = [] := rfl
@[simp] theorem partsOf_cons (d : Item) (ds : List Item) : partsOf (d :: ds) = renderPiece (pieceOf d ds) ++ partsOf ds := rfl

section

variable {b : UInt8} (hb : IsSolid b)
include hb

theorem solid_char : Char.ofNat b.toNat = ' ' ∨ Char.ofNat b.toNat = '/' := by
  rcases hb with rfl | rfl
  · exact .inl rfl
  · exact .inr rfl

theorem solid_ascii : b.toNat < 0x80 := by
  rcases hb with rfl | rfl <;> decide

/-! ## The lookahead stops -/

theorem beginsEscape_append (xs ys : List Item) :
    beginsEscape (xs ++ .ok (Char.ofNat b.toNat) :: ys) = beginsEscape xs := by
  have hc := solid_char hb
  generalize Char.ofNat b.toNat = c at hc
  have hu : c ≠ 'u' ∧ c ≠ '\x7b' ∧ c ≠ 'x' ∧ isAsciiHexdigit c = false := by
    rcases hc with rfl | rfl <;> decide
  rcases xs with _ | ⟨x, _ | ⟨y, xs⟩⟩
  · unfold beginsEscape
    split <;> simp_all
  · unfold beginsEscape
    rw [List.cons_append, List.nil_append]
    split <;> simp_all
  · unfold beginsEscape
    simp only [List.cons_append]
    split <;> simp_all

theorem piecesOf_append (xs ys : List Item) :
    piecesOf (xs ++ .ok (Char.ofNat b.toNat) :: ys) = piecesOf xs ++ piecesOf (.ok (Char.ofNat b.toNat) :: ys) := by
  induction xs with
  | nil => rfl
  | cons d xs ih =>
    simp only [List.cons_append, piecesOf] at ih ⊢
    rw [ih]
    simp only [pieceOf, beginsEscape_append hb]

theorem pieceOf_solid (rest : List Item) : pieceOf (.ok (Char.ofNat b.toNat)) rest = .char (Char.ofNat b.toNat) := by
  rcases hb with rfl | rfl
  · rfl
  · rfl

theorem renderPiece_solid : renderPiece (.char (Char.ofNat b.toNat)) = [solidPart b] := by
  rcases hb with rfl | rfl <;> rfl

theorem partsOf_append (xs ys : List Item) :
    partsOf (xs ++ .ok (Char.ofNat b.toNat) :: ys) = partsOf xs ++ solidPart b :: partsOf ys := by
  rw [partsOf, piecesOf_append hb, List.flatMap_append, piecesOf, pieceOf_solid hb, List.flatMap_cons,
    renderPiece_solid hb]
  rfl

theorem decoded_append (pre suf : Bytes) :
    decoded (pre ++ b :: suf) = decoded pre ++ .ok (Char.ofNat b.toNat) :: decoded suf :=
  Utf8.items_append_ascii (solid_ascii hb) pre suf

theorem tokenParts_append (pre suf : Bytes) :
    tokenParts (pre ++ b :: suf) = tokenParts pre ++ solidPart b :: tokenParts suf := by
  rw [tokenParts, decoded_append hb, partsOf_append hb]
  rfl

/-! ## What shows such a part -/

theorem eq_char_of_solid_mem {p : Piece} (h : solidPart b ∈ renderPiece p) : p = .char (Char.ofNat b.toNat) := by
  have hc := solid_char hb
  unfold solidPart at h
  generalize Char.ofNat b.toNat = c at h hc
  unfold renderPiece at h
  split at h
  · -- the parts of the quote idiom show a quote or a backslash
    rcases hc with rfl | rfl <;> exact absurd h (by decide)
  · rcases hc with rfl | rfl <;> exact absurd h (by decide)
  · rcases hc with rfl | rfl <;> exact absurd h (by decide)
  · exact absurd (congrArg Part.mark (List.mem_singleton.mp h)) (by simp)
  · have htext : [c] = p.text := congrArg Part.text (List.mem_singleton.mp h)
    cases p with
    | char c' => rw [(List.cons.inj htext).1]
    | hidden u => exact absurd (congrArg List.length htext) (by simp [Piece.text, pushCodePoint])
    | byte x => exact absurd (congrArg List.length htext) (by simp [Piece.text, pushByte])
    | backslash => exact absurd (congrArg List.length htext) (by simp [Piece.text, pushCodePoint])

theorem partsOf_split : ∀ (ds : List Item) (u v : List Part), partsOf ds = u ++ solidPart b :: v →
    ∃ ds1 ds2, ds = ds1 ++ .ok (Char.ofNat b.toNat) :: ds2 ∧ partsOf ds1 = u ∧ partsOf ds2 = v := by
  intro ds
  induction ds with
  | nil => intro u v h; simp at h
  | cons d ds ih =>
    intro u v h
    rw [partsOf_cons] at h
    -- past this item's parts
    have hlater : ∀ a, u = renderPiece (pieceOf d ds) ++ a → partsOf ds = a ++ solidPart b :: v →
        ∃ ds1 ds2, d :: ds = ds1 ++ .ok (Char.ofNat b.toNat) :: ds2 ∧ partsOf ds1 = u ∧ partsOf ds2 = v := by
      intro a hu hrest
      obtain ⟨ds1, ds2, rfl, h1, h2⟩ := ih a v hrest
      refine ⟨d :: ds1, ds2, rfl, ?_, h2⟩
      rw [partsOf_cons, h1, hu]
      simp only [pieceOf, beginsEscape_append hb]
    rcases List.append_eq_append_iff.mp h with ⟨a, hu, hrest⟩ | ⟨a, hpart, hv⟩
    · exact hlater a hu hrest
    · cases a with
      | nil => exact hlater [] (by simpa using hpart.symm) (by simpa using hv.symm)
      | cons q a =>
        obtain ⟨rfl, rfl⟩ := List.cons.inj hv
        have hmem : solidPart b ∈ renderPiece (pieceOf d ds) := by rw [hpart]; simp
        have hp := eq_char_of_solid_mem hb hmem
        rw [hp, renderPiece_solid hb] at hpart
        obtain rfl := (pieceOf_char hp).1
        cases u with
        | nil => exact ⟨[], ds, rfl, rfl, by rw [(List.cons.inj hpart).2.symm]; rfl⟩
        | cons x u => exact absurd (congrArg List.length hpart) (by simp)

end

/-! ## Items and their bytes -/

theorem bytes_ne_nil (d : Item) : Item.bytes d ≠ [] := by
  cases d with
  | error x => exact List.cons_ne_nil _ _
  | ok c =>
    have hpos := c.utf8Size_pos
    intro h
    have hlen : (String.utf8EncodeChar c).length = 0 := congrArg List.length h
    rw [String.length_utf8EncodeChar] at hlen
    omega

theorem eq_nil_of_bytes {ds : List Item} (h : ds.flatMap Item.bytes = []) : ds = [] := by
  cases ds with
  | nil => rfl
  | cons d ds => exact absurd (List.append_eq_nil_iff.mp h).1 (bytes_ne_nil d)

/-- Two beginnings of one list of items that hold the same bytes are the same. -/
theorem items_append_inj {s t s' t' : List Item} (h : s ++ t = s' ++ t')
    (hbytes : s.flatMap Item.bytes = s'.flatMap Item.bytes) : s = s' ∧ t = t' := by
  rcases List.append_eq_append_iff.mp h with ⟨a, rfl, ht⟩ | ⟨a, rfl, ht⟩
  · rw [List.flatMap_append] at hbytes
    obtain rfl : a = [] := eq_nil_of_bytes (by simpa using hbytes)
    exact ⟨(List.append_nil s).symm, ht⟩
  · rw [List.flatMap_append] at hbytes
    obtain rfl : a = [] := eq_nil_of_bytes (by simpa using hbytes)
    exact ⟨List.append_nil s', ht.symm⟩

/-- A part of a token that shows a space or a slash is that byte of it. -/
theorem tokenParts_split {b : UInt8} (hb : IsSolid b) {raw : Bytes} {u v : List Part}
    (h : tokenParts raw = u ++ solidPart b :: v) :
    ∃ pre suf, raw = pre ++ b :: suf ∧ tokenParts pre = u ∧ tokenParts suf = v := by
  obtain ⟨ds1, ds2, hds, h1, h2⟩ := partsOf_split hb (decoded raw) u v h
  have hbyte : Item.bytes (.ok (Char.ofNat b.toNat)) = [b] := by
    rcases hb with rfl | rfl <;> decide
  have hraw : raw = ds1.flatMap Item.bytes ++ b :: ds2.flatMap Item.bytes := by
    rw [← flatMap_bytes_decoded raw, hds, List.flatMap_append, List.flatMap_cons, hbyte]
    rfl
  have hcut := decoded_append hb (ds1.flatMap Item.bytes) (ds2.flatMap Item.bytes)
  rw [← hraw, hds] at hcut
  obtain ⟨e1, e2⟩ := items_append_inj hcut (flatMap_bytes_decoded _).symm
  refine ⟨_, _, hraw, ?_, ?_⟩
  · rw [tokenParts, ← e1, h1]
  · rw [tokenParts, ← (List.cons.inj e2).2, h2]

theorem tokenParts_nil : tokenParts [] = [] := rfl

theorem renderPiece_ne_nil (p : Piece) : renderPiece p ≠ [] := by
  unfold renderPiece
  split <;> simp

theorem tokenParts_eq_nil {raw : Bytes} (h : tokenParts raw = []) : raw = [] := by
  by_contra hne
  cases hp : pieces raw with
  | nil => exact pieces_ne_nil hne hp
  | cons p ps =>
    have htp : tokenParts raw = renderPiece p ++ ps.flatMap renderPiece := by
      rw [tokenParts, partsOf, show piecesOf (decoded raw) = p :: ps from hp, List.flatMap_cons]
    rw [htp] at h
    exact renderPiece_ne_nil p (List.append_eq_nil_iff.mp h).1

section

variable {b : UInt8} (hb : IsSolid b) {raw : Bytes}
include hb

theorem head?_tokenParts : (tokenParts raw).head? = some (solidPart b) ↔ raw.head? = some b := by
  constructor
  · intro h
    obtain ⟨v, hv⟩ := List.head?_eq_some_iff.mp h
    obtain ⟨pre, suf, rfl, hpre, -⟩ := tokenParts_split hb (u := []) hv
    rw [tokenParts_eq_nil hpre]
    rfl
  · intro h
    obtain ⟨suf, rfl⟩ := List.head?_eq_some_iff.mp h
    have := tokenParts_append hb [] suf
    rw [List.nil_append] at this
    rw [this]
    rfl

theorem getLast?_tokenParts : (tokenParts raw).getLast? = some (solidPart b) ↔ raw.getLast? = some b := by
  constructor
  · intro h
    obtain ⟨u, hu⟩ := List.getLast?_eq_some_iff.mp h
    obtain ⟨pre, suf, rfl, -, hsuf⟩ := tokenParts_split hb hu
    rw [tokenParts_eq_nil hsuf]
    simp
  · intro h
    obtain ⟨pre, rfl⟩ := List.getLast?_eq_some_iff.mp h
    rw [tokenParts_append hb]
    simp [tokenParts_nil]

end

end SudoWhat.EscapeCore
