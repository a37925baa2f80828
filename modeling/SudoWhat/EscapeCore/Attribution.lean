/-
  SudoWhat.EscapeCore.Attribution — what the colours of a line say of its data.

  A token is drawn item by item between the quotes it may stand in. Proved of every token
  and both bases (`says_programCells`, `says_argumentCells`): the cells of an item are reverse
  red when it is a hidden code point, and then spell its escape, and not otherwise; a quote of
  the data is one single quote in bold cyan, and no other single quote is. Where the base is
  the full palette, the quotes the renderer added are dim and nothing else is, and a later
  token is bold blue throughout when its bytes are safe and begin with a dash, and nowhere
  otherwise. `colours_say_the_truth` puts the line together: the tokens in order, default
  spaces between them, and whatever is written next drawn from the default state.

  The argument follows the parts. Each carries its own attributes or its base's
  (`drawnAs_drawnParts`), and the parts of an item stand together (`renderToken_eq`).
-/

import SudoWhat.EscapeCore.Padding

namespace SudoWhat.EscapeCore

open SudoWhat.Lib
open SudoWhat.Lib.Sgr (Attrs Cell screen screenOf lex)

/-! ## What a cell looks like -/

def isReverseRed (c : Cell) : Bool := c.2.reverse && c.2.foreground == some 1
def isBoldCyan (c : Cell) : Bool := c.2.bold && c.2.foreground == some 6
def isBoldBlue (c : Cell) : Bool := c.2.bold && c.2.foreground == some 4

/-- A hidden code point of the data. -/
def isHiddenItem : Item → Bool
  | .ok c => isHidden c.toNat
  | .error _ => false

/-- What the cells of one item say of it. -/
structure Says (base : RoleBase) (d : Item) (cells : List Cell) : Prop where
  hidden : ∀ c ∈ cells, isReverseRed c = isHiddenItem d
  escape : ∀ c, d = .ok c → isHidden c.toNat = true → cells.map Prod.fst = pushCodePoint c.toNat
  quotes : (cells.filter fun c => c.1 == '\'' && isBoldCyan c).length = if d = .ok '\'' then 1 else 0
  /-- The quote idiom is a quote, a backslash, the data's quote and a quote. -/
  added : base = .roles → d = .ok '\'' → cells.map (fun c => (c.1, c.2.dim)) =
    [('\'', true), ('\\', false), ('\'', false), ('\'', true)]
  undimmed : base = .roles → d ≠ .ok '\'' → ∀ c ∈ cells, c.2.dim = false ∧ c.1 ≠ '\''

/-- The token's cells: its shown characters, its items' in order, between the renderer's dim
    quotes or bare. -/
def SaysToken (base : RoleBase) (raw : Bytes) (cells : List Cell) : Prop :=
  cells.map Prod.fst = quoteBytes raw ∧
    ∃ quote items, (quote = [] ∨ quote = [('\'', dimmed)]) ∧ cells = quote ++ items.flatten ++ quote ∧
      List.Forall₂ (Says base) (decoded raw) items

/-! ## The attributes of a part -/

/-- A part wears its mark, a plain one nothing that says anything else. -/
def DrawnAs (base : RoleBase) (d : Part × Attrs) : Prop :=
  match d.1.mark with
  | .ours => d.2 = dimmed
  | .metachar => d.2 = boldCyan
  | .hidden => d.2 = reverseRed
  | .plain => d.2.reverse = false ∧ (base = .roles → d.2.dim = false)

theorem drawnAs_drawnParts {base : RoleBase} {a : Attrs} (ha : a.reverse = false ∧ (base = .roles → a.dim = false))
    {markSpaces after : Bool} : ∀ {span : List Part} {before : Bool},
    ∀ d ∈ drawnParts a markSpaces before after span, DrawnAs base d
  | [], _, d, h => absurd h List.not_mem_nil
  | p :: span, before, d, h => by
    rcases List.mem_cons.mp h with rfl | h
    · unfold DrawnAs partAttrs
      cases p.mark with
      | ours => rfl
      | metachar => rfl
      | hidden => rfl
      | plain =>
        dsimp only
        split
        · exact ⟨rfl, fun _ => rfl⟩
        · exact ha
    · exact drawnAs_drawnParts ha d h

theorem renderPiece_safe {p : Piece} (h : p.isSafe = true) : renderPiece p = [⟨p.text, .plain⟩] := by
  unfold renderPiece
  split
  · exact absurd h (by decide)
  · exact absurd h (by decide)
  · exact absurd h (by decide)
  · cases h
  · rfl

theorem renderPiece_metachar {c : Char} (h : c = '"' ∨ c = '\x60') : renderPiece (.char c) = [⟨[c], .metachar⟩] := by
  rcases h with rfl | rfl <;> rfl

theorem renderPiece_char {c : Char} (hquote : c ≠ '\'') (hmeta : ¬ (c = '"' ∨ c = '\x60')) :
    renderPiece (.char c) = [⟨[c], .plain⟩] := by
  unfold renderPiece
  split
  · next e => exact absurd (Piece.char.inj e) hquote
  · next e => exact absurd (.inl (Piece.char.inj e)) hmeta
  · next e => exact absurd (.inr (Piece.char.inj e)) hmeta
  · next e => cases e
  · rfl

/-- Safe pieces are drawn alike in a bare and in a quoted token. -/
theorem flatMap_renderPiece_safe : ∀ {ps : List Piece}, ps.all Piece.isSafe = true →
    ps.flatMap renderPiece = ps.map fun p => ⟨p.text, .plain⟩ := by
  intro ps
  induction ps with
  | nil => intro _; rfl
  | cons p ps ih =>
    intro hall
    rw [List.all_cons, Bool.and_eq_true] at hall
    rw [List.map_cons, List.flatMap_cons, ih hall.2, renderPiece_safe hall.1]
    rfl

/-- The parts of a token are its items', between two quotes or bare. -/
theorem renderToken_eq (raw : Bytes) :
    ∃ quote, (quote = [] ∨ quote = [ours]) ∧ renderToken raw = quote ++ tokenParts raw ++ quote := by
  by_cases h : raw = []
  · subst h
    exact ⟨[ours], .inr rfl, rfl⟩
  by_cases hs : (pieces raw).all Piece.isSafe = true
  · refine ⟨[], .inl rfl, ?_⟩
    rw [renderToken, if_neg h, if_pos hs, ← flatMap_renderPiece_safe hs]
    simp [tokenParts, partsOf, pieces]
  · refine ⟨[ours], .inr rfl, ?_⟩
    rw [renderToken, if_neg h, if_neg hs]
    rfl

/-! ## What an item's cells say -/

theorem cells_of_singleton {xs : List (Part × Attrs)} {p : Part} (h : xs.map Prod.fst = [p]) :
    ∃ a, xs = [(p, a)] := by
  obtain ⟨x, rfl, hx⟩ := List.map_eq_singleton_iff.mp h
  exact ⟨x.2, by rw [← hx]⟩

/-- A plain part says only that its item is neither hidden nor a quote. -/
theorem says_plain {base : RoleBase} {d : Item} {text : List Char} {a : Attrs}
    (ha : a.reverse = false ∧ (base = .roles → a.dim = false)) (htext : '\'' ∉ text) (hd : isHiddenItem d = false)
    (hquote : d ≠ .ok '\'') : Says base d (text.map fun c => (c, a)) where
  hidden := by
    intro c hc
    obtain ⟨x, -, rfl⟩ := List.mem_map.mp hc
    simp [isReverseRed, ha.1, hd]
  escape := by
    rintro c rfl hc
    rw [isHiddenItem, hc] at hd
    cases hd
  quotes := by
    rw [if_neg hquote, List.length_eq_zero_iff, List.filter_eq_nil_iff]
    intro c hc hq
    obtain ⟨x, hx, rfl⟩ := List.mem_map.mp hc
    rw [Bool.and_eq_true, beq_iff_eq] at hq
    exact htext (hq.1 ▸ hx)
  added := fun _ h => absurd h hquote
  undimmed := by
    intro hbase _ c hc
    obtain ⟨x, hx, rfl⟩ := List.mem_map.mp hc
    exact ⟨ha.2 hbase, fun e => htext (e ▸ hx)⟩

theorem cellsOfParts_singleton (p : Part) (a : Attrs) : cellsOfParts [(p, a)] = p.text.map fun c => (c, a) := by
  rw [cellsOfParts_cons, cellsOfParts_nil, List.append_nil]

theorem says_escape {base : RoleBase} {c : Char} (hc : isHidden c.toNat = true) :
    Says base (.ok c) ((pushCodePoint c.toNat).map fun x => (x, reverseRed)) where
  hidden := by
    intro x hx
    obtain ⟨y, -, rfl⟩ := List.mem_map.mp hx
    exact hc.symm
  escape := by
    intro x e _
    obtain rfl := Except.ok.inj e
    simp [Function.comp_def]
  quotes := by
    have hne : (.ok c : Item) ≠ .ok '\'' := by
      intro e
      obtain rfl := Except.ok.inj e
      exact absurd hc (by decide)
    rw [if_neg hne, List.length_eq_zero_iff, List.filter_eq_nil_iff]
    intro x hx hq
    obtain ⟨y, -, rfl⟩ := List.mem_map.mp hx
    have hcyan : isBoldCyan (y, reverseRed) = false := rfl
    rw [hcyan, Bool.and_false] at hq
    cases hq
  added := by
    intro _ e
    obtain rfl := Except.ok.inj e
    exact absurd hc (by decide)
  undimmed := by
    intro _ _ x hx
    obtain ⟨y, hy, rfl⟩ := List.mem_map.mp hx
    refine ⟨rfl, fun e => quote_not_mem_pushCodePoint c.toNat ?_⟩
    exact (show y = '\'' from e) ▸ hy

theorem says_quote {base : RoleBase} {a : Attrs} (ha : a.reverse = false ∧ (base = .roles → a.dim = false)) :
    Says base (.ok '\'') [('\'', dimmed), ('\\', a), ('\'', boldCyan), ('\'', dimmed)] where
  hidden := by
    intro c hc
    have hq : isHiddenItem (.ok '\'') = false := by decide
    rw [hq]
    simp only [List.mem_cons, List.not_mem_nil, or_false] at hc
    rcases hc with rfl | rfl | rfl | rfl
    · rfl
    · simp [isReverseRed, ha.1]
    · rfl
    · rfl
  escape := by
    intro c e hc
    obtain rfl := Except.ok.inj e
    exact absurd hc (by decide)
  quotes := rfl
  added := by
    intro hbase _
    simp [ha.2 hbase, dimmed, boldCyan]
  undimmed := fun _ h => absurd rfl h

theorem says_item {base : RoleBase} {d : Item} {rest : List Item} {xs : List (Part × Attrs)}
    (hparts : xs.map Prod.fst = renderPiece (pieceOf d rest)) (hdrawn : ∀ x ∈ xs, DrawnAs base x) :
    Says base d (cellsOfParts xs) := by
  -- an item drawn as one plain part
  have hplain : ∀ text : List Char, renderPiece (pieceOf d rest) = [⟨text, .plain⟩] → '\'' ∉ text →
      isHiddenItem d = false → d ≠ .ok '\'' → Says base d (cellsOfParts xs) := by
    intro text hp htext hd hquote
    obtain ⟨a, rfl⟩ := cells_of_singleton (hparts.trans hp)
    rw [cellsOfParts_singleton]
    exact says_plain (hdrawn _ List.mem_cons_self) htext hd hquote
  cases hp : pieceOf d rest with
  | char c =>
    obtain ⟨rfl, -⟩ := pieceOf_char hp
    have hd : isHiddenItem (.ok c) = false := pieceOf_char_not_hidden hp
    by_cases hquote : c = '\''
    · subst hquote
      rw [hp] at hparts
      obtain ⟨⟨_, a1⟩, xs, rfl, h1, hparts⟩ := List.map_eq_cons_iff.mp hparts
      obtain ⟨⟨_, a2⟩, xs, rfl, h2, hparts⟩ := List.map_eq_cons_iff.mp hparts
      obtain ⟨⟨_, a3⟩, xs, rfl, h3, hparts⟩ := List.map_eq_cons_iff.mp hparts
      obtain ⟨a4, rfl⟩ := cells_of_singleton hparts
      subst h1 h2 h3
      obtain rfl : a1 = dimmed := hdrawn (ours, a1) (by simp)
      obtain rfl : a3 = boldCyan := hdrawn (⟨['\''], .metachar⟩, a3) (by simp)
      obtain rfl : a4 = dimmed := hdrawn (ours, a4) (by simp)
      exact says_quote (hdrawn (⟨['\\'], .plain⟩, a2) (by simp))
    by_cases hmeta : c = '"' ∨ c = '\x60'
    · rw [hp, renderPiece_metachar hmeta] at hparts
      obtain ⟨a, rfl⟩ := cells_of_singleton hparts
      obtain rfl : a = boldCyan := hdrawn _ List.mem_cons_self
      rw [cellsOfParts_singleton]
      exact says_plain ⟨rfl, fun _ => rfl⟩ (by simpa using Ne.symm hquote) hd (fun e => hquote (Except.ok.inj e))
    · exact hplain [c] (hp ▸ renderPiece_char hquote hmeta) (by simpa using Ne.symm hquote) hd
        (fun e => hquote (Except.ok.inj e))
  | hidden u =>
    obtain ⟨c, rfl, rfl, hc⟩ := pieceOf_hidden hp
    rw [hp] at hparts
    obtain ⟨a, rfl⟩ := cells_of_singleton hparts
    obtain rfl : a = reverseRed := hdrawn _ List.mem_cons_self
    rw [cellsOfParts_singleton]
    exact says_escape hc
  | byte b =>
    obtain rfl := pieceOf_byte hp
    exact hplain (pushByte b) (hp ▸ rfl) (quote_not_mem_pushByte b) rfl (fun e => by cases e)
  | backslash =>
    obtain rfl := pieceOf_backslash hp
    exact hplain (pushCodePoint 0x5C) (hp ▸ rfl) (quote_not_mem_pushCodePoint _) (by decide) (by decide)

theorem says_items {base : RoleBase} : ∀ {ds : List Item} {xs : List (Part × Attrs)}, xs.map Prod.fst = partsOf ds →
    (∀ x ∈ xs, DrawnAs base x) → ∃ items, cellsOfParts xs = items.flatten ∧ List.Forall₂ (Says base) ds items := by
  intro ds
  induction ds with
  | nil =>
    intro xs h _
    rw [List.map_eq_nil_iff.mp h]
    exact ⟨[], rfl, .nil⟩
  | cons d ds ih =>
    intro xs h hdrawn
    obtain ⟨xs1, xs2, rfl, h1, h2⟩ := List.map_eq_append_iff.mp h
    obtain ⟨items, hcells, hsays⟩ := ih h2 fun x hx => hdrawn x (List.mem_append_right _ hx)
    refine ⟨cellsOfParts xs1 :: items, ?_, .cons (says_item h1 fun x hx => hdrawn x (List.mem_append_left _ hx)) hsays⟩
    rw [cellsOfParts_append, hcells, List.flatten_cons]

theorem cells_of_quote {base : RoleBase} {quote : List Part} (hq : quote = [] ∨ quote = [ours])
    {xs : List (Part × Attrs)} (h : xs.map Prod.fst = quote) (hdrawn : ∀ x ∈ xs, DrawnAs base x) :
    cellsOfParts xs = quote.map fun _ => ('\'', dimmed) := by
  rcases hq with rfl | rfl
  · rw [List.map_eq_nil_iff.mp h]
    rfl
  · obtain ⟨a, rfl⟩ := cells_of_singleton h
    obtain rfl : a = dimmed := hdrawn (ours, a) (by simp)
    rfl

theorem says_token {base : RoleBase} {raw : Bytes} {xs : List (Part × Attrs)} (h : xs.map Prod.fst = renderToken raw)
    (hdrawn : ∀ x ∈ xs, DrawnAs base x) : SaysToken base raw (cellsOfParts xs) := by
  refine ⟨by rw [map_fst_cellsOfParts, h]; rfl, ?_⟩
  obtain ⟨quote, hq, hr⟩ := renderToken_eq raw
  rw [hr] at h
  obtain ⟨xs12, xs3, rfl, h12, h3⟩ := List.map_eq_append_iff.mp h
  obtain ⟨xs1, xs2, rfl, h1, h2⟩ := List.map_eq_append_iff.mp h12
  obtain ⟨items, hcells, hsays⟩ := says_items h2 fun x hx =>
    hdrawn x (List.mem_append_left _ (List.mem_append_right _ hx))
  have hopen := cells_of_quote hq h1 fun x hx => hdrawn x (List.mem_append_left _ (List.mem_append_left _ hx))
  have hclose := cells_of_quote hq h3 fun x hx => hdrawn x (List.mem_append_right _ hx)
  refine ⟨quote.map fun _ => ('\'', dimmed), items, ?_, ?_, hsays⟩
  · rcases hq with rfl | rfl
    · exact .inl rfl
    · exact .inr rfl
  · rw [cellsOfParts_append, cellsOfParts_append, hopen, hclose, hcells]

theorem says_programCells (tok : Bytes) (base : RoleBase) : SaysToken base tok (programCells tok base) := by
  refine says_token ?_ ?_
  · rw [map_fst_drawnSpans, flatten_programSpans]
  · intro x hx
    obtain ⟨s, hs, hx⟩ := List.mem_flatMap.mp hx
    have hbase : ∀ a ∈ base.programBases, a.reverse = false ∧ (base = .roles → a.dim = false) := by
      cases base with
      | dim => exact fun a ha => ⟨(by decide : ∀ a ∈ RoleBase.dim.programBases, a.reverse = false) a ha, fun h => by cases h⟩
      | roles => decide
    exact drawnAs_drawnParts (hbase s.2 (mem_programBases s hs)) x hx

theorem says_argumentCells (tok : Bytes) (base : RoleBase) : SaysToken base tok (argumentCells tok base) := by
  refine says_token (map_fst_drawnParts _ _) fun x hx => drawnAs_drawnParts ?_ x hx
  cases base with
  | dim => exact ⟨by cases isFlag (renderToken tok) <;> rfl, fun h => by cases h⟩
  | roles => cases isFlag (renderToken tok) <;> exact ⟨rfl, fun _ => rfl⟩

/-! ## Option flags -/

/-- The raw bytes begin with a dash and are safe characters only. -/
def IsFlagToken (raw : Bytes) : Prop := raw.head? = some 0x2D ∧ ∀ b ∈ raw, isSafe (Char.ofNat b.toNat) = true

/-- The cells of a later token are bold blue as a whole when it is a flag, and none is
    otherwise. -/
def SaysFlag (raw : Bytes) (cells : List Cell) : Prop :=
  ((∀ c ∈ cells, isBoldBlue c = true) ↔ IsFlagToken raw) ∧ (¬ IsFlagToken raw → ∀ c ∈ cells, isBoldBlue c = false)

theorem isSafe_ascii {c : Char} (h : isSafe c = true) : 0x20 ≤ c.toNat ∧ c.toNat ≤ 0x7E := by
  have hbound : ∀ {lo hi : Char}, (lo ≤ c ∧ c ≤ hi) → lo.toNat ≤ c.toNat ∧ c.toNat ≤ hi.toNat := by
    intro lo hi hc
    simpa [Char.le_def, UInt32.le_iff_toNat_le] using hc
  simp only [isSafe, Bool.or_eq_true, Bool.and_eq_true, decide_eq_true_eq, beq_iff_eq] at h
  rcases h with (((((((((((h | h) | h) | rfl) | rfl) | rfl) | rfl) | rfl) | rfl) | rfl) | rfl) | rfl) | rfl
  · exact ⟨Nat.le_trans (by decide) (hbound h).1, Nat.le_trans (hbound h).2 (by decide)⟩
  · exact ⟨Nat.le_trans (by decide) (hbound h).1, Nat.le_trans (hbound h).2 (by decide)⟩
  · exact ⟨Nat.le_trans (by decide) (hbound h).1, Nat.le_trans (hbound h).2 (by decide)⟩
  all_goals decide

theorem pieceOf_safe {c : Char} (h : isSafe c = true) (rest : List Item) : pieceOf (.ok c) rest = .char c := by
  have hc : isHidden c.toNat = false := not_hidden_of_ascii (isSafe_ascii h)
  have hb : c ≠ '\\' := (isSafe_plain h).2.1
  simp [pieceOf, hc, hb]

theorem utf8EncodeChar_safe {c : Char} (h : isSafe c = true) : String.utf8EncodeChar c = [UInt8.ofNat c.toNat] := by
  have hlt : c.val.toNat ≤ 0x7F := Nat.le_trans (isSafe_ascii h).2 (by decide)
  rw [String.utf8EncodeChar, if_pos hlt]
  rfl

theorem decoded_safe : ∀ {raw : Bytes}, (∀ b ∈ raw, isSafe (Char.ofNat b.toNat) = true) →
    decoded raw = raw.map fun b => .ok (Char.ofNat b.toNat)
  | [], _ => rfl
  | b :: raw, h => by
    have hb : b.toNat < 0x80 := by
      have hs := (isSafe_ascii (h b List.mem_cons_self)).2
      have hlt : b.toNat < 256 := UInt8.toNat_lt_size b
      have hv : b.toNat.isValidChar := .inl (by omega)
      have : (Char.ofNat b.toNat).toNat = b.toNat := Utf8.toNat_ofNat hv
      omega
    have ih := decoded_safe fun x hx => h x (List.mem_cons_of_mem _ hx)
    have hitems : decoded (b :: raw) = .ok (Char.ofNat b.toNat) :: decoded raw := Utf8.items_ascii hb raw
    rw [hitems, ih, List.map_cons]

/-- A token all of whose bytes are safe is shown bare, a character a part. -/
theorem renderToken_safe {raw : Bytes} (hne : raw ≠ []) (h : ∀ b ∈ raw, isSafe (Char.ofNat b.toNat) = true) :
    renderToken raw = raw.map fun b => ⟨[Char.ofNat b.toNat], .plain⟩ := by
  have hpieces : pieces raw = raw.map fun b => .char (Char.ofNat b.toNat) := by
    rw [pieces, decoded_safe h]
    clear hne
    induction raw with
    | nil => rfl
    | cons b raw ih =>
      rw [List.map_cons, piecesOf, pieceOf_safe (h b List.mem_cons_self),
        ih fun x hx => h x (List.mem_cons_of_mem _ hx), List.map_cons]
  have hall : (pieces raw).all Piece.isSafe = true := by
    rw [hpieces, List.all_map]
    exact List.all_eq_true.mpr h
  rw [renderToken, if_neg hne]
  dsimp only
  rw [if_pos hall, hpieces, List.map_map]
  rfl

theorem safe_of_pieces : ∀ {ds : List Item}, (piecesOf ds).all Piece.isSafe = true →
    ∀ b ∈ ds.flatMap Item.bytes, isSafe (Char.ofNat b.toNat) = true
  | [], _, _, h => absurd h List.not_mem_nil
  | d :: ds, hall, b, hb => by
    rw [piecesOf, List.all_cons, Bool.and_eq_true] at hall
    rw [List.flatMap_cons, List.mem_append] at hb
    rcases hb with hb | hb
    · cases hp : pieceOf d ds with
      | char c =>
        obtain ⟨rfl, -⟩ := pieceOf_char hp
        rw [hp] at hall
        have hs : isSafe c = true := hall.1
        have hbytes : Item.bytes (.ok c) = [UInt8.ofNat c.toNat] := utf8EncodeChar_safe hs
        rw [hbytes, List.mem_singleton] at hb
        have hlt := (isSafe_ascii hs).2
        have hback : (UInt8.ofNat c.toNat).toNat = c.toNat := by
          rw [UInt8.toNat_ofNat']
          exact Nat.mod_eq_of_lt (by omega)
        rw [hb, hback, Char.ofNat_toNat]
        exact hs
      | hidden u => rw [hp] at hall; cases hall.1
      | byte x => rw [hp] at hall; cases hall.1
      | backslash => rw [hp] at hall; cases hall.1
    · exact safe_of_pieces hall.2 b hb

theorem isFlag_iff (raw : Bytes) : isFlag (renderToken raw) = true ↔ IsFlagToken raw := by
  constructor
  · intro h
    by_cases hne : raw = []
    · subst hne
      exact absurd h (by decide)
    by_cases hs : (pieces raw).all Piece.isSafe = true
    · have hsafe : ∀ b ∈ raw, isSafe (Char.ofNat b.toNat) = true := by
        have := safe_of_pieces hs
        rwa [flatMap_bytes_decoded] at this
      refine ⟨?_, hsafe⟩
      rw [renderToken_safe hne hsafe] at h
      obtain ⟨b, rest, rfl⟩ := List.exists_cons_of_ne_nil hne
      unfold isFlag at h
      split at h
      · rename_i heq
        have hc : Char.ofNat b.toNat = '-' := (List.cons.inj (congrArg Part.text (List.cons.inj heq).1)).1
        have hlt : b.toNat < 256 := UInt8.toNat_lt_size b
        have hb : (Char.ofNat b.toNat).toNat = b.toNat := Utf8.toNat_ofNat (.inl (by omega))
        rw [hc] at hb
        exact congrArg some (UInt8.toNat_inj.mp hb.symm)
      · cases h
    · rw [renderToken, if_neg hne] at h
      dsimp only at h
      rw [if_neg hs] at h
      exact absurd h (by simp [isFlag, ours])
  · intro h
    obtain ⟨hhead, hsafe⟩ := h
    obtain ⟨rest, rfl⟩ := List.head?_eq_some_iff.mp hhead
    rw [renderToken_safe (List.cons_ne_nil _ _) hsafe]
    rfl

/-! ## The whole line -/

theorem argumentCells_ne_nil (tok : Bytes) (base : RoleBase) : argumentCells tok base ≠ [] := by
  intro h
  have hchars := (says_argumentCells tok base).1
  rw [h] at hchars
  have hline : fullCommandLineBytes tok [] = quoteBytes tok := by simp [fullCommandLineBytes, commandTokens_eq]
  exact fullCommandLineBytes_ne_nil tok [] (hline.trans hchars.symm)

theorem not_boldBlue_drawnParts {before after : Bool} {span : List Part} :
    ∀ d ∈ drawnParts .default false before after span, ∀ c, isBoldBlue (c, d.2) = false := by
  intro d hd c
  rw [drawnParts_unmarked] at hd
  obtain ⟨p, -, rfl⟩ := List.mem_map.mp hd
  simp only [partAttrs]
  cases p.mark <;> rfl

theorem says_flag (tok : Bytes) : SaysFlag tok (argumentCells tok .roles) := by
  have hother : ¬ IsFlagToken tok → ∀ c ∈ argumentCells tok .roles, isBoldBlue c = false := by
    intro h c hc
    have hflag : isFlag (renderToken tok) = false := Bool.eq_false_iff.mpr fun hf => h ((isFlag_iff tok).mp hf)
    rw [argumentCells, hflag] at hc
    obtain ⟨d, hd, hc⟩ := List.mem_flatMap.mp hc
    obtain ⟨x, -, rfl⟩ := List.mem_map.mp hc
    exact not_boldBlue_drawnParts d hd x
  refine ⟨⟨fun h => ?_, fun h => ?_⟩, hother⟩
  · by_contra hn
    obtain ⟨c, cells, hcells⟩ := List.exists_cons_of_ne_nil (argumentCells_ne_nil tok .roles)
    have hc : c ∈ argumentCells tok .roles := by rw [hcells]; exact List.mem_cons_self
    have := hother hn c hc
    rw [h c hc] at this
    cases this
  · have hne : tok ≠ [] := by
      rintro rfl
      cases h.1
    intro c hc
    rw [argumentCells, (isFlag_iff tok).mpr h, drawnParts_unmarked, renderToken_safe hne h.2] at hc
    obtain ⟨d, hd, hc⟩ := List.mem_flatMap.mp hc
    obtain ⟨p, hp, rfl⟩ := List.mem_map.mp hd
    obtain ⟨b, -, rfl⟩ := List.mem_map.mp hp
    obtain ⟨x, -, rfl⟩ := List.mem_map.mp hc
    rfl

/-- The colours of a line say what is true of its data: token by token, with default spaces
    between, from the default state back to it. -/
theorem colours_say_the_truth (path : Bytes) (argv : List Bytes) (base : RoleBase) :
    ∃ tokens : List (List Cell), List.Forall₂ (SaysToken base) (commandTokens path argv) tokens ∧
      screen (renderCommandLine path argv base) = [(' ', Attrs.default)].intercalate tokens ∧
      (∀ t, screen (renderCommandLine path argv base ++ t) = screen (renderCommandLine path argv base) ++ screen t) ∧
      (base = .roles → List.Forall₂ SaysFlag (commandTokens path argv).tail tokens.tail) := by
  have hdraws := draws_renderCommandLine path argv base
  have hscreen := hdraws.screen
  rw [commandTokens_eq] at hdraws hscreen ⊢
  generalize (if dropsArgv0 path argv = true then argv.tail else argv) = args at hdraws hscreen ⊢
  refine ⟨programCells path base :: args.map fun tok => argumentCells tok base, ?_, ?_, ?_, ?_⟩
  · refine .cons (says_programCells path base) ?_
    rw [List.forall₂_map_right_iff, List.forall₂_same]
    exact fun tok _ => says_argumentCells tok base
  · rw [hscreen, intercalate_singleton, List.flatMap_map]
    rfl
  · intro t
    rw [hscreen]
    exact hdraws t
  · rintro rfl
    rw [List.tail_cons, List.tail_cons, List.forall₂_map_right_iff, List.forall₂_same]
    exact fun tok _ => says_flag tok

end SudoWhat.EscapeCore
