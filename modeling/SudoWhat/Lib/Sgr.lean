/-
  SudoWhat.Lib.Sgr — text with SGR sequences in it.

  An SGR sequence is ESC, `[`, digits and semicolons, `m`. `lex` reads a text as its
  tokens, characters and sequences; `strip` keeps the characters, `cells` gives each of
  them the sequences in force, up to the last reset. A text `Lexes` as some tokens when
  the lexer reads exactly those off its front, whatever follows. It is `Dressed` over a
  palette when its characters are a plain text's and its sequences the palette's.

  Proved: dressed texts compose (`Dressed.append`) and strip to the plain text
  (`Dressed.strip`); every ESC in one begins a sequence of the palette
  (`Dressed.esc_begins`); spans closed by a reset give each character its span's code
  and nothing else (`cells_spans`), and leave no empty span (`noEmptySpan_spans`). A text
  is `Painted` when it is such spans, all of one sort.
-/

import Mathlib.Data.List.Chain

namespace SudoWhat.Lib.Sgr

abbrev Code := List Char

def esc : Char := '\x1b'

def isParam (c : Char) : Bool := c.isDigit || c == ';'

/-- The sequence with these parameters. -/
def seq (code : Code) : List Char := esc :: '[' :: (code ++ ['m'])

def reset : Code := ['0']

/-- The parameters of the sequence a text begins with. -/
def codeAt : List Char → Option Code
  | '\x1b' :: '[' :: rest =>
    let code := rest.takeWhile isParam
    if (rest.drop code.length).head? = some 'm' then some code else none
  | _ => none

inductive Tok where
  | char (c : Char)
  | sgr (code : Code)
  deriving DecidableEq, Repr

/-- Read on, with `skip` characters of the current sequence still to pass over. -/
def lexFrom : Nat → List Char → List Tok
  | _, [] => []
  | skip + 1, _ :: s => lexFrom skip s
  | 0, c :: s =>
    match codeAt (c :: s) with
    | some code => .sgr code :: lexFrom (code.length + 2) s
    | none => .char c :: lexFrom 0 s

def lex (s : List Char) : List Tok := lexFrom 0 s

def Tok.char? : Tok → Option Char
  | .char c => some c
  | .sgr _ => none

def Tok.code? : Tok → Option Code
  | .char _ => none
  | .sgr code => some code

/-- The text without its sequences. -/
def strip (s : List Char) : List Char := (lex s).filterMap Tok.char?

/-- The characters, each with the codes in force since the last reset. -/
def cellsOf : List Code → List Tok → List (Char × List Code)
  | _, [] => []
  | style, .char c :: ts => (c, style) :: cellsOf style ts
  | style, .sgr code :: ts => cellsOf (if code = reset then [] else style ++ [code]) ts

def cells (s : List Char) : List (Char × List Code) := cellsOf [] (lex s)

/-- `b` resets what `a` has just switched on. -/
def ClosesAtOnce (a b : Tok) : Prop := b = .sgr reset ∧ ∃ code ≠ reset, a = .sgr code

/-- No sequence is switched on and reset with nothing in between. -/
def NoEmptySpan (s : List Char) : Prop := (lex s).IsChain fun a b => ¬ ClosesAtOnce a b

/-! ## Reading the front of a text -/

theorem lexFrom_append : ∀ (s t : List Char), lexFrom s.length (s ++ t) = lexFrom 0 t
  | [], _ => rfl
  | _ :: s, t => lexFrom_append s t

/-- The lexer reads `ts` off the front, whatever follows. -/
def Lexes (s : List Char) (ts : List Tok) : Prop := ∀ t, lex (s ++ t) = ts ++ lex t

theorem lexes_nil : Lexes [] [] := fun _ => rfl

theorem Lexes.append {s s' : List Char} {ts ts' : List Tok} (h : Lexes s ts) (h' : Lexes s' ts') :
    Lexes (s ++ s') (ts ++ ts') := by
  intro t
  rw [List.append_assoc, h, h', List.append_assoc]

theorem Lexes.lex {s : List Char} {ts : List Tok} (h : Lexes s ts) : lex s = ts := by
  have := h []
  rwa [List.append_nil, show Sgr.lex [] = [] from rfl, List.append_nil] at this

theorem codeAt_of_ne {c : Char} (h : c ≠ esc) (t : List Char) : codeAt (c :: t) = none := by
  unfold codeAt
  split
  · rename_i heq
    exact absurd (List.cons.inj heq).1 h
  · rfl

theorem lexes_char {c : Char} (h : c ≠ esc) : Lexes [c] [.char c] := by
  intro t
  simp [lex, lexFrom, codeAt_of_ne h]

theorem lexes_plain {s : List Char} (h : esc ∉ s) : Lexes s (s.map .char) := by
  induction s with
  | nil => exact lexes_nil
  | cons c s ih =>
    have hc : c ≠ esc := fun e => h (by rw [e]; exact List.mem_cons_self)
    exact (lexes_char hc).append (ih fun hm => h (List.mem_cons_of_mem _ hm))

def IsCode (code : Code) : Prop := ∀ c ∈ code, isParam c = true

instance (code : Code) : Decidable (IsCode code) := List.decidableBAll (fun c => isParam c = true) code

theorem codeAt_seq {code : Code} (h : IsCode code) (t : List Char) : codeAt (seq code ++ t) = some code := by
  have hw : (code ++ 'm' :: t).takeWhile isParam = code := by
    rw [List.takeWhile_append_of_pos h]
    simp [isParam]
  have e : seq code ++ t = '\x1b' :: '[' :: (code ++ 'm' :: t) := by simp [seq, esc]
  rw [e]
  simp [codeAt, hw]

theorem lexes_seq {code : Code} (h : IsCode code) : Lexes (seq code) [.sgr code] := by
  intro t
  have e : seq code ++ t = esc :: (('[' :: (code ++ ['m'])) ++ t) := rfl
  have hlen : code.length + 2 = ('[' :: (code ++ ['m'])).length := by simp
  unfold lex
  rw [e, lexFrom, ← e, codeAt_seq h]
  simp only [hlen, lexFrom_append, List.singleton_append]

/-! ## Dressed texts -/

def Tok.text : Tok → List Char
  | .char c => [c]
  | .sgr code => seq code

/-- `shown` is `plain` with sequences of the palette put in. -/
def Dressed (palette : List Code) (plain shown : List Char) : Prop :=
  ∃ ts, Lexes shown ts ∧ shown = ts.flatMap Tok.text ∧ ts.filterMap Tok.char? = plain ∧ esc ∉ plain ∧
    ∀ code ∈ ts.filterMap Tok.code?, code ∈ palette ∧ IsCode code

section Dressed

variable {palette : List Code} {plain plain' shown shown' : List Char}

theorem dressed_plain (h : esc ∉ plain) : Dressed palette plain plain := by
  refine ⟨plain.map .char, lexes_plain h, ?_, ?_, h, ?_⟩
  · simp [List.flatMap_map, Tok.text]
  · simp [List.filterMap_map, Function.comp_def, Tok.char?]
  · simp [List.filterMap_map, Function.comp_def, Tok.code?]

theorem dressed_nil : Dressed palette [] [] := dressed_plain (by simp)

theorem dressed_seq {code : Code} (hc : IsCode code) (hm : code ∈ palette) : Dressed palette [] (seq code) := by
  refine ⟨[.sgr code], lexes_seq hc, by simp [Tok.text], rfl, by simp, ?_⟩
  intro c h
  have e : c = code := by simpa [Tok.code?] using h
  subst e
  exact ⟨hm, hc⟩

theorem Dressed.append (h : Dressed palette plain shown) (h' : Dressed palette plain' shown') :
    Dressed palette (plain ++ plain') (shown ++ shown') := by
  obtain ⟨ts, hl, htext, hplain, hesc, hcodes⟩ := h
  obtain ⟨ts', hl', htext', hplain', hesc', hcodes'⟩ := h'
  refine ⟨ts ++ ts', hl.append hl', ?_, ?_, ?_, ?_⟩
  · rw [List.flatMap_append, ← htext, ← htext']
  · rw [List.filterMap_append, hplain, hplain']
  · intro hm
    rcases List.mem_append.mp hm with hm | hm
    · exact hesc hm
    · exact hesc' hm
  · intro code hm
    rw [List.filterMap_append] at hm
    rcases List.mem_append.mp hm with hm | hm
    · exact hcodes code hm
    · exact hcodes' code hm

theorem Dressed.cons {c : Char} (hc : c ≠ esc) (h : Dressed palette plain shown) :
    Dressed palette (c :: plain) (c :: shown) := by
  have hchar : Dressed palette [c] [c] := dressed_plain (by simpa using hc.symm)
  exact hchar.append h

theorem Dressed.mono {palette' : List Code} (hp : ∀ code ∈ palette, code ∈ palette') (h : Dressed palette plain shown) :
    Dressed palette' plain shown := by
  obtain ⟨ts, hl, htext, hplain, hesc, hcodes⟩ := h
  exact ⟨ts, hl, htext, hplain, hesc, fun code hm => ⟨hp code (hcodes code hm).1, (hcodes code hm).2⟩⟩

theorem dressed_flatMap {α : Type} {f g : α → List Char} : ∀ {xs : List α}, (∀ x ∈ xs, Dressed palette (f x) (g x)) →
    Dressed palette (xs.flatMap f) (xs.flatMap g)
  | [], _ => dressed_nil
  | x :: _, h => (h x List.mem_cons_self).append (dressed_flatMap fun y hy => h y (List.mem_cons_of_mem _ hy))

theorem Dressed.strip (h : Dressed palette plain shown) : strip shown = plain := by
  obtain ⟨ts, hl, -, hplain, -⟩ := h
  rw [Sgr.strip, hl.lex, hplain]

theorem Dressed.codes (h : Dressed palette plain shown) : ∀ code, .sgr code ∈ lex shown → code ∈ palette := by
  obtain ⟨ts, hl, -, -, -, hcodes⟩ := h
  intro code hm
  rw [hl.lex] at hm
  exact (hcodes code (List.mem_filterMap.mpr ⟨_, hm, rfl⟩)).1

theorem isParam_ne_esc {c : Char} (h : isParam c = true) : c ≠ esc := by
  rintro rfl
  revert h
  decide

theorem esc_not_mem_tail {code : Code} (h : IsCode code) : esc ∉ '[' :: (code ++ ['m']) := by
  intro hm
  rcases List.mem_cons.mp hm with hm | hm
  · revert hm; decide
  · rcases List.mem_append.mp hm with hm | hm
    · exact isParam_ne_esc (h _ hm) rfl
    · revert hm; decide

theorem esc_begins_of_tokens :
    ∀ {ts : List Tok}, (∀ c, .char c ∈ ts → c ≠ esc) → (∀ code, .sgr code ∈ ts → IsCode code) →
    ∀ {pre suf : List Char}, ts.flatMap Tok.text = pre ++ esc :: suf → ∃ code, .sgr code ∈ ts ∧ seq code <+: esc :: suf := by
  intro ts
  induction ts with
  | nil => intro _ _ pre suf h; simp at h
  | cons t ts ih =>
    intro hchar hcode pre suf h
    have hrest : ∀ {pre' : List Char}, ts.flatMap Tok.text = pre' ++ esc :: suf →
        ∃ code, .sgr code ∈ t :: ts ∧ seq code <+: esc :: suf := by
      intro pre' h'
      obtain ⟨code, hm, hp⟩ := ih (fun c hc => hchar c (List.mem_cons_of_mem _ hc))
        (fun code hc => hcode code (List.mem_cons_of_mem _ hc)) h'
      exact ⟨code, List.mem_cons_of_mem _ hm, hp⟩
    rw [List.flatMap_cons] at h
    cases t with
    | char c =>
      cases pre with
      | nil => exact absurd (List.cons.inj h).1 (hchar c List.mem_cons_self)
      | cons d pre => exact hrest (List.cons.inj h).2
    | sgr code =>
      cases pre with
      | nil => exact ⟨code, List.mem_cons_self, ⟨ts.flatMap Tok.text, h⟩⟩
      | cons d pre =>
        -- the ESC is past this sequence, which holds no second one
        have h' := (List.cons.inj h).2
        rcases List.append_eq_append_iff.mp h' with ⟨a, hpre, ht⟩ | ⟨a, htail, ht⟩
        · exact hrest ht
        · cases a with
          | nil => exact @hrest [] ht.symm
          | cons x a =>
            obtain ⟨rfl, -⟩ := List.cons.inj ht
            exact absurd (htail ▸ List.mem_append_right _ List.mem_cons_self)
              (esc_not_mem_tail (hcode code List.mem_cons_self))

/-- Every ESC in a dressed text begins one sequence of the palette. -/
theorem Dressed.esc_begins (h : Dressed palette plain shown) {pre suf : List Char} (hs : shown = pre ++ esc :: suf) :
    ∃ code ∈ palette, seq code <+: esc :: suf := by
  obtain ⟨ts, -, htext, hplain, hesc, hcodes⟩ := h
  have hchar : ∀ c, .char c ∈ ts → c ≠ esc := by
    rintro c hm rfl
    apply hesc
    rw [← hplain]
    exact List.mem_filterMap.mpr ⟨_, hm, rfl⟩
  have hmem : ∀ code, .sgr code ∈ ts → code ∈ palette ∧ IsCode code :=
    fun code hm => hcodes code (List.mem_filterMap.mpr ⟨_, hm, rfl⟩)
  obtain ⟨code, hm, hp⟩ := esc_begins_of_tokens hchar (fun code hm => (hmem code hm).2) (htext.symm.trans hs)
  exact ⟨code, (hmem code hm).1, hp⟩

/-- A character of a dressed text is one of the plain text or stands in a sequence. -/
theorem Dressed.mem (h : Dressed palette plain shown) {c : Char} (hc : c ∈ shown) :
    c ∈ plain ∨ c = esc ∨ c = '[' ∨ c = 'm' ∨ isParam c = true := by
  obtain ⟨ts, -, htext, hplain, -, hcodes⟩ := h
  rw [htext] at hc
  obtain ⟨t, ht, hc⟩ := List.mem_flatMap.mp hc
  cases t with
  | char d =>
    obtain rfl : c = d := List.mem_singleton.mp hc
    exact .inl (hplain ▸ List.mem_filterMap.mpr ⟨_, ht, rfl⟩)
  | sgr code =>
    have hcode : IsCode code := (hcodes code (List.mem_filterMap.mpr ⟨_, ht, rfl⟩)).2
    right
    simp only [Tok.text, seq, List.mem_cons, List.mem_append, List.not_mem_nil, or_false] at hc
    rcases hc with h | h | h | h
    · exact .inl h
    · exact .inr (.inl h)
    · exact .inr (.inr (.inr (hcode c h)))
    · exact .inr (.inr (.inl h))

end Dressed

/-! ## Spans -/

/-- A text under one code, or under none. -/
structure Span where
  code : Option Code
  text : List Char

/-- The text, switched on and reset around. -/
def Span.shown (p : Span) : List Char :=
  match p.code with
  | none => p.text
  | some code => seq code ++ p.text ++ seq reset

structure Span.WellFormed (p : Span) : Prop where
  text : esc ∉ p.text
  code : ∀ code, p.code = some code → IsCode code ∧ code ≠ reset

def Span.toks (p : Span) : List Tok :=
  match p.code with
  | none => p.text.map .char
  | some code => .sgr code :: (p.text.map .char ++ [.sgr reset])

theorem Span.WellFormed.lexes {p : Span} (h : p.WellFormed) : Lexes p.shown p.toks := by
  unfold Span.shown Span.toks
  cases hc : p.code with
  | none => exact lexes_plain h.text
  | some code =>
    have hcode := (h.code code hc).1
    have hreset : IsCode reset := by decide
    exact ((lexes_seq hcode).append (lexes_plain h.text)).append (lexes_seq hreset)

theorem lex_spans : ∀ {ps : List Span}, (∀ p ∈ ps, p.WellFormed) → lex (ps.flatMap Span.shown) = ps.flatMap Span.toks
  | [], _ => rfl
  | p :: _, h => by
    rw [List.flatMap_cons, (h p List.mem_cons_self).lexes, lex_spans fun q hq => h q (List.mem_cons_of_mem _ hq),
      List.flatMap_cons]

theorem cellsOf_chars (style : List Code) (ts : List Tok) : ∀ cs : List Char,
    cellsOf style (cs.map .char ++ ts) = cs.map (fun c => (c, style)) ++ cellsOf style ts
  | [] => rfl
  | c :: cs => by
    rw [List.map_cons, List.cons_append, cellsOf, cellsOf_chars style ts cs, List.map_cons, List.cons_append]

theorem cells_spans {ps : List Span} (h : ∀ p ∈ ps, p.WellFormed) :
    cells (ps.flatMap Span.shown) = ps.flatMap fun p => p.text.map fun c => (c, p.code.toList) := by
  unfold cells
  rw [lex_spans h]
  induction ps with
  | nil => rfl
  | cons p ps ih =>
    rw [List.flatMap_cons, List.flatMap_cons, ← ih fun q hq => h q (List.mem_cons_of_mem _ hq)]
    unfold Span.toks
    cases hc : p.code with
    | none => exact cellsOf_chars [] _ _
    | some code =>
      have hne := ((h p List.mem_cons_self).code code hc).2
      simp only [List.cons_append, List.append_assoc, cellsOf, hne, if_false, List.nil_append, cellsOf_chars, if_true,
        Option.toList_some]

theorem chain_chars (r : Tok → Tok → Prop) (h : ∀ c t, r (.char c) t) : ∀ cs : List Char, (cs.map Tok.char).IsChain r
  | [] => List.isChain_nil
  | c :: cs => List.isChain_cons.mpr ⟨fun t _ => h c t, chain_chars r h cs⟩

theorem noEmptySpan_spans {ps : List Span} (h : ∀ p ∈ ps, p.WellFormed) (hne : ∀ p ∈ ps, p.code ≠ none → p.text ≠ []) :
    NoEmptySpan (ps.flatMap Span.shown) := by
  unfold NoEmptySpan
  rw [lex_spans h]
  have hchar : ∀ c t, ¬ ClosesAtOnce (.char c) t := fun c t ⟨_, _, _, e⟩ => by cases e
  have hreset : ∀ t, ¬ ClosesAtOnce (.sgr reset) t := fun t ⟨_, _, hr, e⟩ => hr (Tok.sgr.inj e).symm
  induction ps with
  | nil => exact List.isChain_nil
  | cons p ps ih =>
    rw [List.flatMap_cons, List.isChain_append]
    refine ⟨?_, ih (fun q hq => h q (List.mem_cons_of_mem _ hq)) (fun q hq => hne q (List.mem_cons_of_mem _ hq)), ?_⟩
    · unfold Span.toks
      cases hc : p.code with
      | none => exact chain_chars _ hchar _
      | some code =>
        -- the first token after the code is a character of the text
        obtain ⟨c, cs, htext⟩ := List.exists_cons_of_ne_nil (hne p List.mem_cons_self (by rw [hc]; exact fun e => by cases e))
        rw [List.isChain_cons, List.isChain_append]
        refine ⟨?_, chain_chars _ hchar _, List.isChain_singleton _, ?_⟩
        · intro t ht ⟨e, _⟩
          rw [htext] at ht
          cases ht
          cases e
        · intro t ht _ _
          obtain ⟨d, -, rfl⟩ := List.mem_map.mp (List.mem_of_getLast? ht)
          exact hchar d _
    · -- a span ends in a character or a reset
      intro t ht t' _
      unfold Span.toks at ht
      cases hc : p.code with
      | none =>
        rw [hc] at ht
        obtain ⟨d, -, rfl⟩ := List.mem_map.mp (List.mem_of_getLast? ht)
        exact hchar d t'
      | some code =>
        rw [hc] at ht
        have e : t = .sgr reset := by
          simpa [List.getLast?_cons, List.getLast?_append] using ht.symm
        rw [e]
        exact hreset t'

instance (p : Span) : Decidable p.WellFormed :=
  decidable_of_iff (esc ∉ p.text ∧ ∀ code ∈ p.code, IsCode code ∧ code ≠ reset)
    ⟨fun h => ⟨h.1, h.2⟩, fun h => ⟨h.text, h.code⟩⟩

theorem dressed_span {palette : List Code} {p : Span} (h : p.WellFormed) (hreset : reset ∈ palette)
    (hcode : ∀ code, p.code = some code → code ∈ palette) : Dressed palette p.text p.shown := by
  unfold Span.shown
  cases hc : p.code with
  | none => exact dressed_plain h.text
  | some code =>
    have hd := ((dressed_seq (h.code code hc).1 (hcode code hc)).append (dressed_plain h.text)).append
      (dressed_seq (show IsCode reset by decide) hreset)
    rwa [List.nil_append, List.append_nil] at hd

theorem dressed_spans {palette : List Code} {ps : List Span} (h : ∀ p ∈ ps, p.WellFormed) (hreset : reset ∈ palette)
    (hcode : ∀ p ∈ ps, ∀ code ∈ p.code, code ∈ palette) : Dressed palette (ps.flatMap Span.text) (ps.flatMap Span.shown) :=
  dressed_flatMap fun p hp => dressed_span (h p hp) hreset (hcode p hp)

/-- The spans coloured, or their texts alone. -/
def paintSpans (color : Bool) (ps : List Span) : List Char :=
  if color then ps.flatMap Span.shown else ps.flatMap Span.text

@[simp] theorem paintSpans_plain (color : Bool) (text : List Char) (ps : List Span) :
    paintSpans color (⟨none, text⟩ :: ps) = text ++ paintSpans color ps := by
  cases color <;> rfl

theorem dressed_paintSpans {palette : List Code} {ps : List Span} (h : ∀ p ∈ ps, p.WellFormed) (hreset : reset ∈ palette)
    (hcode : ∀ p ∈ ps, ∀ code ∈ p.code, code ∈ palette) (color : Bool) :
    Dressed palette (ps.flatMap Span.text) (paintSpans color ps) := by
  cases color with
  | true => exact dressed_spans h hreset hcode
  | false =>
    refine dressed_plain fun hm => ?_
    obtain ⟨p, hp, hm⟩ := List.mem_flatMap.mp hm
    exact (h p hp).text hm

/-! ## Painted texts -/

/-- `shown` is spans that all meet `P`, and `plain` the text of them. -/
def Painted (P : Span → Prop) (plain shown : List Char) : Prop :=
  ∃ ps : List Span, (∀ p ∈ ps, P p) ∧ ps.flatMap Span.text = plain ∧ ps.flatMap Span.shown = shown

section Painted

variable {P Q : Span → Prop} {plain plain' shown shown' : List Char}

theorem painted_nil : Painted P [] [] := ⟨[], fun _ h => absurd h List.not_mem_nil, rfl, rfl⟩

theorem painted_span {p : Span} (h : P p) : Painted P p.text p.shown :=
  ⟨[p], fun _ hq => List.mem_singleton.mp hq ▸ h, List.append_nil _, List.append_nil _⟩

theorem painted_plain {text : List Char} (h : P ⟨none, text⟩) : Painted P text text := painted_span h

theorem Painted.append (h : Painted P plain shown) (h' : Painted P plain' shown') :
    Painted P (plain ++ plain') (shown ++ shown') := by
  obtain ⟨ps, hp, rfl, rfl⟩ := h
  obtain ⟨qs, hq, rfl, rfl⟩ := h'
  refine ⟨ps ++ qs, fun r hr => ?_, List.flatMap_append, List.flatMap_append⟩
  rcases List.mem_append.mp hr with hr | hr
  · exact hp r hr
  · exact hq r hr

theorem Painted.mono (hP : ∀ p, P p → Q p) (h : Painted P plain shown) : Painted Q plain shown := by
  obtain ⟨ps, hp, htext, hshown⟩ := h
  exact ⟨ps, fun p hm => hP p (hp p hm), htext, hshown⟩

/-- The spans of a painted text are well formed when their codes are. -/
theorem wellFormed_of_painted {ps : List Span} (hcode : ∀ p ∈ ps, ∀ code, p.code = some code → IsCode code ∧ code ≠ reset)
    (hesc : esc ∉ ps.flatMap Span.text) : ∀ p ∈ ps, p.WellFormed :=
  fun p hp => ⟨fun hm => hesc (List.mem_flatMap.mpr ⟨p, hp, hm⟩), hcode p hp⟩

theorem Painted.dressed {palette : List Code} (h : Painted P plain shown) (hesc : esc ∉ plain) (hreset : reset ∈ palette)
    (hP : ∀ p, P p → ∀ code, p.code = some code → (IsCode code ∧ code ≠ reset) ∧ code ∈ palette) :
    Dressed palette plain shown := by
  obtain ⟨ps, hp, rfl, rfl⟩ := h
  have hw := wellFormed_of_painted (fun p hm code hc => (hP p (hp p hm) code hc).1) hesc
  exact dressed_spans hw hreset fun p hm code hc => (hP p (hp p hm) code hc).2

theorem Painted.noEmptySpan (h : Painted P plain shown) (hesc : esc ∉ plain)
    (hP : ∀ p, P p → ∀ code, p.code = some code → (IsCode code ∧ code ≠ reset) ∧ p.text ≠ []) : NoEmptySpan shown := by
  obtain ⟨ps, hp, rfl, rfl⟩ := h
  have hw := wellFormed_of_painted (fun p hm code hc => (hP p (hp p hm) code hc).1) hesc
  refine noEmptySpan_spans hw fun p hm hne => ?_
  obtain ⟨code, hc⟩ := Option.ne_none_iff_exists'.mp hne
  exact (hP p (hp p hm) code hc).2

/-- Each character of a painted text stands in a span, under that span's code alone. -/
theorem Painted.cells (h : Painted P plain shown) (hesc : esc ∉ plain)
    (hP : ∀ p, P p → ∀ code, p.code = some code → IsCode code ∧ code ≠ reset) :
    (cells shown).map Prod.fst = plain ∧
      ∀ c style, (c, style) ∈ cells shown → ∃ p, P p ∧ c ∈ p.text ∧ style = p.code.toList := by
  obtain ⟨ps, hp, rfl, rfl⟩ := h
  rw [cells_spans (wellFormed_of_painted (fun p hm code hc => hP p (hp p hm) code hc) hesc)]
  constructor
  · simp [List.map_flatMap, Function.comp_def]
  · intro c style hm
    obtain ⟨p, hpm, hm⟩ := List.mem_flatMap.mp hm
    obtain ⟨d, hd, e⟩ := List.mem_map.mp hm
    cases e
    exact ⟨p, hp p hpm, hd, rfl⟩

end Painted

end SudoWhat.Lib.Sgr
