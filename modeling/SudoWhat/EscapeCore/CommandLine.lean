/-
  SudoWhat.EscapeCore.CommandLine — tokens, quoting and the plain command line
  (`render_token`, `command_tokens`, `full_command_line_bytes`).

  A token is rendered once, as marked parts whose texts concatenate to the plain token.
  A token made of safe characters alone is shown bare; any other is single-quoted, a
  quote inside it as `'\''`; the empty token is two quotes. The line is the rendered
  path, then argv without an argv[0] that repeats the path or its last component, joined
  by spaces.

  Proved: a rendered token spells its escaped text under the POSIX word rules
  (`spells_quoteBytes`), so the line splits into exactly the escaped tokens
  (`split_fullCommandLineBytes`), and with `escapeBytes_injective` two lines are equal
  only for equal token lists. Equal token lists are equal arguments except where only one
  of the two lines dropped its argv[0] (`line_determines_arguments_iff`).
-/

import Mathlib.Data.List.Forall2
import SudoWhat.Lib.ShellWords
import SudoWhat.EscapeCore.Escape

namespace SudoWhat.EscapeCore

open SudoWhat.Lib

/-- The conservative safe set: a token made only of these characters is shown bare. -/
def isSafe (c : Char) : Bool :=
  ('A' ≤ c && c ≤ 'Z') || ('a' ≤ c && c ≤ 'z') || ('0' ≤ c && c ≤ '9')
    || c == '+' || c == '_' || c == '.' || c == '/' || c == ':' || c == '=' || c == '@' || c == '%' || c == ','
    || c == '-'

/-- What a rendered part is, which decides its colour. -/
inductive Mark where
  | plain
  /-- A single quote the renderer added. -/
  | ours
  /-- A shell metacharacter the argument itself holds. -/
  | metachar
  /-- The escape of a hidden code point. -/
  | hidden
  deriving DecidableEq, Repr

structure Part where
  text : List Char
  mark : Mark
  deriving DecidableEq, Repr

def ours : Part := ⟨['\''], .ours⟩

def Piece.isSafe : Piece → Bool
  | .char c => EscapeCore.isSafe c
  | _ => false

/-- The parts of one piece of a quoted token. -/
def renderPiece (p : Piece) : List Part :=
  match p with
  | .char '\'' => [ours, ⟨['\\'], .plain⟩, ⟨['\''], .metachar⟩, ours]
  | .char '"' => [⟨['"'], .metachar⟩]
  | .char '`' => [⟨['`'], .metachar⟩]
  | .hidden _ => [⟨p.text, .hidden⟩]
  | _ => [⟨p.text, .plain⟩]

def renderToken (raw : Bytes) : List Part :=
  if raw = [] then [ours, ours]
  else
    let ps := pieces raw
    if ps.all Piece.isSafe then ps.map fun p => ⟨p.text, .plain⟩
    else ours :: ps.flatMap renderPiece ++ [ours]

def pushRendered (r : List Part) : List Char := r.flatMap Part.text

def quoteBytes (input : Bytes) : List Char := pushRendered (renderToken input)

def slash : UInt8 := 0x2F

/-- The last component of a path, trailing slashes stripped; "/" for slashes alone. -/
def lastPathComponent (p : Bytes) : Bytes :=
  if p = [] then []
  else
    let trimmed := p.reverse.dropWhile (· == slash)
    if trimmed = [] then [slash] else (trimmed.takeWhile (· != slash)).reverse

/-- The path, then argv without an argv[0] that is the path or its last component. -/
def commandTokens (path : Bytes) (argv : List Bytes) : List Bytes :=
  path :: match argv with
    | [] => []
    | a0 :: rest =>
      let basename := lastPathComponent path
      if a0 = path ∨ (basename ≠ [] ∧ a0 = basename) then rest else a0 :: rest

def fullCommandLineBytes (path : Bytes) (argv : List Bytes) : List Char :=
  [' '].intercalate ((commandTokens path argv).map quoteBytes)

/-! ## Rendered texts -/

@[simp] theorem pushRendered_nil : pushRendered [] = [] := rfl
@[simp] theorem pushRendered_cons (p : Part) (r : List Part) : pushRendered (p :: r) = p.text ++ pushRendered r := rfl
@[simp] theorem pushRendered_append (r r' : List Part) : pushRendered (r ++ r') = pushRendered r ++ pushRendered r' :=
  List.flatMap_append

theorem pushRendered_map (ps : List Piece) (m : Mark) : pushRendered (ps.map fun p => ⟨p.text, m⟩) = textOf ps := by
  simp [pushRendered, textOf, List.flatMap_map]

theorem quote_not_mem_hex {c : Char} (h : isAsciiHexdigit c = true) : c ≠ '\'' := by
  rintro rfl; revert h; decide

theorem quote_not_mem_pushCodePoint (u : Nat) : '\'' ∉ pushCodePoint u := by
  have : '\'' ∉ upperHex u := fun h => quote_not_mem_hex (isAsciiHexdigit_of_mem_upperHex _ h) rfl
  simp [pushCodePoint, this]

theorem quote_not_mem_pushByte (b : UInt8) : '\'' ∉ pushByte b := by
  have hb : b.toNat < 256 := UInt8.toNat_lt_size b
  have hhi := quote_not_mem_hex (isAsciiHexdigit_hexDigit (d := b.toNat / 16) (by omega))
  have hlo := quote_not_mem_hex (isAsciiHexdigit_hexDigit (d := b.toNat % 16) (by omega))
  simp [pushByte, hhi.symm, hlo.symm]

theorem quote_not_mem_text {p : Piece} (h : p ≠ .char '\'') : ∀ c ∈ p.text, c ≠ '\'' := by
  rintro c hc rfl
  cases p with
  | char c' => simp only [Piece.text, List.mem_singleton] at hc; subst hc; exact h rfl
  | hidden u => exact quote_not_mem_pushCodePoint u hc
  | byte b => exact quote_not_mem_pushByte b hc
  | backslash => exact quote_not_mem_pushCodePoint _ hc

theorem pushRendered_renderPiece {p : Piece} (h : p ≠ .char '\'') : pushRendered (renderPiece p) = p.text := by
  unfold renderPiece
  split
  · exact absurd rfl h
  all_goals simp [pushRendered, Piece.text]

/-! ## A rendered token spells its escaped text -/

theorem feed_renderPieces (ws : List ShellWords.Word) : ∀ (ps : List Piece) (w : ShellWords.Word),
    ShellWords.feed ⟨ws, some w, .quoted⟩ (pushRendered (ps.flatMap renderPiece)) =
      ⟨ws, some (w ++ textOf ps), .quoted⟩ := by
  intro ps
  induction ps with
  | nil => intro w; simp
  | cons p ps ih =>
    intro w
    rw [List.flatMap_cons, pushRendered_append, ShellWords.feed_append]
    have hp : ShellWords.feed ⟨ws, some w, .quoted⟩ (pushRendered (renderPiece p)) = ⟨ws, some (w ++ p.text), .quoted⟩ := by
      by_cases h : p = .char '\''
      · subst h; exact ShellWords.feed_idiom ws w
      · rw [pushRendered_renderPiece h]
        exact ShellWords.feed_quoted ws _ w (quote_not_mem_text h)
    rw [hp, ih, textOf_cons, List.append_assoc]

theorem pieces_ne_nil {raw : Bytes} (h : raw ≠ []) : pieces raw ≠ [] := by
  intro hp
  apply h
  have hd : decoded raw = [] := by
    cases hd : decoded raw with
    | nil => rfl
    | cons d ds => simp [pieces, hd, piecesOf] at hp
  rw [← flatMap_bytes_decoded raw, hd]
  rfl

theorem isSafe_plain {c : Char} (h : isSafe c = true) : c ≠ '\'' ∧ c ≠ '\\' ∧ c ≠ ' ' := by
  refine ⟨?_, ?_, ?_⟩ <;> (rintro rfl; revert h; decide)

theorem isSafe_of_mem_textOf {ps : List Piece} (h : ps.all Piece.isSafe = true) : ∀ c ∈ textOf ps, isSafe c = true := by
  intro c hc
  obtain ⟨p, hp, hc⟩ := List.mem_flatMap.mp hc
  have hs := List.all_eq_true.mp h p hp
  cases p with
  | char c' => simp only [Piece.text, List.mem_singleton] at hc; subst hc; exact hs
  | _ => cases hs

theorem textOf_ne_nil {ps : List Piece} (h : ps ≠ []) : textOf ps ≠ [] := by
  cases ps with
  | nil => exact absurd rfl h
  | cons p ps => cases p <;> simp [Piece.text, pushCodePoint, pushByte]

theorem escapeBytes_ne_nil {raw : Bytes} (h : raw ≠ []) : escapeBytes raw ≠ [] := textOf_ne_nil (pieces_ne_nil h)

theorem spells_quoteBytes (raw : Bytes) : ShellWords.Spells (quoteBytes raw) (escapeBytes raw) := by
  unfold quoteBytes renderToken
  split
  · rename_i h; subst h
    exact @ShellWords.spells_quoted [] [] fun _ => rfl
  · rename_i h
    dsimp only
    split
    · rename_i hs
      rw [pushRendered_map]
      exact ShellWords.spells_plain (textOf_ne_nil (pieces_ne_nil h)) fun c hc => isSafe_plain (isSafe_of_mem_textOf hs c hc)
    · rw [pushRendered_append, pushRendered_cons]
      exact ShellWords.spells_quoted fun ws => feed_renderPieces ws (pieces raw) []

/-! ## The line determines its tokens -/

theorem split_fullCommandLineBytes (path : Bytes) (argv : List Bytes) :
    ShellWords.split (fullCommandLineBytes path argv) = some ((commandTokens path argv).map escapeBytes) := by
  refine ShellWords.split_join ?_
  rw [List.forall₂_map_left_iff, List.forall₂_map_right_iff, List.forall₂_same]
  exact fun t _ => spells_quoteBytes t

theorem fullCommandLineBytes_ne_nil (path : Bytes) (argv : List Bytes) : fullCommandLineBytes path argv ≠ [] := by
  intro h
  have hs := split_fullCommandLineBytes path argv
  rw [h] at hs
  cases hs

theorem fullCommandLineBytes_eq_iff (path path' : Bytes) (argv argv' : List Bytes) :
    fullCommandLineBytes path argv = fullCommandLineBytes path' argv' ↔
      commandTokens path argv = commandTokens path' argv' := by
  constructor
  · intro h
    have hs := congrArg ShellWords.split h
    rw [split_fullCommandLineBytes, split_fullCommandLineBytes] at hs
    exact List.map_injective_iff.mpr escapeBytes_injective (Option.some.inj hs)
  · intro h; simp only [fullCommandLineBytes, h]

/-- The plain line splits into exactly its escaped tokens, so equal lines are equal token
    lists. -/
theorem command_line_determines_tokens (path : Bytes) (argv : List Bytes) :
    ShellWords.split (fullCommandLineBytes path argv) = some ((commandTokens path argv).map escapeBytes) ∧
      ∀ path' argv', fullCommandLineBytes path argv = fullCommandLineBytes path' argv' ↔
        commandTokens path argv = commandTokens path' argv' :=
  ⟨split_fullCommandLineBytes path argv, fun path' argv' => fullCommandLineBytes_eq_iff path path' argv argv'⟩

/-! ## What the line says of the arguments -/

/-- argv[0] repeats the path or its last component, and is not shown. -/
def dropsArgv0 (path : Bytes) : List Bytes → Bool
  | [] => false
  | a0 :: _ => a0 == path || (lastPathComponent path != [] && a0 == lastPathComponent path)

theorem commandTokens_eq (path : Bytes) (argv : List Bytes) :
    commandTokens path argv = path :: if dropsArgv0 path argv = true then argv.tail else argv := by
  cases argv with
  | nil => rfl
  | cons a0 rest => simp [commandTokens, dropsArgv0]

/-- `b` is `a` without its argv[0], which is dropped from `a`'s line, and `b`'s own argv[0]
    is not dropped from `b`'s. -/
def HidesArgument (path : Bytes) (a b : List Bytes) : Prop :=
  dropsArgv0 path a = true ∧ dropsArgv0 path b = false ∧ b = a.tail

/-- Two runs of a binary shown as one line get the same arguments, unless one array is the
    other without a dropped argv[0] and keeps its own. -/
theorem line_determines_arguments_iff {path : Bytes} {a b : List Bytes} (ha : a ≠ []) (hb : b ≠ []) :
    (fullCommandLineBytes path a = fullCommandLineBytes path b → a.tail = b.tail) ↔
      ¬ (HidesArgument path a b ∨ HidesArgument path b a) := by
  -- a list is never its own tail
  have hne : ∀ {l : List Bytes}, l ≠ [] → l ≠ l.tail := by
    intro l hl h
    cases l with
    | nil => exact hl rfl
    | cons x xs => exact absurd (congrArg List.length h) (by simp)
  rw [fullCommandLineBytes_eq_iff, commandTokens_eq, commandTokens_eq, List.cons.injEq]
  unfold HidesArgument
  cases da : dropsArgv0 path a with
  | true =>
    cases db : dropsArgv0 path b with
    | true => simp
    | false =>
      simp only [if_true, Bool.false_eq_true, if_false, true_and, false_and, or_false]
      constructor
      · intro h e
        exact hne hb (e.trans (h e.symm))
      · intro h e
        exact absurd e.symm h
  | false =>
    cases db : dropsArgv0 path b with
    | true =>
      simp only [if_true, Bool.false_eq_true, if_false, true_and, false_and, false_or]
      constructor
      · intro h e
        exact hne ha (e.trans (h e).symm)
      · intro h e
        exact absurd e h
    | false =>
      simp only [Bool.false_eq_true, if_false, true_and, false_and, or_self, not_false_eq_true, iff_true]
      intro e
      rw [e]

/-- `ls -a` and `ls -b`. -/
theorem line_determines_arguments_ls :
    (fullCommandLineBytes (Utf8.encode "/bin/ls".toList) (["ls", "-a"].map fun s => Utf8.encode s.toList) =
        fullCommandLineBytes (Utf8.encode "/bin/ls".toList) (["ls", "-b"].map fun s => Utf8.encode s.toList) →
      (["ls", "-a"].map fun s => Utf8.encode s.toList).tail = (["ls", "-b"].map fun s => Utf8.encode s.toList).tail) ↔
      ¬ (HidesArgument (Utf8.encode "/bin/ls".toList) (["ls", "-a"].map fun s => Utf8.encode s.toList)
            (["ls", "-b"].map fun s => Utf8.encode s.toList) ∨
          HidesArgument (Utf8.encode "/bin/ls".toList) (["ls", "-b"].map fun s => Utf8.encode s.toList)
            (["ls", "-a"].map fun s => Utf8.encode s.toList)) :=
  line_determines_arguments_iff (by decide) (by decide)

/-- `zsh` given the argument `-zsh`, and the login shell, which is given none, show one
    line. -/
theorem line_hides_an_argument : ¬ ∀ (path : Bytes) (a b : List Bytes), a ≠ [] → b ≠ [] →
    fullCommandLineBytes path a = fullCommandLineBytes path b → a.tail = b.tail := by
  intro h
  have hline : fullCommandLineBytes (Utf8.encode "/bin/zsh".toList) (["zsh", "-zsh"].map fun s => Utf8.encode s.toList) =
      fullCommandLineBytes (Utf8.encode "/bin/zsh".toList) (["-zsh"].map fun s => Utf8.encode s.toList) := by
    rw [fullCommandLineBytes_eq_iff]
    decide
  exact absurd (h _ _ _ (by decide) (by decide) hline) (by decide)

end SudoWhat.EscapeCore
