/-
  SudoWhat.Lib.ShellWords — POSIX word splitting, character by character.

  Three rules: spaces end a word, single quotes keep everything up to the next one as
  it is, a backslash outside quotes keeps the next character as it is. A line that
  stops inside quotes or right after a backslash splits into nothing (`none`).

  A text `Spells` a word when the splitter, standing between words, reads exactly that
  word out of it and stands inside it afterwards. Texts that each spell a word, joined
  by spaces, split into exactly those words, in order (`split_join`).
-/

import Mathlib.Data.List.Basic

namespace SudoWhat.Lib.ShellWords

abbrev Word := List Char

inductive Mode where
  | plain
  | quoted
  | escaped
  deriving DecidableEq, Repr

structure St where
  words : List Word
  /-- The word being read; `none` between words. -/
  cur : Option Word
  mode : Mode
  deriving DecidableEq, Repr

def step (s : St) (c : Char) : St :=
  match s.mode with
  | .plain =>
    if c = '\'' then { s with cur := some (s.cur.getD []), mode := .quoted }
    else if c = '\\' then { s with cur := some (s.cur.getD []), mode := .escaped }
    else if c = ' ' then { s with words := s.words ++ s.cur.toList, cur := none }
    else { s with cur := some (s.cur.getD [] ++ [c]) }
  | .quoted =>
    if c = '\'' then { s with mode := .plain } else { s with cur := some (s.cur.getD [] ++ [c]) }
  | .escaped => { s with cur := some (s.cur.getD [] ++ [c]), mode := .plain }

def feed (s : St) (cs : List Char) : St := cs.foldl step s

def split (cs : List Char) : Option (List Word) :=
  let s := feed ⟨[], none, .plain⟩ cs
  if s.mode = .plain then some (s.words ++ s.cur.toList) else none

@[simp] theorem feed_nil (s : St) : feed s [] = s := rfl
@[simp] theorem feed_cons (s : St) (c : Char) (cs : List Char) : feed s (c :: cs) = feed (step s c) cs := rfl

theorem feed_append (s : St) (xs ys : List Char) : feed s (xs ++ ys) = feed (feed s xs) ys := List.foldl_append

/-! ## Reading one word -/

/-- Reading `text` between words leaves the splitter inside the word `w`. -/
def Spells (text : List Char) (w : Word) : Prop :=
  ∀ ws, feed ⟨ws, none, .plain⟩ text = ⟨ws, some w, .plain⟩

theorem feed_plain (ws : List Word) : ∀ (cs w : List Char), (∀ c ∈ cs, c ≠ '\'' ∧ c ≠ '\\' ∧ c ≠ ' ') →
    feed ⟨ws, some w, .plain⟩ cs = ⟨ws, some (w ++ cs), .plain⟩ := by
  intro cs
  induction cs with
  | nil => intro w _; simp
  | cons c cs ih =>
    intro w h
    obtain ⟨h1, h2, h3⟩ := h c List.mem_cons_self
    simp only [feed_cons, step, h1, h2, h3, if_false, Option.getD_some]
    rw [ih _ (fun d hd => h d (List.mem_cons_of_mem _ hd))]
    simp

/-- A non-empty text with no quote, backslash or space spells itself. -/
theorem spells_plain {cs : List Char} (hne : cs ≠ []) (h : ∀ c ∈ cs, c ≠ '\'' ∧ c ≠ '\\' ∧ c ≠ ' ') :
    Spells cs cs := by
  intro ws
  cases cs with
  | nil => exact absurd rfl hne
  | cons c cs =>
    obtain ⟨h1, h2, h3⟩ := h c List.mem_cons_self
    simp only [feed_cons, step, h1, h2, h3, if_false, Option.getD_none, List.nil_append]
    exact feed_plain ws cs [c] (fun d hd => h d (List.mem_cons_of_mem _ hd))

theorem feed_quoted (ws : List Word) : ∀ (cs w : List Char), (∀ c ∈ cs, c ≠ '\'') →
    feed ⟨ws, some w, .quoted⟩ cs = ⟨ws, some (w ++ cs), .quoted⟩ := by
  intro cs
  induction cs with
  | nil => intro w _; simp
  | cons c cs ih =>
    intro w h
    simp only [feed_cons, step, h c List.mem_cons_self, if_false, Option.getD_some]
    rw [ih _ (fun d hd => h d (List.mem_cons_of_mem _ hd))]
    simp

/-- Inside quotes, `'\''` adds one quote to the word and stays inside quotes. -/
theorem feed_idiom (ws : List Word) (w : Word) :
    feed ⟨ws, some w, .quoted⟩ ['\'', '\\', '\'', '\''] = ⟨ws, some (w ++ ['\'']), .quoted⟩ := by
  simp [step]

/-- A quote, a text that adds `w` inside quotes, and a quote spell `w`. -/
theorem spells_quoted {cs w : List Char}
    (h : ∀ ws, feed ⟨ws, some [], .quoted⟩ cs = ⟨ws, some w, .quoted⟩) : Spells ('\'' :: cs ++ ['\'']) w := by
  intro ws
  rw [feed_append, feed_cons]
  simp [step, h ws]

/-! ## Joining words -/

theorem feed_join (ws : List Word) : ∀ {texts : List (List Char)} {words : List Word} {t : List Char} {w : Word},
    Spells t w → List.Forall₂ Spells texts words →
    feed ⟨ws, none, .plain⟩ ([' '].intercalate (t :: texts)) =
      ⟨ws ++ (w :: words).dropLast, some ((w :: words).getLast (List.cons_ne_nil _ _)), .plain⟩ := by
  intro texts
  induction texts generalizing ws with
  | nil =>
    intro words t w ht h
    cases h
    simpa [List.intercalate] using ht ws
  | cons t' texts ih =>
    intro words t w ht h
    cases h with
    | cons ht' h' =>
      have hs : step ⟨ws, some w, .plain⟩ ' ' = ⟨ws ++ [w], none, .plain⟩ := by simp [step]
      rw [List.intercalate_cons_cons, List.append_assoc, feed_append, ht ws, List.singleton_append, feed_cons, hs,
        ih (ws ++ [w]) ht' h']
      simp

theorem split_join {texts : List (List Char)} {words : List Word} (h : List.Forall₂ Spells texts words) :
    split ([' '].intercalate texts) = some words := by
  cases h with
  | nil => rfl
  | cons ht h =>
    simp only [split, feed_join [] ht h, if_true, List.nil_append, Option.toList_some]
    rw [List.dropLast_append_getLast]

example : split "a 'b  c' ''  \\''d'".toList = some ["a".toList, "b  c".toList, [], "'d".toList] := by decide

end SudoWhat.Lib.ShellWords
