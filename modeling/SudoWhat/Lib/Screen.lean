/-
  SudoWhat.Lib.Screen — what a terminal draws of a text with SGR sequences in it.

  The terminal keeps attributes; a sequence changes them parameter by parameter, a
  character is drawn in those of the moment. `screen` is the drawn characters in order.

  A text `Draws` some cells from one state to another when a terminal in the first draws
  exactly those off its front and stands in the second, whatever follows. Such texts
  compose (`Draws.append`); a plain one changes nothing (`draws_plain`), a sequence draws
  nothing (`draws_seq`), and a reset leads back to the default (`sgr_reset`).
-/

import SudoWhat.Lib.Sgr

namespace SudoWhat.Lib.Sgr

/-- Colours are numbered as in the parameters: 0 to 7, and 8 to 15 for the bright ones. -/
structure Attrs where
  bold : Bool
  dim : Bool
  reverse : Bool
  foreground : Option Nat
  background : Option Nat
  deriving DecidableEq, Repr

def Attrs.default : Attrs := ⟨false, false, false, none, none⟩

/-- One parameter. -/
def Attrs.param (a : Attrs) (n : Nat) : Attrs :=
  if n = 0 then .default
  else if n = 1 then { a with bold := true }
  else if n = 2 then { a with dim := true }
  else if n = 7 then { a with reverse := true }
  else if n = 22 then { a with bold := false, dim := false }
  else if n = 27 then { a with reverse := false }
  else if 30 ≤ n ∧ n ≤ 37 then { a with foreground := some (n - 30) }
  else if n = 39 then { a with foreground := none }
  else if 40 ≤ n ∧ n ≤ 47 then { a with background := some (n - 40) }
  else if n = 49 then { a with background := none }
  else if 90 ≤ n ∧ n ≤ 97 then { a with foreground := some (n - 90 + 8) }
  else if 100 ≤ n ∧ n ≤ 107 then { a with background := some (n - 100 + 8) }
  else a

/-- The parameters of a sequence; one left out is 0. -/
def params (code : Code) : List Nat := (code.splitOn ';').map fun ds => ds.foldl (fun n c => 10 * n + (c.toNat - 48)) 0

def Attrs.sgr (a : Attrs) (code : Code) : Attrs := (params code).foldl Attrs.param a

abbrev Cell := Char × Attrs

def screenOf : Attrs → List Tok → List Cell
  | _, [] => []
  | a, .char c :: ts => (c, a) :: screenOf a ts
  | a, .sgr code :: ts => screenOf (a.sgr code) ts

def screen (s : List Char) : List Cell := screenOf .default (lex s)

@[simp] theorem sgr_reset (a : Attrs) : a.sgr reset = .default := rfl

/-! ## Drawing the front of a text -/

/-- From `a`, the text draws `cells` and leaves `b`, whatever follows. -/
def Draws (a : Attrs) (s : List Char) (cells : List Cell) (b : Attrs) : Prop :=
  ∀ t, screenOf a (lex (s ++ t)) = cells ++ screenOf b (lex t)

section

variable {a b c : Attrs} {s s' : List Char} {cells cells' : List Cell}

theorem draws_nil : Draws a [] [] a := fun _ => rfl

theorem Draws.append (h : Draws a s cells b) (h' : Draws b s' cells' c) : Draws a (s ++ s') (cells ++ cells') c := by
  intro t
  rw [List.append_assoc, h, h', List.append_assoc]

theorem Draws.screen (h : Draws .default s cells b) : screen s = cells := by
  have := h []
  rwa [List.append_nil, show lex [] = [] from rfl, screenOf, List.append_nil] at this

theorem draws_plain (h : esc ∉ s) : Draws a s (s.map fun c => (c, a)) a := by
  intro t
  rw [lexes_plain h]
  clear h
  induction s with
  | nil => rfl
  | cons d s ih => simp only [List.map_cons, List.cons_append, screenOf, ih]

theorem draws_seq {code : Code} (h : IsCode code) : Draws a (seq code) [] (a.sgr code) := by
  intro t
  rw [lexes_seq h]
  rfl

theorem draws_between {code : Code} (h : IsCode code) (hs : esc ∉ s) :
    Draws .default (seq code ++ s ++ seq reset) (s.map fun c => (c, Attrs.default.sgr code)) .default := by
  have hreset : IsCode reset := by decide
  have hd := ((draws_seq (a := .default) h).append (draws_plain hs)).append (draws_seq hreset)
  rwa [List.nil_append, List.append_nil, sgr_reset] at hd

/-- Texts that draw one by one from a state back to it draw so when put together. -/
theorem draws_flatMap {α : Type} {f : α → List Char} {g : α → List Cell} : ∀ {xs : List α},
    (∀ x ∈ xs, Draws a (f x) (g x) a) → Draws a (xs.flatMap f) (xs.flatMap g) a
  | [], _ => draws_nil
  | x :: _, h => (h x List.mem_cons_self).append (draws_flatMap fun y hy => h y (List.mem_cons_of_mem _ hy))

end

example : screen (seq ['1', ';', '3', '6'] ++ ['x'] ++ seq reset ++ ['y']) =
    [('x', ⟨true, false, false, some 6, none⟩), ('y', .default)] := by decide

end SudoWhat.Lib.Sgr
