/-
  SudoWhat.Lib.Interleaved — one party's effects, and anyone's changes between any two.

  A history lists the moments of a run: the state at each, and the effect the party makes
  there, or `none` where another changes the state. Proved: a history comes apart at each of
  the party's effects (`Interleaved.split`), and a property that every change and every one
  of its effects keeps holds to the end (`Interleaved.invariant`); effects that change nothing
  have a run in which nothing changes (`Interleaved.exists_still`).
-/

import Mathlib.Data.List.Basic

namespace SudoWhat.Lib

variable {σ ε : Type}

inductive Interleaved (change : σ → σ → Prop) (act : ε → σ → σ → Prop) : σ → List (σ × Option ε) → σ → Prop where
  | done (s : σ) : Interleaved change act s [] s
  | change {s s' t : σ} {history : List (σ × Option ε)} : change s s' → Interleaved change act s' history t →
      Interleaved change act s ((s, none) :: history) t
  | act {s s' t : σ} {e : ε} {history : List (σ × Option ε)} : act e s s' → Interleaved change act s' history t →
      Interleaved change act s ((s, some e) :: history) t

namespace Interleaved

/-- What the party does in a history, in order. -/
def effects (history : List (σ × Option ε)) : List ε := history.filterMap Prod.snd

@[simp] theorem effects_nil : effects ([] : List (σ × Option ε)) = [] := rfl
@[simp] theorem effects_change (s : σ) (history : List (σ × Option ε)) :
    effects ((s, none) :: history) = effects history := rfl
@[simp] theorem effects_act (s : σ) (e : ε) (history : List (σ × Option ε)) :
    effects ((s, some e) :: history) = e :: effects history := rfl

variable {change : σ → σ → Prop} {act : ε → σ → σ → Prop} {s t : σ} {history : List (σ × Option ε)}

/-- The moment of an effect, with the run before it and the run from it on. -/
theorem split (h : Interleaved change act s history t) {e : ε} {as bs : List ε}
    (heff : effects history = as ++ e :: bs) :
    ∃ before w w' after, history = before ++ (w, some e) :: after ∧ effects before = as ∧ effects after = bs ∧
      Interleaved change act s before w ∧ act e w w' ∧ Interleaved change act w' after t := by
  induction h generalizing as with
  | done s => simp at heff
  | @change s s' t history hc _ ih =>
    obtain ⟨before, w, w', after, rfl, hb, ha, hrun, hact, hrest⟩ := ih heff
    exact ⟨(s, none) :: before, w, w', after, rfl, hb, ha, .change hc hrun, hact, hrest⟩
  | @act s s' t d history hd hrun ih =>
    cases as with
    | nil =>
      obtain ⟨rfl, hrest⟩ := List.cons.inj heff
      exact ⟨[], s, s', history, rfl, rfl, hrest, .done s, hd, hrun⟩
    | cons a as =>
      obtain ⟨rfl, htail⟩ := List.cons.inj heff
      obtain ⟨before, w, w', after, rfl, hb, ha, hrun', hact, hrest⟩ := ih htail
      exact ⟨(s, some d) :: before, w, w', after, rfl, by rw [effects_act, hb], ha, .act hd hrun', hact, hrest⟩

theorem append {u : σ} {history' : List (σ × Option ε)} (h : Interleaved change act s history t)
    (h' : Interleaved change act t history' u) : Interleaved change act s (history ++ history') u := by
  induction h with
  | done s => exact h'
  | change hc _ ih => exact .change hc (ih h')
  | act ha _ ih => exact .act ha (ih h')

theorem effects_append (history history' : List (σ × Option ε)) :
    effects (history ++ history') = effects history ++ effects history' := List.filterMap_append

/-- Effects that leave the state as it is have a run without changes. -/
theorem exists_still {as : List ε} (h : ∀ e ∈ as, act e s s) :
    ∃ history, Interleaved change act s history s ∧ effects history = as := by
  induction as with
  | nil => exact ⟨[], .done s, rfl⟩
  | cons e as ih =>
    obtain ⟨history, hrun, heff⟩ := ih fun d hd => h d (List.mem_cons_of_mem _ hd)
    exact ⟨(s, some e) :: history, .act (h e List.mem_cons_self) hrun, by rw [effects_act, heff]⟩

/-- What every change keeps, and every effect the party makes, holds to the end. -/
theorem invariant {I : σ → Prop} (h : Interleaved change act s history t)
    (hchange : ∀ {a b}, change a b → I a → I b) (hact : ∀ e ∈ effects history, ∀ {a b}, act e a b → I a → I b) (hs : I s) :
    I t := by
  induction h with
  | done s => exact hs
  | change hc _ ih => exact ih (fun e he => hact e he) (hchange hc hs)
  | act hd _ ih =>
    exact ih (fun e he => hact e (List.mem_cons_of_mem _ he)) (hact _ List.mem_cons_self hd hs)

end Interleaved

end SudoWhat.Lib
