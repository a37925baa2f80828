/-
  SudoWhat.Lib.Tickets — tickets issued under a key, good for a while.

  A ticket is fresh while it is younger than the timeout. A negative timeout lets no ticket
  go stale, a zero one lets none be fresh. The clock never runs back, so a stale ticket
  stays stale (`fresh_earlier`).
-/

import Mathlib.Data.List.Basic

namespace SudoWhat.Lib.Tickets

variable {κ : Type}

structure Ticket (κ : Type) where
  key : κ
  issued : Nat
  deriving DecidableEq, Repr

/-- Younger than the timeout at `now`. -/
def Ticket.fresh (timeout : Int) (now : Nat) (t : Ticket κ) : Bool :=
  timeout < 0 || ((now - t.issued : Nat) : Int) < timeout

/-- A fresh ticket stands under the key. -/
def live [DecidableEq κ] (timeout : Int) (now : Nat) (key : κ) (ts : List (Ticket κ)) : Bool :=
  ts.any fun t => t.key == key && t.fresh timeout now

theorem live_iff [DecidableEq κ] {timeout : Int} {now : Nat} {key : κ} {ts : List (Ticket κ)} :
    live timeout now key ts = true ↔ ∃ t ∈ ts, t.key = key ∧ t.fresh timeout now = true := by
  simp [live]

theorem fresh_zero (now : Nat) (t : Ticket κ) : t.fresh 0 now = false := by simp [Ticket.fresh]

theorem fresh_earlier {timeout : Int} {now later : Nat} {t : Ticket κ} (hle : now ≤ later)
    (h : t.fresh timeout later = true) : t.fresh timeout now = true := by
  unfold Ticket.fresh at h ⊢
  simp only [Bool.or_eq_true, decide_eq_true_eq] at h ⊢
  omega

end SudoWhat.Lib.Tickets
