/-
  SudoWhat.Lib.Runs — states reached by runs of an event-driven machine.

  `Reach step ok s₀ s`: some run from `s₀` whose every step meets `ok` ends in `s`.
  Proved: the invariant rule (`Reach.invariant`), and that an invariant of a run may be used
  to see it as a run under another rule (`Reach.imp`).
-/

import Mathlib.Data.List.Basic

namespace SudoWhat.Lib.Runs

variable {σ ε : Type}

inductive Reach (step : σ → ε → σ) (ok : σ → ε → Prop) (s₀ : σ) : σ → Prop where
  | start : Reach step ok s₀ s₀
  | next {s : σ} (e : ε) : Reach step ok s₀ s → ok s e → Reach step ok s₀ (step s e)

variable {step : σ → ε → σ} {ok : σ → ε → Prop} {s₀ : σ}

/-- What holds at the start and is kept by every step that meets `ok` holds throughout. -/
theorem Reach.invariant {I : σ → Prop} (h₀ : I s₀) (hstep : ∀ s e, I s → ok s e → I (step s e)) {s : σ}
    (h : Reach step ok s₀ s) : I s := by
  induction h with
  | start => exact h₀
  | next e _ he ih => exact hstep _ e ih he

/-- A run is one under another rule too, where an invariant of the run makes the rule no
    stronger. -/
theorem Reach.imp {I : σ → Prop} {ok' : σ → ε → Prop} (h₀ : I s₀) (hstep : ∀ s e, I s → ok s e → I (step s e))
    (himp : ∀ s e, I s → ok s e → ok' s e) {s : σ} (h : Reach step ok s₀ s) : Reach step ok' s₀ s := by
  induction h with
  | start => exact .start
  | next e hr he ih => exact .next e ih (himp _ e (hr.invariant h₀ hstep) he)

end SudoWhat.Lib.Runs
