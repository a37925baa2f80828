/-
  SudoWhat.Lib.Fueled — computations that are given rounds.

  A loop that waits on its surroundings is run for some number of rounds, and stops as `stuck`
  when they are used up. `EndsUnless stuck P x`, of a computation for each number of rounds:
  once it is not stuck more rounds change nothing, and it comes to that, unless `P`. Proved: the
  rules for what needs no rounds (`endsUnless_const`), for a sequence (`endsUnless_bind`), and
  what is left of the rounds where `P` fails (`EndsUnless.settles`).
-/

import SudoWhat.Lib.Traced

namespace SudoWhat.Lib

namespace Traced

variable {ε η α β : Type} {stuck : η} {P Q : Prop}

def Stuck (stuck : η) (x : Traced ε η α) : Prop := x.result = .error stuck

theorem Returns.not_stuck {x : Traced ε η α} {a : α} (h : x.Returns a) : ¬ Stuck stuck x := by
  intro hs
  cases h.symm.trans hs

@[simp] theorem stuck_pure (a : α) : ¬ Stuck stuck (pure a : Traced ε η α) := (returns_pure.mpr rfl).not_stuck
@[simp] theorem stuck_emit (e : ε) : ¬ Stuck stuck (emit e : Traced ε η Unit) := (returns_emit (u := ())).not_stuck

@[simp] theorem stuck_halt {h : η} : Stuck stuck (halt h : Traced ε η α) ↔ h = stuck := by
  simp [Stuck, halt]

/-- A bind is stuck where its first half is, or the second from what the first returned. -/
@[simp] theorem stuck_bind_iff {x : Traced ε η α} {f : α → Traced ε η β} :
    Stuck stuck (x >>= f) ↔ Stuck stuck x ∨ ∃ a, x.Returns a ∧ Stuck stuck (f a) := by
  rw [bind_def, andThen]
  unfold Stuck Returns
  cases x.result with
  | error h => simp
  | ok a => simp

structure EndsUnless (stuck : η) (P : Prop) (x : Nat → Traced ε η α) : Prop where
  steady : ∀ fuel, ¬ Stuck stuck (x fuel) → ∀ more ≥ fuel, x more = x fuel
  ends : (∃ fuel, ¬ Stuck stuck (x fuel)) ∨ P

theorem endsUnless_const {x : Traced ε η α} (h : ¬ Stuck stuck x) : EndsUnless stuck P fun _ => x :=
  ⟨fun _ _ _ _ => rfl, .inl ⟨0, h⟩⟩

theorem endsUnless_pure (a : α) : EndsUnless stuck P fun _ => (pure a : Traced ε η α) :=
  endsUnless_const (stuck_pure a)

theorem EndsUnless.imp {x : Nat → Traced ε η α} (h : EndsUnless stuck P x) (hPQ : P → Q) : EndsUnless stuck Q x :=
  ⟨h.steady, h.ends.imp_right hPQ⟩

theorem endsUnless_bind {x : Nat → Traced ε η α} {f : Nat → α → Traced ε η β} (hx : EndsUnless stuck P x)
    (hf : ∀ a fuel, (x fuel).Returns a → EndsUnless stuck P fun fuel => f fuel a) :
    EndsUnless stuck P fun fuel => x fuel >>= f fuel := by
  constructor
  · intro fuel h more hmore
    obtain ⟨hfirst, hsecond⟩ := not_or.mp (mt stuck_bind_iff.mpr h)
    have hsame := hx.steady fuel hfirst more hmore
    rw [hsame, bind_def, bind_def, andThen, andThen]
    cases hr : (x fuel).result with
    | error e => rfl
    | ok a =>
      have hrest := (hf a fuel hr).steady fuel (fun hs => hsecond ⟨a, hr, hs⟩) more hmore
      dsimp only at hrest ⊢
      rw [hrest]
  · rcases hx.ends with hends | hP
    · obtain ⟨fuel, h⟩ := hends
      cases hr : (x fuel).result with
      | error e =>
        refine .inl ⟨fuel, fun hs => ?_⟩
        rcases stuck_bind_iff.mp hs with hs | hs
        · exact h hs
        · obtain ⟨a, ha, -⟩ := hs
          cases hr.symm.trans ha
      | ok a =>
        have hrest := hf a fuel hr
        rcases hrest.ends with hends | hP
        · obtain ⟨fuel', h'⟩ := hends
          have hsame := hx.steady fuel h _ (Nat.le_max_left fuel fuel')
          have hsame' := hrest.steady fuel' h' _ (Nat.le_max_right fuel fuel')
          refine .inl ⟨max fuel fuel', fun hs => ?_⟩
          rw [hsame] at hs
          rcases stuck_bind_iff.mp hs with hs | hs
          · exact h hs
          · obtain ⟨a', ha', hs'⟩ := hs
            obtain rfl := Returns.unique (x := x fuel) hr ha'
            rw [hsame'] at hs'
            exact h' hs'
        · exact .inr hP
    · exact .inr hP

theorem endsUnless_emit_bind {e : ε} {f : Nat → Unit → Traced ε η β} (h : EndsUnless stuck P fun fuel => f fuel ()) :
    EndsUnless stuck P fun fuel => emit e >>= f fuel :=
  endsUnless_bind (endsUnless_const (stuck_emit e)) fun _ _ _ => h

/-- From some number of rounds on it has ended, and always the same way. -/
theorem EndsUnless.settles {x : Nat → Traced ε η α} (h : EndsUnless stuck P x) (hP : ¬ P) :
    ∃ enough, ¬ Stuck stuck (x enough) ∧ ∀ fuel ≥ enough, x fuel = x enough := by
  obtain ⟨enough, he⟩ := h.ends.resolve_right hP
  exact ⟨enough, he, h.steady enough he⟩

end Traced

end SudoWhat.Lib
