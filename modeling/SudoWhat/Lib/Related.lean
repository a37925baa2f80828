/-
  SudoWhat.Lib.Related — two traced computations side by side.

  `Related r x y`: they end alike, and their effects, in order, are related by `r`.
  `Agree kept r x y` is the same of the effects that are kept, whatever the others. Proved: the
  rules over the constructors of a computation (`related_refl`, `related_emit`, `related_bind`,
  `related_emit_bind`; `agree_refl`, `agree_bind`, `agree_emit_bind`), and that what makes no
  kept effect agrees with anything that does neither (`agree_of_none_kept`).
-/

import Mathlib.Data.List.Forall2
import SudoWhat.Lib.Traced

namespace SudoWhat.Lib

namespace Traced

variable {ε η α β : Type} {r : ε → ε → Prop}

structure Related (r : ε → ε → Prop) (x y : Traced ε η α) : Prop where
  result : x.result = y.result
  trace : List.Forall₂ r x.trace y.trace

theorem related_refl (hr : ∀ e, r e e) (x : Traced ε η α) : Related r x x :=
  ⟨rfl, List.forall₂_same.mpr fun e _ => hr e⟩

theorem related_emit {e e' : ε} (h : r e e') : Related r (emit e : Traced ε η Unit) (emit e') :=
  ⟨rfl, .cons h .nil⟩

theorem related_bind {x y : Traced ε η α} {f g : α → Traced ε η β} (h : Related r x y)
    (hf : ∀ a, x.Returns a → Related r (f a) (g a)) : Related r (x >>= f) (y >>= g) := by
  obtain ⟨hresult, htrace⟩ := h
  rw [bind_def, bind_def, andThen, andThen, ← hresult]
  cases hx : x.result with
  | error e => exact ⟨rfl, htrace⟩
  | ok a =>
    obtain ⟨hresult', htrace'⟩ := hf a hx
    exact ⟨hresult', List.rel_append htrace htrace'⟩

theorem related_emit_bind {e e' : ε} {f g : Unit → Traced ε η α} (h : r e e') (hf : Related r (f ()) (g ())) :
    Related r (emit e >>= f) (emit e' >>= g) :=
  related_bind (related_emit h) fun _ _ => hf

/-! ## Some effects aside -/

variable {kept : ε → Bool}

structure Agree (kept : ε → Bool) (r : ε → ε → Prop) (x y : Traced ε η α) : Prop where
  result : x.result = y.result
  trace : List.Forall₂ r (x.trace.filter kept) (y.trace.filter kept)

theorem agree_refl (hr : ∀ e, r e e) (x : Traced ε η α) : Agree kept r x x :=
  ⟨rfl, List.forall₂_same.mpr fun e _ => hr e⟩

theorem agree_bind {x y : Traced ε η α} {f g : α → Traced ε η β} (h : Agree kept r x y)
    (hf : ∀ a, x.Returns a → Agree kept r (f a) (g a)) : Agree kept r (x >>= f) (y >>= g) := by
  obtain ⟨hresult, htrace⟩ := h
  rw [bind_def, bind_def, andThen, andThen, ← hresult]
  cases hx : x.result with
  | error e => exact ⟨rfl, htrace⟩
  | ok a =>
    obtain ⟨hresult', htrace'⟩ := hf a hx
    refine ⟨hresult', ?_⟩
    rw [List.filter_append, List.filter_append]
    exact List.rel_append htrace htrace'

theorem agree_emit {e e' : ε} (h : r e e') (hk : kept e = kept e') :
    Agree kept r (emit e : Traced ε η Unit) (emit e') := by
  refine ⟨rfl, ?_⟩
  rw [trace_emit, trace_emit, List.filter_singleton, List.filter_singleton, ← hk]
  cases kept e with
  | false => exact .nil
  | true => exact .cons h .nil

theorem agree_emit_bind {e e' : ε} {f g : Unit → Traced ε η α} (h : r e e') (hk : kept e = kept e')
    (hf : Agree kept r (f ()) (g ())) : Agree kept r (emit e >>= f) (emit e' >>= g) :=
  agree_bind (agree_emit h hk) fun _ _ => hf

theorem agree_of_none_kept {x y : Traced ε η α} {a : α} (hx : x.Returns a) (hy : y.Returns a)
    (hnx : x.All (kept · = false)) (hny : y.All (kept · = false)) : Agree kept r x y := by
  refine ⟨Eq.trans hx (Eq.symm hy), ?_⟩
  rw [List.filter_eq_nil_iff.mpr fun e he => by rw [hnx e he]; decide,
    List.filter_eq_nil_iff.mpr fun e he => by rw [hny e he]; decide]
  exact .nil

end Traced

end SudoWhat.Lib
