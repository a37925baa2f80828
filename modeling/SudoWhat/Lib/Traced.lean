/-
  SudoWhat.Lib.Traced — computations that leave a trace of effects and may stop short.

  `Traced ε η α` is the effects made, in order, and either the value returned or the
  reason the computation stopped. A bind runs on only from a returned value, and its
  trace is the two traces in order. The rules below take a bind apart without unfolding
  either side: what it returned (`returns_bind`), where an effect of it came from
  (`mem_trace_bind`), and what holds of all its effects (`all_bind`).
-/

namespace SudoWhat.Lib

structure Traced (ε η α : Type) where
  result : Except η α
  trace : List ε

namespace Traced

variable {ε η α β : Type}

/-- Run on from a result. -/
def andThen (x : Traced ε η α) (f : α → Traced ε η β) : Traced ε η β :=
  match x.result with
  | .error h => ⟨.error h, x.trace⟩
  | .ok a => ⟨(f a).result, x.trace ++ (f a).trace⟩

instance : Monad (Traced ε η) where
  pure a := ⟨.ok a, []⟩
  bind := andThen

/-- Make one effect. -/
def emit (e : ε) : Traced ε η Unit := ⟨.ok (), [e]⟩

def halt (h : η) : Traced ε η α := ⟨.error h, []⟩

def Returns (x : Traced ε η α) (a : α) : Prop := x.result = .ok a

@[simp] theorem returns_pure {a b : α} : Returns (pure a : Traced ε η α) b ↔ a = b := by
  simp [Returns, pure]

@[simp] theorem returns_emit {e : ε} {u : Unit} : Returns (emit e : Traced ε η Unit) u := rfl

@[simp] theorem returns_halt {h : η} {a : α} : ¬ Returns (halt h : Traced ε η α) a := by simp [Returns, halt]

@[simp] theorem trace_pure (a : α) : (pure a : Traced ε η α).trace = [] := rfl
@[simp] theorem trace_emit (e : ε) : (emit e : Traced ε η Unit).trace = [e] := rfl
@[simp] theorem trace_halt (h : η) : (halt h : Traced ε η α).trace = [] := rfl

theorem Returns.unique {x : Traced ε η α} {a b : α} (ha : x.Returns a) (hb : x.Returns b) : a = b := by
  rw [Returns, ha] at hb; exact Except.ok.inj hb

theorem bind_def (x : Traced ε η α) (f : α → Traced ε η β) : x >>= f = x.andThen f := rfl

@[simp] theorem returns_bind {x : Traced ε η α} {f : α → Traced ε η β} {b : β} :
    (x >>= f).Returns b ↔ ∃ a, x.Returns a ∧ (f a).Returns b := by
  rw [bind_def, andThen]
  unfold Returns
  cases x.result with
  | error h => simp
  | ok a => simp

theorem trace_bind {x : Traced ε η α} {a : α} (h : x.Returns a) (f : α → Traced ε η β) :
    (x >>= f).trace = x.trace ++ (f a).trace := by
  rw [bind_def, andThen, h]

theorem trace_bind_cases (x : Traced ε η α) (f : α → Traced ε η β) :
    (x >>= f).trace = x.trace ∨ ∃ a, x.Returns a ∧ (x >>= f).trace = x.trace ++ (f a).trace := by
  cases h : x.result with
  | error e => left; rw [bind_def, andThen, h]
  | ok a => exact .inr ⟨a, h, trace_bind h f⟩

@[simp] theorem mem_trace_bind {x : Traced ε η α} {f : α → Traced ε η β} {e : ε} :
    e ∈ (x >>= f).trace ↔ e ∈ x.trace ∨ ∃ a, x.Returns a ∧ e ∈ (f a).trace := by
  rw [bind_def, andThen]
  unfold Returns
  cases x.result with
  | error h => simp
  | ok a => simp

@[simp] theorem emit_bind_trace (e : ε) (f : Unit → Traced ε η α) :
    ((emit e : Traced ε η Unit) >>= f).trace = e :: (f ()).trace := rfl

@[simp] theorem emit_bind_result (e : ε) (f : Unit → Traced ε η α) :
    ((emit e : Traced ε η Unit) >>= f).result = (f ()).result := rfl

@[simp] theorem pure_bind_eq (a : α) (f : α → Traced ε η β) : (pure a : Traced ε η α) >>= f = f a := rfl

/-! ## Every effect -/

/-- `P` holds of every effect made. -/
def All (P : ε → Prop) (x : Traced ε η α) : Prop := ∀ e ∈ x.trace, P e

variable {P Q : ε → Prop}

@[simp] theorem all_pure (a : α) : (pure a : Traced ε η α).All P := by simp [All]
@[simp] theorem all_halt (h : η) : (halt h : Traced ε η α).All P := by simp [All]
@[simp] theorem all_emit (e : ε) : (emit e : Traced ε η Unit).All P ↔ P e := by simp [All]

@[simp] theorem all_bind {x : Traced ε η α} {f : α → Traced ε η β} :
    (x >>= f).All P ↔ x.All P ∧ ∀ a, x.Returns a → (f a).All P := by
  constructor
  · intro h
    refine ⟨fun e he => h e (mem_trace_bind.mpr (.inl he)), fun a ha e he => ?_⟩
    exact h e (mem_trace_bind.mpr (.inr ⟨a, ha, he⟩))
  · intro ⟨hx, hf⟩ e he
    rcases mem_trace_bind.mp he with he | ⟨a, ha, he⟩
    · exact hx e he
    · exact hf a ha e he

theorem All.mono {x : Traced ε η α} (h : x.All P) (himp : ∀ e, P e → Q e) : x.All Q := fun e he => himp e (h e he)

end Traced

end SudoWhat.Lib
