/-
  SudoWhat.Lib.Monitor — a monitor run beside a traced computation.

  A monitor has a state that every effect moves, a condition each effect must meet in the
  state it comes in (`ok`), and one for stopping short (`stop`). `m.Triple P x Q`: from a
  state in `P` every effect of `x` meets its condition, `x` returns `a` only in a state in
  `Q a`, and stops short only where it may.

  Proved: the rules that take a computation apart (`triple_pure`, `triple_halt`,
  `triple_emit`, `triple_bind`, `triple_emit_bind`, `triple_fact`, `Triple.conseq`), and what a
  triple says of the trace (`Triple.at_effect`, `Triple.returned`, `Triple.stopped`).
-/

import SudoWhat.Lib.Traced

namespace SudoWhat.Lib

structure Monitor (ε η σ : Type) where
  step : σ → ε → σ
  ok : σ → ε → Prop
  stop : η → σ → Prop

namespace Monitor

variable {ε η σ α β : Type} (m : Monitor ε η σ)

/-- The state after these effects. -/
def after (s : σ) (es : List ε) : σ := es.foldl m.step s

/-- Each effect meets its condition in the state it comes in. -/
def Allows : σ → List ε → Prop
  | _, [] => True
  | s, e :: es => m.ok s e ∧ Allows (m.step s e) es

/-- From `P`, with its effects allowed, it returns in `Q` or stops where it may. -/
def Triple (P : σ → Prop) (x : Traced ε η α) (Q : α → σ → Prop) : Prop :=
  ∀ s, P s → m.Allows s x.trace ∧ (∀ a, x.Returns a → Q a (m.after s x.trace)) ∧
    ∀ h, x.result = .error h → m.stop h (m.after s x.trace)

variable {m} {s : σ} {es fs : List ε}

@[simp] theorem after_nil : m.after s [] = s := rfl
@[simp] theorem after_cons (e : ε) : m.after s (e :: es) = m.after (m.step s e) es := rfl
@[simp] theorem after_append : m.after s (es ++ fs) = m.after (m.after s es) fs := List.foldl_append

@[simp] theorem allows_nil : m.Allows s [] := trivial
@[simp] theorem allows_cons (e : ε) : m.Allows s (e :: es) ↔ m.ok s e ∧ m.Allows (m.step s e) es := Iff.rfl

theorem allows_append : m.Allows s (es ++ fs) ↔ m.Allows s es ∧ m.Allows (m.after s es) fs := by
  induction es generalizing s with
  | nil => simp
  | cons e es ih => rw [List.cons_append, allows_cons, allows_cons, ih, and_assoc, after_cons]

theorem Allows.at_effect {pre post : List ε} {e : ε} (h : m.Allows s es) (hes : es = pre ++ e :: post) :
    m.ok (m.after s pre) e := by
  subst hes
  exact (allows_append.mp h).2.1

/-! ## The rules -/

variable {P M : σ → Prop} {Q Q' : α → σ → Prop} {R : β → σ → Prop} {x : Traced ε η α}

theorem triple_pure {a : α} (h : ∀ s, P s → Q a s) : m.Triple P (pure a : Traced ε η α) Q := by
  intro s hs
  refine ⟨allows_nil, fun a' ha => ?_, fun e he => ?_⟩
  · obtain rfl := Traced.returns_pure.mp ha
    exact h s hs
  · cases he

theorem triple_halt {e : η} (h : ∀ s, P s → m.stop e s) : m.Triple P (Traced.halt e : Traced ε η α) Q := by
  intro s hs
  refine ⟨allows_nil, fun a ha => absurd ha Traced.returns_halt, fun e' he => ?_⟩
  cases he
  exact h s hs

theorem triple_emit {e : ε} {Q : Unit → σ → Prop} (h : ∀ s, P s → m.ok s e ∧ Q () (m.step s e)) :
    m.Triple P (Traced.emit e : Traced ε η Unit) Q := by
  intro s hs
  refine ⟨⟨(h s hs).1, trivial⟩, fun _ _ => (h s hs).2, fun e' he => ?_⟩
  cases he

theorem triple_bind {f : α → Traced ε η β} (hx : m.Triple P x Q) (hf : ∀ a, m.Triple (Q a) (f a) R) :
    m.Triple P (x >>= f) R := by
  intro s hs
  obtain ⟨hallows, hret, hstop⟩ := hx s hs
  cases hr : x.result with
  | error h =>
    have htrace : (x >>= f).trace = x.trace := by rw [Traced.bind_def, Traced.andThen, hr]
    have hresult : (x >>= f).result = .error h := by rw [Traced.bind_def, Traced.andThen, hr]
    rw [htrace]
    refine ⟨hallows, fun b hb => ?_, fun h' hh => ?_⟩
    · cases hresult.symm.trans hb
    · cases hresult.symm.trans hh
      exact hstop h hr
  | ok a =>
    obtain ⟨hallows', hret', hstop'⟩ := hf a _ (hret a hr)
    have hresult : (x >>= f).result = (f a).result := by rw [Traced.bind_def, Traced.andThen, hr]
    rw [Traced.trace_bind hr, after_append, allows_append]
    exact ⟨⟨hallows, hallows'⟩, fun b hb => hret' b (hresult.symm.trans hb), fun h hh => hstop' h (hresult.symm.trans hh)⟩

theorem Triple.conseq (h : m.Triple P x Q) (hP : ∀ s, M s → P s) (hQ : ∀ a s, Q a s → Q' a s) : m.Triple M x Q' := by
  intro s hs
  obtain ⟨hallows, hret, hstop⟩ := h s (hP s hs)
  exact ⟨hallows, fun a ha => hQ a _ (hret a ha), hstop⟩

theorem triple_fact {p : Prop} (h : p → m.Triple P x Q) : m.Triple (fun s => p ∧ P s) x Q := fun s hs => h hs.1 s hs.2

theorem triple_emit_bind {e : ε} {f : Unit → Traced ε η β} (h : ∀ s, P s → m.ok s e ∧ M (m.step s e))
    (hf : m.Triple M (f ()) R) : m.Triple P (Traced.emit e >>= f) R :=
  triple_bind (Q := fun _ => M) (triple_emit h) fun _ => hf

/-! ## What a triple says -/

theorem Triple.at_effect (h : m.Triple P x Q) (hs : P s) {pre post : List ε} {e : ε} (hx : x.trace = pre ++ e :: post) :
    m.ok (m.after s pre) e := (h s hs).1.at_effect hx

theorem Triple.returned (h : m.Triple P x Q) (hs : P s) {a : α} (ha : x.Returns a) : Q a (m.after s x.trace) :=
  (h s hs).2.1 a ha

theorem Triple.stopped (h : m.Triple P x Q) (hs : P s) {e : η} (he : x.result = .error e) : m.stop e (m.after s x.trace) :=
  (h s hs).2.2 e he

end Monitor

end SudoWhat.Lib
