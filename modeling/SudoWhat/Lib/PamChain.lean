/-
  SudoWhat.Lib.PamChain — the control-flag semantics of a PAM chain.

  A chain is a list of module calls, evaluated in order:
  - requisite: a failure ends the chain in failure;
  - required: a failure makes the result failure, the rest still runs;
  - sufficient, binding: a success ends the chain in success unless a required or binding
    module failed before it; a failed binding makes the result failure;
  - a failed sufficient or optional module changes nothing, nor does one that says
    PAM_IGNORE.

  Proved: a chain succeeds exactly when a call grants it with nothing denied before, or no
  call decides it and one succeeded (`passes_iff`); spliced behind a success of its own it
  also succeeds when it is inert (`passesBehind_iff`); which modules ran (`ran_of_quiet`,
  `ran_of_grants`).
-/

import Mathlib.Data.List.Basic

namespace SudoWhat.Lib.PamChain

inductive Control where
  | required | requisite | sufficient | binding | optional
  deriving DecidableEq, Repr

inductive Outcome where
  | success | ignore | failure
  deriving DecidableEq, Repr

structure Call (μ : Type) where
  control : Control
  mod : μ
  outcome : Outcome
  deriving DecidableEq, Repr

variable {μ : Type}

/-- A success under this flag ends the chain. -/
def Control.breaks : Control → Bool
  | .sufficient | .binding => true
  | _ => false

/-- A failure under this flag makes the whole chain fail. -/
def Control.vetoes : Control → Bool
  | .required | .requisite | .binding => true
  | _ => false

/-- Where a chain stands: still running, with a veto or not and the result so far, or
    decided. -/
inductive Flow where
  | on (vetoed ok : Bool)
  | done (ok : Bool)
  deriving DecidableEq, Repr

def step : Flow → Call μ → Flow
  | .done ok, _ => .done ok
  | .on vetoed ok, c =>
    match c.outcome with
    | .ignore => .on vetoed ok
    | .success => if c.control.breaks && !vetoed then .done true else .on vetoed true
    | .failure =>
      match c.control with
      | .requisite => .done false
      | .required | .binding => .on true ok
      | .sufficient | .optional => .on vetoed ok

def Flow.verdict : Flow → Bool
  | .done ok => ok
  | .on vetoed ok => !vetoed && ok

def start : Flow := .on false false

def run (chain : List (Call μ)) (f : Flow) : Flow := chain.foldl step f

def passes (chain : List (Call μ)) : Bool := (run chain start).verdict

/-- The verdict of a chain spliced behind a module that succeeded without ending it. -/
def passesBehind (chain : List (Call μ)) : Bool := (run chain (.on false true)).verdict

/-- The calls that are made: all up to the one that ends the chain. -/
def ranFrom : Flow → List (Call μ) → List (Call μ)
  | _, [] => []
  | .done _, _ :: _ => []
  | .on vetoed ok, c :: cs => c :: ranFrom (step (.on vetoed ok) c) cs

def ran (chain : List (Call μ)) : List (Call μ) := ranFrom start chain

def Call.denies (c : Call μ) : Prop := c.outcome = .failure ∧ c.control.vetoes = true

def Call.grants (c : Call μ) : Prop := c.outcome = .success ∧ c.control.breaks = true

instance (c : Call μ) : Decidable c.denies := inferInstanceAs (Decidable (_ ∧ _))
instance (c : Call μ) : Decidable c.grants := inferInstanceAs (Decidable (_ ∧ _))

/-- No call of the list decides a chain that reaches it unvetoed. -/
def Quiet (cs : List (Call μ)) : Prop := ∀ c ∈ cs, ¬ c.denies ∧ ¬ c.grants

instance (cs : List (Call μ)) : Decidable (Quiet cs) := inferInstanceAs (Decidable (∀ c ∈ cs, _))

/-- No call of the list succeeds or denies. -/
def Inert (cs : List (Call μ)) : Prop := ∀ c ∈ cs, c.outcome ≠ .success ∧ ¬ c.denies

instance (cs : List (Call μ)) : Decidable (Inert cs) := inferInstanceAs (Decidable (∀ c ∈ cs, _))

/-! ## Running on -/

@[simp] theorem run_nil (f : Flow) : run ([] : List (Call μ)) f = f := rfl
@[simp] theorem run_cons (c : Call μ) (cs : List (Call μ)) (f : Flow) : run (c :: cs) f = run cs (step f c) := rfl
@[simp] theorem ranFrom_nil (f : Flow) : ranFrom f ([] : List (Call μ)) = [] := by cases f <;> rfl
@[simp] theorem ranFrom_done (ok : Bool) (cs : List (Call μ)) : ranFrom (.done ok) cs = [] := by cases cs <;> rfl
@[simp] theorem quiet_nil : Quiet ([] : List (Call μ)) := by simp [Quiet]
@[simp] theorem quiet_cons (c : Call μ) (cs : List (Call μ)) :
    Quiet (c :: cs) ↔ (¬ c.denies ∧ ¬ c.grants) ∧ Quiet cs := by simp [Quiet]

theorem run_append (as bs : List (Call μ)) (f : Flow) : run (as ++ bs) f = run bs (run as f) :=
  List.foldl_append

@[simp] theorem run_done (cs : List (Call μ)) (ok : Bool) : run cs (.done ok) = .done ok := by
  induction cs with
  | nil => rfl
  | cons c cs ih => rw [run_cons]; exact ih

/-- A call on an unvetoed chain denies it, grants it, or at most makes it a success. -/
theorem step_cases (ok : Bool) (c : Call μ) :
    (c.denies ∧ (step (.on false ok) c = .done false ∨ step (.on false ok) c = .on true ok)) ∨
      (c.grants ∧ step (.on false ok) c = .done true) ∨
      (¬ c.denies ∧ ¬ c.grants ∧ step (.on false ok) c = .on false (c.outcome == .success || ok)) := by
  obtain ⟨control, mod, outcome⟩ := c
  cases outcome <;> cases control <;> simp [Call.denies, Call.grants, Control.breaks, Control.vetoes, step]

theorem step_vetoed (ok : Bool) (c : Call μ) :
    step (.on true ok) c = .done false ∨ ∃ ok', step (.on true ok) c = .on true ok' := by
  obtain ⟨control, mod, outcome⟩ := c
  cases outcome <;> cases control <;> simp [step]

theorem verdict_vetoed (cs : List (Call μ)) : ∀ ok, (run cs (.on true ok)).verdict = false := by
  induction cs with
  | nil => intro ok; rfl
  | cons c cs ih =>
    intro ok
    rw [run_cons]
    rcases step_vetoed ok c with h | ⟨ok', h⟩
    · rw [h, run_done]; rfl
    · rw [h]; exact ih ok'

/-! ## The verdict -/

/-- A call grants the chain, and none before it denies or grants it. -/
def Granted (cs : List (Call μ)) : Prop := ∃ pre c post, cs = pre ++ c :: post ∧ Quiet pre ∧ c.grants

theorem granted_cons {a : Call μ} {cs : List (Call μ)} :
    Granted (a :: cs) ↔ a.grants ∨ ((¬ a.denies ∧ ¬ a.grants) ∧ Granted cs) := by
  constructor
  · intro ⟨pre, c, post, he, hq, hg⟩
    cases pre with
    | nil =>
      obtain ⟨rfl, rfl⟩ := List.cons.inj he
      exact .inl hg
    | cons b pre =>
      obtain ⟨rfl, rfl⟩ := List.cons.inj he
      obtain ⟨ha, hq⟩ := (quiet_cons a pre).mp hq
      exact .inr ⟨ha, pre, c, post, rfl, hq, hg⟩
  · rintro (hg | ⟨ha, pre, c, post, rfl, hq, hg⟩)
    · exact ⟨[], a, cs, rfl, quiet_nil, hg⟩
    · exact ⟨a :: pre, c, post, rfl, (quiet_cons a pre).mpr ⟨ha, hq⟩, hg⟩

theorem not_grants_of_denies {c : Call μ} (h : c.denies) : ¬ c.grants := by
  intro hg
  exact absurd (h.1.symm.trans hg.1) (by decide)

theorem verdict_run_iff (cs : List (Call μ)) : ∀ ok,
    (run cs (.on false ok)).verdict = true ↔
      Granted cs ∨ (Quiet cs ∧ (ok = true ∨ ∃ c ∈ cs, c.outcome = .success)) := by
  induction cs with
  | nil => intro ok; simp [Flow.verdict, Granted]
  | cons a cs ih =>
    intro ok
    rw [run_cons, granted_cons, quiet_cons]
    rcases step_cases ok a with ⟨hd, hs | hs⟩ | ⟨hg, hs⟩ | ⟨hd, hg, hs⟩
    · simp [hs, Flow.verdict, hd, not_grants_of_denies hd]
    · simp [hs, verdict_vetoed, hd, not_grants_of_denies hd]
    · simp [hs, Flow.verdict, hg]
    · rw [hs, ih]
      simp only [hd, hg, not_false_eq_true, and_self, true_and, false_or, Bool.or_eq_true, beq_iff_eq,
        List.exists_mem_cons_iff]
      tauto

theorem passes_iff (cs : List (Call μ)) :
    passes cs = true ↔ Granted cs ∨ (Quiet cs ∧ ∃ c ∈ cs, c.outcome = .success) := by
  simpa [passes, start] using verdict_run_iff cs false

/-- Behind a success a chain passes on its own, or because it is inert. -/
theorem passesBehind_iff (cs : List (Call μ)) : passesBehind cs = true ↔ passes cs = true ∨ Inert cs := by
  have hinert : Inert cs ↔ Quiet cs ∧ ¬ ∃ c ∈ cs, c.outcome = .success := by
    constructor
    · intro h
      exact ⟨fun c hc => ⟨(h c hc).2, fun hg => (h c hc).1 hg.1⟩, fun ⟨c, hc, hs⟩ => (h c hc).1 hs⟩
    · intro ⟨hq, hno⟩ c hc
      exact ⟨fun hs => hno ⟨c, hc, hs⟩, (hq c hc).1⟩
  rw [passes_iff, hinert, passesBehind, verdict_run_iff]
  by_cases hs : ∃ c ∈ cs, c.outcome = .success
  · simp only [hs, true_or, and_true, not_true_eq_false, and_false, or_false]
  · simp only [hs, and_true, and_false, or_false, not_false_eq_true]

/-! ## The calls made -/

/-- The result so far decides nothing about which calls are made. -/
theorem ranFrom_ok (cs : List (Call μ)) : ∀ vetoed ok ok', ranFrom (.on vetoed ok) cs = ranFrom (.on vetoed ok') cs := by
  induction cs with
  | nil => intro vetoed ok ok'; rfl
  | cons c cs ih =>
    intro vetoed ok ok'
    have hstep : step (.on vetoed ok) c = step (.on vetoed ok') c ∨
        ∃ v o o', step (.on vetoed ok) c = .on v o ∧ step (.on vetoed ok') c = .on v o' := by
      obtain ⟨control, mod, outcome⟩ := c
      cases outcome <;> cases control <;> cases vetoed <;> simp [step, Control.breaks]
    simp only [ranFrom]
    rcases hstep with h | ⟨v, o, o', h, h'⟩
    · rw [h]
    · rw [h, h', ih v o o']

theorem ranFrom_quiet_append {pre : List (Call μ)} (h : Quiet pre) : ∀ ok rest,
    ranFrom (.on false ok) (pre ++ rest) = pre ++ ranFrom (.on false ok) rest := by
  induction pre with
  | nil => exact fun ok rest => rfl
  | cons a pre ih =>
    intro ok rest
    obtain ⟨ha, h⟩ := (quiet_cons a pre).mp h
    rcases step_cases ok a with ⟨hd, _⟩ | ⟨hg, _⟩ | ⟨_, _, hs⟩
    · exact absurd hd ha.1
    · exact absurd hg ha.2
    · rw [List.cons_append, ranFrom, hs, ih h, ranFrom_ok rest false _ ok]
      rfl

theorem ran_of_quiet {cs : List (Call μ)} (h : Quiet cs) : ran cs = cs := by
  simpa [ran, start] using ranFrom_quiet_append h false []

theorem ran_of_grants {pre post : List (Call μ)} {c : Call μ} (h : Quiet pre) (hc : c.grants) :
    ran (pre ++ c :: post) = pre ++ [c] := by
  rw [ran, start, ranFrom_quiet_append h, ranFrom]
  rcases step_cases false c with ⟨hd, _⟩ | ⟨_, hs⟩ | ⟨_, hg, _⟩
  · exact absurd hc (not_grants_of_denies hd)
  · rw [hs, ranFrom_done]
  · exact absurd hc hg

theorem exists_success_of_passes {cs : List (Call μ)} (h : passes cs = true) : ∃ c ∈ ran cs, c.outcome = .success := by
  rcases (passes_iff cs).mp h with ⟨pre, c, post, rfl, hq, hg⟩ | ⟨hq, hs⟩
  · rw [ran_of_grants hq hg]
    exact ⟨c, by simp, hg.1⟩
  · rw [ran_of_quiet hq]
    exact hs

end SudoWhat.Lib.PamChain
