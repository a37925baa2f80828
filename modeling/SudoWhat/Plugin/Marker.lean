/-
  SudoWhat.Plugin.Marker — the auth marker between pam_sudowhat and `check()`, inside one
  sudo process.

  pam_sudowhat sets it whenever it runs; a check that gets past the signatures reads it
  and clears it; a check that returns before that leaves it. A caller can have it preset
  in the environment sudo inherits. Over any sequence of calls:
  - `marker_absent_iff`: it is absent exactly when nothing has set it since a check last
    read it.
  - `noWorse_runs`: of two runs that differ only in the preset, the one with it never
    allows where the other refuses, and raises every sheet and puts every question the
    other does. The marker is read in opposite senses by the deference skip, the step-aside
    and the confirm decision, so this is shown for each path of one check
    (`check_noWorse`), and a marker that is set stays at least as set from call to call.
-/

import Mathlib.Data.List.Induction
import SudoWhat.Plugin.CheckGate

namespace SudoWhat.Plugin

open SudoWhat.Lib SudoWhat.Pam

/-- A call inside the process. -/
inductive ProcEvent where
  | pam (env : AuthEnv) (argv : List Text)
  | check (ctx : InvokingCtx) (env : CheckEnv) (commandInfo runArgv : List Bytes)

inductive Obs where
  | pam (reply : AuthReply)
  | check (run : Act Ret)

def procStep (b : Build) (marker : Bool) : ProcEvent → Obs × Bool
  | .pam env argv =>
    let (reply, marker) := pamSmAuthenticate b env argv marker
    (.pam reply, marker)
  | .check ctx env commandInfo runArgv =>
    let run := sudowhatCheck b ctx env commandInfo runArgv marker
    (.check run, markerAfter marker run)

/-- What the calls gave, in order. -/
def procRun (b : Build) : Bool → List ProcEvent → List Obs
  | _, [] => []
  | marker, e :: es => (procStep b marker e).1 :: procRun b (procStep b marker e).2 es

/-- The marker once these calls are over. -/
def markerAt (b : Build) (marker : Bool) (es : List ProcEvent) : Bool :=
  es.foldl (fun marker e => (procStep b marker e).2) marker

/-- The call is a check that reads the marker: it gets past the signatures. -/
def ProcEvent.reads : ProcEvent → Prop
  | .pam _ _ => False
  | .check _ env _ _ => env.bundlesIntact

def ProcEvent.isPam : ProcEvent → Prop
  | .pam _ _ => True
  | .check _ _ _ _ => False

/-! ## What one call does to the marker -/

/-- A check reads and clears the marker exactly when it gets past the signatures. -/
theorem unsetMarker_mem_iff {b : Build} {ctx : InvokingCtx} {env : CheckEnv} {commandInfo runArgv : List Bytes}
    {marker : Bool} :
    .unsetMarker ∈ (sudowhatCheck b ctx env commandInfo runArgv marker).trace ↔ env.bundlesIntact := by
  by_cases hi : env.bundlesIntact
  · rw [sudowhatCheck_intact hi]
    simp [hi]
  · have hk := (@sudowhatCheck_not_intact b ctx env commandInfo runArgv marker hi).2
    simp [hi, hk.not_mem]

theorem procStep_check {b : Build} {marker : Bool} {ctx : InvokingCtx} {env : CheckEnv} {commandInfo runArgv : List Bytes} :
    (env.bundlesIntact → (procStep b marker (.check ctx env commandInfo runArgv)).2 = false) ∧
      (¬ env.bundlesIntact → (procStep b marker (.check ctx env commandInfo runArgv)).2 = marker) := by
  constructor
  · intro hi
    simp [procStep, markerAfter, unsetMarker_mem_iff.mpr hi]
  · intro hi
    simp [procStep, markerAfter, unsetMarker_mem_iff, hi]

/-- A call leaves the marker absent when it reads it, or when it is no pam call and the
    marker was absent. -/
theorem procStep_absent_iff (b : Build) (marker : Bool) (e : ProcEvent) :
    (procStep b marker e).2 = false ↔ e.reads ∨ (¬ e.isPam ∧ marker = false) := by
  cases e with
  | pam env argv => simp [procStep, pamSmAuthenticate, ProcEvent.reads, ProcEvent.isPam]
  | check ctx env commandInfo runArgv =>
    by_cases hi : env.bundlesIntact
    · simp [procStep_check.1 hi, ProcEvent.reads, hi]
    · simp [procStep_check.2 hi, ProcEvent.reads, ProcEvent.isPam, hi]

/-! ## When it is absent -/

/-- Since the last check that read the marker, or since the start where nothing was preset,
    pam_sudowhat has not been called. -/
def QuietSinceRead (preset : Bool) (es : List ProcEvent) : Prop :=
  (preset = false ∧ ∀ e ∈ es, ¬ e.isPam) ∨
    ∃ pre c post, es = pre ++ c :: post ∧ c.reads ∧ ∀ e ∈ post, ¬ e.isPam

theorem quietSinceRead_snoc {preset : Bool} {es : List ProcEvent} {e : ProcEvent} :
    QuietSinceRead preset (es ++ [e]) ↔ e.reads ∨ (¬ e.isPam ∧ QuietSinceRead preset es) := by
  constructor
  · intro h
    rcases h with ⟨hp, hq⟩ | ⟨pre, c, post, he, hc, hq⟩
    · exact .inr ⟨hq e (by simp), .inl ⟨hp, fun e' he' => hq e' (List.mem_append_left _ he')⟩⟩
    · rcases List.eq_nil_or_concat post with hpost | ⟨post', last, hpost⟩
      · subst hpost
        obtain ⟨-, hl⟩ := List.append_inj' he rfl
        exact .inl ((List.cons.inj hl).1 ▸ hc)
      · subst hpost
        have he' : es ++ [e] = (pre ++ c :: post') ++ [last] := by simpa using he
        obtain ⟨hes, hl⟩ := List.append_inj' he' rfl
        have hlast : e = last := (List.cons.inj hl).1
        refine .inr ⟨hlast ▸ hq last (by simp), .inr ⟨pre, c, post', hes, hc, fun e' he'' => hq e' ?_⟩⟩
        rw [List.concat_eq_append]
        exact List.mem_append_left _ he''
  · intro h
    rcases h with hr | ⟨hn, h⟩
    · exact .inr ⟨es, e, [], rfl, hr, by simp⟩
    · rcases h with ⟨hp, hq⟩ | ⟨pre, c, post, he, hc, hq⟩
      · refine .inl ⟨hp, fun e' he' => ?_⟩
        rcases List.mem_append.mp he' with he' | he'
        · exact hq e' he'
        · rwa [List.mem_singleton.mp he']
      · refine .inr ⟨pre, c, post ++ [e], by simp [he], hc, fun e' he' => ?_⟩
        rcases List.mem_append.mp he' with he' | he'
        · exact hq e' he'
        · rwa [List.mem_singleton.mp he']

theorem markerAt_snoc (b : Build) (preset : Bool) (es : List ProcEvent) (e : ProcEvent) :
    markerAt b preset (es ++ [e]) = (procStep b (markerAt b preset es) e).2 := by
  simp [markerAt]

/-- The marker is absent exactly when nothing has set it since a check last read it. -/
theorem marker_absent_iff (b : Build) (preset : Bool) (es : List ProcEvent) :
    markerAt b preset es = false ↔ QuietSinceRead preset es := by
  induction es using List.reverseRecOn with
  | nil => simp [markerAt, QuietSinceRead]
  | append_singleton es e ih => rw [markerAt_snoc, procStep_absent_iff, quietSinceRead_snoc, ih]

theorem procRun_append (b : Build) (es rest : List ProcEvent) :
    ∀ preset, procRun b preset (es ++ rest) = procRun b preset es ++ procRun b (markerAt b preset es) rest := by
  induction es with
  | nil => intro preset; rfl
  | cons e es ih =>
    intro preset
    simp only [List.cons_append, procRun, ih]
    rfl

/-! ## A preset is never to the caller's advantage -/

/-- The run with the marker set allows only what the other allows or is still showing, and
    raises every sheet and puts every question the other does. -/
structure NoWorse (preset other : Act Ret) : Prop where
  allow : preset.Returns .allow → other.Returns .allow ∨ other.result = .error .waiting
  asks : ∀ e ∈ other.trace, e.kind = .sheet ∨ e.kind = .question → e ∈ preset.trace

theorem NoWorse.refl (x : Act Ret) : NoWorse x x := ⟨.inl, fun _ he _ => he⟩

theorem asks_of_shown {other : Act Ret} (hk : OnlyKinds [.display, .marker] other) (preset : Act Ret) :
    ∀ e ∈ other.trace, e.kind = .sheet ∨ e.kind = .question → e ∈ preset.trace := by
  intro e he hkind
  have hmem := hk e he
  rcases hkind with h | h <;> simp [h] at hmem

theorem NoWorse.emit_bind {e : Eff} {x y : Act Ret} (h : NoWorse x y) :
    NoWorse (Traced.emit e >>= fun _ => x) (Traced.emit e >>= fun _ => y) := by
  refine ⟨fun hx => ?_, fun e' he' hkind => ?_⟩
  · have hy := h.allow (by simpa using hx)
    simpa [Traced.Returns] using hy
  · simp only [Traced.emit_bind_trace, List.mem_cons] at he' ⊢
    rcases he' with he' | he'
    · exact .inl he'
    · exact .inr (h.asks e' he' hkind)

section

variable (b : Build) (ctx : InvokingCtx) (env : CheckEnv) (commandInfo runArgv : List Bytes) (uid : Uid)

/-- A step-aside with the marker absent shows the line and allows. -/
theorem checkNonConsole_absent (h : swNonconsoleAllows (swNonconsoleChainOf b.pamPath env.sudoLocal) false = true) :
    OnlyKinds [.display, .marker] (checkNonConsole b ctx env commandInfo runArgv uid false) ∧
      ((checkNonConsole b ctx env commandInfo runArgv uid false).Returns .allow ∨
        (checkNonConsole b ctx env commandInfo runArgv uid false).result = .error .waiting) := by
  have hchain : swNonconsoleChainOf b.pamPath env.sudoLocal ≠ .deny := by
    intro hd
    simp [hd, swNonconsoleAllows] at h
  have hasks := stepAsideAsks_absent hchain
  unfold checkNonConsole
  simp only [h, if_true, swStepAsideAllow, hasks, Bool.not_false]
  constructor
  · simp
  · rcases emitExecLine_ends b env (findKv commandInfo (lit "command")) runArgv (swStepAsideLayout false)
      (some (swRunasName env commandInfo)) (swColorAllowed ctx) with hr | hw
    · left
      simp [hr]
    · right
      simp [Traced.bind_def, Traced.andThen, hw]

theorem checkNonConsole_noWorse :
    NoWorse (checkNonConsole b ctx env commandInfo runArgv uid true)
      (checkNonConsole b ctx env commandInfo runArgv uid false) := by
  cases ha : swNonconsoleAllows (swNonconsoleChainOf b.pamPath env.sudoLocal) false with
  | true =>
    obtain ⟨hk, hr⟩ := checkNonConsole_absent b ctx env commandInfo runArgv uid ha
    exact ⟨fun _ => hr, asks_of_shown hk _⟩
  | false =>
    -- what an absent marker does not allow, a present one does not either
    have hp : swNonconsoleAllows (swNonconsoleChainOf b.pamPath env.sudoLocal) true = false := by
      cases hc : swNonconsoleChainOf b.pamPath env.sudoLocal <;> simp [hc, swNonconsoleAllows] at ha ⊢
    unfold checkNonConsole
    simp only [ha, hp, Bool.false_eq_true, if_false]
    exact .refl _

theorem checkConsole_noWorse :
    NoWorse (checkConsole b ctx env commandInfo runArgv uid true)
      (checkConsole b ctx env commandInfo runArgv uid false) := by
  have hpreset : deferSkips b env true = false := by simp [deferSkips, swDeferDecision]
  unfold checkConsole
  cases findKv commandInfo (lit "command") with
  | none => exact .refl _
  | some path =>
    cases hd : deferSkips b env false with
    | false => simp only [hpreset]; exact .refl _
    | true =>
      -- the deferred run shows its line and allows
      refine ⟨fun _ => ?_, asks_of_shown (by simp) _⟩
      simp only [if_true]
      exact shown_then_allow (emitExecLine_ends _ _ _ _ _ _ _) (by simp)

theorem check_noWorse :
    NoWorse (sudowhatCheck b ctx env commandInfo runArgv true) (sudowhatCheck b ctx env commandInfo runArgv false) := by
  by_cases hi : env.bundlesIntact
  · rw [sudowhatCheck_intact hi, sudowhatCheck_intact hi]
    refine .emit_bind ?_
    unfold checkCaller
    cases ctx.uid with
    | none => exact .refl _
    | some uid =>
      dsimp only
      split
      · exact .refl _
      · split
        · exact checkNonConsole_noWorse b ctx env commandInfo runArgv uid
        · exact checkConsole_noWorse b ctx env commandInfo runArgv uid
  · refine ⟨fun ha => ?_, asks_of_shown ((sudowhatCheck_not_intact hi).2.mono fun _ he => ?_) _⟩
    · exact absurd ((sudowhatCheck_not_intact hi).1.unique ha) (by decide)
    · simp only [List.mem_singleton] at he
      simp [he]

end

/-- What a call gave in the run with the preset, against the other run. -/
def Obs.NoWorse : Obs → Obs → Prop
  | .pam reply, .pam reply' => reply = reply'
  | .check run, .check run' => Plugin.NoWorse run run'
  | _, _ => False

/-- One call, from a marker at least as set: what it gave is no better for the caller, and
    the marker stays at least as set. -/
theorem procStep_noWorse (b : Build) {preset other : Bool} (h : other = true → preset = true) (e : ProcEvent) :
    (procStep b preset e).1.NoWorse (procStep b other e).1 ∧
      ((procStep b other e).2 = true → (procStep b preset e).2 = true) := by
  by_cases hm : preset = other
  · subst hm
    refine ⟨?_, id⟩
    cases e with
    | pam env argv => rfl
    | check ctx env commandInfo runArgv => exact NoWorse.refl _
  · obtain rfl : other = false := by cases other <;> simp_all
    obtain rfl : preset = true := by cases preset <;> simp_all
    cases e with
    | pam env argv => exact ⟨rfl, fun _ => rfl⟩
    | check ctx env commandInfo runArgv =>
      refine ⟨check_noWorse b ctx env commandInfo runArgv, fun h => ?_⟩
      by_cases hi : env.bundlesIntact
      · simp [procStep_check.1 hi] at h
      · simp [procStep_check.2 hi] at h

theorem noWorse_runs (b : Build) (es : List ProcEvent) :
    ∀ {preset other : Bool}, (other = true → preset = true) →
      List.Forall₂ Obs.NoWorse (procRun b preset es) (procRun b other es) := by
  induction es with
  | nil => intro preset other _; exact .nil
  | cons e es ih =>
    intro preset other h
    obtain ⟨hobs, hnext⟩ := procStep_noWorse b h e
    exact .cons hobs (ih hnext)

/-- The marker cannot be forged absent: over any calls, a check runs on the marker the calls
    before it left and reads it just when the signatures are good, that marker is absent
    exactly when nothing has set it since a check last read it, and presetting it is never
    to the caller's advantage. -/
theorem marker_cannot_be_forged_absent (b : Build) :
    (∀ preset pre ctx env commandInfo runArgv,
      let run := sudowhatCheck b ctx env commandInfo runArgv (markerAt b preset pre)
      procRun b preset (pre ++ [.check ctx env commandInfo runArgv]) = procRun b preset pre ++ [.check run] ∧
        (.unsetMarker ∈ run.trace ↔ env.bundlesIntact) ∧
        (markerAt b preset pre = false ↔ QuietSinceRead preset pre)) ∧
    ∀ es, List.Forall₂ Obs.NoWorse (procRun b true es) (procRun b false es) := by
  refine ⟨fun preset pre ctx env commandInfo runArgv => ?_, fun es => noWorse_runs b es (by simp)⟩
  exact ⟨procRun_append b pre _ preset, unsetMarker_mem_iff, marker_absent_iff b preset pre⟩

end SudoWhat.Plugin
