/-
  SudoWhat.Pam.Stack — sudo's PAM auth stack: the auth lines of sudo_local, spliced at the
  head of a parent chain, evaluated in file order (`SudoWhat.Lib.PamChain`).

  A line is read by its tokens (`confLines`, as the plugin reads it). openpam refuses a
  policy with a line it cannot read, and then no stack runs. What a foreign module answers
  is given by the surroundings; pam_sudowhat answers by its role, and sets the marker
  whenever it is called.

  The plugin tests that its lines are PRESENT in the text, not where they stand:
  - `skipped_sheet_iff`: an absent marker means the stack did not succeed, unless a
    sufficient or binding line ahead of every pam_sudowhat line ends the chain
    (`GrantedAhead`); `permit_line_ahead_of_integrity` is such a text.
  - `step_aside_factor_iff`: a non-console caller the gate variant lets through showed a
    real factor, unless a sufficient or binding line that demands none ends the chain
    behind pam_sudowhat's (`FreeGrant`), or nothing after the integrity line answers at
    all and its own success stands (`Unanswered`); `permit_line_behind_gate` is a text of
    the first kind.
-/

import SudoWhat.Pam.Authenticate
import SudoWhat.Plugin.SudoLocal

namespace SudoWhat.Pam

open SudoWhat.Lib.PamChain SudoWhat.Plugin

/-! ## Reading a policy -/

/-- One module line: its flag, module and arguments. -/
structure Entry where
  control : Control
  mod : Text
  args : List Text
  deriving DecidableEq, Repr

def controlOf (word : Text) : Option Control :=
  if word = requisiteWord then some .requisite
  else if word = sufficientWord then some .sufficient
  else if word = "required".toList then some .required
  else if word = "binding".toList then some .binding
  else if word = "optional".toList then some .optional
  else none

def includeWord : Text := "include".toList

def otherFacilities : List Text := ["account".toList, "session".toList, "password".toList]

/-- The auth entries of one line; `none` when openpam refuses it. `includes` is what
    another service's auth policy holds. -/
def readLine (includes : Text → Option (List Entry)) : List Text → Option (List Entry)
  | facility :: control :: mod :: args =>
    if facility = authWord then
      if control = includeWord then if args = [] then includes mod else none
      else (controlOf control).map fun c => [⟨c, mod, args⟩]
    else if facility ∈ otherFacilities then some []
    else none
  | _ => none

def readPolicy (includes : Text → Option (List Entry)) : List (List Text) → Option (List Entry)
  | [] => some []
  | f :: fs =>
    match readLine includes f, readPolicy includes fs with
    | some es, some rest => some (es ++ rest)
    | _, _ => none

/-! ## Running it -/

/-- What the stack meets: included policies, what pam_sudowhat is told at the i-th call,
    what a foreign module answers there, and the parent chain with its answers. -/
structure StackEnv where
  includes : Text → Option (List Entry)
  auth : Nat → AuthEnv
  foreign : Nat → Outcome
  parent : List (Call Entry)

/-- A call of pam_sudowhat itself. -/
def isOwn (b : Build) (c : Call Entry) : Bool := c.mod.mod == b.pamPath

def callOutcome (b : Build) (env : StackEnv) (i : Nat) (e : Entry) : Outcome :=
  if e.mod = b.pamPath then (roleReply b (env.auth i) e.args).code.outcome
  else if e.mod = permitModule then .success
  else env.foreign i

def localCalls (b : Build) (env : StackEnv) (es : List Entry) : List (Call Entry) :=
  es.mapIdx fun i e => ⟨e.control, e, callOutcome b env i e⟩

/-- The whole chain for a sudo_local text; `none` when the policy is refused. -/
def stackCalls (b : Build) (env : StackEnv) (text : Text) : Option (List (Call Entry)) :=
  (readPolicy env.includes (confLines text)).map fun es => localCalls b env es ++ env.parent

/-- The calls of the parent chain that are made. -/
def parentCalls (b : Build) (env : StackEnv) (text : Text) : List (Call Entry) :=
  match readPolicy env.includes (confLines text) with
  | none => []
  | some es => ranFrom (run (localCalls b env es) start) env.parent

structure StackRun where
  success : Bool
  marker : Bool
  deriving DecidableEq, Repr

/-- One run of the stack, from the marker as it was. -/
def runStack (b : Build) (env : StackEnv) (text : Text) (marker : Bool) : StackRun :=
  match stackCalls b env text with
  | none => ⟨false, marker⟩
  | some calls => ⟨passes calls, marker || (ran calls).any (isOwn b)⟩

/-! ## Reading the lines back -/

theorem readPolicy_mem {includes : Text → Option (List Entry)} {lines : List (List Text)} :
    ∀ {es : List Entry}, readPolicy includes lines = some es →
      ∀ f ∈ lines, ∃ fs, readLine includes f = some fs ∧ ∀ e ∈ fs, e ∈ es := by
  induction lines with
  | nil => intro es _ f hf; cases hf
  | cons g lines ih =>
    intro es h f hf
    unfold readPolicy at h
    split at h
    · rename_i fs rest hl hr
      cases h
      rcases List.mem_cons.mp hf with rfl | hf
      · exact ⟨fs, hl, fun e he => List.mem_append_left _ he⟩
      · obtain ⟨fs', hfs, hsub⟩ := ih hr f hf
        exact ⟨fs', hfs, fun e he => List.mem_append_right _ (hsub e he)⟩
    · cases h

theorem readLine_auth {includes : Text → Option (List Entry)} {control mod : Text} {args : List Text} {c : Control}
    (hi : control ≠ includeWord) (hc : controlOf control = some c) :
    readLine includes (authWord :: control :: mod :: args) = some [⟨c, mod, args⟩] := by
  simp [readLine, hi, hc]

theorem requisite_ne_include : requisiteWord ≠ includeWord := by decide
theorem sufficient_ne_include : sufficientWord ≠ includeWord := by decide
theorem controlOf_requisite : controlOf requisiteWord = some .requisite := if_pos rfl
theorem controlOf_sufficient : controlOf sufficientWord = some .sufficient := by
  rw [controlOf, if_neg requisite_ne_sufficient.symm, if_pos rfl]

/-- A text with the integrity line has a requisite call of pam_sudowhat in its chain. -/
theorem integrity_call {b : Build} (env : StackEnv) {text : Text} {es : List Entry}
    (hi : sudowhatTextHasIntegrityLine b.pamPath (some text) = true)
    (hp : readPolicy env.includes (confLines text) = some es) :
    ∃ c ∈ localCalls b env es, isOwn b c = true ∧ c.control = .requisite := by
  obtain ⟨_, ht, hline⟩ := hasIntegrityLine_iff.mp hi
  cases ht
  obtain ⟨fs, hf, hsub⟩ := readPolicy_mem hp _ hline
  rw [readLine_auth requisite_ne_include controlOf_requisite] at hf
  cases hf
  obtain ⟨i, hlt, hget⟩ := List.mem_iff_getElem.mp (hsub _ (List.mem_singleton.mpr rfl))
  refine ⟨⟨.requisite, ⟨.requisite, b.pamPath, []⟩, callOutcome b env i ⟨.requisite, b.pamPath, []⟩⟩, ?_, ?_, rfl⟩
  · exact List.mem_mapIdx.mpr ⟨i, hlt, by simp [hget]⟩
  · simp [isOwn]

theorem own_of_integrity {b : Build} {env : StackEnv} {text : Text} {calls : List (Call Entry)}
    (hi : sudowhatTextHasIntegrityLine b.pamPath (some text) = true) (hc : stackCalls b env text = some calls) :
    ∃ c ∈ calls, isOwn b c = true := by
  obtain ⟨es, hp, rfl⟩ := Option.map_eq_some_iff.mp hc
  obtain ⟨c, hmem, hown, -⟩ := integrity_call env hi hp
  exact ⟨c, List.mem_append_left _ hmem, hown⟩

theorem own_outcome_ne_ignore {b : Build} {env : StackEnv} {es : List Entry} {c : Call Entry}
    (hc : c ∈ localCalls b env es) (ho : isOwn b c = true) : c.outcome ≠ .ignore := by
  obtain ⟨i, hlt, rfl⟩ := List.mem_mapIdx.mp hc
  have he : es[i].mod = b.pamPath := by simpa [isOwn] using ho
  simp only [callOutcome, he, if_true]
  exact outcome_ne_ignore _

/-! ## A skipped sheet -/

/-- sudo's authentication of one invocation: whether it runs the stack, and what the stack
    meets. The caller presets no marker. -/
structure AuthPhase where
  entered : Bool
  env : StackEnv

def AuthPhase.run (b : Build) (text : Text) (p : AuthPhase) : StackRun :=
  if p.entered then runStack b p.env text false else ⟨false, false⟩

/-- The check would skip the sheet. -/
def AuthPhase.skipsSheet (b : Build) (text : Text) (p : AuthPhase) : Bool :=
  swDeferDecision b.policyDeference (p.run b text).marker (sudowhatTextHasIntegrityLine b.pamPath (some text))

/-- A sufficient or binding success ends the chain ahead of every pam_sudowhat line. -/
def GrantedAhead (b : Build) (calls : List (Call Entry)) : Prop :=
  ∃ pre c post, calls = pre ++ c :: post ∧ Quiet pre ∧ c.grants ∧ ∀ d ∈ pre ++ [c], isOwn b d = false

theorem grantedAhead_iff {b : Build} {calls : List (Call Entry)} (hown : ∃ c ∈ calls, isOwn b c = true) :
    GrantedAhead b calls ↔ passes calls = true ∧ (ran calls).any (isOwn b) = false := by
  constructor
  · rintro ⟨pre, c, post, rfl, hq, hg, hno⟩
    refine ⟨(passes_iff _).mpr (.inl ⟨pre, c, post, rfl, hq, hg⟩), ?_⟩
    rw [ran_of_grants hq hg]
    exact List.any_eq_false.mpr fun d hd => by simp [hno d hd]
  · intro ⟨hs, hno⟩
    rcases (passes_iff _).mp hs with ⟨pre, c, post, rfl, hq, hg⟩ | ⟨hq, -⟩
    · rw [ran_of_grants hq hg] at hno
      exact ⟨pre, c, post, rfl, hq, hg, fun d hd => by simpa using List.any_eq_false.mp hno d hd⟩
    -- a chain nothing decides runs to its end, past pam_sudowhat's line
    · obtain ⟨d, hd, hod⟩ := hown
      rw [ran_of_quiet hq] at hno
      exact absurd (List.any_eq_true.mpr ⟨d, hd, hod⟩) (by simp [hno])

/-- A skipped sheet means the stack did not succeed, exactly when no line ahead of
    pam_sudowhat's ends the chain. -/
theorem skipped_sheet_iff (b : Build) (text : Text) (p : AuthPhase) :
    (p.skipsSheet b text = true → (p.run b text).success = false) ↔
      ¬ (p.entered = true ∧ b.policyDeference = true ∧
        sudowhatTextHasIntegrityLine b.pamPath (some text) = true ∧
        ∃ calls, stackCalls b p.env text = some calls ∧ GrantedAhead b calls) := by
  cases he : p.entered with
  | false => simp [AuthPhase.run, he]
  | true =>
    simp only [AuthPhase.skipsSheet, AuthPhase.run, he, if_true, swDeferDecision_iff, true_and, runStack]
    cases hc : stackCalls b p.env text with
    | none => simp
    | some calls =>
      simp only [Bool.false_or, Option.some.injEq, exists_eq_left']
      constructor
      · intro h ⟨hp, hi, hg⟩
        obtain ⟨hs, hm⟩ := (grantedAhead_iff (own_of_integrity hi hc)).mp hg
        exact absurd hs (by simp [h ⟨hp, hm, hi⟩])
      · intro h ⟨hp, hm, hi⟩
        by_contra hs
        exact h ⟨hp, hi, (grantedAhead_iff (own_of_integrity hi hc)).mpr ⟨by simpa using hs, hm⟩⟩

/-- The console user at the screen, with a sudo.conf and bundles that pass. -/
def consoleAuth (user : Bytes) (uid : Uid) (session : SecuritySession) (consoleUid : Uid) : AuthEnv where
  user := some user
  passwd := fun name => if name = user then some uid else none
  session := session
  consoleUid := consoleUid
  sudoConf := .ok (pluginWord ++ [' '] ++ pluginSymbol ++ [' '] ++ Build.stock.pluginPath)
  pluginSignature := .ok ()
  auditExists := false
  auditSignature := .ok ()

/-- pam_permit ahead of the integrity line. -/
def permitAheadText : Text :=
  unlines ["auth sufficient pam_permit.so".toList, "auth requisite /usr/local/lib/pam/pam_sudowhat.so".toList]

def atTheScreen : AuthPhase where
  entered := true
  env := ⟨fun _ => none, fun _ => consoleAuth [0x6A] 501 ⟨true, true, false⟩ 501, fun _ => .failure, []⟩

/-- The stack succeeds at pam_permit, pam_sudowhat is not called, and the absent marker
    skips the sheet. -/
theorem permit_line_ahead_of_integrity :
    ¬ ∀ (b : Build) (text : Text) (p : AuthPhase), p.skipsSheet b text = true → (p.run b text).success = false := by
  intro h
  exact absurd (h Build.stock permitAheadText atTheScreen (by decide)) (by decide)

/-! ## A factor behind the step-aside -/

/-- A non-console caller whose stack runs, with the modules that demand a real factor:
    pam_permit and pam_sudowhat are none, the parent's modules all are. -/
structure NonConsoleCaller (b : Build) where
  env : StackEnv
  demandsFactor : Text → Bool
  permitDoesNot : demandsFactor permitModule = false
  ownDoesNot : demandsFactor b.pamPath = false
  parentDemands : ∀ c ∈ env.parent, demandsFactor c.mod.mod = true
  nonConsole : ∀ i, (env.auth i).isConsole = false

def NonConsoleCaller.run {b : Build} (text : Text) (caller : NonConsoleCaller b) : StackRun :=
  runStack b caller.env text false

/-- The stack succeeded with pam_sudowhat called, and the plugin steps aside. -/
def NonConsoleCaller.steppedAside {b : Build} (text : Text) (caller : NonConsoleCaller b) : Prop :=
  (caller.run text).success = true ∧ (caller.run text).marker = true ∧
    swNonconsoleAllows (swNonconsoleChainOf b.pamPath (some text)) (caller.run text).marker = true

/-- A module that demands a factor was called and succeeded. -/
def NonConsoleCaller.showedFactor {b : Build} (text : Text) (caller : NonConsoleCaller b) : Prop :=
  ∃ calls, stackCalls b caller.env text = some calls ∧
    ∃ c ∈ ran calls, c.outcome = .success ∧ caller.demandsFactor c.mod.mod = true

/-- By its flag and answer the line leaves the chain undecided, and it shows no factor. -/
def idle (demandsFactor : Text → Bool) (c : Call Entry) : Bool :=
  match c.outcome with
  | .ignore => true
  | .failure => !c.control.vetoes
  | .success => !c.control.breaks && !demandsFactor c.mod.mod

/-- A sufficient or binding line that demands no factor succeeds at or behind a pam_sudowhat
    line, and every line ahead of it is idle. -/
def FreeGrant (b : Build) (demandsFactor : Text → Bool) (lines : List (Call Entry)) : Prop :=
  ∃ pre c post, lines = pre ++ c :: post ∧ (∀ d ∈ pre, idle demandsFactor d = true) ∧
    (c.control.breaks = true ∧ c.outcome = .success ∧ demandsFactor c.mod.mod = false) ∧
    ∃ d ∈ pre ++ [c], isOwn b d = true

/-- Every line is idle, and no module of the parent chain succeeds or denies. -/
def Unanswered (demandsFactor : Text → Bool) (lines parent : List (Call Entry)) : Prop :=
  (∀ d ∈ lines, idle demandsFactor d = true) ∧ Inert parent

theorem idle_iff {demandsFactor : Text → Bool} {c : Call Entry} : idle demandsFactor c = true ↔
    (¬ c.denies ∧ ¬ c.grants) ∧ (c.outcome = .success → demandsFactor c.mod.mod = false) := by
  cases ho : c.outcome <;> simp [idle, Call.denies, Call.grants, ho]

theorem quiet_of_idle {demandsFactor : Text → Bool} {cs : List (Call Entry)}
    (h : ∀ d ∈ cs, idle demandsFactor d = true) : Quiet cs := fun d hd => (idle_iff.mp (h d hd)).1

/-- No call made shows a factor. -/
def Unfactored (demandsFactor : Text → Bool) (calls : List (Call Entry)) : Prop :=
  ¬ ∃ c ∈ calls, c.outcome = .success ∧ demandsFactor c.mod.mod = true

section
variable {b : Build} {caller : NonConsoleCaller b} {text : Text} {es : List Entry}

theorem passes_of_freeGrant {parent : List (Call Entry)} {lines : List (Call Entry)}
    (h : FreeGrant b caller.demandsFactor lines) : passes (lines ++ parent) = true ∧
      (ran (lines ++ parent)).any (isOwn b) = true ∧ Unfactored caller.demandsFactor (ran (lines ++ parent)) := by
  obtain ⟨pre, c, post, rfl, hidle, ⟨hb, hs, hf⟩, o, ho, hown⟩ := h
  have hq : Quiet pre := quiet_of_idle hidle
  rw [List.append_assoc, List.cons_append, ran_of_grants hq ⟨hs, hb⟩]
  refine ⟨(passes_iff _).mpr (.inl ⟨pre, c, _, rfl, hq, hs, hb⟩), List.any_eq_true.mpr ⟨o, ho, hown⟩, ?_⟩
  intro ⟨d, hd, hsd, hfd⟩
  rcases List.mem_append.mp hd with hd | hd
  · exact absurd hfd (by simp [(idle_iff.mp (hidle d hd)).2 hsd])
  · rw [List.mem_singleton.mp hd, hf] at hfd
    cases hfd

/-- With nothing else answering, the integrity line's success is the chain's. -/
theorem passes_of_unanswered (hi : sudowhatTextHasIntegrityLine b.pamPath (some text) = true)
    (hp : readPolicy caller.env.includes (confLines text) = some es)
    (h : Unanswered caller.demandsFactor (localCalls b caller.env es) caller.env.parent) :
    passes (localCalls b caller.env es ++ caller.env.parent) = true ∧
      (ran (localCalls b caller.env es ++ caller.env.parent)).any (isOwn b) = true ∧
      Unfactored caller.demandsFactor (ran (localCalls b caller.env es ++ caller.env.parent)) := by
  obtain ⟨hidle, hinert⟩ := h
  have hq : Quiet (localCalls b caller.env es ++ caller.env.parent) := by
    intro d hd
    rcases List.mem_append.mp hd with hd | hd
    · exact quiet_of_idle hidle d hd
    · exact ⟨(hinert d hd).2, fun hg => (hinert d hd).1 hg.1⟩
  obtain ⟨c, hmem, hown, hctl⟩ := integrity_call caller.env hi hp
  have hsucc : c.outcome = .success := by
    cases ho : c.outcome with
    | success => rfl
    | ignore => exact absurd ho (own_outcome_ne_ignore hmem hown)
    | failure => exact absurd ⟨ho, by rw [hctl]; rfl⟩ (quiet_of_idle hidle c hmem).1
  rw [ran_of_quiet hq]
  refine ⟨(passes_iff _).mpr (.inr ⟨hq, c, List.mem_append_left _ hmem, hsucc⟩),
    List.any_eq_true.mpr ⟨c, List.mem_append_left _ hmem, hown⟩, ?_⟩
  intro ⟨d, hd, hs, hf⟩
  rcases List.mem_append.mp hd with hd | hd
  · exact absurd hf (by simp [(idle_iff.mp (hidle d hd)).2 hs])
  · exact (hinert d hd).1 hs

/-- A parent module that succeeds shows a factor, so it is sudo_local's lines that decide. -/
theorem freeGrant_or_unanswered (hpass : passes (localCalls b caller.env es ++ caller.env.parent) = true)
    (hown : (ran (localCalls b caller.env es ++ caller.env.parent)).any (isOwn b) = true)
    (hno : Unfactored caller.demandsFactor (ran (localCalls b caller.env es ++ caller.env.parent))) :
    FreeGrant b caller.demandsFactor (localCalls b caller.env es) ∨
      Unanswered caller.demandsFactor (localCalls b caller.env es) caller.env.parent := by
  have hidle : ∀ d ∈ ran (localCalls b caller.env es ++ caller.env.parent), ¬ d.denies → ¬ d.grants →
      idle caller.demandsFactor d = true := by
    intro d hd hnd hng
    refine idle_iff.mpr ⟨⟨hnd, hng⟩, fun hs => ?_⟩
    by_contra hf
    exact hno ⟨d, hd, hs, by simpa using hf⟩
  rcases (passes_iff _).mp hpass with ⟨pre, c, post, he, hq, hg⟩ | ⟨hq, -⟩
  · left
    rw [he, ran_of_grants hq hg] at hno hidle hown
    have hc : caller.demandsFactor c.mod.mod = false := by
      by_contra hf
      exact hno ⟨c, by simp, hg.1, by simpa using hf⟩
    have hpre : ∀ d ∈ pre, idle caller.demandsFactor d = true :=
      fun d hd => hidle d (List.mem_append_left _ hd) (hq d hd).1 (hq d hd).2
    obtain ⟨o, ho, hoo⟩ := List.any_eq_true.mp hown
    have hlocal : c ∉ caller.env.parent := fun h => absurd (caller.parentDemands c h) (by simp [hc])
    rcases List.append_eq_append_iff.mp he with ⟨mid, rfl, hp⟩ | ⟨mid, hl, hp⟩
    · exact absurd (hp ▸ List.mem_append_right _ List.mem_cons_self) hlocal
    · cases mid with
      | nil =>
        rw [List.nil_append] at hp
        exact absurd (hp ▸ List.mem_cons_self) hlocal
      | cons d mid =>
        obtain ⟨rfl, -⟩ := List.cons.inj hp
        exact ⟨pre, _, mid, hl, hpre, ⟨hg.2, hg.1, hc⟩, o, ho, hoo⟩
  · right
    rw [ran_of_quiet hq] at hno hidle
    refine ⟨fun d hd => ?_, fun d hd => ⟨fun hs => ?_, (hq d (List.mem_append_right _ hd)).1⟩⟩
    · have hm := List.mem_append_left caller.env.parent hd
      exact hidle d hm (hq d hm).1 (hq d hm).2
    · exact hno ⟨d, List.mem_append_right _ hd, hs, caller.parentDemands d hd⟩

end

/-- A non-console caller the plugin steps aside for showed a real factor, exactly when under
    the gate variant no line of sudo_local that demands none ends the chain, and some line
    or parent module answers besides the integrity line. -/
theorem step_aside_factor_iff (b : Build) (text : Text) (caller : NonConsoleCaller b) :
    (caller.steppedAside text → caller.showedFactor text) ↔
      ¬ (sudowhatTextIsGateVariant b.pamPath (some text) = true ∧
        ∃ es, readPolicy caller.env.includes (confLines text) = some es ∧
          (FreeGrant b caller.demandsFactor (localCalls b caller.env es) ∨
            Unanswered caller.demandsFactor (localCalls b caller.env es) caller.env.parent)) := by
  unfold NonConsoleCaller.steppedAside NonConsoleCaller.showedFactor NonConsoleCaller.run runStack stackCalls
  cases hp : readPolicy caller.env.includes (confLines text) with
  | none => simp
  | some es =>
    simp only [Option.map_some, Bool.false_or, Option.some.injEq, exists_eq_left', swNonconsoleAllows_iff,
      chainOf_password_iff]
    constructor
    · intro h ⟨hg, hfree⟩
      have hi : sudowhatTextHasIntegrityLine b.pamPath (some text) = true :=
        integrity_of_chain (by rw [chainOf_password_iff.mpr hg]; decide)
      obtain ⟨hs, hm, hno⟩ := hfree.elim passes_of_freeGrant (passes_of_unanswered hi hp)
      exact hno (h ⟨hs, hm, .inl hg⟩)
    · rintro h ⟨hs, hm, hg | ⟨-, hf⟩⟩
      · by_contra hno
        exact h ⟨hg, freeGrant_or_unanswered hs hm hno⟩
      · rw [hm] at hf; cases hf

/-- pam_permit behind the console-gate line. -/
def permitBehindText : Text :=
  unlines ["auth requisite /usr/local/lib/pam/pam_sudowhat.so".toList,
    "auth sufficient /usr/local/lib/pam/pam_sudowhat.so console-gate".toList, "auth sufficient pam_permit.so".toList]

/-- The uid at the screen, over SSH, with a parent chain that asks for the password. -/
def overSsh : NonConsoleCaller Build.stock where
  env := ⟨fun _ => none, fun _ => consoleAuth [0x6A] 501 ⟨true, false, true⟩ 501, fun _ => .failure,
    [⟨.required, ⟨.required, "pam_opendirectory.so".toList, []⟩, .failure⟩]⟩
  demandsFactor := fun m => m == "pam_opendirectory.so".toList
  permitDoesNot := by decide
  ownDoesNot := by decide
  parentDemands := by decide
  nonConsole := fun _ => show (consoleAuth [0x6A] 501 ⟨true, false, true⟩ 501).isConsole = false by decide

theorem stackCalls_permitBehind : stackCalls Build.stock overSsh.env permitBehindText = some
    [⟨.requisite, ⟨.requisite, Build.stock.pamPath, []⟩, .success⟩,
      ⟨.sufficient, ⟨.sufficient, Build.stock.pamPath, [gateArg]⟩, .failure⟩,
      ⟨.sufficient, ⟨.sufficient, permitModule, []⟩, .success⟩,
      ⟨.required, ⟨.required, "pam_opendirectory.so".toList, []⟩, .failure⟩] := by decide

/-- The caller passes at pam_permit with no factor, and the plugin, which finds both gate
    lines, steps aside. -/
theorem permit_line_behind_gate :
    ¬ ∀ (b : Build) (text : Text) (caller : NonConsoleCaller b), caller.steppedAside text → caller.showedFactor text := by
  intro h
  have hrun : overSsh.run permitBehindText = ⟨true, true⟩ := by
    simp only [NonConsoleCaller.run, runStack, stackCalls_permitBehind]
    decide
  have hallows : swNonconsoleAllows (swNonconsoleChainOf Build.stock.pamPath (some permitBehindText)) true = true := by
    decide
  obtain ⟨calls, hcalls, c, hmem, -, hf⟩ := h Build.stock permitBehindText overSsh
    ⟨by rw [hrun], by rw [hrun], by rw [hrun]; exact hallows⟩
  rw [stackCalls_permitBehind] at hcalls
  cases hcalls
  have hno : overSsh.demandsFactor c.mod.mod = false := by
    clear hf
    revert c
    decide
  rw [hno] at hf
  cases hf

end SudoWhat.Pam
