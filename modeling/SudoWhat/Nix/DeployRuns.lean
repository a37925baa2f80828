/-
  SudoWhat.Nix.DeployRuns — what a run of `deploy` does, and when.

  A screen goes along with the run: everything written to stdout so far, and the commands
  started. Each command must be due on the screen it comes on (`Due`).

  Proved:
  - `deploy_acts`: past the checks and a yes the pin command runs, then the rebuild if it went
    well, and the run ends as the last of them did; in every other run nothing runs.
  - `deploy_shows_what_it_runs`: a command starts only on a screen that holds the header, the two
    command lines and the question as often as it was asked, and nothing else; a line read by a
    shell, its colours off, is the command.
-/

import SudoWhat.Lib.Monitor
import SudoWhat.Lib.ShellWords
import SudoWhat.Nix.Deploy
import SudoWhat.Nix.PinPlan

namespace SudoWhat.Nix.Deploy

open SudoWhat.Lib

variable {env : Env}

/-! ## The commands of a run -/

def Eff.command : Eff → Option (List Text)
  | .underSudo argv => some argv
  | _ => none

/-- The commands started, in order. -/
def commands (es : List Eff) : List (List Text) := es.filterMap Eff.command

def Quiet {α : Type} (x : Script α) : Prop := x.All fun e => e.command = none

theorem quiet_say (t : Text) : Quiet (say t) := (Traced.all_emit _).mpr rfl

theorem quiet_complain (t : Text) : Quiet (complain t) := (Traced.all_emit _).mpr rfl

theorem quiet_refuse {α : Type} (error : Text) (status : Nat) : Quiet (refuse env error status : Script α) :=
  Traced.all_bind.mpr ⟨quiet_complain _, fun _ _ => Traced.all_halt status⟩

theorem not_returns_then_halt {α β : Type} {x : Script α} {status : Nat} {b : β} :
    ¬ (x >>= fun _ => (Traced.halt status : Script β)).Returns b := by
  intro h
  obtain ⟨_, -, h⟩ := Traced.returns_bind.mp h
  exact Traced.returns_halt h

theorem commands_bind {α β : Type} {x : Script α} {a : α} {f : α → Script β} (hq : Quiet x) (hx : x.Returns a) :
    commands (x >>= f).trace = commands (f a).trace := by
  rw [Traced.trace_bind hx, commands, List.filterMap_append, List.filterMap_eq_nil_iff.mpr hq]
  rfl

theorem exitStatus_bind {α : Type} {x : Script α} {a : α} {f : α → Script Unit} (hx : x.Returns a) :
    exitStatus (x >>= f) = exitStatus (f a) := by
  have hresult : (x >>= f).result = (f a).result := by rw [Traced.bind_def, Traced.andThen, hx]
  unfold exitStatus
  rw [hresult]

/-! ## What the checks let through -/

theorem readArgs_returns {opts : Opts} : ∀ {args : List Bytes} {o : Opts}, (readArgs env args o).Returns opts ↔
    (∀ a ∈ args, a = lit "--yes" ∨ a = lit "--dry-run") ∧
      opts = ⟨o.yes || args.contains (lit "--yes"), o.dryRun || args.contains (lit "--dry-run")⟩
  | [], o => by
    rw [readArgs, Traced.returns_pure]
    simp [eq_comm]
  | arg :: args, o => by
    have hdistinct : lit "--dry-run" ≠ lit "--yes" := by decide
    rw [readArgs]
    by_cases hyes : arg = lit "--yes"
    · rw [if_pos hyes, readArgs_returns]
      simp [hyes, hdistinct]
    · rw [if_neg hyes]
      by_cases hdry : arg = lit "--dry-run"
      · rw [if_pos hdry, readArgs_returns]
        simp [hdry, hdistinct.symm]
      · rw [if_neg hdry]
        have hnot : ¬ ∀ a ∈ arg :: args, a = lit "--yes" ∨ a = lit "--dry-run" :=
          fun h => (h arg List.mem_cons_self).elim hyes hdry
        refine iff_of_false (fun h => ?_) fun h => hnot h.1
        split at h
        · exact not_returns_then_halt h
        · obtain ⟨_, -, h⟩ := Traced.returns_bind.mp h
          exact not_returns_then_halt h

theorem readArgs_eq {opts : Opts} : ∀ {args : List Bytes} {o : Opts}, (readArgs env args o).Returns opts →
    readArgs env args o = pure opts
  | [], o, h => by
    rw [readArgs] at h ⊢
    rw [Traced.returns_pure.mp h]
  | arg :: args, o, h => by
    rw [readArgs] at h ⊢
    by_cases hyes : arg = lit "--yes"
    · rw [if_pos hyes] at h ⊢
      exact readArgs_eq h
    · rw [if_neg hyes] at h ⊢
      by_cases hdry : arg = lit "--dry-run"
      · rw [if_pos hdry] at h ⊢
        exact readArgs_eq h
      · rw [if_neg hdry] at h
        split at h
        · exact absurd h not_returns_then_halt
        · obtain ⟨_, -, h⟩ := Traced.returns_bind.mp h
          exact absurd h not_returns_then_halt

theorem readArgs_quiet : ∀ (args : List Bytes) (o : Opts), Quiet (readArgs env args o)
  | [], o => Traced.all_pure o
  | arg :: args, o => by
    rw [readArgs]
    split
    · exact readArgs_quiet args _
    · split
      · exact readArgs_quiet args _
      · split
        · exact Traced.all_bind.mpr ⟨quiet_say usage, fun _ _ => Traced.all_halt 0⟩
        · refine Traced.all_bind.mpr ⟨(Traced.all_emit _).mpr rfl, fun _ _ => ?_⟩
          exact Traced.all_bind.mpr ⟨quiet_complain usage, fun _ _ => Traced.all_halt 1⟩

/-- A clean repository with a release to go to. -/
structure Release (env : Env) (t : Target) : Prop where
  repo : env.repoRoot = true ∧ env.cd = true
  clean : env.clean = true ∧ env.cleanIndex = true
  head : env.head = .ok t.head
  tag : t.tag = env.targetTag ∧ t.tag ≠ []
  rev : env.revList t.tag = .ok t.rev

theorem not_returns_refuseDirty {α : Type} {a : α} : ¬ (refuseDirty env : Script α).Returns a := by
  intro h
  obtain ⟨_, -, h⟩ := Traced.returns_bind.mp h
  obtain ⟨_, -, h⟩ := Traced.returns_bind.mp h
  split at h
  · exact Traced.returns_halt h
  · exact not_returns_then_halt h

theorem readTarget_eq {t : Target} (h : Release env t) : readTarget env = pure t := by
  obtain ⟨⟨hroot, hcd⟩, ⟨hclean, hindex⟩, hhead, ⟨htag, hne⟩, hrev⟩ := h
  obtain ⟨head, tag, rev⟩ := t
  obtain rfl := htag
  simp only [readTarget, hroot, hcd, hclean, hindex, hhead, hrev, if_neg hne]
  rfl

theorem readTarget_returns {t : Target} : (readTarget env).Returns t ↔ Release env t := by
  constructor
  · intro h
    unfold readTarget at h
    split at h
    · exact absurd h not_returns_then_halt
    · rename_i hroot
      split at h
      · exact absurd h Traced.returns_halt
      · rename_i hcd
        split at h
        · exact absurd h not_returns_refuseDirty
        · rename_i hclean
          cases hhead : env.head with
          | error status =>
            rw [hhead] at h
            exact absurd h Traced.returns_halt
          | ok head =>
            rw [hhead] at h
            dsimp only at h
            split at h
            · exact absurd h not_returns_then_halt
            · rename_i htag
              cases hrev : env.revList env.targetTag with
              | error status =>
                rw [hrev] at h
                exact absurd h Traced.returns_halt
              | ok rev =>
                rw [hrev] at h
                obtain rfl := Traced.returns_pure.mp h
                simp only [Bool.not_eq_true', Bool.or_eq_true, not_or, Bool.not_eq_false] at hroot hcd hclean
                exact ⟨⟨hroot, hcd⟩, hclean, hhead, ⟨rfl, htag⟩, hrev⟩
  · intro h
    rw [readTarget_eq h]
    exact Traced.returns_pure.mpr rfl

theorem readTarget_quiet : Quiet (readTarget env) := by
  unfold readTarget
  split
  · exact quiet_refuse _ _
  · split
    · exact Traced.all_halt 1
    · split
      · refine Traced.all_bind.mpr ⟨quiet_complain _, fun _ _ => Traced.all_bind.mpr ⟨quiet_complain _, fun _ _ => ?_⟩⟩
        split
        · exact Traced.all_halt _
        · exact Traced.all_bind.mpr ⟨(Traced.all_emit _).mpr rfl, fun _ _ => Traced.all_halt 1⟩
      · split
        · exact Traced.all_halt _
        · split
          · exact quiet_refuse _ _
          · split
            · exact Traced.all_halt _
            · exact Traced.all_pure _

/-- The flake's pin, as read. -/
def Pinned (env : Env) (p : Found) : Prop :=
  ∃ text line, env.flake = some text ∧ pinLine text = some line ∧ pinnedRev line = some p.rev ∧ pinRefKv line = p.refKv

theorem readPin_eq {p : Found} (h : Pinned env p) : readPin env = pure p := by
  obtain ⟨text, line, htext, hline, hrev, hkv⟩ := h
  simp only [readPin, htext, hline, hrev, hkv]

theorem readPin_returns {p : Found} : (readPin env).Returns p ↔ Pinned env p := by
  constructor
  · intro h
    unfold readPin at h
    split at h
    · exact absurd h not_returns_then_halt
    · rename_i text htext
      split at h
      · exact absurd h not_returns_then_halt
      · rename_i line hline
        split at h
        · exact absurd h not_returns_then_halt
        · rename_i rev hrev
          obtain rfl := Traced.returns_pure.mp h
          exact ⟨text, line, htext, hline, hrev, rfl⟩
  · intro h
    rw [readPin_eq h]
    exact Traced.returns_pure.mpr rfl

theorem readPin_quiet : Quiet (readPin env) := by
  unfold readPin
  split
  · exact quiet_refuse _ _
  · split
    · exact quiet_refuse _ _
    · split
      · exact quiet_refuse _ _
      · exact Traced.all_pure _

/-- A release to go to, and a pin that is not there yet. -/
structure Cleared (env : Env) (t : Target) (p : Found) : Prop where
  release : Release env t
  pinned : Pinned env p
  behind : p.rev ≠ t.rev

/-! ## A yes -/

/-- Past this many lines that are no answer, a yes. -/
def ConsentsAfter (k : Nat) (answers : List Bytes) : Prop :=
  ∃ others typed rest, answers = others ++ typed :: rest ∧ others.length = k ∧ (∀ o ∈ others, answerOf o = .none) ∧
    answerOf typed = .yes

/-- `--yes` in front, or a yes typed at a terminal. -/
def Asked (env : Env) : Prop :=
  (∀ a ∈ env.args, a = lit "--yes") ∧
    (lit "--yes" ∈ env.args ∨ env.inTty = true ∧ ∃ k, ConsentsAfter k env.answers)

/-! ## The screen -/

/-- Everything written to stdout, and the commands started. -/
structure Seen where
  text : Bytes
  ran : List (List Text)

def start : Seen := ⟨[], []⟩

/-- The rows of the question. -/
def rows (env : Env) (t : Target) (p : Found) : Bytes :=
  Utf8.encode (printHeader env.outColor env t p) ++ Utf8.encode (printCommand env.outColor env.quote (pinCmd env t p)) ++
    Utf8.encode (printCommand env.outColor env.quote (rebuildCmd env)) ++ Utf8.encode ['\n']

/-- The question, asked again after each of `k` lines that are no answer. -/
def dialog (env : Env) (k : Nat) : Bytes :=
  Utf8.encode (question env.outColor) ++
    (List.replicate k (Utf8.encode (notAnAnswer env.outColor ++ question env.outColor))).flatten

/-- What stands between the rows and the first command. -/
def Dialog (env : Env) (said : Bytes) : Prop :=
  lit "--yes" ∈ env.args ∧ said = [] ∨
    lit "--yes" ∉ env.args ∧ ∃ k, ConsentsAfter k env.answers ∧ said = dialog env k

/-- The screen a command may start on. -/
def Due (env : Env) (s : Seen) (argv : List Text) : Prop :=
  ∃ t p said, Cleared env t p ∧ Asked env ∧ Dialog env said ∧
    (argv = pinCmd env t p ∧ s = ⟨rows env t p ++ said, []⟩ ∨
      argv = rebuildCmd env ∧ env.status (pinCmd env t p) = 0 ∧
        s = ⟨rows env t p ++ said ++ Utf8.encode (pinUpdated env t), [pinCmd env t p]⟩)

def watch (env : Env) : Monitor Eff Nat Seen where
  step s
    | .out bytes => ⟨s.text ++ bytes, s.ran⟩
    | .err _ => s
    | .underSudo argv => ⟨s.text, s.ran ++ [argv]⟩
  ok s
    | .underSudo argv => Due env s argv
    | _ => True
  stop _ _ := True

/-- What is written to stdout, of these effects. -/
def screen : List Eff → Bytes
  | [] => []
  | .out bytes :: es => bytes ++ screen es
  | _ :: es => screen es

theorem after_eq (es : List Eff) (s : Seen) : (watch env).after s es = ⟨s.text ++ screen es, s.ran ++ commands es⟩ := by
  induction es generalizing s with
  | nil => simp [screen, commands]
  | cons e es ih =>
    rw [Monitor.after_cons, ih]
    cases e <;> simp [watch, screen, commands, List.filterMap_cons, Eff.command]

section

open Monitor

variable {α : Type} {P : Seen → Prop}

theorem allows_quiet {es : List Eff} (h : ∀ e ∈ es, e.command = none) (s : Seen) : (watch env).Allows s es := by
  induction es generalizing s with
  | nil => trivial
  | cons e es ih =>
    refine ⟨?_, ih (fun e' he' => h e' (List.mem_cons_of_mem _ he')) _⟩
    have hquiet := h e List.mem_cons_self
    cases e with
    | underSudo argv => cases hquiet
    | out bytes => trivial
    | err bytes => trivial

theorem triple_quiet {x : Script α} (h : Quiet x) : (watch env).Triple P x fun _ _ => True :=
  fun s _ => ⟨allows_quiet h s, fun _ _ => trivial, fun _ _ => trivial⟩

theorem triple_front {x : Script α} (h : Quiet x) (hx : ∀ a, x.Returns a → x = pure a) :
    (watch env).Triple (· = start) x fun a s => x.Returns a ∧ s = start := by
  rintro s rfl
  refine ⟨allows_quiet h start, fun a ha => ⟨ha, ?_⟩, fun _ _ => trivial⟩
  rw [hx a ha]
  rfl

theorem triple_say {text : Bytes} {ran : List (List Text)} (t : Text) :
    (watch env).Triple (· = ⟨text, ran⟩) (say t) fun _ s => s = ⟨text ++ Utf8.encode t, ran⟩ :=
  triple_emit fun s hs => ⟨trivial, by rw [hs]; rfl⟩

theorem replicate_snoc (k : Nat) (bs : Bytes) :
    (List.replicate (k + 1) bs).flatten = (List.replicate k bs).flatten ++ bs := by
  rw [List.replicate_succ', List.flatten_append, List.flatten_singleton]

/-- By the lines left: those read are no answers. -/
theorem ask_watched {shown : Bytes} : ∀ (rest others : List Bytes), env.answers = others ++ rest →
    (∀ o ∈ others, answerOf o = .none) →
    (watch env).Triple (· = ⟨shown ++ dialog env others.length, []⟩) (ask env rest) fun _ s =>
      ∃ k, ConsentsAfter k env.answers ∧ s = ⟨shown ++ dialog env k, []⟩
  | [], others, _, _ => by
    refine (triple_bind (triple_say _) fun _ => triple_bind (triple_say _) fun _ => ?_)
    exact triple_halt fun _ _ => trivial
  | typed :: rest, others, hanswers, hothers => by
    rw [ask]
    cases hkind : answerOf typed with
    | yes =>
      refine triple_pure fun s hs => ⟨others.length, ?_, hs⟩
      exact ⟨others, typed, rest, hanswers, rfl, hothers, hkind⟩
    | no => exact triple_bind (triple_say _) fun _ => triple_halt fun _ _ => trivial
    | none =>
      refine triple_bind (triple_say _) fun _ => ?_
      have hmore := @ask_watched shown rest (others ++ [typed]) (by rw [hanswers, List.append_assoc]; rfl) (by
        intro o ho
        rcases List.mem_append.mp ho with ho | ho
        · exact hothers o ho
        · rw [List.mem_singleton.mp ho, hkind])
      refine hmore.conseq (fun s hs => ?_) fun _ _ h => h
      rw [hs, dialog, dialog, List.length_append, List.length_singleton, replicate_snoc]
      simp only [List.append_assoc]

theorem question_watched {shown : Bytes} :
    (watch env).Triple (· = ⟨shown, []⟩) (do say (question env.outColor); ask env env.answers) fun _ s =>
      ∃ k, ConsentsAfter k env.answers ∧ s = ⟨shown ++ dialog env k, []⟩ := by
  have hask := @ask_watched env shown env.answers [] rfl fun o ho => absurd ho List.not_mem_nil
  refine triple_bind (triple_say _) fun _ => ?_
  simpa [dialog] using hask

theorem runUnderSudo_watched {argv : List Text} {text : Bytes} {ran : List (List Text)} (h : Due env ⟨text, ran⟩ argv) :
    (watch env).Triple (· = ⟨text, ran⟩) (runUnderSudo env argv) fun _ s => env.status argv = 0 ∧ s = ⟨text, ran ++ [argv]⟩ := by
  refine triple_emit_bind (M := (· = ⟨text, ran ++ [argv]⟩)) (fun s hs => ?_) ?_
  · rw [hs]
    exact ⟨h, rfl⟩
  · split
    · rename_i hzero
      exact triple_pure fun _ hs => ⟨hzero, hs⟩
    · exact triple_halt fun _ _ => trivial

theorem runCommands_watched {t : Target} {p : Found} {said : Bytes} (hcleared : Cleared env t p) (hasked : Asked env)
    (hsaid : Dialog env said) :
    (watch env).Triple (· = ⟨rows env t p ++ said, []⟩) (runCommands env t p) fun _ _ => True := by
  refine triple_bind (runUnderSudo_watched ⟨t, p, said, hcleared, hasked, hsaid, .inl ⟨rfl, rfl⟩⟩) fun _ => ?_
  refine triple_fact fun hpin => triple_bind (triple_say _) fun _ => ?_
  refine triple_bind (runUnderSudo_watched ⟨t, p, said, hcleared, hasked, hsaid, .inr ⟨rfl, hpin, rfl⟩⟩) fun _ => ?_
  exact triple_quiet (quiet_say _)

theorem proceed_watched {opts : Opts} {t : Target} {p : Found} (hcleared : Cleared env t p)
    (hargs : ∀ a ∈ env.args, a = lit "--yes" ∨ a = lit "--dry-run")
    (hopts : opts = ⟨env.args.contains (lit "--yes"), env.args.contains (lit "--dry-run")⟩)
    (htty : opts.dryRun = true ∨ opts.yes = true ∨ env.inTty = true) :
    (watch env).Triple (· = start) (proceed env opts t p) fun _ _ => True := by
  refine triple_bind (triple_say _) fun _ => triple_bind (triple_say _) fun _ => ?_
  refine triple_bind (triple_say _) fun _ => triple_bind (triple_say _) fun _ => ?_
  have hrows : [] ++ Utf8.encode (printHeader env.outColor env t p) ++
      Utf8.encode (printCommand env.outColor env.quote (pinCmd env t p)) ++
      Utf8.encode (printCommand env.outColor env.quote (rebuildCmd env)) ++ Utf8.encode ['\n'] = rows env t p := by
    rw [rows, List.nil_append]
  rw [hrows]
  split
  · exact triple_quiet (quiet_say _)
  · rename_i hdry
    have honly : ∀ a ∈ env.args, a = lit "--yes" := by
      intro a ha
      refine (hargs a ha).resolve_right fun hadry => hdry ?_
      rw [hopts]
      exact List.contains_iff_mem.mpr (hadry ▸ ha)
    unfold confirm
    by_cases hyes : opts.yes = true
    · rw [if_pos hyes, Traced.pure_bind_eq]
      have hmem : lit "--yes" ∈ env.args := by
        rw [hopts] at hyes
        exact List.contains_iff_mem.mp hyes
      have hrun := runCommands_watched hcleared ⟨honly, .inl hmem⟩ (.inl ⟨hmem, rfl⟩)
      rwa [List.append_nil] at hrun
    · rw [if_neg hyes]
      have hnot : lit "--yes" ∉ env.args := by
        intro hmem
        rw [hopts] at hyes
        exact hyes (List.contains_iff_mem.mpr hmem)
      have hterminal : env.inTty = true := (htty.resolve_left hdry).resolve_left hyes
      refine triple_bind question_watched fun _ s hs => ?_
      obtain ⟨k, hk, rfl⟩ := hs
      exact runCommands_watched hcleared ⟨honly, .inr ⟨hterminal, k, hk⟩⟩ (.inr ⟨hnot, k, hk, rfl⟩) _ rfl

theorem script_watched : (watch env).Triple (· = start) (script env) fun _ _ => True := by
  refine triple_bind (triple_front (readArgs_quiet _ _) fun _ => readArgs_eq) fun opts => triple_fact fun hopts => ?_
  obtain ⟨hargs, hopts⟩ := readArgs_returns.mp hopts
  refine triple_bind (triple_front readTarget_quiet fun t ht => readTarget_eq (readTarget_returns.mp ht)) fun t => ?_
  refine triple_fact fun ht => ?_
  refine triple_bind (triple_front readPin_quiet fun p hp => readPin_eq (readPin_returns.mp hp)) fun p => triple_fact fun hp => ?_
  split
  · exact triple_quiet (Traced.all_bind.mpr ⟨quiet_say _, fun _ _ => quiet_say _⟩)
  · rename_i hbehind
    split
    · exact triple_quiet (quiet_refuse _ _)
    · rename_i htty
      refine proceed_watched ⟨readTarget_returns.mp ht, readPin_returns.mp hp, hbehind⟩ hargs (by simpa using hopts) ?_
      simpa [or_iff_not_imp_left] using htty

end

/-! ## When it acts -/

theorem ask_returns : ∀ {answers : List Bytes} {k : Nat}, ConsentsAfter k answers → (ask env answers).Returns ()
  | [], _, h => by
    obtain ⟨others, typed, rest, hanswers, -⟩ := h
    exact absurd hanswers (by simp)
  | typed :: rest, k, h => by
    obtain ⟨others, yes, later, hanswers, -, hothers, hyes⟩ := h
    rw [ask]
    cases others with
    | nil =>
      obtain ⟨rfl, rfl⟩ := List.cons.inj hanswers
      rw [hyes]
      exact Traced.returns_pure.mpr rfl
    | cons other others =>
      obtain ⟨rfl, rfl⟩ := List.cons.inj hanswers
      rw [hothers typed List.mem_cons_self]
      have hmore : ConsentsAfter others.length (others ++ yes :: later) :=
        ⟨others, yes, later, rfl, rfl, fun o ho => hothers o (List.mem_cons_of_mem _ ho), hyes⟩
      exact Traced.returns_bind.mpr ⟨(), Traced.returns_emit, ask_returns hmore⟩

theorem quiet_decline : Quiet (decline env) := Traced.all_bind.mpr ⟨quiet_say _, fun _ _ => Traced.all_halt 2⟩

theorem ask_quiet : ∀ answers : List Bytes, Quiet (ask env answers)
  | [] => Traced.all_bind.mpr ⟨quiet_say _, fun _ _ => quiet_decline⟩
  | typed :: rest => by
    rw [ask]
    split
    · exact Traced.all_pure ()
    · exact quiet_decline
    · exact Traced.all_bind.mpr ⟨quiet_say _, fun _ _ => ask_quiet rest⟩

theorem confirm_quiet (opts : Opts) : Quiet (confirm env opts) := by
  unfold confirm
  split
  · exact Traced.all_pure ()
  · exact Traced.all_bind.mpr ⟨quiet_say _, fun _ _ => ask_quiet _⟩

/-- The commands and the status they end the run with. -/
def Acts (env : Env) (t : Target) (p : Found) (x : Script Unit) : Prop :=
  commands x.trace = pinCmd env t p :: (if env.status (pinCmd env t p) = 0 then [rebuildCmd env] else []) ∧
    exitStatus x = if env.status (pinCmd env t p) = 0 then env.status (rebuildCmd env) else env.status (pinCmd env t p)

theorem Acts.behind {α : Type} {t : Target} {p : Found} {x : Script α} {a : α} {f : α → Script Unit} (h : Acts env t p (f a))
    (hq : Quiet x) (hx : x.Returns a) : Acts env t p (x >>= f) := by
  rw [Acts, commands_bind hq hx, exitStatus_bind hx]
  exact h

theorem Acts.said {t : Target} {p : Found} {text : Text} {f : Unit → Script Unit} (h : Acts env t p (f ())) :
    Acts env t p (say text >>= f) := h.behind (quiet_say text) Traced.returns_emit

theorem runCommands_acts (t : Target) (p : Found) : Acts env t p (runCommands env t p) := by
  unfold Acts runCommands runUnderSudo
  by_cases hpin : env.status (pinCmd env t p) = 0
  · by_cases hrebuild : env.status (rebuildCmd env) = 0
    · simp only [hpin, hrebuild, if_true]
      exact ⟨rfl, rfl⟩
    · simp only [hpin, hrebuild, if_true, if_false]
      exact ⟨rfl, rfl⟩
  · simp only [hpin, if_false]
    exact ⟨rfl, rfl⟩

theorem script_acts {t : Target} {p : Found} (hcleared : Cleared env t p) (hasked : Asked env) : Acts env t p (script env) := by
  obtain ⟨honly, hyes⟩ := hasked
  have hdry : env.args.contains (lit "--dry-run") = false := by
    rw [Bool.eq_false_iff]
    intro hmem
    exact absurd (honly _ (List.contains_iff_mem.mp hmem)) (by decide)
  have hargs : (readArgs env env.args ⟨false, false⟩).Returns ⟨env.args.contains (lit "--yes"), false⟩ :=
    readArgs_returns.mpr ⟨fun a ha => .inl (honly a ha), by rw [hdry]; simp⟩
  refine Acts.behind (Acts.behind ?_ readTarget_quiet (readTarget_returns.mpr hcleared.release)) (readArgs_quiet _ _) hargs
  refine Acts.behind ?_ readPin_quiet (readPin_returns.mpr hcleared.pinned)
  rw [if_neg hcleared.behind]
  have htty : ¬ (!false && !env.args.contains (lit "--yes") && !env.inTty) = true := by
    rcases hyes with hmem | ⟨htty, -⟩
    · simp [hmem]
    · simp [htty]
  rw [if_neg htty]
  refine Acts.said (Acts.said (Acts.said (Acts.said ?_)))
  rw [if_neg Bool.false_ne_true]
  refine Acts.behind (a := ()) (f := fun _ => runCommands env t p) (runCommands_acts t p) (confirm_quiet _) ?_
  unfold confirm
  by_cases hmem : env.args.contains (lit "--yes") = true
  · rw [if_pos hmem]
    exact Traced.returns_pure.mpr rfl
  · rw [if_neg hmem]
    obtain ⟨-, k, hk⟩ := hyes.resolve_left fun h => hmem (List.contains_iff_mem.mpr h)
    exact Traced.returns_bind.mpr ⟨(), Traced.returns_emit, ask_returns hk⟩

/-- Past the checks and a yes the pin command runs, then the rebuild if it went well, and the
    run ends as the last of them did. In every other run nothing runs. -/
theorem deploy_acts (env : Env) :
    (∀ t p, Cleared env t p → Asked env → Acts env t p (script env)) ∧
      ((¬ ∃ t p, Cleared env t p ∧ Asked env) → commands (script env).trace = []) := by
  refine ⟨fun _ _ => script_acts, fun hnot => List.filterMap_eq_nil_iff.mpr fun e he => ?_⟩
  cases e with
  | underSudo argv =>
    obtain ⟨pre, post, h⟩ := List.append_of_mem he
    obtain ⟨t, p, -, hcleared, hasked, -⟩ := script_watched.at_effect rfl h
    exact absurd ⟨t, p, hcleared, hasked⟩ hnot
  | out bytes => rfl
  | err bytes => rfl

/-! ## Shown before it runs -/

/-- What `printf %q` is for: a line of such words is read by a shell as the words, and holds no
    escape sequence. -/
structure LawfulQuote (quote : Text → Text) (shell : Text → Option (List Text)) : Prop where
  visible : ∀ w, Sgr.esc ∉ quote w
  reusable : ∀ ws, shell (spaced (sudoWord :: ws.map quote)) = some (sudoWord :: ws)

/-- The line, its indent and its colours off, is the command under sudo. -/
def CommandLine (shell : Text → Option (List Text)) (line : Text) (argv : List Text) : Prop :=
  ∃ typed, Sgr.strip line = [' ', ' '] ++ typed ++ ['\n'] ∧ shell typed = some (sudoWord :: argv)

theorem printCommand_reads {shell : Text → Option (List Text)} (hquote : LawfulQuote env.quote shell) (on : Bool) (program : Text)
    (args : List Text) : CommandLine shell (printCommand on env.quote (program :: args)) (program :: args) :=
  ⟨_, (printCommand_dressed hquote.visible on program args).strip, hquote.reusable _⟩

/-- Past the checks and a yes, `argv` is the next command, and the screen so far holds the header,
    the two command lines, the question as often as it was asked, and nothing else but that the
    pin command went well, where `argv` is the one behind it. -/
def ShownAndAsked (env : Env) (shell : Text → Option (List Text)) (pre : List Eff) (argv : List Text) : Prop :=
  ∃ t p said pinLine rebuildLine, Cleared env t p ∧ Asked env ∧ Dialog env said ∧
    CommandLine shell pinLine (pinCmd env t p) ∧ CommandLine shell rebuildLine (rebuildCmd env) ∧
    (argv = pinCmd env t p ∧ commands pre = [] ∧
        screen pre = Utf8.encode (printHeader env.outColor env t p ++ pinLine ++ rebuildLine ++ ['\n']) ++ said ∨
      argv = rebuildCmd env ∧ commands pre = [pinCmd env t p] ∧ env.status (pinCmd env t p) = 0 ∧
        screen pre = Utf8.encode (printHeader env.outColor env t p ++ pinLine ++ rebuildLine ++ ['\n']) ++ said ++
          Utf8.encode (pinUpdated env t))

/-- A command starts only past every check and a yes, and on a screen that says so. -/
theorem deploy_shows_what_it_runs {shell : Text → Option (List Text)} (hquote : LawfulQuote env.quote shell) {pre post : List Eff}
    {argv : List Text} (h : (script env).trace = pre ++ .underSudo argv :: post) : ShownAndAsked env shell pre argv := by
  have hdue : Due env ((watch env).after start pre) argv := script_watched.at_effect rfl h
  rw [after_eq] at hdue
  obtain ⟨t, p, said, hcleared, hasked, hsaid, hstate⟩ := hdue
  have hrows : rows env t p = Utf8.encode (printHeader env.outColor env t p ++
      printCommand env.outColor env.quote (pinCmd env t p) ++ printCommand env.outColor env.quote (rebuildCmd env) ++ ['\n']) := by
    simp only [rows, Utf8.encode_append]
  refine ⟨t, p, said, _, _, hcleared, hasked, hsaid, printCommand_reads hquote env.outColor _ _,
    printCommand_reads hquote env.outColor _ _, ?_⟩
  rw [← pinCmd, ← rebuildCmd, ← hrows]
  rcases hstate with ⟨hargv, hs⟩ | ⟨hargv, hpin, hs⟩
  · exact .inl ⟨hargv, congrArg Seen.ran hs, congrArg Seen.text hs⟩
  · exact .inr ⟨hargv, congrArg Seen.ran hs, hpin, congrArg Seen.text hs⟩

/-! ## A quoting that does it -/

/-- What a backslash goes in front of. -/
def special : List Char :=
  [' ', '\'', '"', '\\', '|', '&', ';', '(', ')', '<', '>', '!', '{', '}', '*', '[', '?', ']', '^', '$', ',']

def backslashed (w : Text) : Text :=
  if w = [] then ['\'', '\''] else w.flatMap fun c => if special.contains c then ['\\', c] else [c]

/-- A word written without ESC: `0` for one, `1` in front of any other character. -/
def spell (w : Text) : Text := w.flatMap fun c => if c = Sgr.esc then ['0'] else ['1', c]

def unspell : Text → Text
  | '0' :: t => Sgr.esc :: unspell t
  | _ :: c :: t => c :: unspell t
  | _ => []

/-- Words with an ESC are spelled, behind a `$`; so are those that begin with one. -/
def plainQuote (w : Text) : Text :=
  if Sgr.esc ∈ w ∨ w.head? = some '$' then backslashed ('$' :: spell w) else backslashed w

def readWord (w : Text) : Text :=
  match w with
  | '$' :: t => unspell t
  | _ => w

def plainShell (line : Text) : Option (List Text) := (ShellWords.split line).map (·.map readWord)

theorem unspell_spell (w : Text) : unspell (spell w) = w := by
  induction w with
  | nil => rfl
  | cons c w ih =>
    rw [spell, List.flatMap_cons, ← spell]
    by_cases h : c = Sgr.esc
    · rw [if_pos h, h]
      exact congrArg _ ih
    · rw [if_neg h]
      exact congrArg _ ih

theorem esc_not_mem_spell (w : Text) : Sgr.esc ∉ spell w := by
  intro h
  obtain ⟨c, -, hc⟩ := List.mem_flatMap.mp h
  by_cases he : c = Sgr.esc
  · rw [if_pos he] at hc
    exact absurd hc (by decide)
  · rw [if_neg he] at hc
    rcases List.mem_cons.mp hc with hc | hc
    · exact absurd hc (by decide)
    · exact he (List.mem_singleton.mp hc).symm

theorem esc_not_mem_backslashed {w : Text} (h : Sgr.esc ∉ w) : Sgr.esc ∉ backslashed w := by
  unfold backslashed
  split
  · decide
  · intro hm
    obtain ⟨c, hcw, hc⟩ := List.mem_flatMap.mp hm
    have hne : Sgr.esc ≠ c := fun e => h (e ▸ hcw)
    split at hc
    · rcases List.mem_cons.mp hc with hc | hc
      · exact absurd hc (by decide)
      · exact hne (List.mem_singleton.mp hc)
    · exact hne (List.mem_singleton.mp hc)

/-- By the characters: each is added to the word being read. -/
theorem feed_backslashed (ws : List Text) : ∀ (w : Text) (cur : Option Text), w ≠ [] →
    ShellWords.feed ⟨ws, cur, .plain⟩ (w.flatMap fun c => if special.contains c then ['\\', c] else [c]) =
      ⟨ws, some (cur.getD [] ++ w), .plain⟩ := by
  intro w
  induction w with
  | nil => exact fun _ h => absurd rfl h
  | cons c w ih =>
    intro cur _
    have hone : ShellWords.feed ⟨ws, cur, .plain⟩ (if special.contains c then ['\\', c] else [c]) =
        ⟨ws, some (cur.getD [] ++ [c]), .plain⟩ := by
      by_cases h : special.contains c = true
      · rw [if_pos h]
        simp [ShellWords.step]
      · rw [if_neg h]
        have hplain : c ≠ '\'' ∧ c ≠ '\\' ∧ c ≠ ' ' := by
          refine ⟨?_, ?_, ?_⟩
          all_goals
            rintro rfl
            exact h (by decide)
        simp [ShellWords.step, hplain.1, hplain.2.1, hplain.2.2]
    rw [List.flatMap_cons, ShellWords.feed_append, hone]
    by_cases hw : w = []
    · rw [hw]
      rfl
    · rw [ih _ hw, Option.getD_some, List.append_assoc]
      rfl

theorem spells_backslashed (w : Text) : ShellWords.Spells (backslashed w) w := by
  intro ws
  unfold backslashed
  split
  · rename_i h
    rw [h]
    rfl
  · rename_i h
    exact feed_backslashed ws w none h

theorem plainQuote_lawful : LawfulQuote plainQuote plainShell where
  visible w := by
    unfold plainQuote
    split
    · refine esc_not_mem_backslashed fun hm => ?_
      rcases List.mem_cons.mp hm with hm | hm
      · exact absurd hm (by decide)
      · exact esc_not_mem_spell w hm
    · rename_i h
      exact esc_not_mem_backslashed fun hm => h (.inl hm)
  reusable ws := by
    have hword : ∀ w, ∃ v, ShellWords.Spells (plainQuote w) v ∧ readWord v = w := by
      intro w
      unfold plainQuote
      split
      · exact ⟨_, spells_backslashed _, unspell_spell w⟩
      · rename_i h
        refine ⟨w, spells_backslashed w, ?_⟩
        unfold readWord
        split
        · exact absurd (.inr rfl) h
        · rfl
    choose spelled hspells hread using hword
    have hsudo : ShellWords.Spells sudoWord sudoWord := ShellWords.spells_plain (by decide) (by
      have hall : (sudoWord.all fun c => c != '\'' && c != '\\' && c != ' ') = true := by decide
      intro c hc
      simpa [and_assoc] using List.all_eq_true.mp hall c hc)
    have hall : List.Forall₂ ShellWords.Spells (sudoWord :: ws.map plainQuote) (sudoWord :: ws.map spelled) := by
      refine .cons hsudo ?_
      rw [List.forall₂_map_left_iff, List.forall₂_map_right_iff]
      exact List.forall₂_same.mpr fun w _ => hspells w
    rw [plainShell, spaced, ShellWords.split_join hall, Option.map_some, List.map_cons, List.map_map]
    have hself : ws.map (readWord ∘ spelled) = ws := by
      conv_rhs => rw [← List.map_id ws]
      exact List.map_congr_left fun w _ => hread w
    rw [hself]
    rfl

/-- A clean repository at its release, a flake a release behind, and `--yes`. -/
def releaseEnv : Env where
  args := [lit "--yes"]
  outTty := true
  errTty := true
  inTty := false
  noColor := false
  flakeVar := none
  repoRoot := true
  cd := true
  clean := true
  cleanIndex := true
  gitStatus := .ok []
  head := .ok newRev
  mergedTags := [newTag]
  sortV := id
  revList _ := .ok newRev
  tagVersion := "1.2.3".toList
  ahead := none
  flake := some (flakeWith toolsAtMain)
  dirname _ := "/etc/nix-darwin".toList
  quote := plainQuote
  ord b := b.toNat
  answers := []
  status _ := 0

theorem releaseEnv_release : Release releaseEnv ⟨newRev, newTag, newRev⟩ :=
  ⟨⟨rfl, rfl⟩, ⟨rfl, rfl⟩, rfl, ⟨by decide, by decide⟩, rfl⟩

theorem releaseEnv_cleared : Cleared releaseEnv ⟨newRev, newTag, newRev⟩ ⟨some ownPin.refToken, ownRev⟩ where
  release := releaseEnv_release
  pinned := ⟨flakeWith toolsAtMain, ownPin.line, rfl, branchPin.pinLine_eq, ownPin_read.2, ownPin_read.1⟩
  behind := by decide

theorem releaseEnv_asked : Asked releaseEnv :=
  ⟨fun _ ha => List.mem_singleton.mp ha, .inl (List.mem_singleton_self _)⟩

theorem deploy_shows_what_it_runs_release :
    ∃ pre, ShownAndAsked releaseEnv plainShell pre (pinCmd releaseEnv ⟨newRev, newTag, newRev⟩ ⟨some ownPin.refToken, ownRev⟩) := by
  have hacts := (script_acts releaseEnv_cleared releaseEnv_asked).1
  have hmem := List.mem_filterMap.mp (hacts ▸ List.mem_cons_self)
  obtain ⟨e, he, hcommand⟩ := hmem
  cases e with
  | underSudo argv =>
    obtain rfl := Option.some.inj hcommand
    obtain ⟨pre, post, h⟩ := List.append_of_mem he
    exact ⟨pre, deploy_shows_what_it_runs plainQuote_lawful h⟩
  | out bytes => cases hcommand
  | err bytes => cases hcommand

end SudoWhat.Nix.Deploy
