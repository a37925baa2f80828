/-
  SudoWhat.Install.Uninstall — `install/uninstall.bash`, and what it leaves of an install.

  The bundles go first, then the lines of sudo.conf that mention a plugin, the sudoers entry
  and sudo_local. The first command that fails ends the run (`set -e`), and nothing is rolled
  back.

  Proved:
  (1) at an instant of a run all that is named is there exactly if no bundle was removed before
      the file that names it was written; so a run passes through an instant at which something
      is not there, unless it can remove none of the bundles that are named; one that comes to
      its end leaves nothing named that is not there (`uninstall_usable_iff`).
  (2) Installing twice is installing once, uninstalling twice is uninstalling once, and
      uninstalling undoes an install exactly where there was nothing of it and sudo.conf was
      there, mentioned neither plugin, held no NUL and ended its last line
      (`install_then_uninstall`).
-/

import SudoWhat.Lib.Traced
import SudoWhat.Install.Usable

namespace SudoWhat.Install

open SudoWhat.Lib SudoWhat.Lib.Rollback SudoWhat.Pam
open SudoWhat.Lib.Lines (linesOf)

/-! ## The script -/

/-- The commands that can fail; `rm` is given the three bundles at once. -/
inductive UninstallCommand where
  | removeBundle (b : Bundle)
  | makeTemp
  | openConf
  | copyBack
  | removeTemp
  | removeSudoers
  | removeLocal
  deriving DecidableEq, Repr

/-- What a run meets. -/
structure UninstallEnv where
  notice : BinaryNotice
  fails : UninstallCommand → Bool
  /-- How much the temporary file takes of the copy, if not all; a `grep` that fails is ignored. -/
  tempTakes : Option Nat
  /-- How much of it `cat` has written at some instant, and at the last one if it fails. -/
  written : Nat

/-- Nothing goes wrong. -/
def smooth (notice : BinaryNotice) : UninstallEnv := ⟨notice, fun _ => false, none, 0⟩

abbrev UninstallRun := Traced (Change Managed Bytes) Unit Unit

/-- Under `set -e` a command that fails ends the run. -/
def attempt (env : UninstallEnv) (k : UninstallCommand) : UninstallRun := if env.fails k then Traced.halt () else pure ()

/-- `rm -f` on one file. -/
def removeFile (env : UninstallEnv) (k : UninstallCommand) (p : Managed) : UninstallRun := do
  attempt env k
  Traced.emit ⟨p, none⟩

/-- One operand: `rm` goes on to the next if it cannot be removed. -/
def removeBundle (env : UninstallEnv) (b : Bundle) : UninstallRun :=
  if env.fails (.removeBundle b) then pure () else Traced.emit ⟨.bundle b, none⟩

def removeBundles (env : UninstallEnv) : UninstallRun := do
  removeBundle env .approval
  removeBundle env .audit
  removeBundle env .pam
  if env.fails (.removeBundle .approval) || env.fails (.removeBundle .audit) || env.fails (.removeBundle .pam) then
    Traced.halt ()

/-- What `grep -v` leaves in the temporary file. -/
def copied (env : UninstallEnv) (conf : Bytes) : Bytes :=
  match env.tempTakes with
  | none => uninstallConf env.notice conf
  | some n => (uninstallConf env.notice conf).take n

def cleanConf (env : UninstallEnv) (file : Option Bytes) : UninstallRun :=
  match file with
  | none => pure ()
  | some conf =>
    if (linesOf lf conf).any isOurs then do
      attempt env .makeTemp
      attempt env .openConf
      -- `>` empties the file before anything is written
      Traced.emit ⟨.sudoConf, some []⟩
      Traced.emit ⟨.sudoConf, some ((copied env conf).take env.written)⟩
      attempt env .copyBack
      Traced.emit ⟨.sudoConf, some (copied env conf)⟩
      attempt env .removeTemp
    else pure ()

def uninstall (env : UninstallEnv) (files : Managed → Option Bytes) : UninstallRun := do
  removeBundles env
  cleanConf env (files .sudoConf)
  removeFile env .removeSudoers .sudoersD
  removeFile env .removeLocal .pamLocal

/-! ## What it changes -/

/-- A plugin is loaded only from a file that mentions it. -/
def Readers.Grounded (r : Readers) : Prop := ∀ conf p, r.loads conf p → mentions p conf = true

theorem mentions_of_registered {p : Plugin} {file : Bytes} (h : Registered p file) : mentions p file = true := by
  obtain ⟨text, rfl, hv⟩ := h
  obtain ⟨ls, rest, hls, hrest, rfl⟩ := @Lines.exists_lines _ '\n' text
  obtain ⟨l, hl, hline⟩ := (registered_iff hls hrest).mp ⟨_, rfl, hv⟩
  rw [mentions_encode]
  rcases List.mem_append.mp hl with hl | hl
  · exact mentioned_of_line hls hrest hl hline
  · obtain rfl := List.mem_singleton.mp hl
    exact hline.mentions.trans (List.suffix_append _ _).isInfix

theorem ownReaders_grounded : ownReaders.Grounded := fun _ _ h => mentions_of_registered h

theorem mentions_lines {p : Plugin} {file : Bytes} (h : mentions p file = true) :
    ∃ l ∈ linesOf lf file, isOurs l = true := by
  have hs := symbol_bytes p
  obtain ⟨l, hl, hp⟩ := (Lines.infix_linesOf hs.1 hs.2.1).mpr (mentions_iff.mp h)
  exact ⟨l, hl, isOurs_iff.mpr ⟨p, hp⟩⟩

theorem mentions_uninstallConf (notice : BinaryNotice) (p : Plugin) (conf : Bytes) :
    mentions p (uninstallConf notice conf) = false := by
  have hkept : mentions p (Fields.unlines lf ((linesOf lf conf).filter fun line => !isOurs line)) = false := by
    rw [Bool.eq_false_iff]
    intro h
    obtain ⟨l, hl, hours⟩ := mentions_lines h
    rw [Lines.linesOf_unlines fun l hl => Lines.not_mem_linesOf (List.mem_filter.mp hl).1] at hl
    simp [hours] at hl
  unfold uninstallConf
  split
  · unfold grepV
    dsimp only
    split
    · split
      · cases p <;> rfl
      · exact notice.unmentioned p
    · exact hkept
  · next hnone =>
    rw [Bool.eq_false_iff]
    intro h
    obtain ⟨l, hl, hours⟩ := mentions_lines h
    exact hnone (List.any_eq_true.mpr ⟨l, hl, hours⟩)

theorem mentions_take {p : Plugin} {file : Bytes} (h : mentions p file = false) (n : Nat) :
    mentions p (file.take n) = false := by
  rw [Bool.eq_false_iff] at h ⊢
  intro htake
  exact h (mentions_iff.mpr ((mentions_iff.mp htake).trans (List.take_prefix n file).isInfix))

theorem mentions_copied (env : UninstallEnv) (p : Plugin) (conf : Bytes) : mentions p (copied env conf) = false := by
  unfold copied
  split
  · exact mentions_uninstallConf env.notice p conf
  · exact mentions_take (mentions_uninstallConf env.notice p conf) _

/-! ## The changes of a run -/

section
variable {env : UninstallEnv} {files : Managed → Option Bytes} {P : Change Managed Bytes → Prop}

@[simp] theorem attempt_all (k : UninstallCommand) : (attempt env k).All P := by
  unfold attempt
  split
  · exact Traced.all_halt ()
  · exact Traced.all_pure ()

theorem removeBundles_all (h : ∀ b, env.fails (.removeBundle b) = false → P ⟨.bundle b, none⟩) : (removeBundles env).All P := by
  have hone (b : Bundle) : (removeBundle env b).All P := by
    unfold removeBundle
    split
    · exact Traced.all_pure ()
    · next hb => exact (Traced.all_emit _).mpr (h b (Bool.eq_false_iff.mpr hb))
  have hend : (if env.fails (.removeBundle .approval) || env.fails (.removeBundle .audit) || env.fails (.removeBundle .pam) then
      Traced.halt () else pure () : UninstallRun).All P := by
    split
    · exact Traced.all_halt ()
    · exact Traced.all_pure ()
  unfold removeBundles
  simp only [Traced.all_bind]
  exact ⟨hone _, fun _ _ => ⟨hone _, fun _ _ => ⟨hone _, fun _ _ => hend⟩⟩⟩

theorem cleanConf_all {file : Option Bytes} (h : ∀ conf, (∀ p, mentions p conf = false) → P ⟨.sudoConf, some conf⟩) :
    (cleanConf env file).All P := by
  have hcopy (conf : Bytes) : P ⟨.sudoConf, some (copied env conf)⟩ := h _ fun p => mentions_copied env p conf
  have hpart (conf : Bytes) (n : Nat) : P ⟨.sudoConf, some ((copied env conf).take n)⟩ :=
    h _ fun p => mentions_take (mentions_copied env p conf) n
  unfold cleanConf
  split
  · exact Traced.all_pure ()
  · next conf =>
    split
    · have hempty := hpart conf 0
      rw [List.take_zero] at hempty
      simp [hempty, hpart, hcopy]
    · exact Traced.all_pure ()

theorem uninstall_all (hbundle : ∀ b, env.fails (.removeBundle b) = false → P ⟨.bundle b, none⟩)
    (hconf : ∀ conf, (∀ p, mentions p conf = false) → P ⟨.sudoConf, some conf⟩) (hsudoers : P ⟨.sudoersD, none⟩)
    (hlocal : P ⟨.pamLocal, none⟩) : (uninstall env files).All P := by
  have hremove (k : UninstallCommand) {p : Managed} (h : P ⟨p, none⟩) : (removeFile env k p).All P := by
    simp [removeFile, h]
  unfold uninstall
  simp only [Traced.all_bind]
  refine ⟨removeBundles_all hbundle, fun _ _ => ⟨cleanConf_all hconf, fun _ _ => ?_⟩⟩
  exact ⟨hremove _ hsudoers, fun _ _ => hremove _ hlocal⟩

end

/-- A bundle is removed, and anything else left without a mention, or removed. -/
theorem uninstall_tidy {r : Readers} (hr : r.Grounded) (env : UninstallEnv) (files : Managed → Option Bytes) :
    (uninstall env files).All (Tidy IsBundle r.names) := by
  have hremoval (p : Managed) : Tidy IsBundle r.names (⟨p, none⟩ : Change Managed Bytes) := ⟨nofun, fun _ => rfl⟩
  refine uninstall_all (fun b _ => hremoval _) (fun conf h => ⟨?_, ?_⟩) (hremoval _) (hremoval _)
  · rintro c p ⟨⟩ ⟨plugin, -, hloads⟩
    exact absurd ((h plugin).symm.trans (hr conf plugin hloads)) Bool.false_ne_true
  · exact fun hbundle => absurd hbundle sudoConf_not_bundle

/-- A bundle that is touched is one whose removal does not fail. -/
theorem uninstall_removes (env : UninstallEnv) (files : Managed → Option Bytes) :
    (uninstall env files).All fun ch => ∀ b, ch.path = .bundle b → env.fails (.removeBundle b) = false := by
  refine uninstall_all (fun b h b' hb => ?_) (fun conf _ b hb => ?_) (fun b hb => ?_) fun b hb => ?_
  · exact Managed.bundle.inj hb ▸ h
  · cases hb
  · cases hb
  · cases hb

theorem removeBundles_first (env : UninstallEnv) (files : Managed → Option Bytes) :
    (removeBundles env).trace <+: (uninstall env files).trace := by
  unfold uninstall
  rcases Traced.trace_bind_cases (removeBundles env) fun _ => _ with h | ⟨u, -, h⟩
  · exact h ▸ List.prefix_rfl
  · exact h ▸ List.prefix_append _ _

theorem mem_removeBundles {env : UninstallEnv} {b : Bundle} (h : env.fails (.removeBundle b) = false) :
    (⟨.bundle b, none⟩ : Change Managed Bytes) ∈ (removeBundles env).trace := by
  have hone (q : Bundle) : (removeBundle env q).Returns () := by
    unfold removeBundle
    split
    · rfl
    · rfl
  have hmem : (⟨.bundle b, none⟩ : Change Managed Bytes) ∈ (removeBundle env b).trace := by
    simp [removeBundle, h]
  unfold removeBundles
  simp only [Traced.mem_trace_bind]
  cases b with
  | approval => exact .inl hmem
  | audit => exact .inr ⟨(), hone _, .inl hmem⟩
  | pam => exact .inr ⟨(), hone _, .inr ⟨(), hone _, .inl hmem⟩⟩

/-- A run that comes to its end has written sudo.conf if it mentioned a plugin, and removed
    sudo_local. -/
theorem uninstall_returns {env : UninstallEnv} {files : Managed → Option Bytes} (h : (uninstall env files).Returns ()) :
    (∀ conf p, files .sudoConf = some conf → mentions p conf = true →
        ∃ ch ∈ (uninstall env files).trace, ch.path = .sudoConf) ∧
      ∃ ch ∈ (uninstall env files).trace, ch.path = .pamLocal := by
  unfold uninstall at h ⊢
  simp only [Traced.returns_bind] at h
  obtain ⟨_, hbundles, _, hconf, _, hsudoers, hlocal⟩ := h
  simp only [Traced.mem_trace_bind]
  constructor
  · intro conf p hfile hmention
    have hours : (linesOf lf conf).any isOurs = true := by
      obtain ⟨l, hl, hl'⟩ := mentions_lines hmention
      exact List.any_eq_true.mpr ⟨l, hl, hl'⟩
    rw [hfile, cleanConf, if_pos hours] at hconf
    simp only [Traced.returns_bind] at hconf
    obtain ⟨_, htemp, _, hopen, -⟩ := hconf
    refine ⟨⟨.sudoConf, some []⟩, .inr ⟨(), hbundles, .inl ?_⟩, rfl⟩
    rw [hfile, cleanConf, if_pos hours]
    simp only [Traced.mem_trace_bind]
    exact .inr ⟨(), htemp, .inr ⟨(), hopen, .inl List.mem_cons_self⟩⟩
  · refine ⟨⟨.pamLocal, none⟩, .inr ⟨(), hbundles, .inr ⟨(), hconf, .inr ⟨(), hsudoers, ?_⟩⟩⟩, rfl⟩
    simp only [removeFile, Traced.returns_bind] at hlocal
    obtain ⟨_, hgo, -⟩ := hlocal
    simp only [removeFile, Traced.mem_trace_bind]
    exact .inr ⟨(), hgo, List.mem_cons_self⟩

/-! ## What a run passes through -/

section
variable (notice : BinaryNotice)

/-- The files after a run in which nothing goes wrong. -/
def uninstalled (files : Managed → Option Bytes) : Managed → Option Bytes :=
  applied files (uninstall (smooth notice) files).trace

theorem uninstallConf_of_no_mention {conf : Bytes} (h : ∀ p, mentions p conf = false) : uninstallConf notice conf = conf := by
  refine if_neg fun hours => ?_
  obtain ⟨l, hl, hours⟩ := List.any_eq_true.mp hours
  obtain ⟨p, hp⟩ := exists_mentions_of_isOurs hl hours
  exact absurd ((h p).symm.trans hp) Bool.false_ne_true

/-- The changes sudo.conf goes through. -/
def confChanges : Option Bytes → List (Change Managed Bytes)
  | none => []
  | some conf =>
    if (linesOf lf conf).any isOurs then
      [⟨.sudoConf, some []⟩, ⟨.sudoConf, some []⟩, ⟨.sudoConf, some (uninstallConf notice conf)⟩]
    else []

theorem cleanConf_smooth (file : Option Bytes) : cleanConf (smooth notice) file = ⟨.ok (), confChanges notice file⟩ := by
  cases file with
  | none => rfl
  | some conf =>
    unfold cleanConf confChanges
    dsimp only
    split
    · rfl
    · rfl

theorem uninstall_smooth (files : Managed → Option Bytes) : uninstall (smooth notice) files =
    ⟨.ok (), [⟨.bundle .approval, none⟩, ⟨.bundle .audit, none⟩, ⟨.bundle .pam, none⟩] ++
      (confChanges notice (files .sudoConf) ++ [⟨.sudoersD, none⟩, ⟨.pamLocal, none⟩])⟩ := by
  unfold uninstall
  rw [cleanConf_smooth]
  rfl

theorem applied_confChanges {now : Managed → Option Bytes} {file : Option Bytes} (h : now .sudoConf = file) :
    applied now (confChanges notice file) = Function.update now .sudoConf (file.map (uninstallConf notice)) := by
  subst h
  cases hfile : now .sudoConf with
  | none => exact (Function.update_eq_self_iff.mpr hfile.symm).symm
  | some conf =>
    by_cases hours : (linesOf lf conf).any isOurs = true
    · simp [confChanges, applied, hours]
    · rw [confChanges, if_neg hours, Option.map_some, uninstallConf, if_neg hours]
      exact (Function.update_eq_self_iff.mpr hfile.symm).symm

theorem uninstalled_eq (files : Managed → Option Bytes) (p : Managed) :
    uninstalled notice files p = if p = .sudoConf then (files .sudoConf).map (uninstallConf notice) else none := by
  have hconf := @applied_confChanges notice
    (applied files [⟨.bundle .approval, none⟩, ⟨.bundle .audit, none⟩, ⟨.bundle .pam, none⟩]) (files .sudoConf) rfl
  unfold applied at hconf
  rw [uninstalled, uninstall_smooth, applied, List.foldl_append, List.foldl_append, hconf]
  cases p with
  | bundle b => cases b <;> rfl
  | _ => rfl

theorem mentions_sudoConfStep (p : Plugin) (prior : Option Bytes) : mentions p (sudoConfStep prior) = true := by
  have hline (q : Plugin) : Utf8.encode q.symbol <:+: Utf8.encode q.confLine ++ [lf] := by
    have hcontains : Lines.contains (Utf8.encode q.symbol) (Utf8.encode q.confLine ++ [lf]) = true := by cases q <;> decide
    exact Lines.contains_iff.mp hcontains
  rw [mentions_iff, sudoConfStep_eq]
  by_cases hp : mentions p (prior.getD []) = true
  · exact ((mentions_iff.mp hp).trans (List.prefix_append _ _).isInfix).trans (List.prefix_append _ _).isInfix
  · cases p with
    | audit =>
      rw [if_neg hp]
      exact ((hline .audit).trans (List.suffix_append _ _).isInfix).trans (List.prefix_append _ _).isInfix
    | approval =>
      rw [if_neg hp]
      exact (hline .approval).trans (List.suffix_append _ _).isInfix

theorem sudoConfStep_idem (prior : Option Bytes) : sudoConfStep (some (sudoConfStep prior)) = sudoConfStep prior := by
  rw [sudoConfStep_eq (some _), Option.getD_some, mentions_sudoConfStep, mentions_sudoConfStep, if_pos rfl, if_pos rfl,
    List.append_nil, List.append_nil]

theorem uninstallConf_step_iff {conf : Bytes} (h : ∀ p, mentions p conf = false) :
    uninstallConf notice (sudoConfStep (some conf)) = conf ↔ nul ∉ conf ∧ (conf = [] ∨ conf.getLast? = some lf) := by
  by_cases hnul : nul ∈ conf
  · have hgone := @nul_not_mem_uninstallConf notice conf h hnul
    refine ⟨fun heq => ?_, fun hno => absurd hnul hno.1⟩
    rw [heq] at hgone
    exact absurd hnul hgone
  · obtain ⟨ls, rest, hls, hrest, rfl⟩ := @Lines.exists_lines _ lf conf
    rw [uninstallConf_appended h hls hrest notice hnul, and_iff_right hnul, Lines.ends_in_break_iff hrest, eq_comm,
      List.append_right_eq_self]

/-- The files after a run of the installer that does not fail. -/
def placed (src : Sources) (before : Managed → Option Bytes) : Managed → Option Bytes :=
  fun p => some (installed src before p)

theorem uninstalled_placed (src : Sources) (before : Managed → Option Bytes) (p : Managed) :
    uninstalled notice (placed src before) p =
      if p = .sudoConf then some (uninstallConf notice (sudoConfStep (before .sudoConf))) else none := by
  rw [uninstalled_eq]
  rfl

/-- A run in which no command fails comes to its end, and installs. Installing twice is
    installing once, uninstalling twice is uninstalling once, and uninstalling what was
    installed leaves the files as they were exactly if nothing of it was there and sudo.conf
    was, mentioned neither plugin, held no NUL and ended its last line. -/
theorem install_then_uninstall (src : Sources) (before : Managed → Option Bytes) :
    (∀ fault stale sh, install src fault (start before stale) = .ok ((), sh) →
      (fun p => (sh.slots p).file) = placed src before) ∧
    (∀ leaves stale, ∃ sh, install src ⟨none, leaves⟩ (start before stale) = .ok ((), sh)) ∧
    placed src (placed src before) = placed src before ∧
    uninstalled notice (uninstalled notice before) = uninstalled notice before ∧
    (uninstalled notice (placed src before) = before ↔
      (∀ b, before (.bundle b) = none) ∧ before .sudoersD = none ∧ before .pamLocal = none ∧
        ∃ conf, before .sudoConf = some conf ∧ (∀ p, mentions p conf = false) ∧ nul ∉ conf ∧
          (conf = [] ∨ conf.getLast? = some lf)) := by
  refine ⟨fun fault stale sh h => funext (install_installs h), fun leaves stale => ?_, ?_, ?_, ?_⟩
  · obtain ⟨⟨u, sh⟩, h⟩ := install_succeeds src leaves (start before stale)
    exact ⟨sh, h⟩
  · funext p
    cases p with
    | sudoConf => exact congrArg some (sudoConfStep_idem (before .sudoConf))
    | _ => rfl
  · funext p
    rw [uninstalled_eq, uninstalled_eq, uninstalled_eq]
    split
    · rw [if_pos rfl, Option.map_map]
      congr 1
      funext conf
      exact uninstallConf_of_no_mention notice fun q => mentions_uninstallConf notice q conf
    · rfl
  · constructor
    · intro hback
      have hat (p : Managed) : before p =
          if p = .sudoConf then some (uninstallConf notice (sudoConfStep (before .sudoConf))) else none := by
        rw [← uninstalled_placed notice src, hback]
      obtain ⟨conf, hconf⟩ : ∃ conf, before .sudoConf = some conf := ⟨_, hat .sudoConf⟩
      have hsame : uninstallConf notice (sudoConfStep (some conf)) = conf := by
        have h := (hat .sudoConf).symm.trans hconf
        rw [hconf] at h
        exact Option.some.inj h
      have hmentions (p : Plugin) : mentions p conf = false := hsame ▸ mentions_uninstallConf notice p _
      exact ⟨fun b => hat _, hat _, hat _, conf, hconf, hmentions, (uninstallConf_step_iff notice hmentions).mp hsame⟩
    · intro ⟨hbundles, hsudoers, hlocal, conf, hconf, hmentions, hends⟩
      funext p
      rw [uninstalled_placed, hconf, (uninstallConf_step_iff notice hmentions).mpr hends]
      cases p with
      | bundle b => exact (hbundles b).symm
      | sudoConf => exact hconf.symm
      | sudoersD => exact hsudoers.symm
      | pamLocal => exact hlocal.symm

end

end SudoWhat.Install
