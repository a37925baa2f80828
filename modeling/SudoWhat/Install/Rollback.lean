/-
  SudoWhat.Install.Rollback — what `install/install.bash` leaves of the six files it manages
  when one of its commands fails (steps (2) to (6), the ERR trap).

  A file that is not there is recorded for removal; `/etc/sudo.conf`, the sudoers entry and
  `sudo_local` are copied before they are written, and the copy is recorded to be moved back.
  A bundle that is already there is overwritten with nothing recorded for it. `install`
  takes an existing file away before it writes the new one, so where it fails the file may
  also be torn.

  Proved: a run in which no command fails comes to its end (`install_succeeds`), and one that
  does leaves every file installed (`install_installs`); one that fails is rolled back to where
  it began exactly when every bundle it had put in place by then was absent or held the same
  (`rolls_back_iff`). As built a failed reinstall leaves the new bundles behind
  (`a_new_bundle_stays`).
-/

import SudoWhat.Lib.Rollback
import SudoWhat.Install.SudoConf

namespace SudoWhat.Install

open SudoWhat.Lib.Rollback

/-! ## The script -/

/-- `PLUGIN_DST`, `AUDIT_DST`, `PAM_DST`, in the order in which they are installed. -/
inductive Bundle where
  | approval
  | audit
  | pam
  deriving DecidableEq, Repr

def Bundle.place : Bundle → Nat
  | .approval => 0
  | .audit => 1
  | .pam => 2

/-- The files the installer writes; a backup stands beside each as `….sudowhat-bak`. -/
inductive Managed where
  | bundle (b : Bundle)
  | sudoConf
  | sudoersD
  | pamLocal
  deriving DecidableEq, Repr

/-- The commands of steps (2) to (6). -/
inductive Command where
  | installBundle (b : Bundle)
  | createConf
  | chmodConf
  | backUpConf
  | appendConf (p : Plugin)
  | backUpSudoers
  | installSudoers
  | visudo
  | backUpLocal
  | installLocal
  | selfTest
  deriving DecidableEq, Repr

/-- What is installed: the built bundles and the two samples. -/
structure Sources where
  bundle : Bundle → Bytes
  sudoers : Bytes
  sudoLocal : Bytes

abbrev InstallScript := Script Command Managed Bytes

/-- One bundle of step (2). -/
def installBundle (src : Sources) (b : Bundle) : InstallScript Unit := do
  if !(← isFile (.bundle b)) then addRollback (.bundle b) .remove
  write (.installBundle b) (.bundle b) fun _ => some (src.bundle b)

/-- Step (2). -/
def installBundles (src : Sources) : InstallScript Unit := do
  installBundle src .approval
  installBundle src .audit
  installBundle src .pam

/-- A `sudo.conf` that is not there. -/
def createConf : InstallScript Unit := do
  if !(← isFile .sudoConf) then
    addRollback .sudoConf .remove
    write .createConf .sudoConf fun _ => some []
    check .chmodConf

/-- `grep -qF` for a symbol in `/etc/sudo.conf`. -/
def mentioned (p : Plugin) : InstallScript Bool := test .sudoConf (·.any (mentions p))

def appendLine (p : Plugin) : InstallScript Unit := do
  if !(← mentioned p) then
    write (.appendConf p) .sudoConf fun file => some (appendConf p (file.getD []))

/-- The Plugin lines of a `sudo.conf` that lacks one. -/
def registerPlugins : InstallScript Unit := do
  if !(← mentioned .audit) || !(← mentioned .approval) then
    backUp .backUpConf .sudoConf
    appendLine .audit
    appendLine .approval

/-- Step (3). -/
def editSudoConf : InstallScript Unit := do
  createConf
  registerPlugins

/-- Steps (4) and (5): a file that is always overwritten. -/
def replaceFile (keep place : Command) (file : Managed) (sample : Bytes) : InstallScript Unit := do
  if ← isFile file then backUp keep file else addRollback file .remove
  write place file fun _ => some sample

def install (src : Sources) : InstallScript Unit := do
  installBundles src
  editSudoConf
  replaceFile .backUpSudoers .installSudoers .sudoersD src.sudoers
  check .visudo
  replaceFile .backUpLocal .installLocal .pamLocal src.sudoLocal
  check .selfTest

/-- Backups of an earlier run may still be there. -/
def start (before stale : Managed → Option Bytes) : Shell Managed Bytes := ⟨fun p => ⟨before p, stale p⟩, []⟩

/-- The files after the ERR trap, if the run fails. -/
def rolledBack (src : Sources) (fault : Fault Command Bytes) (before stale : Managed → Option Bytes) :
    Option (Managed → Option Bytes) :=
  match install src fault (start before stale) with
  | .error sh => some fun p => (sh.rollback p).file
  | .ok _ => none

/-! ## One stage, seen from its own file -/

/-- What the run had made of a bundle's file by the time it failed, if it had begun to. -/
def put (src : Sources) (fault : Fault Command Bytes) (b : Bundle) : Option (Option Bytes) :=
  match fault.command with
  | some (.installBundle failing) =>
    if b.place < failing.place then some (some (src.bundle b))
    else if b = failing then
      match fault.leaves with
      | .untouched => none
      | .written => some (some (src.bundle b))
      | .torn part => some part
    else none
  | _ => some (some (src.bundle b))

/-- What rolling back leaves of a bundle: one that was absent is removed again. -/
def leftBehind (src : Sources) (fault : Fault Command Bytes) (before : Managed → Option Bytes) (b : Bundle) : Option Bytes :=
  match put src fault b with
  | none => before (.bundle b)
  | some file => (before (.bundle b)).bind fun _ => file

variable {src : Sources} {fault : Fault Command Bytes} {before stale : Managed → Option Bytes}

theorem start_view (p : Managed) : (start before stale).view p = ⟨⟨before p, stale p⟩, []⟩ := rfl

theorem put_earlier {b q : Bundle} (hq : fault.command = some (.installBundle q)) (h : q.place < b.place) :
    put src fault b = none := by
  have hne : b ≠ q := by
    rintro rfl
    exact Nat.lt_irrefl _ h
  simp only [put, hq, Nat.not_lt.mpr (Nat.le_of_lt h), hne, if_false]

theorem put_later {b q : Bundle} (hq : fault.command = some (.installBundle q)) (h : b.place < q.place) :
    put src fault b = some (some (src.bundle b)) := by
  simp only [put, hq, h, if_true]

theorem put_past {b : Bundle} (h : ∀ q, fault.command ≠ some (.installBundle q)) :
    put src fault b = some (some (src.bundle b)) := by
  unfold put
  split
  · next failing hk => exact absurd hk (h failing)
  · rfl

/-- Its own command failing leaves of a bundle's file what `put` says. -/
theorem leftBehind_own {b : Bundle} (hb : fault.command = some (.installBundle b)) : leftBehind src fault before b =
    (before (.bundle b)).bind fun c => fault.leaves.change (fun _ => some (src.bundle b)) (some c) := by
  cases hl : fault.leaves <;> cases hbefore : before (.bundle b) <;>
    simp [leftBehind, put, hb, hl, hbefore, Leaving.change]

theorem installBundle_at (b : Bundle) : MeetsAt fault (.bundle b) (· = (start before stale).view (.bundle b))
    (installBundle src b) (fun _ v => fault.command ≠ some (.installBundle b) ∧
      v.undone = (before (.bundle b)).bind fun _ => some (src.bundle b))
    (fun v => fault.command = some (.installBundle b) ∧ v.undone = leftBehind src fault before b) := by
  -- the recipes remove a bundle that was not there, and do nothing to one that was
  have hput : MeetsAt fault (.bundle b)
      (fun v => ∀ g : Option Bytes → Option Bytes, (v.edit (Slot.change g)).undone =
        (before (.bundle b)).bind fun c => g (some c))
      (write (.installBundle b) (.bundle b) (fun _ => some (src.bundle b)) : InstallScript Unit)
      (fun _ v => fault.command ≠ some (.installBundle b) ∧
        v.undone = (before (.bundle b)).bind fun _ => some (src.bundle b))
      (fun v => fault.command = some (.installBundle b) ∧ v.undone = leftBehind src fault before b) := by
    apply meetsAt_write
    · intro hk v hv
      exact ⟨hk, hv _⟩
    · intro hk v hv
      exact ⟨hk, (hv _).trans (leftBehind_own hk).symm⟩
  apply meetsAt_isFile
  · refine hput.imp (fun v hv g => ?_) (fun _ _ h => h) fun _ h => h
    obtain ⟨rfl, hfile⟩ := hv
    obtain ⟨c, hc⟩ := Option.isSome_iff_exists.mp hfile
    have hbefore : before (.bundle b) = some c := hc
    rw [hbefore]
    show g (before (.bundle b)) = g (some c)
    rw [hbefore]
  · refine MeetsAt.bind (meetsAt_addRollback fun v hv g => ?_) fun _ => hput
    obtain ⟨rfl, hfile⟩ := hv
    have hbefore : before (.bundle b) = none := hfile
    rw [((safe_of_remove List.not_mem_nil hfile).change g).undone, hbefore]
    exact hfile

theorem replaceFile_at {keep place : Command} {p : Managed} {sample : Bytes} : MeetsAt fault p
    (· = (start before stale).view p) (replaceFile keep place p sample) (fun _ => View.Safe (before p))
    (·.undone = before p) := by
  have hplace : MeetsAt fault p (View.Safe (before p)) (write place p (fun _ => some sample) : InstallScript Unit)
      (fun _ => View.Safe (before p)) (·.undone = before p) := meetsAt_write_safe _ _
  apply meetsAt_isFile
  · refine MeetsAt.bind (meetsAt_backUp fun v hv => ?_) fun _ => hplace
    obtain ⟨rfl, hfile⟩ := hv
    exact ⟨List.not_mem_nil, hfile, rfl⟩
  · refine MeetsAt.bind (meetsAt_addRollback fun v hv => ?_) fun _ => hplace
    obtain ⟨rfl, hfile⟩ := hv
    exact safe_of_remove List.not_mem_nil hfile

/-- The file is there, and nothing recorded for it yet but a removal. -/
def Ready (goal : Option Bytes) (v : View Bytes) : Prop :=
  .restore ∉ v.recipes ∧ v.slot.file.isSome = true ∧ v.undone = goal

theorem createConf_at : MeetsAt fault .sudoConf (· = (start before stale).view .sudoConf) createConf
    (fun _ => Ready (before .sudoConf)) (·.undone = before .sudoConf) := by
  apply meetsAt_isFile
  · apply meetsAt_pure
    intro v ⟨hv, hfile⟩
    subst hv
    exact ⟨List.not_mem_nil, hfile, rfl⟩
  · have hcreate : MeetsAt fault .sudoConf (fun v => .restore ∉ v.recipes ∧ v.Safe (before .sudoConf))
        (write .createConf .sudoConf (fun _ => some []) : InstallScript Unit)
        (fun _ => Ready (before .sudoConf)) (·.undone = before .sudoConf) := by
      apply meetsAt_write
      · intro _ v hv
        exact ⟨hv.1, rfl, (hv.2.change fun _ => some []).undone⟩
      · intro _ v hv
        exact (hv.2.change _).undone
    have hchmod : MeetsAt fault .sudoConf (Ready (before .sudoConf)) (check .chmodConf : InstallScript Unit)
        (fun _ => Ready (before .sudoConf)) (·.undone = before .sudoConf) :=
      (leaves_check _).meetsAt.imp (fun _ h => h) (fun _ _ h => h) fun _ h => h.2.2
    refine MeetsAt.bind (meetsAt_addRollback fun v hv => ?_) fun _ => hcreate.bind fun _ => hchmod
    obtain ⟨rfl, hfile⟩ := hv
    exact ⟨by simp [View.record, start_view], safe_of_remove List.not_mem_nil hfile⟩

theorem appendLine_safe {goal : Option Bytes} (p : Plugin) : MeetsAt fault .sudoConf (View.Safe goal) (appendLine p)
    (fun _ => View.Safe goal) (·.undone = goal) := by
  apply meetsAt_test
  intro there
  split
  · exact (meetsAt_write_safe _ _).imp (fun v hv => hv.1) (fun _ _ h => h) fun _ h => h
  · exact meetsAt_pure fun v hv => hv.1

theorem registerPlugins_at {goal : Option Bytes} : MeetsAt fault .sudoConf (Ready goal) registerPlugins
    (fun _ v => v.undone = goal) (·.undone = goal) := by
  apply meetsAt_test
  intro audit
  apply meetsAt_test
  intro approval
  split
  · have hkeep : MeetsAt fault .sudoConf (fun v => (Ready goal v ∧ v.slot.file.any (mentions .audit) = audit) ∧
        v.slot.file.any (mentions .approval) = approval) (backUp .backUpConf .sudoConf : InstallScript Unit)
        (fun _ => View.Safe goal) (·.undone = goal) := meetsAt_backUp fun v hv => hv.1.1
    have hlines : MeetsAt fault .sudoConf (View.Safe goal) (appendLine .audit >>= fun _ => appendLine .approval)
        (fun _ => View.Safe goal) (·.undone = goal) := (appendLine_safe .audit).bind fun _ => appendLine_safe .approval
    exact (hkeep.bind fun _ => hlines).imp (fun _ h => h) (fun _ _ h => h.undone) fun _ h => h
  · exact meetsAt_pure fun v hv => hv.1.1.2.2

/-! ## The other stages -/

section
variable {p : Managed}

/-- From another path, all there is to see of a bundle is whether its command is the one that
    fails. -/
theorem installBundle_ne {b : Bundle} (h : .bundle b ≠ p) {pre : View Bytes → Prop} : MeetsAt fault p pre
    (installBundle src b) (fun _ v => fault.command ≠ some (.installBundle b) ∧ pre v)
    (fun v => fault.command = some (.installBundle b) ∧ pre v) := by
  refine (meetsAt_test_any _ _).bind fun there => ?_
  dsimp only
  split
  · exact (meetsAt_addRollback_ne h _).bind fun _ => meetsAt_command_ne h _
  · exact meetsAt_command_ne h _

theorem createConf_leaves (h : .sudoConf ≠ p) : Leaves p createConf := by
  refine leaves_bind (leaves_test _ _) fun there => ?_
  split
  · exact leaves_bind (leaves_addRollback h _) fun _ => leaves_bind (leaves_write h _ _) fun _ => leaves_check _
  · exact leaves_pure ()

theorem appendLine_leaves (h : .sudoConf ≠ p) (line : Plugin) : Leaves p (appendLine line) := by
  refine leaves_bind (leaves_test _ _) fun there => ?_
  split
  · exact leaves_write h _ _
  · exact leaves_pure ()

theorem registerPlugins_leaves (h : .sudoConf ≠ p) : Leaves p registerPlugins := by
  refine leaves_bind (leaves_test _ _) fun audit => leaves_bind (leaves_test _ _) fun approval => ?_
  split
  · exact leaves_bind (leaves_backUp h _) fun _ => leaves_bind (appendLine_leaves h _) fun _ => appendLine_leaves h _
  · exact leaves_pure ()

theorem editSudoConf_leaves (h : .sudoConf ≠ p) : Leaves p editSudoConf :=
  leaves_bind (createConf_leaves h) fun _ => registerPlugins_leaves h

theorem replaceFile_leaves {q : Managed} {keep place : Command} {sample : Bytes} (h : q ≠ p) :
    Leaves p (replaceFile keep place q sample) := by
  refine leaves_bind (leaves_test _ _) fun there => ?_
  dsimp only
  split
  · exact leaves_bind (leaves_backUp h _) fun _ => leaves_write h _ _
  · exact leaves_bind (leaves_addRollback h _) fun _ => leaves_write h _ _

end

/-! ## The whole run -/

theorem place_inj {b q : Bundle} (h : b.place = q.place) : b = q := by
  cases b <;> cases q <;> first | rfl | cases h

/-- Once the first `n` bundles are installed. -/
def Installed (src : Sources) (fault : Fault Command Bytes) (before stale : Managed → Option Bytes) (b : Bundle) (n : Nat)
    (v : View Bytes) : Prop :=
  (∀ q : Bundle, q.place < n → fault.command ≠ some (.installBundle q)) ∧
    if b.place < n then v.undone = (before (.bundle b)).bind fun _ => some (src.bundle b)
    else v = (start before stale).view (.bundle b)

theorem installBundle_step (b q : Bundle) : MeetsAt fault (.bundle b) (Installed src fault before stale b q.place)
    (installBundle src q) (fun _ => Installed src fault before stale b (q.place + 1))
    (·.undone = leftBehind src fault before b) := by
  apply meetsAt_of_fact
  intro hearlier
  have hnext (hq : fault.command ≠ some (.installBundle q)) (r : Bundle) (hr : r.place < q.place + 1) :
      fault.command ≠ some (.installBundle r) := by
    by_cases hrq : r = q
    · exact hrq ▸ hq
    · have hne : r.place ≠ q.place := fun h => hrq (place_inj h)
      exact hearlier r (by omega)
  by_cases hbq : b = q
  · subst hbq
    refine (@installBundle_at src fault before stale b).imp (fun v hv => ?_) (fun _ v hv => ?_) fun _ hv => hv.2
    · simpa using hv
    · exact ⟨hnext hv.1, by simpa using hv.2⟩
  · have hne : b.place ≠ q.place := fun h => hbq (place_inj h)
    have hpath : Managed.bundle q ≠ .bundle b := fun h => hbq (Managed.bundle.inj h).symm
    refine (installBundle_ne hpath).imp (fun _ hv => hv) (fun _ v hv => ?_) fun v hv => ?_
    · have hsame : b.place < q.place + 1 ↔ b.place < q.place := by omega
      exact ⟨hnext hv.1, by simpa only [hsame] using hv.2⟩
    · obtain ⟨hq, hv⟩ := hv
      split at hv
      · next hlt =>
        rw [hv, leftBehind, put_later hq hlt]
      · have hlt : q.place < b.place := by omega
        rw [hv, leftBehind, put_earlier hq hlt]
        rfl

theorem installBundles_at (b : Bundle) : MeetsAt fault (.bundle b) (· = (start before stale).view (.bundle b))
    (installBundles src) (fun _ => Installed src fault before stale b 3)
    (·.undone = leftBehind src fault before b) := by
  have hrun := (installBundle_step b .approval).bind fun _ => (installBundle_step b .audit).bind fun _ =>
    @installBundle_step src fault before stale b .pam
  refine hrun.imp (fun v hv => ?_) (fun _ _ h => h) fun _ h => h
  exact ⟨fun q hq => absurd hq (Nat.not_lt_zero _), hv⟩

theorem undone_of_installed {b : Bundle} {v : View Bytes} (h : Installed src fault before stale b 3 v) :
    v.undone = leftBehind src fault before b := by
  have hplace (q : Bundle) : q.place < 3 := by cases q <;> decide
  obtain ⟨hpast, hv⟩ := h
  rw [if_pos (hplace b)] at hv
  rw [hv, leftBehind, put_past fun q => hpast q (hplace q)]

theorem installBundles_leaves {p : Managed} (h : ∀ b, .bundle b ≠ p) : Leaves p (installBundles src) := by
  have hone (b : Bundle) : Leaves p (installBundle src b) :=
    fun _ _ => (installBundle_ne (h b)).imp (fun _ h => h) (fun _ _ h => h.2) fun _ h => h.2
  exact leaves_bind (hone _) fun _ => leaves_bind (hone _) fun _ => hone _

/-- What rolling back makes of a path. -/
def restored (src : Sources) (fault : Fault Command Bytes) (before : Managed → Option Bytes) : Managed → Option Bytes
  | .bundle b => leftBehind src fault before b
  | p => before p

/-- The part of the script that is about a file. -/
def ownStage (src : Sources) : Managed → InstallScript Unit
  | .bundle _ => installBundles src
  | .sudoConf => editSudoConf
  | .sudoersD => replaceFile .backUpSudoers .installSudoers .sudoersD src.sudoers
  | .pamLocal => replaceFile .backUpLocal .installLocal .pamLocal src.sudoLocal

/-- A file is followed through its own stage; the other stages leave it. -/
theorem install_of_ownStage {p : Managed} {pre after failed : View Bytes → Prop}
    (hown : MeetsAt fault p pre (ownStage src p) (fun _ => after) failed)
    (hpre : (∀ b, p ≠ .bundle b) → ∀ v, pre v → failed v)
    (hafter : ∀ v, after v → failed v) : MeetsAt fault p pre (install src) (fun _ => after) failed := by
  have hbundles (h : ∀ b, .bundle b ≠ p) : Leaves p (installBundles src) := installBundles_leaves h
  have hconf (h : .sudoConf ≠ p) : Leaves p editSudoConf := editSudoConf_leaves h
  have hsudoers (h : .sudoersD ≠ p) : Leaves p (replaceFile .backUpSudoers .installSudoers .sudoersD src.sudoers) :=
    replaceFile_leaves h
  have hlocal (h : .pamLocal ≠ p) : Leaves p (replaceFile .backUpLocal .installLocal .pamLocal src.sudoLocal) :=
    replaceFile_leaves h
  have hcheck (k : Command) : Leaves p (check k : InstallScript Unit) := leaves_check k
  cases p with
  | bundle b =>
    refine hown.bind_leaves (fun _ => leaves_bind (hconf nofun) fun _ => leaves_bind (hsudoers nofun) fun _ => ?_) hafter
    exact leaves_bind (hcheck _) fun _ => leaves_bind (hlocal nofun) fun _ => hcheck _
  | sudoConf =>
    refine (hbundles nofun).bind_meetsAt (hpre nofun) fun _ => hown.bind_leaves (fun _ => ?_) hafter
    exact leaves_bind (hsudoers nofun) fun _ => leaves_bind (hcheck _) fun _ => leaves_bind (hlocal nofun) fun _ => hcheck _
  | sudoersD =>
    refine (hbundles nofun).bind_meetsAt (hpre nofun) fun _ => (hconf nofun).bind_meetsAt (hpre nofun) fun _ => ?_
    refine hown.bind_leaves (fun _ => ?_) hafter
    exact leaves_bind (hcheck _) fun _ => leaves_bind (hlocal nofun) fun _ => hcheck _
  | pamLocal =>
    refine (hbundles nofun).bind_meetsAt (hpre nofun) fun _ => (hconf nofun).bind_meetsAt (hpre nofun) fun _ => ?_
    refine (hsudoers nofun).bind_meetsAt (hpre nofun) fun _ => (hcheck _).bind_meetsAt (hpre nofun) fun _ => ?_
    exact hown.bind_leaves (fun _ => hcheck _) hafter

/-! ## What a run leaves -/

theorem ownStage_at (p : Managed) : MeetsAt fault p (· = (start before stale).view p) (ownStage src p)
    (fun _ v => v.undone = restored src fault before p) (·.undone = restored src fault before p) := by
  cases p with
  | bundle b => exact (installBundles_at b).imp (fun _ h => h) (fun _ _ h => undone_of_installed h) fun _ h => h
  | sudoConf => exact createConf_at.bind fun _ => registerPlugins_at
  | sudoersD => exact replaceFile_at.imp (fun _ h => h) (fun _ _ h => h.undone) fun _ h => h
  | pamLocal => exact replaceFile_at.imp (fun _ h => h) (fun _ _ h => h.undone) fun _ h => h

theorem install_at (p : Managed) : MeetsAt fault p (· = (start before stale).view p) (install src)
    (fun _ v => v.undone = restored src fault before p) (·.undone = restored src fault before p) := by
  refine install_of_ownStage (ownStage_at p) (fun hp v hv => ?_) fun _ h => h
  subst hv
  cases p with
  | bundle b => exact absurd rfl (hp b)
  | _ => rfl

theorem rollback_at {sh : Shell Managed Bytes} (h : install src fault (start before stale) = .error sh) (p : Managed) :
    (sh.rollback p).file = restored src fault before p := by
  have hrun := @install_at src fault before stale p (start before stale) rfl
  rw [h] at hrun
  rw [rollback_file]
  exact hrun

theorem rolledBack_eq {after : Managed → Option Bytes} (h : rolledBack src fault before stale = some after) :
    after = restored src fault before := by
  unfold rolledBack at h
  cases hend : install src fault (start before stale) with
  | ok r => rw [hend] at h; cases h
  | error sh =>
    rw [hend] at h
    obtain rfl := Option.some.inj h
    exact funext (rollback_at hend)

/-- A failed run is rolled back to where it began exactly when every bundle it had put in place
    by then was absent or held the same. -/
theorem rolls_back_iff {after : Managed → Option Bytes} (h : rolledBack src fault before stale = some after) :
    (∀ p, after p = before p) ↔
      ∀ b file, put src fault b = some file → before (.bundle b) = none ∨ before (.bundle b) = file := by
  obtain rfl := rolledBack_eq h
  have hleft (b : Bundle) : leftBehind src fault before b = before (.bundle b) ↔
      ∀ file, put src fault b = some file → before (.bundle b) = none ∨ before (.bundle b) = file := by
    unfold leftBehind
    cases put src fault b with
    | none => simp
    | some file => cases before (.bundle b) <;> simp [eq_comm]
  constructor
  · exact fun hback b => (hleft b).mp (hback (.bundle b))
  · intro hcond p
    cases p with
    | bundle b => exact (hleft b).mpr (hcond b)
    | _ => rfl

def rebuilt : Sources := ⟨fun _ => lit "new", lit "sudoers", lit "sudo_local"⟩

/-- A first install, none of the files there, failing at its self-test. -/
theorem rolls_back_iff_first : ∃ after,
    rolledBack rebuilt ⟨some .selfTest, .untouched⟩ (fun _ => none) (fun _ => none) = some after ∧ ∀ p, after p = none := by
  have hfails : (rolledBack rebuilt ⟨some .selfTest, .untouched⟩ (fun _ => none) (fun _ => none)).isSome = true := by decide
  obtain ⟨after, h⟩ := Option.isSome_iff_exists.mp hfails
  exact ⟨after, h, (rolls_back_iff h).mpr fun _ _ _ => .inl rfl⟩

/-- A reinstall that fails at the second bundle leaves the first one new. -/
theorem a_new_bundle_stays : ¬ ∀ after,
    rolledBack rebuilt ⟨some (.installBundle .audit), .untouched⟩ (fun _ => some (lit "old")) (fun _ => none) = some after →
      ∀ p, after p = none ∨ after p = some (lit "old") := by
  intro h
  have hleft : (rolledBack rebuilt ⟨some (.installBundle .audit), .untouched⟩ (fun _ => some (lit "old")) (fun _ => none)).map
      (· (.bundle .approval)) = some (some (lit "new")) := by decide
  obtain ⟨after, hafter, hnew⟩ := Option.map_eq_some_iff.mp hleft
  have hback := h after hafter (.bundle .approval)
  rw [hnew] at hback
  revert hback
  decide

/-! ## What a run that does not fail leaves -/

/-- What is installed at a path. -/
def installed (src : Sources) (before : Managed → Option Bytes) : Managed → Bytes
  | .bundle b => src.bundle b
  | .sudoConf => sudoConfStep (before .sudoConf)
  | .sudoersD => src.sudoers
  | .pamLocal => src.sudoLocal

/-- The file holds these bytes. -/
def Holds (c : Bytes) (v : View Bytes) : Prop := v.slot.file = some c

theorem put_holds {k : Command} {p : Managed} {c : Bytes} : MeetsAt fault p (fun _ => True)
    (write k p (fun _ => some c) : InstallScript Unit) (fun _ => Holds c) (fun _ => True) :=
  meetsAt_write (fun _ _ _ => rfl) fun _ _ _ => trivial

theorem replaceFile_installs {keep place : Command} {p : Managed} {pre : View Bytes → Prop} {sample : Bytes} :
    MeetsAt fault p pre (replaceFile keep place p sample) (fun _ => Holds sample) (fun _ => True) := by
  refine meetsAt_true.bind fun there => ?_
  dsimp only
  split
  · exact meetsAt_true.bind fun _ => put_holds
  · exact meetsAt_true.bind fun _ => put_holds

theorem installBundle_installs (b : Bundle) {pre : View Bytes → Prop} :
    MeetsAt fault (.bundle b) pre (installBundle src b) (fun _ => Holds (src.bundle b)) (fun _ => True) := by
  refine meetsAt_true.bind fun there => ?_
  dsimp only
  split
  · exact meetsAt_true.bind fun _ => put_holds
  · exact put_holds.imp (fun _ _ => trivial) (fun _ _ h => h) fun _ h => h

/-- A bundle stays as it was installed while the next ones are. -/
theorem installBundles_installs (b : Bundle) {pre : View Bytes → Prop} :
    MeetsAt fault (.bundle b) pre (installBundles src) (fun _ => Holds (src.bundle b)) (fun _ => True) := by
  have hstep (q : Bundle) : MeetsAt fault (.bundle b) (fun v => b.place < q.place → Holds (src.bundle b) v)
      (installBundle src q) (fun _ v => b.place < q.place + 1 → Holds (src.bundle b) v) (fun _ => True) := by
    by_cases hbq : b = q
    · subst hbq
      exact (installBundle_installs b).imp (fun _ h => h) (fun _ _ h _ => h) fun _ h => h
    · have hne : b.place ≠ q.place := fun h => hbq (place_inj h)
      have hpath : Managed.bundle q ≠ .bundle b := fun h => hbq (Managed.bundle.inj h).symm
      refine (installBundle_ne hpath).imp (fun _ h => h) (fun _ v hv hlt => ?_) fun _ _ => trivial
      exact hv.2 (by omega)
  have hrun := (hstep .approval).bind fun _ => (hstep .audit).bind fun _ => hstep .pam
  refine hrun.imp (fun v _ hlt => absurd hlt (Nat.not_lt_zero _)) (fun _ v hv => hv ?_) fun _ h => h
  cases b <;> decide

theorem createConf_installs : MeetsAt fault .sudoConf (· = (start before stale).view .sudoConf) createConf
    (fun _ => Holds ((before .sudoConf).getD [])) (fun _ => True) := by
  apply meetsAt_isFile
  · apply meetsAt_pure
    intro v ⟨hv, hfile⟩
    subst hv
    obtain ⟨c, hc⟩ := Option.isSome_iff_exists.mp hfile
    show before .sudoConf = some ((before .sudoConf).getD [])
    rw [show before .sudoConf = some c from hc]
    rfl
  · have hcreate : MeetsAt fault .sudoConf (fun _ => before .sudoConf = none)
        (write .createConf .sudoConf (fun _ => some []) : InstallScript Unit)
        (fun _ => Holds ((before .sudoConf).getD [])) (fun _ => True) :=
      meetsAt_write (fun _ _ hv => by rw [hv]; rfl) fun _ _ _ => trivial
    have hboth := hcreate.bind_leaves (fun _ => leaves_check .chmodConf) fun _ _ => trivial
    refine MeetsAt.bind (meetsAt_addRollback fun v hv => ?_) fun _ => hboth
    obtain ⟨rfl, hfile⟩ := hv
    exact hfile

theorem meetsAt_mentioned {p : Plugin} {conf : Bytes} {f : Bool → InstallScript Unit} {post : Unit → View Bytes → Prop}
    {failed : View Bytes → Prop} (h : MeetsAt fault .sudoConf (Holds conf) (f (mentions p conf)) post failed) :
    MeetsAt fault .sudoConf (Holds conf) (mentioned p >>= f) post failed := by
  apply meetsAt_test
  intro there sh ⟨hconf, hthere⟩
  have hp : there = mentions p conf := by
    rw [← hthere, hconf]
    rfl
  rw [hp]
  exact h sh hconf

theorem appendLine_installs (p : Plugin) {conf : Bytes} : MeetsAt fault .sudoConf (Holds conf) (appendLine p)
    (fun _ => Holds (if mentions p conf then conf else appendConf p conf)) (fun _ => True) := by
  apply meetsAt_mentioned
  cases mentions p conf with
  | true => exact meetsAt_pure fun _ hv => hv
  | false =>
    refine meetsAt_write (fun _ v hv => ?_) fun _ _ _ => trivial
    show some (appendConf p (v.slot.file.getD [])) = _
    rw [hv]
    rfl

theorem registerPlugins_installs {conf : Bytes} : MeetsAt fault .sudoConf (Holds conf) registerPlugins
    (fun _ => Holds (sudoConfStep (some conf))) (fun _ => True) := by
  apply meetsAt_mentioned
  apply meetsAt_mentioned
  rw [sudoConfStep, Option.getD_some]
  split
  · have hcopy : MeetsAt fault .sudoConf (Holds conf) (command .backUpConf .sudoConf Slot.backUp : InstallScript Unit)
        (fun _ => Holds conf) (fun _ => True) := meetsAt_command (fun _ _ hv => hv) fun _ _ _ => trivial
    have hkeep : MeetsAt fault .sudoConf (Holds conf) (backUp .backUpConf .sudoConf : InstallScript Unit)
        (fun _ => Holds conf) (fun _ => True) := hcopy.bind fun _ => meetsAt_addRollback fun _ hv => hv
    exact hkeep.bind fun _ => (appendLine_installs .audit).bind fun _ => appendLine_installs .approval
  · exact meetsAt_pure fun _ hv => hv

theorem editSudoConf_installs : MeetsAt fault .sudoConf (· = (start before stale).view .sudoConf) editSudoConf
    (fun _ => Holds (sudoConfStep (before .sudoConf))) (fun _ => True) :=
  -- an absent file and an empty one give the same
  createConf_installs.bind fun _ => registerPlugins_installs

theorem install_installs {sh : Shell Managed Bytes} (h : install src fault (start before stale) = .ok ((), sh))
    (p : Managed) : (sh.slots p).file = some (installed src before p) := by
  have hown : MeetsAt fault p (· = (start before stale).view p) (ownStage src p)
      (fun _ => Holds (installed src before p)) (fun _ => True) := by
    cases p with
    | bundle b => exact installBundles_installs b
    | sudoConf => exact editSudoConf_installs
    | sudoersD => exact replaceFile_installs
    | pamLocal => exact replaceFile_installs
  have hrun := install_of_ownStage hown (fun _ _ _ => trivial) (fun _ _ => trivial) (start before stale) rfl
  rw [h] at hrun
  exact hrun

theorem installBundle_succeeds (b : Bundle) : Succeeds (installBundle src b) := by
  refine succeeds_bind (succeeds_test _ _) fun there => ?_
  dsimp only
  split
  · exact succeeds_bind (succeeds_addRollback _ _) fun _ => succeeds_command _ _ _
  · exact succeeds_command _ _ _

theorem replaceFile_succeeds {keep place : Command} {p : Managed} {sample : Bytes} :
    Succeeds (replaceFile keep place p sample) := by
  have hkeep : Succeeds (backUp keep p : InstallScript Unit) :=
    succeeds_bind (succeeds_command _ _ _) fun _ => succeeds_addRollback _ _
  refine succeeds_bind (succeeds_test _ _) fun there => ?_
  dsimp only
  split
  · exact succeeds_bind hkeep fun _ => succeeds_command _ _ _
  · exact succeeds_bind (succeeds_addRollback _ _) fun _ => succeeds_command _ _ _

theorem createConf_succeeds : Succeeds createConf := by
  refine succeeds_bind (succeeds_test _ _) fun there => ?_
  split
  · exact succeeds_bind (succeeds_addRollback _ _) fun _ => succeeds_bind (succeeds_command _ _ _) fun _ => succeeds_check _
  · exact succeeds_pure ()

theorem registerPlugins_succeeds : Succeeds registerPlugins := by
  have hkeep : Succeeds (backUp .backUpConf .sudoConf : InstallScript Unit) :=
    succeeds_bind (succeeds_command _ _ _) fun _ => succeeds_addRollback _ _
  have hline (p : Plugin) : Succeeds (appendLine p) := by
    refine succeeds_bind (succeeds_test _ _) fun there => ?_
    split
    · exact succeeds_command _ _ _
    · exact succeeds_pure ()
  refine succeeds_bind (succeeds_test _ _) fun audit => succeeds_bind (succeeds_test _ _) fun approval => ?_
  split
  · exact succeeds_bind hkeep fun _ => succeeds_bind (hline _) fun _ => hline _
  · exact succeeds_pure ()

theorem install_succeeds (src : Sources) : Succeeds (install src) := by
  refine succeeds_bind (succeeds_bind (installBundle_succeeds _) fun _ => succeeds_bind (installBundle_succeeds _) fun _ =>
    installBundle_succeeds _) fun _ => ?_
  refine succeeds_bind (succeeds_bind createConf_succeeds fun _ => registerPlugins_succeeds) fun _ => ?_
  refine succeeds_bind replaceFile_succeeds fun _ => succeeds_bind (succeeds_check _) fun _ => ?_
  exact succeeds_bind replaceFile_succeeds fun _ => succeeds_check _

/-- What a first install leaves. -/
def firstInstall (p : Managed) : Option Bytes := some (installed rebuilt (fun _ => none) p)

end SudoWhat.Install
