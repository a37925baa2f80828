/-
  SudoWhat.Install.Usable — sudo stays usable while `install/install.bash` runs.

  sudo may fail on a plugin its configuration loads that is not there, and so may the PAM stack
  on the module that sudo_local calls. The installer puts the three bundles in place before it
  writes the files that name them, and rolls back the other way round. But `install` takes a
  bundle that is there away before it writes the new one, and nothing is recorded that would
  bring it back.

  Proved (`install_keeps_usable`), from files in which all that is named is there and however
  sudo and PAM read them: all that is named is there at every instant of every run, cut short
  anywhere and rolled back as far as you like, but for a run cut short while a bundle is being
  replaced; there, and however far it is then rolled back, exactly if nothing names that bundle.
-/

import SudoWhat.Lib.Founded
import SudoWhat.Install.Registered
import SudoWhat.Install.Rollback

namespace SudoWhat.Install

open SudoWhat.Lib SudoWhat.Lib.Rollback

/-- What sudo loads from a sudo.conf, and whether a sudo_local calls the PAM module. -/
structure Readers where
  loads : Bytes → Plugin → Prop
  calls : Bytes → Prop

def Plugin.bundle : Plugin → Bundle
  | .approval => .approval
  | .audit => .audit

/-- The managed files a file names. -/
def Readers.names (r : Readers) : Managed → Bytes → Managed → Prop
  | .sudoConf, conf, p => ∃ plugin : Plugin, p = .bundle plugin.bundle ∧ r.loads conf plugin
  | .pamLocal, text, p => p = .bundle .pam ∧ r.calls text
  | _, _, _ => False

/-- Every plugin that is loaded and the module, if it is called, are there. -/
def Usable (r : Readers) (files : Managed → Option Bytes) : Prop := Founded r.names files

/-- (3) of the self-test. -/
def pamDst : Text := "/usr/local/lib/pam/pam_sudowhat.so".toList

/-- The checker's reading of sudo.conf, and the self-test's of sudo_local. -/
def ownReaders : Readers where
  loads := fun conf p => Registered p conf
  calls := fun text => grepF (Utf8.encode pamDst) text = true

def IsBundle (p : Managed) : Prop := ∃ b, p = .bundle b

theorem sudoConf_not_bundle : ¬ IsBundle .sudoConf := by rintro ⟨b, ⟨⟩⟩

theorem sudoersD_not_bundle : ¬ IsBundle .sudoersD := by rintro ⟨b, ⟨⟩⟩

theorem pamLocal_not_bundle : ¬ IsBundle .pamLocal := by rintro ⟨b, ⟨⟩⟩

theorem names_targets (r : Readers) : Targets IsBundle r.names := by
  intro q c p h
  cases q with
  | bundle b => exact h.elim
  | sudoersD => exact h.elim
  | sudoConf =>
    obtain ⟨plugin, rfl, -⟩ := h
    exact ⟨⟨_, rfl⟩, sudoConf_not_bundle⟩
  | pamLocal =>
    obtain ⟨rfl, -⟩ := h
    exact ⟨⟨_, rfl⟩, pamLocal_not_bundle⟩

variable {src : Sources} {fault : Fault Command Bytes} {before stale : Managed → Option Bytes}

/-! ## The two stages -/

theorem start_ahead : Ahead IsBundle before (start before stale) := ⟨nofun, fun _ _ => rfl, fun _ _ h => h⟩

/-- The bundles are put in place, or the command of one of them fails. -/
theorem installBundles_meets : Meets fault (Ahead IsBundle before) (installBundles src)
    (fun sh => (∀ b, fault.command ≠ some (.installBundle b)) ∧ Ahead IsBundle before sh)
    (fun sh => ∃ b, fault.command = some (.installBundle b) ∧
      FailedAhead IsBundle before (.bundle b) fault.leaves sh) := by
  have hplace (b : Bundle) : Meets fault (Ahead IsBundle before) (installBundle src b)
      (fun sh => fault.command ≠ some (.installBundle b) ∧ Ahead IsBundle before sh)
      (fun sh => ∃ b, fault.command = some (.installBundle b) ∧
        FailedAhead IsBundle before (.bundle b) fault.leaves sh) :=
    (meets_place (Command.installBundle b) (show IsBundle (.bundle b) from ⟨b, rfl⟩) (src.bundle b)).imp (fun _ h => h)
      (fun _ h => h) fun _ h => ⟨b, h⟩
  refine (hplace .approval).bind fun _ => meets_of_fact fun happroval => ?_
  refine (hplace .audit).bind fun _ => meets_of_fact fun haudit => ?_
  refine (hplace .pam).imp (fun _ h => h) (fun sh h => ⟨fun b => ?_, h.2⟩) fun _ h => h
  cases b with
  | approval => exact happroval
  | audit => exact haudit
  | pam => exact h.1

theorem installBundles_places {sh : Shell Managed Bytes} {u : Unit}
    (h : installBundles src fault (start before stale) = .ok (u, sh)) (b : Bundle) :
    (sh.slots (.bundle b)).file.isSome = true := by
  have hrun := @installBundles_installs src fault b (fun _ => True) (start before stale) trivial
  rw [h] at hrun
  rw [show (sh.slots (.bundle b)).file = some (src.bundle b) from hrun]
  rfl

section
variable {k : Command} {q : Managed} (hq : ¬ IsBundle q)
include hq

theorem behind_command (f : Leaving Bytes → Slot Bytes → Slot Bytes) :
    Keeps fault (Behind IsBundle before) (command k q f : InstallScript Unit) := keeps_command fun _ _ h => h.edit hq _

theorem behind_write (g : Option Bytes → Option Bytes) :
    Keeps fault (Behind IsBundle before) (write k q g : InstallScript Unit) := behind_command hq _

theorem behind_addRollback (r : Recipe) : Keeps fault (Behind IsBundle before) (addRollback q r : InstallScript Unit) :=
  meets_addRollback fun _ h => h.record hq r

theorem behind_backUp : Keeps fault (Behind IsBundle before) (backUp k q : InstallScript Unit) :=
  (behind_command hq _).bind fun _ => behind_addRollback hq _

theorem behind_replaceFile {place : Command} {sample : Bytes} :
    Keeps fault (Behind IsBundle before) (replaceFile k place q sample) := by
  refine Keeps.bind (keeps_test _ _) fun there => ?_
  dsimp only
  split
  · exact (behind_backUp hq).bind fun _ => behind_write hq _
  · exact (behind_addRollback hq _).bind fun _ => behind_write hq _

end

theorem behind_createConf : Keeps fault (Behind IsBundle before) createConf := by
  refine Keeps.bind (keeps_test _ _) fun there => ?_
  split
  · have hcreate : Keeps fault (Behind IsBundle before) (write .createConf .sudoConf (fun _ => some []) : InstallScript Unit) :=
      behind_write sudoConf_not_bundle _
    exact (behind_addRollback sudoConf_not_bundle _).bind fun _ => hcreate.bind fun _ => keeps_check _
  · exact keeps_pure ()

theorem behind_appendLine (p : Plugin) : Keeps fault (Behind IsBundle before) (appendLine p) := by
  refine Keeps.bind (keeps_test _ _) fun there => ?_
  split
  · exact behind_write sudoConf_not_bundle _
  · exact keeps_pure ()

theorem behind_registerPlugins : Keeps fault (Behind IsBundle before) registerPlugins := by
  refine Keeps.bind (keeps_test _ _) fun audit => Keeps.bind (keeps_test _ _) fun approval => ?_
  split
  · exact (behind_backUp sudoConf_not_bundle).bind fun _ => (behind_appendLine _).bind fun _ => behind_appendLine _
  · exact keeps_pure ()

/-! ## The whole run -/

/-- A run ends in the second stage. It fails there, or in the first at a bundle's command. -/
theorem install_stages : Meets fault (· = start before stale) (install src) (Behind IsBundle before)
    fun sh => ((∀ b, fault.command ≠ some (.installBundle b)) ∧ Behind IsBundle before sh) ∨
      ∃ b, fault.command = some (.installBundle b) ∧ FailedAhead IsBundle before (.bundle b) fault.leaves sh := by
  have hbundles : Meets fault (· = start before stale) (installBundles src)
      (fun sh => (∀ b, fault.command ≠ some (.installBundle b)) ∧ Behind IsBundle before sh)
      (fun sh => ∃ b, fault.command = some (.installBundle b) ∧
        FailedAhead IsBundle before (.bundle b) fault.leaves sh) := by
    rintro sh rfl
    obtain ⟨hok, herror⟩ := installBundles_meets _ start_ahead
    refine ⟨fun u sh' hrun => ⟨(hok u sh' hrun).1, (hok u sh' hrun).2.behind ?_⟩, herror⟩
    rintro p ⟨b, rfl⟩
    exact installBundles_places hrun b
  have hrest : Keeps fault (Behind IsBundle before) (do
      editSudoConf
      replaceFile .backUpSudoers .installSudoers .sudoersD src.sudoers
      check .visudo
      replaceFile .backUpLocal .installLocal .pamLocal src.sudoLocal
      check .selfTest : InstallScript Unit) := by
    refine (behind_createConf.bind fun _ => behind_registerPlugins).bind fun _ => ?_
    refine (behind_replaceFile sudoersD_not_bundle).bind fun _ => (keeps_check _).bind fun _ => ?_
    exact (behind_replaceFile pamLocal_not_bundle).bind fun _ => keeps_check _
  refine (hbundles.imp (fun _ h => h) (fun _ h => h) fun _ h => .inr h).bind fun _ => meets_of_fact fun hnone => ?_
  exact hrest.imp (fun _ h => h) (fun _ h => h) fun _ h => .inl ⟨hnone, h⟩

/-- The files that name bundles are rolled back to what they were. -/
theorem rollback_others {sh : Shell Managed Bytes} (h : install src fault (start before stale) = .error sh) {q : Managed}
    (hq : ¬ IsBundle q) : (sh.rollback q).file = before q := by
  rw [rollback_at h]
  cases q with
  | bundle b => exact absurd ⟨b, rfl⟩ hq
  | _ => rfl

/-- The run is cut short while `install` replaces a bundle. -/
def TearsBundle (fault : Fault Command Bytes) : Prop := ∃ b part, fault = ⟨some (.installBundle b), .torn part⟩

theorem usable_of_instant {r : Readers} (h : Usable r before) (htears : ¬ TearsBundle fault) {slots : Managed → Slot Bytes}
    (hi : Instant (install src) (start before stale) fault slots) : Usable r fun p => (slots p).file := by
  cases hi with
  | failed hrun left =>
    rcases (install_stages _ rfl).2 _ hrun with ⟨-, hbehind⟩ | ⟨b, hb, hfailed⟩
    · exact hbehind.founded (names_targets r) h (fun q hq => rollback_others hrun hq) left
    · cases hl : fault.leaves with
      | torn part => exact absurd ⟨b, part, by rw [← hb, ← hl]⟩ htears
      | untouched =>
        rw [hl] at hfailed
        exact Ahead.founded hfailed (names_targets r) h left
      | written =>
        rw [hl] at hfailed
        exact Ahead.founded hfailed (names_targets r) h left
  | ended hrun =>
    intro q c p _ hnames
    exact ((install_stages _ rfl).1 _ _ hrun).targets p (names_targets r q c p hnames).1

theorem usable_torn_iff {r : Readers} (h : Usable r before) {b : Bundle} {sh : Shell Managed Bytes}
    (hrun : install src ⟨some (.installBundle b), .torn none⟩ (start before stale) = .error sh) (left : Nat) :
    (Usable r fun p => (sh.rollingBack left p).file) ↔ ∀ q c, before q = some c → ¬ r.names q c (.bundle b) := by
  rcases (install_stages _ rfl).2 _ hrun with ⟨hnone, -⟩ | ⟨failing, hfailing, hfailed⟩
  · exact absurd rfl (hnone b)
  · obtain rfl := Command.installBundle.inj (Option.some.inj hfailing)
    obtain ⟨ahead, hahead, rfl⟩ := hfailed
    exact hahead.founded_torn_iff (names_targets r) h ⟨_, rfl⟩ left

end SudoWhat.Install
