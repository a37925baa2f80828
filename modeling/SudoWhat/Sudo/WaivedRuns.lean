/-
  SudoWhat.Sudo.WaivedRuns — runs under nopasswd-only against the credential cache.

  The option's rule: a non-console caller the plugin allows was waived by a sudoers rule
  for that very command; a cached credential never stands in for one. The marker is absent
  for both, and only console callers get a credential, so the rule rests on every live
  credential being used by a caller at the console.
  - `waived_runs`: the rule holds in every run where that is so (`UsedAtConsole`). It is so
    in every run where the console changes hands only while no other uid's credential is
    live, and live credentials are used from local GUI sessions only (`Settled`). A use
    away from the console breaks the rule at once.
  - `credential_outlives_console`: a switch of the console user within the timeout.
-/

import SudoWhat.Sudo.Cache

namespace SudoWhat.Sudo.Cache

open SudoWhat.Lib SudoWhat.Lib.Runs SudoWhat.Lib.Tickets SudoWhat.Lib.PamChain SudoWhat.Plugin SudoWhat.Pam SudoWhat.Nix

variable (timeout : Int)

/-- An allowed non-console caller was waived by rule. -/
def Record.ruled (r : Record) : Prop :=
  r.allowed → r.seat.isConsole r.inv.uid = false → r.inv.waived = true

/-- A credential that stands in for authentication is used at the console. -/
def UsedAtConsole (s : State) : Event → Prop
  | .wait _ => True
  | .switch _ => True
  | .invoke inv session =>
    inv.waived = false → s.cached timeout inv = true → (s.seat session).isConsole inv.uid = true

/-- The console changes hands only while no other uid's credential is live, and a live
    credential is used from local GUI sessions only. -/
def Settled (s : State) : Event → Prop
  | .wait _ => True
  | .switch console => ∀ t ∈ s.tickets, t.fresh timeout s.now = true → t.key.1 = console
  | .invoke inv session => inv.waived = false → s.cached timeout inv = true → session.isLocalGui = true

/-- Every live credential belongs to the console user. -/
def OwnersAtConsole (s : State) : Prop :=
  ∀ t ∈ s.tickets, t.fresh timeout s.now = true → t.key.1 = s.console ∧ s.console ≠ noUid

variable {b : Build} {timeout : Int} {s : State} {inv : Invocation} {session : SecuritySession}

theorem seat_isConsole_iff {seat : Seat} {uid : Uid} :
    seat.isConsole uid = true ↔ seat.session.isLocalGui = true ∧ seat.consoleUid = uid ∧ uid ≠ noUid ∧ uid ≠ 0 :=
  isInvokingUserActiveConsole_iff seat.session seat.consoleUid uid

/-- nopasswd-only lets a non-console caller through with the marker absent only: sudoers
    waived the command, or a credential was live. -/
theorem skipped_of_allowed (inst : Installed b .nopasswdOnly) (hc : (s.seat session).isConsole inv.uid = false)
    (h : (record b inst.text timeout s inv session).allowed) : inv.waived = true ∨ s.cached timeout inv = true := by
  cases hw : inv.waived with
  | true => exact .inl rfl
  | false =>
    cases hcached : s.cached timeout inv with
    | true => exact .inr rfl
    | false =>
      rw [record_entered inst hw hcached] at h
      have ha := check_nonConsole_allows hc h.2
      rw [swNonconsoleChainOf_authLines inst.reads] at ha
      cases ha

theorem invoke_ruled (inst : Installed b .nopasswdOnly) (hu : UsedAtConsole timeout s (.invoke inv session)) :
    (record b inst.text timeout s inv session).ruled := by
  intro hallow hc
  have haway : (s.seat session).isConsole inv.uid = false := hc
  rcases skipped_of_allowed inst haway hallow with hw | hcached
  · exact hw
  · by_contra hw
    have hat := hu (Bool.eq_false_iff.mpr hw) hcached
    rw [haway] at hat
    cases hat

/-- A stack that passes leaves a credential to the console user alone. -/
theorem invoke_owners (inst : Installed b .nopasswdOnly) (hi : OwnersAtConsole timeout s) :
    OwnersAtConsole timeout (step b inst.text timeout s (.invoke inv session)) := by
  intro t ht hfresh
  rcases step_tickets inst ht with ht | ⟨rfl, -, -, hs⟩
  · exact hi t ht hfresh
  · have hadmits := ((moduleStack_success_iff _ inst false).mp hs).2
    rw [isConsole_stackAt] at hadmits
    obtain ⟨-, huid, hno, -⟩ := seat_isConsole_iff.mp (show (s.seat session).isConsole inv.uid = true from hadmits)
    have hconsole : s.console = inv.uid := huid
    exact ⟨hconsole.symm, fun h => hno (hconsole.symm.trans h)⟩

theorem settled_owners (inst : Installed b .nopasswdOnly) (s : State) (e : Event) (hi : OwnersAtConsole timeout s)
    (h : Settled timeout s e) : OwnersAtConsole timeout (step b inst.text timeout s e) := by
  cases e with
  | wait time =>
    intro t ht hfresh
    exact hi t ht (fresh_earlier (Nat.le_add_right s.now time) hfresh)
  | switch console =>
    intro t ht hfresh
    obtain ⟨howner, hno⟩ := hi t ht hfresh
    have hnew : t.key.1 = console := h t ht hfresh
    have hsame : console = s.console := hnew.symm.trans howner
    exact ⟨hnew, fun h => hno (hsame.symm.trans h)⟩
  | invoke inv session => exact invoke_owners inst hi

/-- Where every live credential belongs to the console user, a local GUI session that uses
    one is at the console. -/
theorem settled_used (s : State) (e : Event) (hi : OwnersAtConsole timeout s) (h : Settled timeout s e) :
    UsedAtConsole timeout s e := by
  cases e with
  | wait time => trivial
  | switch console => trivial
  | invoke inv session =>
    intro hw hcached
    obtain ⟨t, ht, hkey, hfresh⟩ := live_iff.mp hcached
    obtain ⟨howner, hno⟩ := hi t ht hfresh
    have huid : s.console = inv.uid := howner.symm.trans (congrArg Prod.fst hkey)
    exact seat_isConsole_iff.mpr ⟨h hw hcached, huid, huid ▸ hno, inv.notRoot⟩

theorem not_ruled_of_shown (inst : Installed b .nopasswdOnly) (hbundles : inv.env.bundlesIntact)
    (h : ¬ UsedAtConsole timeout s (.invoke inv session))
    (hshown : inv.ShowsLine b inst.text (s.seat session) false) :
    ¬ (record b inst.text timeout s inv session).ruled := by
  simp only [UsedAtConsole, Classical.not_imp, Bool.not_eq_true] at h
  obtain ⟨hw, hcached, haway⟩ := h
  have hchain : swNonconsoleChainOf b.pamPath (inv.envAt inst.text (s.seat session)).sudoLocal = .nopasswdOnly :=
    swNonconsoleChainOf_authLines inst.reads
  have hbundles' : (inv.envAt inst.text (s.seat session)).bundlesIntact := hbundles
  have hasks : stepAsideAsks b (inv.envAt inst.text (s.seat session)) false = false := by
    refine stepAsideAsks_absent ?_
    rw [hchain]
    decide
  have hallow : (inv.check b inst.text (s.seat session) false).Returns .allow := by
    refine (check_nonConsole_allow_iff hasks hbundles' inv.captured inv.notRoot haway).mpr ⟨?_, hshown⟩
    rw [hchain]
    rfl
  intro hr
  rw [record_skipped (.inr hcached)] at hr
  have hwaived : inv.waived = true := hr ⟨rfl, hallow⟩ haway
  rw [hw] at hwaived
  cases hwaived

theorem away_not_ruled (inst : Installed b .nopasswdOnly) (hbundles : inv.env.bundlesIntact)
    (htty : Answers (inv.env.tty .execLine).write) (h : ¬ UsedAtConsole timeout s (.invoke inv session)) :
    ∃ enough, ∀ fuel ≥ enough, ¬ (record b inst.text timeout s (inv.withFuel fuel) session).ruled := by
  obtain ⟨enough, he⟩ := showsLine_enough b inst.text (s.seat session) false htty
  refine ⟨enough, fun fuel hf => ?_⟩
  have h' : ¬ UsedAtConsole timeout s (.invoke (inv.withFuel fuel) session) := h
  exact not_ruled_of_shown inst hbundles h' (he fuel hf)

/-- Under nopasswd-only every run whose credentials are used at the console keeps the rule,
    a settled run is one, and a use away from the console breaks the rule. -/
theorem waived_runs (b : Build) (inst : Installed b .nopasswdOnly) (timeout : Int) (console : Uid) :
    (∀ s, Reach (step b inst.text timeout) (UsedAtConsole timeout) (start console) s → ∀ r ∈ s.log, r.ruled) ∧
    (∀ s, Reach (step b inst.text timeout) (Settled timeout) (start console) s →
      Reach (step b inst.text timeout) (UsedAtConsole timeout) (start console) s) ∧
    ∀ s inv session, inv.env.bundlesIntact → Answers (inv.env.tty .execLine).write →
      ¬ UsedAtConsole timeout s (.invoke inv session) →
      ∃ enough, ∀ fuel ≥ enough, ¬ (record b inst.text timeout s (inv.withFuel fuel) session).ruled := by
  refine ⟨fun s h => ?_, fun s h => ?_, fun s inv session hb ht hu => away_not_ruled inst hb ht hu⟩
  · refine h.invariant (I := fun s => ∀ r ∈ s.log, r.ruled) (by simp [start]) ?_
    intro s e hi hu
    cases e with
    | wait time => exact hi
    | switch console => exact hi
    | invoke inv session =>
      intro r hr
      rcases List.mem_cons.mp hr with hr | hr
      · rw [hr]
        exact invoke_ruled inst hu
      · exact hi r hr
  · exact h.imp (by simp [OwnersAtConsole, start]) (settled_owners inst) settled_used

/-! ## A switch within the timeout -/

/-- The console goes to another user, and the first user's program, on the same terminal,
    runs the command again. -/
theorem credential_outlives_console :
    ¬ ∀ (b : Build) (inst : Installed b .nopasswdOnly) (timeout : Int) (console : Uid) (s : State),
      Reach (step b inst.text timeout) (fun _ _ => True) (start console) s → ∀ r ∈ s.log, r.ruled := by
  intro h
  have hreach : Reach (step Build.stock (stockText .nopasswdOnly).text 300) (fun _ _ => True) (start 501)
      (listOnce .nopasswdOnly false
        (step Build.stock (stockText .nopasswdOnly).text 300 (listOnce .nopasswdOnly false (start 501)) (.switch 502))) :=
    Reach.next (Event.invoke (listing false) guiSession) (Reach.next (Event.switch 502)
      (Reach.next (Event.invoke (listing false) guiSession) .start trivial) trivial) trivial
  have hruled := h Build.stock (stockText .nopasswdOnly) 300 501 _ hreach _ List.mem_cons_self
  have haway : Seat.isConsole ⟨guiSession, 502⟩ 501 = false := by decide
  rw [record_skipped (.inr ((cached_switch 502).trans (listOnce_cached .nopasswdOnly false)))] at hruled
  cases hruled ⟨rfl, plainCall_stepsAside (stockText .nopasswdOnly) 501 (by decide) false false false haway rfl⟩ haway

end SudoWhat.Sudo.Cache
