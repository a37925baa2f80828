/-
  SudoWhat.Sudo.ConsoleRuns — runs of console callers against the credential cache.

  The design's rule: a command that runs for the console user without a sheet rests on an
  earlier approved sheet on the same uid and terminal, within the timeout. PAM passes a
  console caller without a factor, and the credential is recorded before the sheet, so a
  cancelled sheet leaves one behind (`cancelled_sheet_leaves_a_credential`). The rule holds
  in every run where, under a timeout other than 0, each invocation that runs the stack
  gets its sheet approved (`console_runs_grounded`): then every credential stands for an
  approved sheet (`CacheInv`).
-/

import SudoWhat.Sudo.Cache

namespace SudoWhat.Sudo.Cache

open SudoWhat.Lib SudoWhat.Lib.Runs SudoWhat.Lib.Tickets SudoWhat.Lib.PamChain SudoWhat.Plugin SudoWhat.Pam SudoWhat.Nix

variable (b : Build) (text : Text) (timeout : Int)

/-- The run keeps its console user, and only that user's session calls sudo. -/
def AtConsole (s : State) : Event → Prop
  | .wait _ => True
  | .switch _ => False
  | .invoke inv session => (s.seat session).isConsole inv.uid = true

/-- An invocation that runs the stack past the integrity role has its sheet approved,
    unless nothing is cached. -/
def SheetFollows (s : State) : Event → Prop
  | .wait _ => True
  | .switch _ => True
  | .invoke inv session => timeout = 0 ∨ inv.waived = true ∨ s.cached timeout inv = true ∨
      ¬ (inv.stack.auth 0).intact b ∨
      SheetGranted b inv.ctx (inv.envAt text (s.seat session)) inv.commandInfo inv.runArgv

/-- Allowed by a waiver, by its own sheet, or within the timeout of an approved sheet on
    the same uid and terminal. -/
def Record.grounded (older : List Record) (r : Record) : Prop :=
  r.allowed → r.inv.waived = true ∨ r.approved ∨
    ∃ r' ∈ older, r'.approved ∧ key r'.inv = key r.inv ∧ Ticket.fresh timeout r.time ⟨key r'.inv, r'.time⟩ = true

/-- Every invocation of the log, over the ones before it. -/
def Grounded : List Record → Prop
  | [] => True
  | r :: older => r.grounded timeout older ∧ Grounded older

/-- Every credential stands for an approved sheet, unless none is ever live. -/
structure CacheInv (s : State) : Prop where
  stands : ∀ t ∈ s.tickets, timeout = 0 ∨ ∃ r ∈ s.log, r.approved ∧ key r.inv = t.key ∧ r.time = t.issued
  grounded : Grounded timeout s.log

variable {b : Build} {v : NonConsole} {text : Text} {timeout : Int} {s : State} {inv : Invocation}
  {session : SecuritySession}

theorem record_approved (inst : Installed b v) (hc : (s.seat session).isConsole inv.uid = true)
    (hw : inv.waived = false) (hcached : s.cached timeout inv = false)
    (hs : (runStack b (inv.stackAt (s.seat session)) inst.text false).success = true)
    (hg : SheetGranted b inv.ctx (inv.envAt inst.text (s.seat session)) inv.commandInfo inv.runArgv) :
    (record b inst.text timeout s inv session).approved := by
  rw [record_entered inst hw hcached]
  have hasks : deferSkips b (inv.envAt inst.text (s.seat session)) true = false :=
    Bool.eq_false_iff.mpr fun h => absurd (deferSkips_iff.mp h).2.1 (by decide)
  exact ⟨hs, approved_of_granted inv.captured inv.notRoot hc hasks hg⟩

/-- What one invocation keeps: its own record is grounded, and a credential it leaves
    stands for its sheet. -/
theorem invoke_keeps (inst : Installed b v) (hi : CacheInv timeout s) (hc : AtConsole s (.invoke inv session))
    (hf : SheetFollows b inst.text timeout s (.invoke inv session)) :
    CacheInv timeout (step b inst.text timeout s (.invoke inv session)) := by
  constructor
  · intro t ht
    rcases step_tickets inst ht with ht | ⟨rfl, hw, hcached, hs⟩
    · rcases hi.stands t ht with h0 | ⟨r, hr, h⟩
      · exact .inl h0
      · exact .inr ⟨r, List.mem_cons_of_mem _ hr, h⟩
    · have hint : (inv.stack.auth 0).intact b := ((moduleStack_success_iff _ inst false).mp hs).1
      rcases hf with h0 | hw' | hc' | hn | hg
      · exact .inl h0
      · rw [hw] at hw'; cases hw'
      · rw [hcached] at hc'; cases hc'
      · exact absurd hint hn
      · exact .inr ⟨_, List.mem_cons_self, record_approved inst hc hw hcached hs hg, rfl, rfl⟩
  · refine ⟨fun hallow => ?_, hi.grounded⟩
    cases hw : inv.waived with
    | true => exact .inl hw
    | false =>
      right
      cases hcached : s.cached timeout inv with
      | false => exact .inl (record_console_entered inst hc hw hcached hallow)
      | true =>
        obtain ⟨t, ht, hkey, hfresh⟩ := live_iff.mp hcached
        rcases hi.stands t ht with h0 | ⟨r, hr, happ, hrk, hrt⟩
        · rw [h0, fresh_zero] at hfresh
          cases hfresh
        · refine .inr ⟨r, hr, happ, hrk.trans hkey, ?_⟩
          rw [hrk, hrt]
          exact hfresh

/-- In every run of console callers where a sheet is approved whenever the stack was run,
    each allowed invocation rests on a waiver or on an approved sheet. -/
theorem console_runs_grounded (b : Build) (v : NonConsole) (inst : Installed b v) (timeout : Int) (console : Uid)
    (s : State)
    (h : Reach (step b inst.text timeout) (fun s e => AtConsole s e ∧ SheetFollows b inst.text timeout s e)
      (start console) s) : Grounded timeout s.log := by
  have hinv : CacheInv timeout s := by
    refine h.invariant ⟨by simp [start], trivial⟩ ?_
    intro s e hi ⟨hc, hf⟩
    cases e with
    | wait time => exact ⟨hi.stands, hi.grounded⟩
    | switch console => exact hc.elim
    | invoke inv session => exact invoke_keeps inst hi hc hf
  exact hinv.grounded

/-! ## The same command twice -/

theorem listing_text (text : Text) (seat : Seat) :
    (sheetText (listing true).ctx ((listing true).envAt text seat) (listing true).commandInfo (listing true).runArgv
      (lit "/bin/ls")).isSome = true := by
  rfl

theorem listing_granted (text : Text) (seat : Seat) :
    SheetGranted Build.stock (listing true).ctx ((listing true).envAt text seat) (listing true).commandInfo
      (listing true).runArgv where
  bundles := ⟨rfl, .inl rfl⟩
  pinned := ⟨rfl, ⟨1, 1⟩, rfl⟩
  shows := ⟨lit "/bin/ls", by decide, Option.isSome_iff_exists.mp (listing_text text seat), rfl, rfl⟩
  dropped := rfl
  replies := ⟨.deviceOwner, rfl, .inl rfl⟩

/-- With the first sheet approved, the second command rests on it. -/
theorem approved_sheet_grounds :
    Grounded 300 (listOnce .password true (listOnce .password true (start 501))).log := by
  have hconsole : Seat.isConsole ⟨guiSession, 501⟩ 501 = true := by decide
  refine console_runs_grounded Build.stock .password (stockText .password) 300 501 _
    (Reach.next (Event.invoke (listing true) guiSession)
      (Reach.next (Event.invoke (listing true) guiSession) .start ⟨hconsole, ?_⟩) ⟨hconsole, ?_⟩)
  · exact .inr (.inr (.inr (.inr (listing_granted _ _))))
  · exact .inr (.inr (.inl (listOnce_cached .password true)))

/-- The user cancels the sheet of one command, then runs it again: the second runs with no
    sheet approved, then or before. -/
theorem cancelled_sheet_leaves_a_credential :
    ¬ ∀ (b : Build) (v : NonConsole) (inst : Installed b v) (timeout : Int) (console : Uid) (s : State),
      b.policyDeference = true → Reach (step b inst.text timeout) AtConsole (start console) s →
        Grounded timeout s.log := by
  intro h
  have hconsole : Seat.isConsole ⟨guiSession, 501⟩ 501 = true := by decide
  have hfirst : AtConsole (start 501) (.invoke (listing false) guiSession) := hconsole
  have hagain : AtConsole (listOnce .password false (start 501)) (.invoke (listing false) guiSession) := hconsole
  have hreach : Reach (step Build.stock (stockText .password).text 300) AtConsole (start 501)
      (listOnce .password false (listOnce .password false (start 501))) :=
    Reach.next (Event.invoke (listing false) guiSession)
      (Reach.next (Event.invoke (listing false) guiSession) .start hfirst) hagain
  obtain ⟨hsecond, -⟩ := h Build.stock .password (stockText .password) 300 501 _ rfl hreach
  have hrecord := @record_skipped Build.stock (stockText .password).text 300 (listOnce .password false (start 501))
    (listing false) guiSession (.inr (listOnce_cached .password false))
  rw [hrecord] at hsecond
  rcases hsecond ⟨rfl, plainCall_deferred (stockText .password) 501 (by decide) false false hconsole⟩ with
    hw | happ | ⟨r, hr, happ, -⟩
  · cases hw
  · cases plainCall_approved happ.2
  · rw [List.mem_singleton.mp hr] at happ
    cases plainCall_approved happ.2

end SudoWhat.Sudo.Cache
