/-
  SudoWhat.Sudo.Cache — sudo with its credential cache, over runs of any length.

  Actors. Invocations run one at a time, each whole (policy step, then `check()`), at the
  current console user. Between them time passes and the console user may change. The
  policy step skips the auth stack for a credential that is live for the caller's uid and
  terminal, and records one when the stack succeeds; that is before `check()`, and nothing
  `check()` does withdraws it. `log` holds the finished invocations, newest first.

  Proved: what one invocation records (`record_skipped`, `record_entered`) and what it does
  to the credentials (`step_tickets`).
-/

import SudoWhat.Lib.Runs
import SudoWhat.Lib.Tickets
import SudoWhat.Sudo.Invocation

namespace SudoWhat.Sudo.Cache

open SudoWhat.Lib SudoWhat.Lib.Runs SudoWhat.Lib.Tickets SudoWhat.Lib.PamChain SudoWhat.Plugin SudoWhat.Pam SudoWhat.Nix

/-- What a credential is recorded for: the uid and the terminal. -/
abbrev Key := Uid × Option Bytes

def key (inv : Invocation) : Key := (inv.uid, inv.ctx.tty)

/-- A finished invocation: its policy step, and the check if that passed. -/
structure Record where
  inv : Invocation
  seat : Seat
  time : Nat
  auth : StackRun
  check : Act Ret

/-- The policy step passed and the plugin allowed. -/
def Record.allowed (r : Record) : Prop := r.auth.success = true ∧ r.check.Returns .allow

/-- The policy step passed and the plugin's sheet was approved. -/
def Record.approved (r : Record) : Prop := r.auth.success = true ∧ SheetApproved r.check

structure State where
  console : Uid
  now : Nat
  tickets : List (Ticket Key)
  log : List Record

def start (console : Uid) : State := ⟨console, 0, [], []⟩

inductive Event where
  | wait (time : Nat)
  | switch (console : Uid)
  | invoke (inv : Invocation) (session : SecuritySession)

variable (b : Build) (text : Text) (timeout : Int)

def State.seat (s : State) (session : SecuritySession) : Seat := ⟨session, s.console⟩

/-- A credential is live for the caller. -/
def State.cached (s : State) (inv : Invocation) : Bool := live timeout s.now (key inv) s.tickets

def record (s : State) (inv : Invocation) (session : SecuritySession) : Record :=
  let auth := inv.authenticate b text (s.seat session) (s.cached timeout inv)
  ⟨inv, s.seat session, s.now, auth, inv.check b text (s.seat session) auth.marker⟩

def step (s : State) : Event → State
  | .wait time => { s with now := s.now + time }
  | .switch console => { s with console := console }
  | .invoke inv session =>
    let r := record b text timeout s inv session
    let entered := !(inv.waived || s.cached timeout inv)
    { s with
      tickets := if entered && r.auth.success then ⟨key inv, s.now⟩ :: s.tickets else s.tickets
      log := r :: s.log }

variable {b : Build} {v : NonConsole} {text : Text} {timeout : Int} {s : State} {inv : Invocation}
  {session : SecuritySession}

theorem cached_switch (console : Uid) :
    (step b text timeout s (.switch console)).cached timeout inv = s.cached timeout inv :=
  rfl

/-! ## One invocation -/

/-- Nothing authenticates a waived caller, or one with a live credential. -/
theorem record_skipped (h : inv.waived = true ∨ s.cached timeout inv = true) :
    record b text timeout s inv session =
      ⟨inv, s.seat session, s.now, ⟨true, false⟩, inv.check b text (s.seat session) false⟩ := by
  simp only [record, authenticate_skipped h]

/-- Anyone else's stack is run, and under the module's text leaves the marker. -/
theorem record_entered (inst : Installed b v) (hw : inv.waived = false) (hc : s.cached timeout inv = false) :
    record b inst.text timeout s inv session =
      ⟨inv, s.seat session, s.now, runStack b (inv.stackAt (s.seat session)) inst.text false,
        inv.check b inst.text (s.seat session) true⟩ := by
  simp only [record, authenticate_entered hw hc, moduleStack_marker]

theorem step_tickets_new (inst : Installed b v) (hw : inv.waived = false) (hc : s.cached timeout inv = false)
    (hs : (runStack b (inv.stackAt (s.seat session)) inst.text false).success = true) :
    (step b inst.text timeout s (.invoke inv session)).tickets = ⟨key inv, s.now⟩ :: s.tickets := by
  simp only [step, record_entered inst hw hc, hw, hc, hs]
  rfl

/-- A new credential comes from a stack that ran and succeeded. -/
theorem step_tickets (inst : Installed b v) {t : Ticket Key}
    (h : t ∈ (step b inst.text timeout s (.invoke inv session)).tickets) :
    t ∈ s.tickets ∨ (t = ⟨key inv, s.now⟩ ∧ inv.waived = false ∧ s.cached timeout inv = false ∧
      (runStack b (inv.stackAt (s.seat session)) inst.text false).success = true) := by
  simp only [step] at h
  split at h
  · rename_i hnew
    simp only [Bool.and_eq_true, Bool.not_eq_true', Bool.or_eq_false_iff] at hnew
    obtain ⟨⟨hw, hc⟩, hs⟩ := hnew
    rw [record_entered inst hw hc] at hs
    rcases List.mem_cons.mp h with h | h
    · exact .inr ⟨h, hw, hc, hs⟩
    · exact .inl h
  · exact .inl h

/-- A console caller whose stack ran is allowed only with a sheet of their own approved. -/
theorem record_console_entered (inst : Installed b v) (hc : (s.seat session).isConsole inv.uid = true)
    (hw : inv.waived = false) (hcached : s.cached timeout inv = false)
    (h : (record b inst.text timeout s inv session).allowed) : (record b inst.text timeout s inv session).approved := by
  rw [record_entered inst hw hcached] at h ⊢
  exact ⟨h.1, check_console_sheet hc h.2⟩

/-! ## An ordinary command -/

/-- Uid 501 lists a directory, and approves the sheet or cancels it. -/
def listing (approves : Bool) : Invocation := plainCall 501 operator_notRoot false approves

/-- Once, under a five-minute timeout. -/
def listOnce (v : NonConsole) (approves : Bool) (s : State) : State :=
  step Build.stock (stockText v).text 300 s (.invoke (listing approves) guiSession)

/-- The first listing leaves a credential, whatever becomes of its sheet. -/
theorem listOnce_cached (v : NonConsole) (approves : Bool) :
    (listOnce v approves (start 501)).cached 300 (listing approves) = true := by
  have hstack : (runStack Build.stock ((listing approves).stackAt ((start 501).seat guiSession)) (stockText v).text
      false).success = true := by
    refine (moduleStack_success_iff _ (stockText v) false).mpr ⟨plainCall_intact 501 (by decide) false approves 0, ?_⟩
    rw [isConsole_stackAt]
    cases v <;> rfl
  have hw : (listing approves).waived = false := rfl
  have hc : (start 501).cached 300 (listing approves) = false := rfl
  have hfresh : (Ticket.mk (key (listing approves)) 0).fresh 300 0 = true := by simp [Ticket.fresh]
  rw [State.cached, listOnce, step_tickets_new (stockText v) hw hc hstack]
  exact live_iff.mpr ⟨_, List.mem_singleton_self _, rfl, hfresh⟩

end SudoWhat.Sudo.Cache
