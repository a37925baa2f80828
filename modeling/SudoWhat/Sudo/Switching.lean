/-
  SudoWhat.Sudo.Switching — the console user changes between the two phases.

  Actors. Any number of invocations, each in two steps of its own: `auth` runs its policy
  step and `check` its plugin, each classifying the caller at the console user of that
  moment. In between, other invocations run and the console user changes. No credential is
  cached, and the parent chain demands a factor (`DemandsFactor`).

  Under the console-gate text each phase leans on the other having given the same answer:
  PAM passes the console user because the sheet follows, the plugin steps aside for anyone
  else because the password came first.
  - `switching_runs`: every allowed invocation was waived, had a parent module succeed, or
    had its sheet approved, in every run where a caller the gate let through still has the
    console at the check (`GateHolds`). Where one has not, the command runs on neither.
  - `switch_between_phases`: such a run.
-/

import SudoWhat.Lib.Runs
import SudoWhat.Sudo.Invocation

namespace SudoWhat.Sudo.Switching

open SudoWhat.Lib SudoWhat.Lib.Runs SudoWhat.Lib.PamChain SudoWhat.Plugin SudoWhat.Pam SudoWhat.Nix

/-- An invocation whose policy step passed, before its check. -/
structure Pending where
  inv : Invocation
  seat : Seat
  auth : StackRun

/-- A finished invocation. -/
structure Record where
  pending : Pending
  check : Act Ret

structure State where
  console : Uid
  pending : Nat → Option Pending
  log : List Record

def start (console : Uid) : State := ⟨console, fun _ => none, []⟩

/-- Some module of the parent chain succeeds or denies the caller. -/
def DemandsFactor (parent : List (Call Entry)) : Prop := ∃ c ∈ parent, c.outcome = .success ∨ c.denies

inductive Event where
  | switch (console : Uid)
  | auth (id : Nat) (inv : Invocation) (demands : DemandsFactor inv.stack.parent) (session : SecuritySession)
  | check (id : Nat)

def State.set (s : State) (id : Nat) (p : Option Pending) : State :=
  { s with pending := fun i => if i = id then p else s.pending i }

variable (b : Build) (text : Text)

/-- The policy step at the current console. -/
def authAt (s : State) (inv : Invocation) (session : SecuritySession) : Pending :=
  ⟨inv, ⟨session, s.console⟩, inv.authenticate b text ⟨session, s.console⟩ false⟩

/-- Where a pending invocation's check classifies its caller. -/
def checkSeat (s : State) (p : Pending) : Seat := ⟨p.seat.session, s.console⟩

def checkAt (s : State) (p : Pending) : Record := ⟨p, p.inv.check b text (checkSeat s p) p.auth.marker⟩

def step (s : State) : Event → State
  | .switch console => { s with console := console }
  | .auth id inv _ session =>
    match s.pending id with
    | some _ => s
    | none => if (authAt b text s inv session).auth.success then s.set id (some (authAt b text s inv session)) else s
  | .check id =>
    match s.pending id with
    | none => s
    | some p => { s.set id none with log := checkAt b text s p :: s.log }

/-- Waived by rule, or a parent module succeeded for it, or its sheet was approved. -/
def Record.grounded (r : Record) : Prop :=
  r.check.Returns .allow → r.pending.inv.waived = true ∨
    (∃ c ∈ parentCalls b (r.pending.inv.stackAt r.pending.seat) text, c.outcome = .success) ∨ SheetApproved r.check

/-- A caller the console-gate let through still has the console at the check. -/
def GateHolds (s : State) : Event → Prop
  | .switch _ => True
  | .auth _ _ _ _ => True
  | .check id => ∀ p, s.pending id = some p → p.inv.waived = false → p.seat.isConsole p.inv.uid = true →
      (checkSeat s p).isConsole p.inv.uid = true

/-- What waits for its check passed its policy step. -/
def Pending.ok (p : Pending) : Prop := p.auth = p.inv.authenticate b text p.seat false ∧ p.auth.success = true

/-- The same, given so many rounds to wait. -/
def Pending.withFuel (p : Pending) (fuel : Nat) : Pending := { p with inv := p.inv.withFuel fuel }

structure SwitchInv (s : State) : Prop where
  pending : ∀ id p, s.pending id = some p → p.ok b text
  demands : ∀ id p, s.pending id = some p → DemandsFactor p.inv.stack.parent
  log : ∀ r ∈ s.log, r.grounded b text

variable {b : Build} {text : Text} {s : State} {p : Pending}

/-! ## One step -/

theorem set_pending_self (s : State) (id : Nat) (p : Option Pending) : (s.set id p).pending id = p := by simp [State.set]

/-- An invocation waits for its check only if its policy step passed. -/
theorem step_auth_new {id : Nat} {inv : Invocation} {session : SecuritySession} (hs : s.pending id = none)
    (hd : DemandsFactor inv.stack.parent) (h : (authAt b text s inv session).auth.success = true) :
    step b text s (.auth id inv hd session) = s.set id (some (authAt b text s inv session)) := by
  simp only [step, hs, h, if_true]

theorem authAt_ok {inv : Invocation} {session : SecuritySession} (h : (authAt b text s inv session).auth.success = true) :
    (authAt b text s inv session).ok b text := ⟨rfl, h⟩

theorem step_check {id : Nat} (hs : s.pending id = some p) :
    step b text s (.check id) = { s.set id none with log := checkAt b text s p :: s.log } := by
  simp only [step, hs]

/-! ## One check -/

theorem demandsFactor_of_veto {parent : List (Call Entry)} {c : Call Entry} (hc : c ∈ parent)
    (hv : c.control.vetoes = true) (ha : c.outcome ≠ .ignore) : DemandsFactor parent := by
  refine ⟨c, hc, ?_⟩
  cases ho : c.outcome with
  | success => exact .inl rfl
  | ignore => exact absurd ho ha
  | failure => exact .inr ⟨ho, hv⟩

theorem not_inert_of_demands {parent : List (Call Entry)} (h : DemandsFactor parent) : ¬ Inert parent := by
  intro hs
  obtain ⟨c, hc, h | h⟩ := h
  · exact (hs c hc).1 h
  · exact (hs c hc).2 h

/-- A caller neither waived nor let through by the gate had a parent module succeed. -/
theorem factor_of_pending (inst : Installed b .password) (hp : p.ok b inst.text)
    (hd : DemandsFactor p.inv.stack.parent) (hw : p.inv.waived = false) (haway : p.seat.isConsole p.inv.uid = false) :
    ∃ c ∈ parentCalls b (p.inv.stackAt p.seat) inst.text, c.outcome = .success := by
  obtain ⟨hauth, hs⟩ := hp
  rw [hauth, authenticate_entered hw rfl] at hs
  exact moduleStack_factor _ inst (by rw [isConsole_stackAt, haway]) (not_inert_of_demands hd) hs

theorem marker_of_pending (inst : Installed b .password) (hp : p.ok b inst.text) : p.auth.marker = !p.inv.waived := by
  rw [hp.1, authenticate_marker, Bool.or_false]

theorem checkAt_grounded (inst : Installed b .password) (hp : p.ok b inst.text)
    (hd : DemandsFactor p.inv.stack.parent)
    (hg : p.inv.waived = false → p.seat.isConsole p.inv.uid = true → (checkSeat s p).isConsole p.inv.uid = true) :
    (checkAt b inst.text s p).grounded b inst.text := by
  intro hallow
  have hm := marker_of_pending inst hp
  cases hw : p.inv.waived with
  | true => exact .inl hw
  | false =>
    right
    rw [hw] at hm
    simp only [checkAt, hm] at hallow ⊢
    cases hgate : p.seat.isConsole p.inv.uid with
    | false => exact .inl (factor_of_pending inst hp hd hw hgate)
    | true => exact .inr (check_console_sheet (hg hw hgate) hallow)

/-- A caller the gate let through who has lost the console runs the command on neither. -/
theorem not_grounded_of_shown (inst : Installed b .password) (hp : p.ok b inst.text) (hw : p.inv.waived = false)
    (hgate : p.seat.isConsole p.inv.uid = true) (haway : (checkSeat s p).isConsole p.inv.uid = false)
    (hx : b.execConfirm = false) (hbundles : p.inv.env.bundlesIntact)
    (hshown : p.inv.ShowsLine b inst.text (checkSeat s p) true) : ¬ (checkAt b inst.text s p).grounded b inst.text := by
  have hm := marker_of_pending inst hp
  rw [hw] at hm
  have hchain : swNonconsoleChainOf b.pamPath (p.inv.envAt inst.text (checkSeat s p)).sudoLocal = .password :=
    swNonconsoleChainOf_authLines inst.reads
  have hbundles' : (p.inv.envAt inst.text (checkSeat s p)).bundlesIntact := hbundles
  have hallow : (p.inv.check b inst.text (checkSeat s p) true).Returns .allow := by
    refine (check_nonConsole_allow_iff (stepAsideAsks_off hx _ _) hbundles' p.inv.captured p.inv.notRoot haway).mpr
      ⟨?_, hshown⟩
    rw [hchain]
    rfl
  intro hr
  simp only [Record.grounded, checkAt, hm] at hr
  rcases hr hallow with hw' | ⟨c, hc, -⟩ | happ
  · rw [hw] at hw'
    cases hw'
  · rw [moduleStack_parent_untouched _ inst (.inr (by rw [isConsole_stackAt, hgate]))] at hc
    cases hc
  · exact not_approved_away haway happ

theorem not_grounded_away (inst : Installed b .password) (hp : p.ok b inst.text) (hw : p.inv.waived = false)
    (hgate : p.seat.isConsole p.inv.uid = true) (haway : (checkSeat s p).isConsole p.inv.uid = false)
    (hx : b.execConfirm = false) (hbundles : p.inv.env.bundlesIntact) (htty : Answers (p.inv.env.tty .execLine).write) :
    ∃ enough, ∀ fuel ≥ enough, ¬ (checkAt b inst.text s (p.withFuel fuel)).grounded b inst.text := by
  obtain ⟨enough, he⟩ := showsLine_enough b inst.text (checkSeat s p) true htty
  refine ⟨enough, fun fuel hf => ?_⟩
  have hp' : (p.withFuel fuel).ok b inst.text := hp
  exact not_grounded_of_shown inst hp' hw hgate haway hx hbundles (he fuel hf)

/-! ## Runs -/

theorem auth_keeps (hi : SwitchInv b text s) (id : Nat) (inv : Invocation) (hd : DemandsFactor inv.stack.parent)
    (session : SecuritySession) : SwitchInv b text (step b text s (.auth id inv hd session)) := by
  cases hs : s.pending id with
  | some p =>
    simp only [step, hs]
    exact hi
  | none =>
    cases hauth : (authAt b text s inv session).auth.success with
    | false =>
      simp only [step, hs, hauth]
      exact hi
    | true =>
      rw [step_auth_new hs hd hauth]
      refine ⟨fun i p hp => ?_, fun i p hp => ?_, hi.log⟩
      · simp only [State.set] at hp
        split at hp
        · cases hp
          exact authAt_ok hauth
        · exact hi.pending i p hp
      · simp only [State.set] at hp
        split at hp
        · cases hp
          exact hd
        · exact hi.demands i p hp

theorem check_keeps (inst : Installed b .password) (hi : SwitchInv b inst.text s) {id : Nat} (hg : GateHolds s (.check id)) :
    SwitchInv b inst.text (step b inst.text s (.check id)) := by
  cases hs : s.pending id with
  | none =>
    simp only [step, hs]
    exact hi
  | some p =>
    rw [step_check hs]
    have hrest : ∀ i q, (s.set id none).pending i = some q → s.pending i = some q := by
      intro i q hq
      simp only [State.set] at hq
      split at hq
      · cases hq
      · exact hq
    refine ⟨fun i q hq => hi.pending i q (hrest i q hq), fun i q hq => hi.demands i q (hrest i q hq), fun r hr => ?_⟩
    · rcases List.mem_cons.mp hr with hr | hr
      · rw [hr]
        exact checkAt_grounded inst (hi.pending id p hs) (hi.demands id p hs) (hg p hs)
      · exact hi.log r hr

/-- Under the console-gate text no factor is lost in any run where the gate's answer holds
    until the check, and a caller who loses the console in between loses it. -/
theorem switching_runs (b : Build) (inst : Installed b .password) (console : Uid) :
    (∀ s, Reach (step b inst.text) GateHolds (start console) s → ∀ r ∈ s.log, r.grounded b inst.text) ∧
    ∀ s p, p.ok b inst.text → p.inv.waived = false → p.seat.isConsole p.inv.uid = true →
      (checkSeat s p).isConsole p.inv.uid = false → b.execConfirm = false → p.inv.env.bundlesIntact →
      Answers (p.inv.env.tty .execLine).write →
      ∃ enough, ∀ fuel ≥ enough, ¬ (checkAt b inst.text s (p.withFuel fuel)).grounded b inst.text := by
  refine ⟨fun s h => ?_, fun s p => not_grounded_away inst⟩
  have hinv : SwitchInv b inst.text s := by
    refine h.invariant ⟨by simp [start], by simp [start], by simp [start]⟩ ?_
    intro s e hi hg
    cases e with
    | switch console => exact ⟨hi.pending, hi.demands, hi.log⟩
    | auth id inv hd session => exact auth_keeps hi id inv hd session
    | check id => exact check_keeps inst hi hg
  exact hinv.log

/-! ## A switch between the phases -/

/-- Uid 501 at the screen lists a directory and cancels any sheet. -/
def listing : Invocation := plainCall 501 operator_notRoot false false

theorem listing_demands : DemandsFactor listing.stack.parent :=
  demandsFactor_of_veto List.mem_cons_self (by decide) (by decide)

/-- The policy step passes at the gate. -/
def atGate : Pending := authAt Build.stock (stockText .password).text (start 501) listing guiSession

theorem atGate_passed : atGate.auth.success = true := by
  have hintact : (listing.stack.auth 0).intact Build.stock := plainCall_intact 501 (by decide) false false 0
  unfold atGate authAt
  dsimp only
  rw [authenticate_success_iff (stockText .password) hintact]
  decide

/-- Before the check another user takes the console. -/
def afterSwitch : State := { (start 501).set 0 (some atGate) with console := 502 }

theorem afterSwitch_reach :
    Reach (step Build.stock (stockText .password).text) (fun _ _ => True) (start 501) afterSwitch := by
  have hauth : Reach (step Build.stock (stockText .password).text) (fun _ _ => True) (start 501)
      (step Build.stock (stockText .password).text (start 501) (.auth 0 listing listing_demands guiSession)) :=
    .next _ .start trivial
  rw [step_auth_new rfl listing_demands atGate_passed] at hauth
  exact .next (Event.switch 502) hauth trivial

/-- Uid 501 passes the gate at the console, another user takes the console, and the plugin
    steps aside for what is now a caller away from it. -/
theorem switch_between_phases :
    ¬ ∀ (b : Build) (inst : Installed b .password) (console : Uid) (s : State),
      Reach (step b inst.text) (fun _ _ => True) (start console) s → ∀ r ∈ s.log, r.grounded b inst.text := by
  intro h
  have hpending : afterSwitch.pending 0 = some atGate := set_pending_self (start 501) 0 (some atGate)
  have hreach := Reach.next (Event.check 0) afterSwitch_reach trivial
  rw [step_check hpending] at hreach
  have hgrounded := h Build.stock (stockText .password) 501 _ hreach _ List.mem_cons_self
  have hgate : atGate.seat.isConsole atGate.inv.uid = true := by decide
  have haway : (checkSeat afterSwitch atGate).isConsole atGate.inv.uid = false := by decide
  exact not_grounded_of_shown (stockText .password) (authAt_ok atGate_passed) rfl hgate haway rfl ⟨rfl, .inl rfl⟩
    (plainCall_shown 501 (by decide) false false _ _ _ _ _ _ _) hgrounded

end SudoWhat.Sudo.Switching
