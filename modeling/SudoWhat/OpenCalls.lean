/-
  SudoWhat.OpenCalls — the two audit plugins' `open()` on memory (`plugin/sudowhat_audit.m`,
  `linux/sudowhat_audit/src/lib.rs`).

  The displays' models are told sudo's arrays as lists; here `open()` is handed pointers and
  reads what it reads, in its own order, and the result is what it then does. A value is
  escaped where it stands in its entry, by the call `RenderCalls` is about.

  Proved: over arrays that stand where sudo says, each runs without a fault, leaves memory as
  it was and does what its model does; a caller it turns away has had `user_info` read and
  nothing else, so the other pointers may lead anywhere (`audit_opens_refine`).
-/

import SudoWhat.RenderCalls
import SudoWhat.SudoArrays

namespace SudoWhat.OpenCalls

open SudoWhat.Lib SudoWhat.Lib.CMemory SudoWhat.SudoArrays
open SudoWhat.Audit (AuditBuild AuditEnv AllocSite Submission swAuditRow)
open SudoWhat.Plugin (Act Tty apiMajor strtoul)
open SudoWhat.RenderCalls (Allocs swAuditCommandLine)

/-- What sudo passes to `open()`. -/
structure Handed where
  settings : Ptr
  userInfo : Ptr
  optind : Int
  argv : Ptr
  envp : Ptr

/-! ## macOS -/

def swAuditEscape (allocated : Bool) (v : Place) : C (Option Text) := do return Audit.swAuditEscape allocated (← loadString v)

/-- A value that is there and not empty, escaped. -/
def rowValue (allocated : Bool) (v : Option Place) : C (Option Text) :=
  match v with
  | none => pure none
  | some p => do
    if ← nonEmpty (some p) then
      match ← swAuditEscape allocated p with
      | some text => return if text = [] then none else some text
      | none => return none
    else return none

def swAuditSettingTrue (settings : Ptr) (key : String) : C Bool := do
  match ← findKv settings (lit key) with
  | none => return false
  | some v => compareLiteral true v (lit "true")

def swAuditRunsShell (settings : Ptr) : C Bool := do
  if ← swAuditSettingTrue settings "run_shell" then return true
  else if ← swAuditSettingTrue settings "login_shell" then return true
  else swAuditSettingTrue settings "implied_shell"

def swAuditIsBareName (cmd : Ptr) : C Bool :=
  match cmd with
  | none => pure false
  | some a => do
    if (← loadByte ⟨a, 0⟩) = 0 then return false else return !(← loadString ⟨a, 0⟩).contains 0x2F

def swAuditPathRowValue (alloc : AllocSite → Bool) (h : Handed) : C (Option Text) :=
  if h.argv = none ∨ h.optind < 0 then pure none
  else do
    if ← swAuditIsBareName (← loadPtr h.argv h.optind.toNat) then
      let path ← findKv h.envp (lit "PATH")
      rowValue (alloc .pathRow) path
    else return none

def swAuditHasCommandWord (argv : Ptr) (optind : Int) : C Bool :=
  if argv = none ∨ optind < 0 then pure false else do return (← loadPtr argv optind.toNat) != none

def swAuditDirRowValue (alloc : AllocSite → Bool) (h : Handed) : C (Option Text) := do
  let dir ← findKv h.settings (lit "cmnd_cwd")
  if ← nonEmpty dir then rowValue (alloc .dirLine) dir
  else if ← swAuditSettingTrue h.settings "login_shell" then return none
  else
    let dir ← findKv h.userInfo (lit "cwd")
    rowValue (alloc .dirLine) dir

def userLine (alloc : AllocSite → Bool) (settings : Ptr) : C (Option Text) := do
  match ← findKv settings (lit "runas_user") with
  | none => return some "root".toList
  | some runas => if ← nonEmpty (some runas) then swAuditEscape (alloc .userLine) runas else return some "root".toList

def swAuditColorAllowed (envp : Ptr) : C Bool := do
  let noColor ← findKv envp (lit "NO_COLOR")
  if ← nonEmpty noColor then return false
  else
    match ← findKv envp (lit "TERM") with
    | none => return false
    | some term => if ← nonEmpty (some term) then return !(← compareLiteral true term (lit "dumb")) else return false

def inputValue (b : AuditBuild) (m : Allocs) (h : Handed) (color : Bool) : C (Option (Option Text)) := do
  if ← swAuditHasCommandWord h.argv h.optind then
    match ← swAuditCommandLine m h.argv h.optind (color && b.echoColor) with
    | some line => return if line = [] then none else some (some line)
    | none => return none
  else if ← swAuditRunsShell h.settings then return some none
  else return none

def auditBlock (b : AuditBuild) (alloc : AllocSite → Bool) (m : Allocs) (h : Handed) (color : Bool) : C (Option Text) := do
  match ← inputValue b m h color with
  | none => return none
  | some commandLine =>
    let user ← userLine alloc h.settings
    let dir ← swAuditDirRowValue alloc h
    match user with
    | none => return none
    | some user =>
      let path ← swAuditPathRowValue alloc h
      return some
        (swAuditRow "run as:".toList (if color then Audit.swAuditColorUser user else user) color
          ++ (match dir with
            | some dir => swAuditRow "directory:".toList (if color then Audit.swAuditColorDir dir else dir) color
            | none => [])
          ++ (match commandLine with
            | some line => swAuditRow "input:".toList line color
            | none => [])
          ++ (match path with
            | some path => swAuditRow "PATH:".toList (if color then Audit.swAuditColorPathList path else path) color
            | none => []))

/-- Everything is read before anything is done; the value is what is done. -/
def sudowhatAuditOpen (b : AuditBuild) (env : AuditEnv) (m : Allocs) (version : UInt32) (h : Handed) : C (Act Bool) :=
  if apiMajor version ≠ 1 then pure (pure false)
  else if !b.auditDisplay then pure (pure true)
  else do
    match ← findKv h.userInfo (lit "uid") with
    | none => return pure true
    | some uidStr =>
      let uid ← loadString uidStr
      if UInt32.ofNat (strtoul uid) = 0 then return pure true
      else
        match env.approvalSignature with
        | .error _ =>
          return do
            Traced.emit (.syslog (lit "sudowhat_audit: approval plugin signature invalid; suppressing terminal display"))
            return true
        | .ok () =>
          match env.pamSignature with
          | .error _ =>
            return do
              Traced.emit (.syslog (lit "sudowhat_audit: pam_sudowhat signature invalid; suppressing terminal display"))
              return true
          | .ok () =>
            let color ← swAuditColorAllowed h.envp
            match ← auditBlock b env.alloc m h color with
            | none => return pure true
            | some block =>
              return do
                Audit.swAuditWriteTty env block
                return true

/-! ## Linux -/

def sudowhatAuditOpenLinux (displayOn : Bool) (tty : Tty) (fuel : Nat) (version : UInt32) (h : Handed) : C (Act Bool) :=
  if apiMajor version ≠ 1 then pure (pure false)
  else if !displayOn then pure (pure true)
  else do
    let userInfo ← collect h.userInfo 0
    match Linux.findKv userInfo (lit "uid") with
    | none => return pure true
    | some uid =>
      if Linux.parseUid uid = 0 then return pure true
      else
        let settings ← collect h.settings 0
        let argv ← collect h.argv h.optind
        let envp ← collect h.envp 0
        match Linux.buildBlock settings userInfo argv (Linux.colorAllowed envp) with
        | none => return pure true
        | some block =>
          return do
            Linux.writeTty tty fuel block
            return true

/-! ## What is handed over -/

/-- The arrays besides `user_info`; the options end within the words. -/
structure RestAt (g : Objects) (h : Handed) (s : Submission) : Prop where
  settings : ArrayAt g h.settings s.settings
  argv : ArrayAt g h.argv s.argv
  optind : h.optind = s.optind ∧ s.optind ≤ (s.argv.getD []).length
  envp : ArrayAt g h.envp s.envp

section

variable {g : Objects}

theorem gives_rowValue {p : Option Place} {v : Option Bytes} (hv : ValueAt g p v) (allocated : Bool) :
    Gives (rowValue allocated p) g (Audit.rowValue allocated v) g := by
  cases p with
  | none =>
    rw [hv.of_none]
    exact gives_pure none
  | some q =>
    obtain ⟨s, rfl, hload, -⟩ := hv.string
    refine gives_bind hv.nonEmpty ?_
    cases s with
    | nil => exact gives_pure none
    | cons c cs =>
      refine gives_bind (gives_bind hload (gives_pure _)) ?_
      cases allocated with
      | false => exact gives_pure none
      | true => exact gives_pure _

theorem gives_swAuditSettingTrue {p : Ptr} {settings : Option (List Bytes)} (h : ArrayAt g p settings) {key : String}
    (hkey : 0 ∉ lit key) : Gives (swAuditSettingTrue p key) g (Audit.swAuditSettingTrue settings key) g := by
  obtain ⟨r, hr, hv⟩ := gives_findKv h hkey
  refine gives_bind hr ?_
  unfold Audit.swAuditSettingTrue
  cases r with
  | none =>
    rw [hv.of_none]
    exact gives_pure false
  | some q =>
    obtain ⟨s, hs, -, hcompare⟩ := hv.string
    rw [hs]
    exact hcompare _ (by decide)

theorem gives_swAuditRunsShell {p : Ptr} {settings : Option (List Bytes)} (h : ArrayAt g p settings) :
    Gives (swAuditRunsShell p) g (Audit.swAuditRunsShell settings) g := by
  unfold Audit.swAuditRunsShell
  refine gives_bind (gives_swAuditSettingTrue h (by decide)) ?_
  cases Audit.swAuditSettingTrue settings "run_shell" with
  | true => exact gives_pure true
  | false =>
    refine gives_bind (gives_swAuditSettingTrue h (by decide)) ?_
    cases Audit.swAuditSettingTrue settings "login_shell" with
    | true => exact gives_pure true
    | false => exact gives_swAuditSettingTrue h (by decide)

theorem gives_userLine {p : Ptr} {s : Submission} (h : ArrayAt g p s.settings) (alloc : AllocSite → Bool) :
    Gives (userLine alloc p) g (Audit.userLine alloc s) g := by
  obtain ⟨r, hr, hv⟩ := gives_findKv h (show 0 ∉ lit "runas_user" by decide)
  refine gives_bind hr ?_
  unfold Audit.userLine
  cases r with
  | none =>
    rw [hv.of_none]
    exact gives_pure _
  | some q =>
    obtain ⟨v, hs, hload, -⟩ := hv.string
    rw [hs] at hv ⊢
    refine gives_bind hv.nonEmpty ?_
    cases v with
    | nil => exact gives_pure _
    | cons c cs => exact gives_bind hload (gives_pure _)

theorem gives_swAuditColorAllowed {p : Ptr} {envp : Option (List Bytes)} (h : ArrayAt g p envp) :
    Gives (swAuditColorAllowed p) g (Audit.swAuditColorAllowed envp) g := by
  obtain ⟨r, hr, hv⟩ := gives_findKv h (show 0 ∉ lit "NO_COLOR" by decide)
  obtain ⟨t, ht, hterm⟩ := gives_findKv h (show 0 ∉ lit "TERM" by decide)
  have hrest : Gives (do
      match ← findKv p (lit "TERM") with
      | none => return false
      | some term => if ← nonEmpty (some term) then return !(← compareLiteral true term (lit "dumb")) else return false) g
      (match Plugin.findKvIn envp (lit "TERM") with
      | none => false
      | some term => if term = [] then false else if term = lit "dumb" then false else true) g := by
    refine gives_bind ht ?_
    cases t with
    | none =>
      rw [hterm.of_none]
      exact gives_pure false
    | some q =>
      obtain ⟨v, hs, -, hcompare⟩ := hterm.string
      rw [hs] at hterm ⊢
      refine gives_bind hterm.nonEmpty ?_
      cases v with
      | nil => exact gives_pure false
      | cons c cs =>
        have hdumb : (if (c :: cs) = [] then false else if (c :: cs) = lit "dumb" then false else true) =
            !(c :: cs == lit "dumb") := by
          by_cases e : c :: cs = lit "dumb" <;> simp [e]
        dsimp only
        rw [hdumb]
        exact gives_bind (hcompare _ (by decide)) (gives_pure _)
  unfold Audit.swAuditColorAllowed
  refine gives_bind hr (gives_bind hv.nonEmpty ?_)
  cases Plugin.findKvIn envp (lit "NO_COLOR") with
  | none => exact hrest
  | some v =>
    cases v with
    | nil => exact hrest
    | cons c cs => exact gives_pure false

theorem gives_swAuditDirRowValue {h : Handed} {s : Submission} (huser : ArrayAt g h.userInfo s.userInfo)
    (hset : ArrayAt g h.settings s.settings) (alloc : AllocSite → Bool) :
    Gives (swAuditDirRowValue alloc h) g (Audit.swAuditDirRowValue alloc s) g := by
  obtain ⟨r, hr, hv⟩ := gives_findKv hset (show 0 ∉ lit "cmnd_cwd" by decide)
  obtain ⟨d, hd, hcwd⟩ := gives_findKv huser (show 0 ∉ lit "cwd" by decide)
  have hrest : Gives (do
      if ← swAuditSettingTrue h.settings "login_shell" then return none
      else
        let dir ← findKv h.userInfo (lit "cwd")
        rowValue (alloc .dirLine) dir) g
      (if Audit.swAuditSettingTrue s.settings "login_shell" then none
      else Audit.rowValue (alloc .dirLine) (Plugin.findKvIn s.userInfo (lit "cwd"))) g := by
    refine gives_bind (gives_swAuditSettingTrue hset (by decide)) ?_
    cases Audit.swAuditSettingTrue s.settings "login_shell" with
    | true => exact gives_pure none
    | false => exact gives_bind hd (gives_rowValue hcwd _)
  unfold Audit.swAuditDirRowValue
  refine gives_bind hr (gives_bind hv.nonEmpty ?_)
  have hrow := gives_rowValue hv (alloc .dirLine)
  cases hval : Plugin.findKvIn s.settings (lit "cmnd_cwd") with
  | none => exact hrest
  | some v =>
    cases v with
    | nil => exact hrest
    | cons c cs =>
      rw [hval] at hrow
      exact hrow

/-- The first word after the options, or NULL where no word is left; no array is no words. -/
theorem gives_typed {h : Handed} {s : Submission} (hrest : RestAt g h s) (hneg : ¬ (h.argv = none ∨ h.optind < 0)) :
    ∃ q, Gives (loadPtr h.argv h.optind.toNat) g q g ∧
      (q = none ∧ s.typed = [] ∨ ∃ a w rest, q = some a ∧ s.typed = w :: rest ∧ CStr g a w) := by
  obtain ⟨hnull, hnonneg⟩ := not_or.mp hneg
  obtain ⟨heq, hle⟩ := hrest.optind
  rcases hrest.argv with ⟨hp, -⟩ | ⟨n, ss, hp, hs, hstrs⟩
  · exact absurd hp hnull
  · unfold Submission.typed
    rw [hs, Option.getD_some] at hle
    rw [hp, hs, heq]
    rw [heq] at hnonneg
    dsimp only
    rw [if_neg hnonneg]
    exact gives_word hstrs (by omega)

theorem typed_nil {h : Handed} {s : Submission} (hrest : RestAt g h s) (hnone : h.argv = none ∨ h.optind < 0) :
    s.typed = [] := by
  unfold Submission.typed
  rcases hrest.argv with ⟨-, hs⟩ | ⟨n, ss, hp, hs, -⟩
  · rw [hs]
  · rw [hs]
    dsimp only
    rcases hnone with hnull | hneg
    · cases hp.symm.trans hnull
    · rw [if_pos (hrest.optind.1 ▸ hneg)]

theorem gives_swAuditHasCommandWord {h : Handed} {s : Submission} (hrest : RestAt g h s) :
    Gives (swAuditHasCommandWord h.argv h.optind) g (decide (s.typed ≠ [])) g := by
  unfold swAuditHasCommandWord
  by_cases hnone : h.argv = none ∨ h.optind < 0
  · rw [if_pos hnone, typed_nil hrest hnone]
    exact gives_pure false
  · rw [if_neg hnone]
    obtain ⟨q, hload, hq⟩ := gives_typed hrest hnone
    refine gives_bind hload ?_
    rcases hq with ⟨rfl, ht⟩ | ⟨a, w, rest, rfl, ht, -⟩
    · rw [ht]
      exact gives_pure false
    · rw [ht]
      exact gives_pure true

theorem gives_swAuditPathRowValue {h : Handed} {s : Submission} (hrest : RestAt g h s) (alloc : AllocSite → Bool) :
    Gives (swAuditPathRowValue alloc h) g (Audit.swAuditPathRowValue alloc s) g := by
  unfold swAuditPathRowValue Audit.swAuditPathRowValue
  by_cases hnone : h.argv = none ∨ h.optind < 0
  · rw [if_pos hnone, typed_nil hrest hnone]
    exact gives_pure none
  · rw [if_neg hnone]
    obtain ⟨q, hload, hq⟩ := gives_typed hrest hnone
    obtain ⟨r, hr, hv⟩ := gives_findKv hrest.envp (show 0 ∉ lit "PATH" by decide)
    have hbare : Gives (swAuditIsBareName q) g (Audit.swAuditIsBareName s.typed.head?) g := by
      rcases hq with ⟨rfl, ht⟩ | ⟨a, w, rest, rfl, ht, hw⟩
      · rw [ht]
        exact gives_pure false
      · rw [ht]
        refine gives_bind (hw.byte (Nat.zero_le _)) ?_
        have hstring := hw.from (Nat.zero_le w.length)
        cases w with
        | nil => exact gives_pure false
        | cons c cs =>
          have hc : c ≠ 0 := fun e => hw.1 (e ▸ List.mem_cons_self)
          rw [List.drop_zero, List.head?_cons, Option.getD_some, if_neg hc]
          exact gives_bind hstring (gives_pure _)
    refine gives_bind hload (gives_bind hbare ?_)
    cases Audit.swAuditIsBareName s.typed.head? with
    | false => exact gives_pure none
    | true => exact gives_bind hr (gives_rowValue hv _)

/-- The allocations are the ones the model is told of. -/
structure SameAllocs (alloc : AllocSite → Bool) (m : Allocs) : Prop where
  arrays : alloc .argvArrays = (m.argv && m.lens)
  coloured : alloc .coloured = m.coloured
  plain : alloc .plain = m.plain

theorem gives_inputValue {h : Handed} {s : Submission} (hrest : RestAt g h s) {alloc : AllocSite → Bool} {m : Allocs}
    (hm : SameAllocs alloc m) (b : AuditBuild) (color : Bool) :
    Gives (inputValue b m h color) g (Audit.inputValue b alloc s color) g := by
  have hsub : RenderCalls.Submitted g h.argv s := by
    rcases hrest.argv with hnull | ⟨n, ss, hp, hs, hstrs⟩
    · exact .inl hnull
    · have hle := hrest.optind.2
      rw [hs] at hle
      exact .inr ⟨n, ss, hp, hs, hstrs, hle⟩
  have hline := RenderCalls.gives_swAuditCommandLine hsub m alloc hm.arrays hm.coloured hm.plain (color && b.echoColor)
  rw [← hrest.optind.1] at hline
  unfold Audit.inputValue
  refine gives_bind (gives_swAuditHasCommandWord hrest) ?_
  by_cases ht : s.typed ≠ []
  · rw [if_pos ht, decide_eq_true ht, if_pos rfl]
    refine gives_bind hline ?_
    cases Audit.swAuditCommandLine alloc s (color && b.echoColor) with
    | none => exact gives_pure none
    | some line => exact gives_pure _
  · rw [if_neg ht, decide_eq_false ht, if_neg (by decide)]
    refine gives_bind (gives_swAuditRunsShell hrest.settings) ?_
    cases Audit.swAuditRunsShell s.settings with
    | false => exact gives_pure none
    | true => exact gives_pure (some none)

theorem gives_auditBlock {h : Handed} {s : Submission} (huser : ArrayAt g h.userInfo s.userInfo) (hrest : RestAt g h s)
    {alloc : AllocSite → Bool} {m : Allocs} (hm : SameAllocs alloc m) (b : AuditBuild) (color : Bool) :
    Gives (auditBlock b alloc m h color) g (Audit.auditBlock b alloc s color) g := by
  unfold auditBlock Audit.auditBlock
  refine gives_bind (gives_inputValue hrest hm b color) ?_
  cases Audit.inputValue b alloc s color with
  | none => exact gives_pure none
  | some commandLine =>
    refine gives_bind (gives_userLine hrest.settings alloc) (gives_bind (gives_swAuditDirRowValue huser hrest.settings alloc) ?_)
    cases Audit.userLine alloc s with
    | none => exact gives_pure none
    | some user => exact gives_bind (gives_swAuditPathRowValue hrest alloc) (gives_pure _)

theorem gives_sudowhatAuditOpen {h : Handed} {s : Submission} (huser : ArrayAt g h.userInfo s.userInfo) (b : AuditBuild)
    (env : AuditEnv) {m : Allocs} (hm : SameAllocs env.alloc m) (version : UInt32)
    (hrest : Audit.PastChecks b env version s → RestAt g h s) :
    Gives (sudowhatAuditOpen b env m version h) g (Audit.sudowhatAuditOpen b env version s) g := by
  unfold sudowhatAuditOpen Audit.sudowhatAuditOpen
  split
  · exact gives_pure _
  · next hapi =>
    split
    · exact gives_pure _
    · next hon =>
      obtain ⟨r, hr, hv⟩ := gives_findKv huser (show 0 ∉ lit "uid" by decide)
      refine gives_bind hr ?_
      cases r with
      | none =>
        rw [hv.of_none]
        exact gives_pure _
      | some q =>
        obtain ⟨uid, huid, hload, -⟩ := hv.string
        rw [huid]
        refine gives_bind hload ?_
        dsimp only
        split
        · exact gives_pure _
        · next hroot =>
          cases ha : env.approvalSignature with
          | error e => exact gives_pure _
          | ok u =>
            cases hp : env.pamSignature with
            | error e => exact gives_pure _
            | ok u =>
              have h' := hrest ⟨not_not.mp hapi, by simpa using hon, ⟨uid, huid, hroot⟩, ha, hp⟩
              refine gives_bind (gives_swAuditColorAllowed h'.envp) (gives_bind (gives_auditBlock huser h' hm b _) ?_)
              unfold Audit.showBlock
              cases Audit.auditBlock b env.alloc s (Audit.swAuditColorAllowed s.envp) with
              | none => exact gives_pure _
              | some block => exact gives_pure _

theorem gives_sudowhatAuditOpenLinux {h : Handed} {s : Submission} (huser : ArrayAt g h.userInfo s.userInfo) (displayOn : Bool)
    (tty : Tty) (fuel : Nat) (version : UInt32) (hrest : Linux.PastChecks displayOn version s.userInfo → RestAt g h s) :
    Gives (sudowhatAuditOpenLinux displayOn tty fuel version h) g
      (Linux.sudowhatAuditOpen displayOn tty fuel version s.settings s.userInfo s.optind s.argv s.envp) g := by
  unfold sudowhatAuditOpenLinux Linux.sudowhatAuditOpen
  split
  · exact gives_pure _
  · next hapi =>
    split
    · exact gives_pure _
    · next hon =>
      have hwhole : ∀ {p : Ptr} {arr : Option (List Bytes)}, ArrayAt g p arr → Gives (collect p 0) g (Linux.collect arr 0) g :=
        fun h => gives_collect h (by omega)
      refine gives_bind (hwhole huser) ?_
      cases huid : Linux.findKv (Linux.collect s.userInfo 0) (lit "uid") with
      | none => exact gives_pure _
      | some uid =>
        dsimp only
        split
        · exact gives_pure _
        · next hroot =>
          have h' := hrest ⟨not_not.mp hapi, by simpa using hon, ⟨uid, huid, hroot⟩⟩
          have hargv := gives_collect h'.argv h'.optind.2
          rw [← h'.optind.1] at hargv
          refine gives_bind (hwhole h'.settings) (gives_bind hargv (gives_bind (hwhole h'.envp) ?_))
          unfold Linux.openBlock
          rw [h'.optind.1]
          cases Linux.buildBlock (Linux.collect s.settings 0) (Linux.collect s.userInfo 0) (Linux.collect s.argv s.optind)
              (Linux.colorAllowed (Linux.collect s.envp 0)) with
          | none => exact gives_pure _
          | some block => exact gives_pure _

/-- Each `open()` over arrays where sudo says they are does what its model does and leaves
    memory as it was. Only a caller that is shown the block has more than `user_info` read. -/
theorem audit_opens_refine (g : Objects) (h : Handed) (s : Submission) (huser : ArrayAt g h.userInfo s.userInfo)
    (version : UInt32) :
    (∀ b env m, SameAllocs env.alloc m → (Audit.PastChecks b env version s → RestAt g h s) →
      Gives (sudowhatAuditOpen b env m version h) g (Audit.sudowhatAuditOpen b env version s) g) ∧
    ∀ displayOn tty fuel, (Linux.PastChecks displayOn version s.userInfo → RestAt g h s) →
      Gives (sudowhatAuditOpenLinux displayOn tty fuel version h) g
        (Linux.sudowhatAuditOpen displayOn tty fuel version s.settings s.userInfo s.optind s.argv s.envp) g :=
  ⟨fun b env _ hm hrest => gives_sudowhatAuditOpen huser b env hm version hrest,
    fun displayOn tty fuel hrest => gives_sudowhatAuditOpenLinux huser displayOn tty fuel version hrest⟩

end

/-! ## `sudo ls` -/

def sudoLs : Objects
  | 0 => some (.pointers [some 1, some 2, none])
  | 1 => some (.bytes (lit "sudo" ++ [0]))
  | 2 => some (.bytes (lit "ls" ++ [0]))
  | 3 => some (.pointers [some 4, none])
  | 4 => some (.bytes (lit "uid=501" ++ [0]))
  | _ => none

def sudoLsHanded : Handed := ⟨none, some 3, 1, some 0, none⟩

def sudoLsSubmission : Submission := ⟨none, some [lit "uid=501"], 1, some [lit "sudo", lit "ls"], none⟩

theorem sudoLs_rest : RestAt sudoLs sudoLsHanded sudoLsSubmission where
  settings := .inl ⟨rfl, rfl⟩
  argv := .inr ⟨0, _, rfl, rfl, [1, 2], [], rfl, .cons ⟨by decide, [], rfl⟩ (.cons ⟨by decide, [], rfl⟩ .nil)⟩
  optind := ⟨rfl, by decide⟩
  envp := .inl ⟨rfl, rfl⟩

def everyWrite : Tty := ⟨true, true, fun _ => .wrote 512⟩

theorem audit_opens_refine_ls :
    Gives (sudowhatAuditOpen .stock ⟨.ok (), .ok (), fun _ => true, everyWrite, 9⟩ ⟨true, true, true, true, fun _ => 7⟩ 0x10012
        sudoLsHanded) sudoLs
      (Audit.sudowhatAuditOpen .stock ⟨.ok (), .ok (), fun _ => true, everyWrite, 9⟩ 0x10012 sudoLsSubmission) sudoLs ∧
    Gives (sudowhatAuditOpenLinux true everyWrite 9 0x10012 sudoLsHanded) sudoLs
      (Linux.sudowhatAuditOpen true everyWrite 9 0x10012 none (some [lit "uid=501"]) 1 (some [lit "sudo", lit "ls"]) none) sudoLs :=
  have huser : ArrayAt sudoLs sudoLsHanded.userInfo sudoLsSubmission.userInfo :=
    .inr ⟨3, _, rfl, rfl, [4], [], rfl, .cons ⟨by decide, [], rfl⟩ .nil⟩
  ⟨(audit_opens_refine sudoLs sudoLsHanded sudoLsSubmission huser 0x10012).1 .stock _ _ ⟨rfl, rfl, rfl⟩ fun _ => sudoLs_rest,
    (audit_opens_refine sudoLs sudoLsHanded sudoLsSubmission huser 0x10012).2 true everyWrite 9 fun _ => sudoLs_rest⟩

end SudoWhat.OpenCalls
