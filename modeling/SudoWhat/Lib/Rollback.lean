/-
  SudoWhat.Lib.Rollback — scripts that write files and keep a list of how to undo it.

  A command writes one path, or nothing; the one that fails leaves its own path as it was,
  already written, or torn, and ends the script. `addRollback` notes a recipe for a path (remove
  it, or move its backup over it); after a failure the recipes are run, the last one first.

  Proved: what the recipes leave at a path depends on that path's recipes and its own slot
  (`rollback_apply`), so a script is followed one path at a time (`MeetsAt`), and past
  everything that is about another path (`Leaves`). A path is safe once the recipes restore it
  whatever its file becomes; a removal recorded for a file that is not there and a backup
  recorded for one that is make it so (`safe_of_remove`, `safe_of_backup`).
-/

import Mathlib.Data.List.Basic
import Mathlib.Logic.Function.Basic

namespace SudoWhat.Lib.Rollback

variable {K P C α β : Type}

/-! ## Files and recipes -/

/-- What stands at a path, and in the backup beside it. -/
structure Slot (C : Type) where
  file : Option C
  backup : Option C
  deriving DecidableEq, Repr

def Slot.change (g : Option C → Option C) (s : Slot C) : Slot C := { s with file := g s.file }

/-- What a failing command leaves of the file it writes. -/
inductive Leaving (C : Type) where
  | untouched
  | written
  /-- Part of it is there, or nothing. -/
  | torn (part : Option C)
  deriving DecidableEq, Repr

/-- What stands where `g` was to be written. -/
def Leaving.change (l : Leaving C) (g : Option C → Option C) : Option C → Option C :=
  match l with
  | .untouched => id
  | .written => g
  | .torn part => fun _ => part

/-- `cp` to the backup. -/
def Slot.backUp (l : Leaving C) (s : Slot C) : Slot C := { s with backup := l.change (fun _ => s.file) s.backup }

inductive Recipe where
  /-- `rm -f`. -/
  | remove
  /-- `mv -f` from the backup. -/
  | restore
  deriving DecidableEq, Repr

def Recipe.run : Recipe → Slot C → Slot C
  | .remove, s => { s with file := none }
  | .restore, s =>
    match s.backup with
    | some c => ⟨some c, none⟩
    -- nothing to move
    | none => s

/-- What the recipes, the oldest first, make of a slot. -/
def undo (recipes : List Recipe) (s : Slot C) : Slot C := recipes.foldr Recipe.run s

structure Shell (P C : Type) where
  slots : P → Slot C
  /-- In the order in which they were recorded. -/
  recipes : List (P × Recipe)

section
variable [DecidableEq P]

def runRecipe (u : P × Recipe) (slots : P → Slot C) : P → Slot C := Function.update slots u.1 (u.2.run (slots u.1))

/-- The slots after the recorded recipes, the last one first. -/
def Shell.rollback (sh : Shell P C) : P → Slot C := sh.recipes.foldr runRecipe sh.slots

def Shell.edit (p : P) (f : Slot C → Slot C) (sh : Shell P C) : Shell P C :=
  { sh with slots := Function.update sh.slots p (f (sh.slots p)) }

def Shell.record (p : P) (r : Recipe) (sh : Shell P C) : Shell P C := { sh with recipes := sh.recipes ++ [(p, r)] }

end

/-! ## Scripts -/

/-- The command that fails, if any does, and what it leaves of its file. -/
structure Fault (K C : Type) where
  command : Option K
  leaves : Leaving C

/-- Ends with a value, or in the state in which the failing command left things. -/
def Script (K P C α : Type) := Fault K C → Shell P C → Except (Shell P C) (α × Shell P C)

instance : Monad (Script K P C) where
  pure a := fun _ sh => .ok (a, sh)
  bind x f := fun fault sh =>
    match x fault sh with
    | .ok (a, sh) => f a fault sh
    | .error sh => .error sh

section
variable [DecidableEq K] [DecidableEq P]

/-- The command `k`: what it makes of the slot at `p`, by what it leaves of its file. -/
def command (k : K) (p : P) (f : Leaving C → Slot C → Slot C) : Script K P C Unit := fun fault sh =>
  if fault.command = some k then .error (sh.edit p (f fault.leaves)) else .ok ((), sh.edit p (f .written))

/-- The command `k`, which writes the file at `p`. -/
def write (k : K) (p : P) (g : Option C → Option C) : Script K P C Unit := command k p fun l => Slot.change (l.change g)

/-- The command `k`, which writes nothing. -/
def check (k : K) : Script K P C Unit := fun fault sh => if fault.command = some k then .error sh else .ok ((), sh)

def addRollback (p : P) (r : Recipe) : Script K P C Unit := fun _ sh => .ok ((), sh.record p r)

def read (p : P) : Script K P C (Option C) := fun _ sh => .ok ((sh.slots p).file, sh)

/-- A condition on what stands at a path. -/
def test (p : P) (cond : Option C → Bool) : Script K P C Bool := do return cond (← read p)

/-- `[ -f p ]`. -/
def isFile (p : P) : Script K P C Bool := test p Option.isSome

/-- `cp p p.bak`, and the recipe that moves it back. -/
def backUp (k : K) (p : P) : Script K P C Unit := do
  command k p Slot.backUp
  addRollback p .restore

end

/-! ## One path of a shell -/

structure View (C : Type) where
  slot : Slot C
  recipes : List Recipe

def View.edit (f : Slot C → Slot C) (v : View C) : View C := { v with slot := f v.slot }

def View.record (r : Recipe) (v : View C) : View C := { v with recipes := v.recipes ++ [r] }

/-- What the path is rolled back to. -/
def View.undone (v : View C) : Option C := (undo v.recipes v.slot).file

section
variable [DecidableEq P]

def Shell.view (p : P) (sh : Shell P C) : View C := ⟨sh.slots p, (sh.recipes.filter (·.1 = p)).map (·.2)⟩

@[simp] theorem view_edit (p : P) (f : Slot C → Slot C) (sh : Shell P C) : (sh.edit p f).view p = (sh.view p).edit f := by
  simp [Shell.view, Shell.edit, View.edit]

@[simp] theorem view_record (p : P) (r : Recipe) (sh : Shell P C) : (sh.record p r).view p = (sh.view p).record r := by
  simp [Shell.view, Shell.record, View.record]

theorem view_edit_ne {p q : P} (h : q ≠ p) (f : Slot C → Slot C) (sh : Shell P C) : (sh.edit q f).view p = sh.view p := by
  simp [Shell.view, Shell.edit, Function.update_of_ne h.symm]

theorem view_record_ne {p q : P} (h : q ≠ p) (r : Recipe) (sh : Shell P C) : (sh.record q r).view p = sh.view p := by
  simp [Shell.view, Shell.record, h]

/-- Recipes of other paths neither read nor write a path's slot. -/
theorem rollback_apply (sh : Shell P C) (p : P) : sh.rollback p = undo (sh.view p).recipes (sh.slots p) := by
  obtain ⟨slots, recipes⟩ := sh
  simp only [Shell.rollback, Shell.view]
  induction recipes with
  | nil => rfl
  | cons u us ih =>
    by_cases hu : u.1 = p
    · subst hu
      simp [runRecipe, undo, ih]
    · have hne : p ≠ u.1 := fun h => hu h.symm
      simp [runRecipe, hu, Function.update_of_ne hne, ih]

theorem rollback_file (sh : Shell P C) (p : P) : (sh.rollback p).file = (sh.view p).undone := by
  rw [rollback_apply]
  rfl

end

/-! ## Safe paths -/

/-- The recipes restore `goal`, whatever the file becomes. -/
def View.Safe (goal : Option C) (v : View C) : Prop := ∀ file, (undo v.recipes ⟨file, v.slot.backup⟩).file = goal

theorem View.Safe.undone {goal : Option C} {v : View C} (h : v.Safe goal) : v.undone = goal := h v.slot.file

theorem View.Safe.change {goal : Option C} {v : View C} (h : v.Safe goal) (g : Option C → Option C) :
    (v.edit (Slot.change g)).Safe goal := h

theorem undo_file_congr {rs : List Recipe} (hrs : .restore ∉ rs) {s t : Slot C} (h : s.file = t.file) :
    (undo rs s).file = (undo rs t).file := by
  induction rs with
  | nil => exact h
  | cons r rs ih =>
    obtain ⟨hr, hrs⟩ := not_or.mp (List.mem_cons.not.mp hrs)
    cases r with
    | remove => rfl
    | restore => exact absurd rfl hr

theorem undone_backUp {v : View C} (hrs : .restore ∉ v.recipes) (l : Leaving C) : (v.edit (Slot.backUp l)).undone = v.undone :=
  undo_file_congr hrs rfl

theorem undo_append (rs : List Recipe) (r : Recipe) (s : Slot C) : undo (rs ++ [r]) s = undo rs (r.run s) := by
  simp [undo]

theorem safe_of_remove {v : View C} (hrs : .restore ∉ v.recipes) (hfile : v.slot.file = none) :
    (v.record .remove).Safe v.undone := by
  intro file
  simp only [View.record, undo_append]
  exact undo_file_congr hrs hfile.symm

/-- A file that is there is copied first, and the copy moved back. -/
theorem safe_of_backup {v : View C} (hrs : .restore ∉ v.recipes) {c : C} (hfile : v.slot.file = some c) :
    ((v.edit (Slot.backUp .written)).record .restore).Safe v.undone := by
  intro file
  simp only [View.record, View.edit, Slot.backUp, Leaving.change, undo_append, Recipe.run, hfile]
  exact undo_file_congr hrs hfile.symm

/-! ## A script, seen from one path -/

section
variable [DecidableEq P]

/-- From a view with `pre`, the script ends with `post` or fails with `failed`. -/
def MeetsAt (fault : Fault K C) (p : P) (pre : View C → Prop) (x : Script K P C α) (post : α → View C → Prop)
    (failed : View C → Prop) : Prop :=
  ∀ sh : Shell P C, pre (sh.view p) →
    match x fault sh with
    | .ok (a, sh) => post a (sh.view p)
    | .error sh => failed (sh.view p)

/-- Whatever the script does, it does to other paths. -/
def Leaves (p : P) (x : Script K P C α) : Prop :=
  ∀ (fault : Fault K C) (v : View C), MeetsAt fault p (· = v) x (fun _ => (· = v)) (· = v)

variable {fault : Fault K C} {p q : P} {pre failed : View C → Prop} {post : α → View C → Prop} {x : Script K P C α}

theorem meetsAt_pure {a : α} (h : ∀ v, pre v → post a v) : MeetsAt fault p pre (pure a) post failed :=
  fun _ hpre => h _ hpre

theorem MeetsAt.bind {f : α → Script K P C β} {between : α → View C → Prop} {post : β → View C → Prop}
    (hx : MeetsAt fault p pre x between failed) (hf : ∀ a, MeetsAt fault p (between a) (f a) post failed) :
    MeetsAt fault p pre (x >>= f) post failed := by
  intro sh hpre
  have h := hx sh hpre
  show match (match x fault sh with | .ok (a, sh) => f a fault sh | .error sh => .error sh) with
    | .ok (b, sh) => post b (sh.view p)
    | .error sh => failed (sh.view p)
  cases hrun : x fault sh with
  | ok r => rw [hrun] at h; exact hf _ _ h
  | error sh => rw [hrun] at h; exact h

theorem MeetsAt.imp {pre' failed' : View C → Prop} {post' : α → View C → Prop} (h : MeetsAt fault p pre x post failed)
    (hpre : ∀ v, pre' v → pre v) (hpost : ∀ a v, post a v → post' a v) (hfailed : ∀ v, failed v → failed' v) :
    MeetsAt fault p pre' x post' failed' := by
  intro sh hv
  have h := h sh (hpre _ hv)
  cases hrun : x fault sh with
  | ok r => rw [hrun] at h; exact hpost _ _ h
  | error sh => rw [hrun] at h; exact hfailed _ h

theorem meetsAt_true : MeetsAt fault p pre x (fun _ _ => True) (fun _ => True) := by
  intro sh _
  cases hrun : x fault sh <;> trivial

theorem meetsAt_of_fact {fact : Prop} (h : fact → MeetsAt fault p pre x post failed) :
    MeetsAt fault p (fun v => fact ∧ pre v) x post failed := fun sh hpre => h hpre.1 sh hpre.2

theorem meetsAt_addRollback {r : Recipe} {post : Unit → View C → Prop} (h : ∀ v, pre v → post () (v.record r)) :
    MeetsAt fault p pre (addRollback p r) post failed := by
  intro sh hpre
  show post () ((sh.record p r).view p)
  rw [view_record]
  exact h _ hpre

theorem meetsAt_test {cond : Option C → Bool} {f : Bool → Script K P C β} {post : β → View C → Prop}
    (h : ∀ b, MeetsAt fault p (fun v => pre v ∧ cond v.slot.file = b) (f b) post failed) :
    MeetsAt fault p pre (test p cond >>= f) post failed := by
  have htest : MeetsAt fault p pre (test p cond : Script K P C Bool) (fun b v => pre v ∧ cond v.slot.file = b) failed :=
    fun _ hpre => ⟨hpre, rfl⟩
  exact htest.bind h

/-- One branch for a file that is there, one for a file that is not. -/
theorem meetsAt_isFile {f : Bool → Script K P C β} {post : β → View C → Prop}
    (hthere : MeetsAt fault p (fun v => pre v ∧ v.slot.file.isSome) (f true) post failed)
    (habsent : MeetsAt fault p (fun v => pre v ∧ v.slot.file = none) (f false) post failed) :
    MeetsAt fault p pre (isFile p >>= f) post failed := by
  apply meetsAt_test
  intro b
  cases b with
  | true => exact hthere
  | false =>
    refine habsent.imp (fun v hv => ⟨hv.1, ?_⟩) (fun _ _ h => h) fun _ h => h
    exact Option.not_isSome_iff_eq_none.mp (Bool.eq_false_iff.mp hv.2)

/-- What is known of a path stays true past a script that leaves it. -/
theorem Leaves.meetsAt (h : Leaves p x) : MeetsAt fault p pre x (fun _ => pre) pre := by
  intro sh hpre
  have h := h fault _ sh rfl
  cases hrun : x fault sh with
  | ok r =>
    rw [hrun] at h
    show pre (r.2.view p)
    rw [show r.2.view p = sh.view p from h]
    exact hpre
  | error failing =>
    rw [hrun] at h
    show pre (failing.view p)
    rw [show failing.view p = sh.view p from h]
    exact hpre

theorem Leaves.bind_meetsAt {f : α → Script K P C β} {post : β → View C → Prop} (hx : Leaves p x)
    (hfailed : ∀ v, pre v → failed v) (hf : ∀ a, MeetsAt fault p pre (f a) post failed) :
    MeetsAt fault p pre (x >>= f) post failed :=
  (hx.meetsAt.imp (fun _ h => h) (fun _ _ h => h) hfailed).bind hf

theorem MeetsAt.bind_leaves {f : α → Script K P C β} {after : View C → Prop}
    (hx : MeetsAt fault p pre x (fun _ => after) failed) (hf : ∀ a, Leaves p (f a)) (hfailed : ∀ v, after v → failed v) :
    MeetsAt fault p pre (x >>= f) (fun _ => after) failed :=
  hx.bind fun a => (hf a).meetsAt.imp (fun _ h => h) (fun _ _ h => h) hfailed

theorem leaves_pure (a : α) : Leaves p (pure a : Script K P C α) := fun _ _ => meetsAt_pure fun _ h => h

theorem leaves_bind {f : α → Script K P C β} (hx : Leaves p x) (hf : ∀ a, Leaves p (f a)) : Leaves p (x >>= f) :=
  fun fault v => (hx fault v).bind fun a => hf a fault v

theorem meetsAt_addRollback_ne (h : q ≠ p) (r : Recipe) :
    MeetsAt fault p pre (addRollback q r) (fun _ => pre) failed := by
  intro sh hpre
  show pre ((sh.record q r).view p)
  rw [view_record_ne h]
  exact hpre

theorem meetsAt_test_any (q : P) (cond : Option C → Bool) : MeetsAt fault p pre (test q cond) (fun _ => pre) failed :=
  fun _ hpre => hpre

theorem leaves_addRollback (h : q ≠ p) (r : Recipe) : Leaves p (addRollback q r : Script K P C Unit) :=
  fun _ _ => meetsAt_addRollback_ne h r

theorem leaves_test (q : P) (cond : Option C → Bool) : Leaves p (test q cond : Script K P C Bool) :=
  fun _ _ => meetsAt_test_any q cond

/-! ## Commands -/

variable [DecidableEq K] {k : K} {goal : Option C}

theorem meetsAt_command {f : Leaving C → Slot C → Slot C} {post : Unit → View C → Prop}
    (hpost : fault.command ≠ some k → ∀ v, pre v → post () (v.edit (f .written)))
    (hfailed : fault.command = some k → ∀ v, pre v → failed (v.edit (f fault.leaves))) :
    MeetsAt fault p pre (command k p f) post failed := by
  intro sh hpre
  unfold command
  by_cases hk : fault.command = some k
  · simpa [hk] using hfailed hk _ hpre
  · simpa [hk] using hpost hk _ hpre

theorem meetsAt_write {g : Option C → Option C} {post : Unit → View C → Prop}
    (hpost : fault.command ≠ some k → ∀ v, pre v → post () (v.edit (Slot.change g)))
    (hfailed : fault.command = some k → ∀ v, pre v → failed (v.edit (Slot.change (fault.leaves.change g)))) :
    MeetsAt fault p pre (write k p g) post failed := meetsAt_command hpost hfailed

theorem meetsAt_command_ne (h : q ≠ p) (f : Leaving C → Slot C → Slot C) : MeetsAt fault p pre (command k q f)
    (fun _ v => fault.command ≠ some k ∧ pre v) (fun v => fault.command = some k ∧ pre v) := by
  intro sh hpre
  unfold command
  by_cases hk : fault.command = some k
  · simpa [hk, view_edit_ne h] using hpre
  · simpa [hk, view_edit_ne h] using hpre

theorem leaves_command (h : q ≠ p) (k : K) (f : Leaving C → Slot C → Slot C) : Leaves p (command k q f) :=
  fun _ _ => (meetsAt_command_ne h f).imp (fun _ hv => hv) (fun _ _ hv => hv.2) fun _ hv => hv.2

theorem leaves_write (h : q ≠ p) (k : K) (g : Option C → Option C) : Leaves p (write k q g) := leaves_command h k _

theorem leaves_check (k : K) : Leaves p (check k : Script K P C Unit) := by
  intro fault v sh hv
  unfold check
  by_cases hk : fault.command = some k <;> simpa [hk] using hv

theorem leaves_backUp (h : q ≠ p) (k : K) : Leaves p (backUp k q : Script K P C Unit) :=
  leaves_bind (leaves_command h k _) fun _ => leaves_addRollback h _

/-- A backup that succeeds makes the path safe; one that fails changes nothing the recipes
    look at. -/
theorem meetsAt_backUp (h : ∀ v, pre v → .restore ∉ v.recipes ∧ v.slot.file.isSome ∧ v.undone = goal) :
    MeetsAt fault p pre (backUp k p) (fun _ => View.Safe goal) (·.undone = goal) := by
  have hcopy : MeetsAt fault p pre (command k p Slot.backUp) (fun _ v => (v.record .restore).Safe goal)
      (·.undone = goal) := by
    apply meetsAt_command
    · intro _ v hv
      obtain ⟨hrs, hfile, rfl⟩ := h v hv
      obtain ⟨c, hc⟩ := Option.isSome_iff_exists.mp hfile
      exact safe_of_backup hrs hc
    · intro _ v hv
      obtain ⟨hrs, -, rfl⟩ := h v hv
      exact undone_backUp hrs _
  exact hcopy.bind fun _ => meetsAt_addRollback fun _ hv => hv

/-- A safe path stays safe when it is written, whatever is left of it. -/
theorem meetsAt_write_safe (k : K) (g : Option C → Option C) : MeetsAt fault p (View.Safe goal)
    (write k p g) (fun _ => View.Safe goal) (·.undone = goal) :=
  meetsAt_write (fun _ _ hv => hv.change g) fun _ _ hv => (hv.change _).undone

end

/-! ## Nothing fails -/

/-- With no command failing the script comes to its end. -/
def Succeeds (x : Script K P C α) : Prop := ∀ leaves sh, ∃ r, x ⟨none, leaves⟩ sh = .ok r

theorem succeeds_pure (a : α) : Succeeds (pure a : Script K P C α) := fun _ sh => ⟨(a, sh), rfl⟩

theorem succeeds_bind {x : Script K P C α} {f : α → Script K P C β} (hx : Succeeds x) (hf : ∀ a, Succeeds (f a)) :
    Succeeds (x >>= f) := by
  intro leaves sh
  obtain ⟨⟨a, sh'⟩, hrun⟩ := hx leaves sh
  obtain ⟨r, hrest⟩ := hf a leaves sh'
  exact ⟨r, by simp only [bind, hrun, hrest]⟩

theorem succeeds_test (p : P) (cond : Option C → Bool) : Succeeds (test p cond : Script K P C Bool) :=
  fun _ sh => ⟨(cond (sh.slots p).file, sh), rfl⟩

theorem succeeds_addRollback (p : P) (r : Recipe) : Succeeds (addRollback p r : Script K P C Unit) :=
  fun _ sh => ⟨((), sh.record p r), rfl⟩

section
variable [DecidableEq K]

theorem succeeds_check (k : K) : Succeeds (check k : Script K P C Unit) := fun _ sh => ⟨((), sh), by simp [check]⟩

variable [DecidableEq P]

theorem succeeds_command (k : K) (p : P) (f : Leaving C → Slot C → Slot C) : Succeeds (command k p f) :=
  fun _ sh => ⟨((), sh.edit p (f .written)), by simp [command]⟩

end

end SudoWhat.Lib.Rollback
