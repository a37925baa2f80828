/-
  SudoWhat.Lib.Founded — files that name other files, while a script writes them.

  Some paths are targets: files elsewhere name them, and they name none. The files are founded
  when every target that is named is there. A run is cut short wherever a command can fail, and
  then rolled back one recipe at a time; each of these is an instant of it (`Instant`).

  A script that first puts its targets in place, with a removal recorded for each one that was
  not there (`Ahead`), and writes the files that name them only then (`Behind`), is rolled back
  in the reverse order. Proved: from founded files both stages are founded at every instant of
  their rollback, whatever names what (`Ahead.founded`, `Behind.founded`), but for a target that
  was taken away to be put in place and is not there again: then exactly if nothing named it
  (`Ahead.founded_torn_iff`); with the rules that carry a stage along a script (`Meets`, `Keeps`,
  `meets_place`). Where files are only removed or cleaned, founded files stay so exactly if no
  target goes before what names it (`founded_applied_iff`).
-/

import SudoWhat.Lib.Rollback

namespace SudoWhat.Lib.Rollback

variable {K P C α β : Type}

/-! ## Instants -/

section
variable [DecidableEq P]

/-- The slots once all but the first `left` recipes have run. -/
def Shell.rollingBack (sh : Shell P C) (left : Nat) : P → Slot C := (sh.recipes.drop left).foldr runRecipe sh.slots

/-- What stands in the files at some instant of a run. With all recipes left it is the instant
    at which the command fails, so also one that a run of more luck passes through. -/
inductive Instant (x : Script K P C α) (sh : Shell P C) (fault : Fault K C) : (P → Slot C) → Prop where
  | failed {sh' : Shell P C} (h : x fault sh = .error sh') (left : Nat) : Instant x sh fault (sh'.rollingBack left)
  | ended {a : α} {sh' : Shell P C} (h : x fault sh = .ok (a, sh')) : Instant x sh fault sh'.slots

theorem rollingBack_apply (sh : Shell P C) (left : Nat) (p : P) : sh.rollingBack left p =
    undo (((sh.recipes.drop left).filter (·.1 = p)).map (·.2)) (sh.slots p) :=
  rollback_apply ⟨sh.slots, sh.recipes.drop left⟩ p

theorem foldr_runRecipe_ne {recipes : List (P × Recipe)} {p : P} (h : ∀ u ∈ recipes, u.1 ≠ p) (slots : P → Slot C) :
    recipes.foldr runRecipe slots p = slots p := by
  induction recipes with
  | nil => rfl
  | cons u us ih =>
    have hne : p ≠ u.1 := (h u List.mem_cons_self).symm
    rw [List.foldr_cons, runRecipe, Function.update_of_ne hne]
    exact ih fun u' hu' => h u' (List.mem_cons_of_mem _ hu')

@[simp] theorem edit_slots (p : P) (f : Slot C → Slot C) (sh : Shell P C) : (sh.edit p f).slots p = f (sh.slots p) :=
  Function.update_self ..

theorem edit_slots_ne {p q : P} (h : q ≠ p) (f : Slot C → Slot C) (sh : Shell P C) :
    (sh.edit p f).slots q = sh.slots q := Function.update_of_ne h ..

end

/-! ## Founded files -/

/-- `names q c p`: the file at `q`, when it holds `c`, names `p`. -/
def Founded (names : P → C → P → Prop) (files : P → Option C) : Prop :=
  ∀ q c p, files q = some c → names q c p → (files p).isSome = true

/-- What is named is a target, and what names it is not. -/
def Targets (target : P → Prop) (names : P → C → P → Prop) : Prop := ∀ q c p, names q c p → target p ∧ ¬ target q

/-- The removal of a target that was not there. -/
def IsRemoval (target : P → Prop) (before : P → Option C) (u : P × Recipe) : Prop :=
  target u.1 ∧ u.2 = .remove ∧ before u.1 = none

/-- Targets are being put in place; nothing else has been touched. -/
structure Ahead (target : P → Prop) (before : P → Option C) (sh : Shell P C) : Prop where
  recipes : ∀ u ∈ sh.recipes, IsRemoval target before u
  others : ∀ q, ¬ target q → (sh.slots q).file = before q
  targets : ∀ p, target p → (sh.slots p).file = none → before p = none

/-- All targets are in place; what has been recorded since is about other paths. -/
structure Behind (target : P → Prop) (before : P → Option C) (sh : Shell P C) : Prop where
  recipes : ∃ removals since, sh.recipes = removals ++ since ∧ (∀ u ∈ removals, IsRemoval target before u) ∧
    ∀ u ∈ since, ¬ target u.1
  targets : ∀ p, target p → (sh.slots p).file.isSome = true

section
variable {target : P → Prop} {names : P → C → P → Prop} {before : P → Option C} {sh : Shell P C}

theorem IsRemoval.ne {u : P × Recipe} (h : IsRemoval target before u) {p : P} (hp : (before p).isSome = true) :
    u.1 ≠ p := by
  rintro rfl
  rw [h.2.2] at hp
  cases hp

theorem undo_removals {rs : List Recipe} (h : ∀ r ∈ rs, r = .remove) {s : Slot C} (hs : s.file = none) :
    (undo rs s).file = none := by
  cases rs with
  | nil => exact hs
  | cons r rs =>
    obtain rfl := h r List.mem_cons_self
    rfl

theorem IsRemoval.ne_other {u : P × Recipe} (h : IsRemoval target before u) {q : P} (hq : ¬ target q) : u.1 ≠ q := by
  rintro rfl
  exact hq h.1

variable [DecidableEq P]

theorem Ahead.other (h : Ahead target before sh) {q : P} (hq : ¬ target q) (left : Nat) :
    (sh.rollingBack left q).file = before q := by
  have hrun : ∀ u ∈ sh.recipes.drop left, u.1 ≠ q := fun u hu => (h.recipes u (List.mem_of_mem_drop hu)).ne_other hq
  rw [Shell.rollingBack, foldr_runRecipe_ne hrun]
  exact h.others q hq

theorem Ahead.there (h : Ahead target before sh) {p : P} (hp : target p) (hwas : (before p).isSome = true) (left : Nat) :
    (sh.rollingBack left p).file.isSome = true := by
  have hrun : ∀ u ∈ sh.recipes.drop left, u.1 ≠ p := fun u hu => (h.recipes u (List.mem_of_mem_drop hu)).ne hwas
  rw [Shell.rollingBack, foldr_runRecipe_ne hrun, Option.isSome_iff_ne_none]
  intro hnone
  rw [h.targets p hp hnone] at hwas
  cases hwas

theorem Ahead.founded (h : Ahead target before sh) (htargets : Targets target names) (hbefore : Founded names before)
    (left : Nat) : Founded names fun p => (sh.rollingBack left p).file := by
  intro q c p hq hnames
  obtain ⟨hp, hnot⟩ := htargets q c p hnames
  exact h.there hp (hbefore q c p ((h.other hnot left).symm.trans hq) hnames) left

/-- A target that has been taken away: the files are founded exactly if none of them named it,
    and rolling back does not change that. -/
theorem Ahead.founded_torn_iff (h : Ahead target before sh) (htargets : Targets target names)
    (hbefore : Founded names before) {t : P} (ht : target t) (left : Nat) :
    (Founded names fun p => ((sh.edit t (Slot.change fun _ => none)).rollingBack left p).file) ↔
      ∀ q c, before q = some c → ¬ names q c t := by
  have hgone : ((sh.edit t (Slot.change fun _ => none)).rollingBack left t).file = none := by
    rw [rollingBack_apply, edit_slots]
    refine undo_removals (fun r hr => ?_) rfl
    obtain ⟨u, hu, rfl⟩ := List.mem_map.mp hr
    exact (h.recipes u (List.mem_of_mem_drop (List.mem_filter.mp hu).1)).2.1
  have hrest : ∀ p, p ≠ t → (sh.edit t (Slot.change fun _ => none)).rollingBack left p = sh.rollingBack left p := by
    intro p hp
    rw [rollingBack_apply, rollingBack_apply, edit_slots_ne hp]
    rfl
  have hother : ∀ q, ¬ target q → ((sh.edit t (Slot.change fun _ => none)).rollingBack left q).file = before q := by
    intro q hq
    have hqt : q ≠ t := by
      rintro rfl
      exact hq ht
    rw [hrest q hqt, h.other hq]
  constructor
  · intro hfounded q c hq hnames
    have hthere : ((sh.edit t (Slot.change fun _ => none)).rollingBack left t).file.isSome = true :=
      hfounded q c t ((hother q (htargets q c t hnames).2).trans hq) hnames
    rw [hgone] at hthere
    cases hthere
  · intro hunnamed q c p hq hnames
    obtain ⟨hp, hnot⟩ := htargets q c p hnames
    have hwas : before q = some c := (hother q hnot).symm.trans hq
    have hpt : p ≠ t := by
      rintro rfl
      exact hunnamed q c hwas hnames
    show ((sh.edit t (Slot.change fun _ => none)).rollingBack left p).file.isSome = true
    rw [hrest p hpt]
    exact h.there hp (hbefore q c p hwas hnames) left

/-- Rolled back as far as the removals, the files that name targets are as they were. -/
theorem Behind.founded (h : Behind target before sh) (htargets : Targets target names) (hbefore : Founded names before)
    (hback : ∀ q, ¬ target q → (sh.rollback q).file = before q) (left : Nat) :
    Founded names fun p => (sh.rollingBack left p).file := by
  obtain ⟨⟨removals, since, hsh, hremovals, hsince⟩, hthere⟩ := h
  intro q c p hq hnames
  obtain ⟨hp, hnot⟩ := htargets q c p hnames
  have hsincep : ∀ u ∈ since, u.1 ≠ p := by
    rintro u hu rfl
    exact hsince u hu hp
  show (sh.rollingBack left p).file.isSome = true
  by_cases hleft : removals.length ≤ left
  · -- no removal has run yet
    have hrun : ∀ u ∈ sh.recipes.drop left, u.1 ≠ p := by
      intro u hu
      rw [hsh, List.drop_append, List.drop_eq_nil_of_le hleft, List.nil_append] at hu
      exact hsincep u (List.mem_of_mem_drop hu)
    rw [Shell.rollingBack, foldr_runRecipe_ne hrun]
    exact hthere p hp
  · -- everything recorded since has been undone
    have hdrop : sh.recipes.drop left = removals.drop left ++ since := by
      rw [hsh, List.drop_append, show left - removals.length = 0 by omega, List.drop_zero]
    have hremoved : ∀ u ∈ removals.drop left, IsRemoval target before u := fun u hu =>
      hremovals u (List.mem_of_mem_drop hu)
    have hundone : (sh.rollingBack left q).file = before q := by
      rw [← hback q hnot, Shell.rollingBack, Shell.rollback, hdrop, hsh, List.foldr_append, List.foldr_append,
        foldr_runRecipe_ne fun u hu => (hremoved u hu).ne_other hnot,
        foldr_runRecipe_ne fun u hu => (hremovals u hu).ne_other hnot]
    have hwas : (before p).isSome = true := hbefore q c p (hundone.symm.trans hq) hnames
    have hrun : ∀ u ∈ sh.recipes.drop left, u.1 ≠ p := by
      intro u hu
      rw [hdrop] at hu
      rcases List.mem_append.mp hu with hu | hu
      · exact (hremoved u hu).ne hwas
      · exact hsincep u hu
    rw [Shell.rollingBack, foldr_runRecipe_ne hrun]
    exact hthere p hp

end

/-! ## Stages along a script -/

/-- From a shell with `pre`, the script ends with `post` or fails with `failed`. -/
def Meets (fault : Fault K C) (pre : Shell P C → Prop) (x : Script K P C α) (post failed : Shell P C → Prop) : Prop :=
  ∀ sh, pre sh → (∀ a sh', x fault sh = .ok (a, sh') → post sh') ∧ ∀ sh', x fault sh = .error sh' → failed sh'

/-- What holds before the script holds wherever it ends or fails. -/
def Keeps (fault : Fault K C) (kept : Shell P C → Prop) (x : Script K P C α) : Prop := Meets fault kept x kept kept

section
variable {fault : Fault K C} {pre between post failed kept : Shell P C → Prop} {x : Script K P C α}

theorem bind_ok {f : α → Script K P C β} {sh sh' : Shell P C} {a : α} (h : x fault sh = .ok (a, sh')) :
    (x >>= f) fault sh = f a fault sh' := by simp only [bind, h]

theorem bind_error {f : α → Script K P C β} {sh sh' : Shell P C} (h : x fault sh = .error sh') :
    (x >>= f) fault sh = .error sh' := by simp only [bind, h]

theorem Meets.bind {f : α → Script K P C β} (hx : Meets fault pre x between failed)
    (hf : ∀ a, Meets fault between (f a) post failed) : Meets fault pre (x >>= f) post failed := by
  intro sh hpre
  obtain ⟨hok, herror⟩ := hx sh hpre
  cases hrun : x fault sh with
  | ok r =>
    rw [bind_ok hrun]
    exact hf r.1 r.2 (hok r.1 r.2 hrun)
  | error sh' =>
    rw [bind_error hrun]
    refine ⟨nofun, ?_⟩
    rintro sh'' ⟨⟩
    exact herror sh' hrun

theorem Keeps.bind {f : α → Script K P C β} (hx : Keeps fault kept x) (hf : ∀ a, Keeps fault kept (f a)) :
    Keeps fault kept (x >>= f) := Meets.bind hx hf

theorem Meets.imp {pre' post' failed' : Shell P C → Prop} (h : Meets fault pre x post failed)
    (hpre : ∀ sh, pre' sh → pre sh) (hpost : ∀ sh, post sh → post' sh) (hfailed : ∀ sh, failed sh → failed' sh) :
    Meets fault pre' x post' failed' := by
  intro sh hsh
  obtain ⟨hok, herror⟩ := h sh (hpre sh hsh)
  exact ⟨fun a sh' hrun => hpost sh' (hok a sh' hrun), fun sh' hrun => hfailed sh' (herror sh' hrun)⟩

theorem meets_of_fact {fact : Prop} (h : fact → Meets fault pre x post failed) :
    Meets fault (fun sh => fact ∧ pre sh) x post failed := fun sh hsh => h hsh.1 sh hsh.2

theorem keeps_pure (a : α) : Keeps fault kept (pure a : Script K P C α) := by
  intro sh hsh
  refine ⟨?_, nofun⟩
  rintro a' sh' ⟨⟩
  exact hsh

theorem keeps_test (p : P) (cond : Option C → Bool) : Keeps fault kept (test p cond) := by
  intro sh hsh
  refine ⟨?_, nofun⟩
  rintro b sh' ⟨⟩
  exact hsh

theorem meets_isFile {p : P} {f : Bool → Script K P C β}
    (hthere : Meets fault (fun sh => pre sh ∧ (sh.slots p).file.isSome = true) (f true) post failed)
    (habsent : Meets fault (fun sh => pre sh ∧ (sh.slots p).file = none) (f false) post failed) :
    Meets fault pre (isFile p >>= f) post failed := by
  intro sh hpre
  have hrun : isFile p fault sh = .ok ((sh.slots p).file.isSome, sh) := rfl
  rw [bind_ok hrun]
  cases hfile : (sh.slots p).file with
  | some c => exact hthere sh ⟨hpre, by rw [hfile]; rfl⟩
  | none => exact habsent sh ⟨hpre, hfile⟩

theorem meets_addRollback {p : P} {r : Recipe} (h : ∀ sh, pre sh → post (sh.record p r)) :
    Meets fault pre (addRollback p r) post failed := by
  intro sh hsh
  refine ⟨?_, nofun⟩
  rintro u sh' ⟨⟩
  exact h sh hsh

variable [DecidableEq K]

theorem keeps_check (k : K) : Keeps fault kept (check k) := by
  intro sh hsh
  unfold check
  split
  · refine ⟨nofun, ?_⟩
    rintro sh' ⟨⟩
    exact hsh
  · refine ⟨?_, nofun⟩
    rintro u sh' ⟨⟩
    exact hsh

variable [DecidableEq P]

theorem meets_command {k : K} {p : P} {f : Leaving C → Slot C → Slot C}
    (hpost : ∀ sh, fault.command ≠ some k → pre sh → post (sh.edit p (f .written)))
    (hfailed : ∀ sh, fault.command = some k → pre sh → failed (sh.edit p (f fault.leaves))) :
    Meets fault pre (command k p f) post failed := by
  intro sh hsh
  unfold command
  split
  · next hk =>
    refine ⟨nofun, ?_⟩
    rintro sh' ⟨⟩
    exact hfailed sh hk hsh
  · next hk =>
    refine ⟨?_, nofun⟩
    rintro u sh' ⟨⟩
    exact hpost sh hk hsh

theorem keeps_command {k : K} {p : P} {f : Leaving C → Slot C → Slot C} (h : ∀ sh l, kept sh → kept (sh.edit p (f l))) :
    Keeps fault kept (command k p f) := meets_command (fun sh _ => h sh _) fun sh _ => h sh _

end

section
variable {target : P → Prop} {before : P → Option C}

/-- With all targets in place what was recorded for them stands in front. -/
theorem Ahead.behind {sh : Shell P C} (h : Ahead target before sh)
    (hthere : ∀ p, target p → (sh.slots p).file.isSome = true) : Behind target before sh :=
  ⟨⟨sh.recipes, [], by simp, h.recipes, nofun⟩, hthere⟩

theorem Behind.record {sh : Shell P C} (h : Behind target before sh) {q : P} (hq : ¬ target q) (r : Recipe) :
    Behind target before (sh.record q r) := by
  obtain ⟨⟨removals, since, hsh, hremovals, hsince⟩, hthere⟩ := h
  refine ⟨⟨removals, since ++ [(q, r)], ?_, hremovals, fun u hu => ?_⟩, hthere⟩
  · rw [Shell.record, hsh, List.append_assoc]
  · rcases List.mem_append.mp hu with hu | hu
    · exact hsince u hu
    · obtain rfl := List.mem_singleton.mp hu
      exact hq

variable [DecidableEq P]

theorem Behind.edit {sh : Shell P C} (h : Behind target before sh) {q : P} (hq : ¬ target q) (f : Slot C → Slot C) :
    Behind target before (sh.edit q f) := by
  refine ⟨h.recipes, fun p hp => ?_⟩
  have hne : p ≠ q := by
    rintro rfl
    exact hq hp
  rw [edit_slots_ne hne]
  exact h.targets p hp

theorem Ahead.edit {sh : Shell P C} (h : Ahead target before sh) {p : P} (hp : target p) {f : Slot C → Slot C}
    (hf : (f (sh.slots p)).file = none → before p = none) : Ahead target before (sh.edit p f) := by
  refine ⟨h.recipes, fun q hq => ?_, fun r hr hnone => ?_⟩
  · have hne : q ≠ p := by
      rintro rfl
      exact hq hp
    rw [edit_slots_ne hne]
    exact h.others q hq
  · by_cases hrp : r = p
    · subst hrp
      rw [edit_slots] at hnone
      exact hf hnone
    · rw [edit_slots_ne hrp] at hnone
      exact h.targets r hr hnone

/-- Targets were being put in place when it failed at this one, which may be torn by now. -/
def FailedAhead (target : P → Prop) (before : P → Option C) (p : P) (l : Leaving C) (sh : Shell P C) : Prop :=
  match l with
  | .torn part => ∃ ahead, Ahead target before ahead ∧ sh = ahead.edit p (Slot.change fun _ => part)
  | _ => Ahead target before sh

variable [DecidableEq K] {fault : Fault K C}

/-- Putting one target in place, its removal recorded if it was not there. -/
theorem meets_place (k : K) {p : P} (hp : target p) (c : C) :
    Meets fault (Ahead target before) (do
      if !(← isFile p) then addRollback p .remove
      write k p fun _ => some c : Script K P C Unit)
      (fun sh => fault.command ≠ some k ∧ Ahead target before sh)
      (fun sh => fault.command = some k ∧ FailedAhead target before p fault.leaves sh) := by
  have hwrite : Meets fault (Ahead target before) (write k p fun _ => some c : Script K P C Unit)
      (fun sh => fault.command ≠ some k ∧ Ahead target before sh)
      (fun sh => fault.command = some k ∧ FailedAhead target before p fault.leaves sh) := by
    refine meets_command (fun sh hk h => ⟨hk, h.edit hp nofun⟩) fun sh hk h => ⟨hk, ?_⟩
    cases fault.leaves with
    | untouched => exact h.edit hp (h.targets p hp)
    | written => exact h.edit hp nofun
    | torn part => exact ⟨sh, h, rfl⟩
  apply meets_isFile
  · exact fun sh h => hwrite sh h.1
  · refine Meets.bind (meets_addRollback fun sh h => ?_) fun _ => hwrite
    obtain ⟨hsh, hfile⟩ := h
    refine ⟨fun u hu => ?_, hsh.others, hsh.targets⟩
    rcases List.mem_append.mp hu with hu | hu
    · exact hsh.recipes u hu
    · obtain rfl := List.mem_singleton.mp hu
      exact ⟨hp, rfl, hsh.targets p hp hfile⟩

end

/-! ## Files that are removed or cleaned -/

/-- What a path holds from here on. -/
structure Change (P C : Type) where
  path : P
  file : Option C
  deriving DecidableEq, Repr

/-- The files after these changes, the oldest first. -/
def applied [DecidableEq P] (files : P → Option C) (changes : List (Change P C)) : P → Option C :=
  changes.foldl (fun now ch => Function.update now ch.path ch.file) files

/-- It leaves nothing that names a target, and of a target nothing at all. -/
def Tidy (target : P → Prop) (names : P → C → P → Prop) (ch : Change P C) : Prop :=
  (∀ c p, ch.file = some c → ¬ names ch.path c p) ∧ (target ch.path → ch.file = none)

section
variable [DecidableEq P] {target : P → Prop} {names : P → C → P → Prop} {files : P → Option C}
  {changes : List (Change P C)}

theorem applied_cases (files : P → Option C) (changes : List (Change P C)) (p : P) :
    ((∀ ch ∈ changes, ch.path ≠ p) ∧ applied files changes p = files p) ∨
      ∃ ch ∈ changes, ch.path = p ∧ applied files changes p = ch.file := by
  induction changes generalizing files with
  | nil => exact .inl ⟨nofun, rfl⟩
  | cons ch changes ih =>
    rcases ih (Function.update files ch.path ch.file) with ⟨hnone, heq⟩ | ⟨ch', hch', hpath, heq⟩
    · by_cases hp : ch.path = p
      · subst hp
        exact .inr ⟨ch, List.mem_cons_self, rfl, heq.trans (Function.update_self ..)⟩
      · refine .inl ⟨fun ch' hch' => ?_, heq.trans (Function.update_of_ne (fun h => hp h.symm) ..)⟩
        rcases List.mem_cons.mp hch' with rfl | hch'
        · exact hp
        · exact hnone ch' hch'
    · exact .inr ⟨ch', List.mem_cons_of_mem _ hch', hpath, heq⟩

/-- Founded files stay founded exactly if no target goes before what names it. -/
theorem founded_applied_iff (htargets : Targets target names) (hfiles : Founded names files)
    (htidy : ∀ ch ∈ changes, Tidy target names ch) : Founded names (applied files changes) ↔
      ∀ q c p, files q = some c → names q c p → (∃ ch ∈ changes, ch.path = p) → ∃ ch ∈ changes, ch.path = q := by
  constructor
  · intro hfounded q c p hq hnames ⟨ch, hch, hchp⟩
    rcases applied_cases files changes q with ⟨-, hsame⟩ | ⟨ch', hch', hpath, -⟩
    · -- `q` still names `p`, which is gone
      have hthere := hfounded q c p (hsame.trans hq) hnames
      rcases applied_cases files changes p with ⟨hnone, -⟩ | ⟨gone, hgone, hpath, heq⟩
      · exact absurd hchp (hnone ch hch)
      · have htarget : target gone.path := hpath ▸ (htargets q c p hnames).1
        rw [heq, (htidy gone hgone).2 htarget] at hthere
        cases hthere
    · exact ⟨ch', hch', hpath⟩
  · intro h q c p hq hnames
    rcases applied_cases files changes q with ⟨hnone, hsame⟩ | ⟨ch, hch, rfl, heq⟩
    · have hfile := hsame.symm.trans hq
      rcases applied_cases files changes p with ⟨-, hp⟩ | ⟨ch, hch, hpath, -⟩
      · rw [hp]
        exact hfiles q c p hfile hnames
      · obtain ⟨ch', hch', hpath'⟩ := h q c p hfile hnames ⟨ch, hch, hpath⟩
        exact absurd hpath' (hnone ch' hch')
    · exact absurd hnames ((htidy ch hch).1 c p (heq.symm.trans hq))

end

end SudoWhat.Lib.Rollback
