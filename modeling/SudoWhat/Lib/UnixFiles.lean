/-
  SudoWhat.Lib.UnixFiles — inodes with owners and permission bits, paths through them, and
  what a process that is not root may do to them.

  `Files` is the inodes and the root directory; `held` are the ones somebody other than root
  holds open for writing. A path is its list of names; `lookup` follows it as the kernel does,
  links on the way included. `Step c` is one system call under the credentials `c`, each with
  the one permission check that guards it; checks that would only refuse more (search
  permission on the way, the sticky bit, empty directories, quotas) are left out.

  An inode is guarded when it is root's and neither its group nor the world may write it; a
  symbolic link, whose bits are all on, never is. Proved:
  - `Step.keeps`: no step changes a guarded inode that is in use and not held.
  - `GuardedWalk.lookup`, `GuardedWalk.extend`: a path through guarded inodes is followed as it
    is written; looked up name by name, each found guarded, it is such a path.
  - `GuardedWalk.run`: after any run of such steps it leads to the same inode, as it was.
-/

import Mathlib.Logic.Function.Basic
import Mathlib.Logic.Relation

namespace SudoWhat.Lib.UnixFiles

abbrev Ino := Nat

/-! ## Inodes -/

inductive Content (N B : Type) where
  | file (data : B)
  | dir (entry : N → Option Ino)
  | link (absolute : Bool) (target : List N)

structure Inode (N B : Type) where
  uid : Nat
  gid : Nat
  mode : Nat
  content : Content N B

structure Files (N B : Type) where
  root : Ino
  inode : Ino → Option (Inode N B)
  /-- Held open for writing by somebody other than root. -/
  held : List Ino

/-- Whose calls are made. -/
structure Cred where
  uid : Nat
  gids : List Nat

variable {N B : Type}

/-- The permission bits; a link's are all on. -/
def Inode.perm (n : Inode N B) : Nat :=
  match n.content with
  | .link _ _ => 0o777
  | _ => n.mode

def Inode.entry (n : Inode N B) (name : N) : Option Ino :=
  match n.content with
  | .dir entry => entry name
  | _ => none

/-- The write bit that applies: the owner's, else the group's, else the world's. -/
def mayWrite (c : Cred) (n : Inode N B) : Bool :=
  if c.uid = 0 then true
  else if c.uid = n.uid then n.perm.testBit 7
  else if n.gid ∈ c.gids then n.perm.testBit 4
  else n.perm.testBit 1

/-- Root's, and neither its group nor the world may write it. -/
structure Inode.Guarded (n : Inode N B) : Prop where
  uid : n.uid = 0
  group : n.perm.testBit 4 = false
  world : n.perm.testBit 1 = false

theorem Inode.Guarded.not_mayWrite {n : Inode N B} (h : n.Guarded) {c : Cred} (hc : c.uid ≠ 0) : mayWrite c n = false := by
  rw [mayWrite, if_neg hc, h.uid, if_neg hc, h.group, h.world, ite_self]

theorem Inode.Guarded.not_link {n : Inode N B} (h : n.Guarded) (absolute : Bool) (target : List N) :
    n.content ≠ .link absolute target := by
  intro hl
  have hworld := h.world
  rw [Inode.perm, hl] at hworld
  exact absurd hworld (show ¬ Nat.testBit 0o777 1 = false by decide)

/-! ## Paths -/

namespace Files

def entry (s : Files N B) (d : Ino) (name : N) : Option Ino := (s.inode d).bind (·.entry name)

/-- Where names lead from the directory `d`. A link is followed where something comes after it,
    at the end only if `follow`; `fuel` is how many names are looked up before it is given up. -/
def lookup (s : Files N B) (follow : Bool) : Nat → Ino → List N → Option Ino
  | _, d, [] => some d
  | 0, _, _ :: _ => none
  | fuel + 1, d, name :: rest =>
    match s.entry d name with
    | none => none
    | some i =>
      match (s.inode i).map Inode.content with
      | some (.link absolute target) =>
        if rest.isEmpty && !follow then some i
        else s.lookup follow fuel (if absolute then s.root else d) (target ++ rest)
      | _ => s.lookup follow fuel i rest

theorem length_le_of_lookup {s : Files N B} {follow : Bool} {i : Ino} :
    ∀ {fuel d names}, s.lookup follow fuel d names = some i → names.length ≤ fuel := by
  intro fuel
  induction fuel with
  | zero =>
    intro d names h
    cases names with
    | nil => exact Nat.le_refl _
    | cons name rest => cases h
  | succ fuel ih =>
    intro d names h
    cases names with
    | nil => exact Nat.zero_le _
    | cons name rest =>
      rw [lookup] at h
      cases hentry : s.entry d name with
      | none =>
        rw [hentry] at h
        cases h
      | some k =>
        rw [hentry] at h
        dsimp only at h
        split at h
        · split at h
          · next hend =>
            obtain rfl : rest = [] := List.isEmpty_iff.mp (Bool.and_eq_true_iff.mp hend).1
            exact Nat.succ_le_succ (Nat.zero_le _)
          · have hle := ih h
            rw [List.length_append] at hle
            exact Nat.succ_le_succ (Nat.le_trans (Nat.le_add_left _ _) hle)
        · exact Nat.succ_le_succ (ih h)

end Files

/-! ## Guarded paths -/

/-- From `d` the names lead to `i` through guarded inodes, both ends included. -/
inductive GuardedWalk (s : Files N B) : Ino → List N → Ino → Prop where
  | here {i : Ino} {n : Inode N B} (hn : s.inode i = some n) (hg : n.Guarded) : GuardedWalk s i [] i
  | down {d j i : Ino} {n : Inode N B} {name : N} {rest : List N} (hn : s.inode d = some n) (hg : n.Guarded)
      (hentry : s.entry d name = some j) (h : GuardedWalk s j rest i) : GuardedWalk s d (name :: rest) i

namespace GuardedWalk

variable {s : Files N B} {d i j : Ino} {names rest : List N} {name : N} {n : Inode N B} {follow : Bool} {fuel : Nat}

theorem head (h : GuardedWalk s d names i) : ∃ n, s.inode d = some n ∧ n.Guarded := by
  cases h with
  | here hn hg => exact ⟨_, hn, hg⟩
  | down hn hg => exact ⟨_, hn, hg⟩

theorem last (h : GuardedWalk s d names i) : ∃ n, s.inode i = some n ∧ n.Guarded := by
  induction h with
  | here hn hg => exact ⟨_, hn, hg⟩
  | down _ _ _ _ ih => exact ih

theorem front (h : GuardedWalk s d (names ++ rest) i) : ∃ j, GuardedWalk s d names j := by
  induction names generalizing d with
  | nil =>
    obtain ⟨n, hn, hg⟩ := h.head
    exact ⟨d, .here hn hg⟩
  | cons name names ih =>
    cases h with
    | down hn hg hentry h =>
      obtain ⟨j, hj⟩ := ih h
      exact ⟨j, .down hn hg hentry hj⟩

/-- The kernel takes one step of it: what it comes to is no link. -/
theorem lookup_step (hentry : s.entry d name = some j) (h : GuardedWalk s j names i) :
    s.lookup follow (fuel + 1) d (name :: rest) = s.lookup follow fuel j rest := by
  obtain ⟨m, hm, hg⟩ := h.head
  rw [Files.lookup, hentry]
  dsimp only
  rw [hm, Option.map_some]
  cases hc : m.content with
  | link absolute target => exact absurd hc (hg.not_link absolute target)
  | file data => rfl
  | dir entry => rfl

theorem lookup (h : GuardedWalk s d names i) : ∀ {fuel}, names.length ≤ fuel → s.lookup follow fuel d names = some i := by
  induction h with
  | here =>
    intro fuel _
    cases fuel <;> rfl
  | down _ _ hentry h ih =>
    intro fuel hfuel
    cases fuel with
    | zero => exact absurd hfuel (Nat.not_succ_le_zero _)
    | succ fuel => exact (lookup_step hentry h).trans (ih (Nat.le_of_succ_le_succ hfuel))

/-- One more name, looked up the way `lstat` does, to a guarded inode: no link is behind it. -/
theorem extend (h : GuardedWalk s d names j) (hn : s.inode i = some n) (hg : n.Guarded) :
    ∀ {fuel}, s.lookup false fuel d (names ++ [name]) = some i → GuardedWalk s d (names ++ [name]) i := by
  induction h with
  | @here d m hm hgm =>
    intro fuel hl
    cases fuel with
    | zero => cases hl
    | succ fuel =>
      rw [List.nil_append, Files.lookup] at hl
      cases hentry : s.entry d name with
      | none =>
        rw [hentry] at hl
        cases hl
      | some k =>
        rw [hentry] at hl
        dsimp only at hl
        -- nothing comes after the name, so a link would be where it ends
        have hki : some k = some i := by
          split at hl
          · exact hl
          · cases fuel <;> exact hl
        cases hki
        exact .down hm hgm hentry (.here hn hg)
  | down hd hgd hentry h ih =>
    intro fuel hl
    cases fuel with
    | zero => cases hl
    | succ fuel => exact .down hd hgd hentry (ih ((lookup_step hentry h).symm.trans hl))

end GuardedWalk

/-! ## What others may do -/

def Files.put (s : Files N B) (i : Ino) (n : Option (Inode N B)) : Files N B :=
  { s with inode := Function.update s.inode i n }

@[simp] theorem put_root (s : Files N B) (i : Ino) (n : Option (Inode N B)) : (s.put i n).root = s.root := rfl
@[simp] theorem put_held (s : Files N B) (i : Ino) (n : Option (Inode N B)) : (s.put i n).held = s.held := rfl

theorem put_of_ne (s : Files N B) {i j : Ino} (h : j ≠ i) (n : Option (Inode N B)) : (s.put i n).inode j = s.inode j :=
  Function.update_of_ne h ..

/-- An inode the caller may write. -/
def Files.OpenTo (s : Files N B) (c : Cred) (i : Ino) : Prop := ∃ n, s.inode i = some n ∧ mayWrite c n = true

theorem Inode.Guarded.ne_open {s : Files N B} {i : Ino} {n : Inode N B} (hg : n.Guarded) (hn : s.inode i = some n)
    {c : Cred} (hc : c.uid ≠ 0) {j : Ino} (h : s.OpenTo c j) : i ≠ j := by
  rintro rfl
  obtain ⟨m, hm, hw⟩ := h
  obtain rfl : n = m := Option.some.inj (hn.symm.trans hm)
  rw [hg.not_mayWrite hc] at hw
  cases hw

/-- The root, or named by some directory. -/
def Files.InUse (s : Files N B) (i : Ino) : Prop := i = s.root ∨ ∃ d name, s.entry d name = some i

variable [DecidableEq N]

def Inode.withEntry (n : Inode N B) (name : N) (target : Option Ino) : Inode N B :=
  match n.content with
  | .dir entry => { n with content := .dir (Function.update entry name target) }
  | _ => n

def Files.putEntry (s : Files N B) (d : Ino) (name : N) (target : Option Ino) : Files N B :=
  s.put d ((s.inode d).map (·.withEntry name target))

inductive Step (c : Cred) (s : Files N B) : Files N B → Prop where
  /-- `open` for writing. -/
  | openWrite (i : Ino) (h : s.OpenTo c i) : Step c s { s with held := i :: s.held }
  | write (i : Ino) (n : Inode N B) (data data' : B) (hheld : i ∈ s.held) (hn : s.inode i = some n)
      (hfile : n.content = .file data) : Step c s (s.put i (some { n with content := .file data' }))
  | close (i : Ino) : Step c s { s with held := s.held.erase i }
  | chmod (i : Ino) (n : Inode N B) (mode : Nat) (hn : s.inode i = some n) (hown : c.uid = 0 ∨ c.uid = n.uid) :
      Step c s (s.put i (some { n with mode := mode }))
  | chgrp (i : Ino) (n : Inode N B) (gid : Nat) (hn : s.inode i = some n) (hown : c.uid = 0 ∨ c.uid = n.uid) :
      Step c s (s.put i (some { n with gid := gid }))
  /-- A new file, directory or link. -/
  | create (d : Ino) (name : N) (i : Ino) (n : Inode N B) (h : s.OpenTo c d) (hfree : s.inode i = none)
      (hown : n.uid = c.uid) (hempty : ∀ name, n.entry name = none) :
      Step c s ((s.putEntry d name (some i)).put i (some n))
  /-- Another name for an inode. -/
  | link (d : Ino) (name : N) (i : Ino) (h : s.OpenTo c d) : Step c s (s.putEntry d name (some i))
  | unlink (d : Ino) (name : N) (h : s.OpenTo c d) : Step c s (s.putEntry d name none)
  | rename (d d' : Ino) (name name' : N) (i : Ino) (h : s.OpenTo c d) (h' : s.OpenTo c d') (hi : s.entry d name = some i) :
      Step c s ((s.putEntry d name none).putEntry d' name' (some i))
  /-- An inode nothing leads to is given back. -/
  | reclaim (i : Ino) (hroot : i ≠ s.root) (hunused : ∀ d name, s.entry d name ≠ some i) : Step c s (s.put i none)

/-- One step of anybody but root. -/
def Others (s s' : Files N B) : Prop := ∃ c : Cred, c.uid ≠ 0 ∧ Step c s s'

section

variable {s s' : Files N B} {i : Ino} {n : Inode N B}

theorem putEntry_of_ne {d : Ino} (h : i ≠ d) (name : N) (t : Option Ino) : (s.putEntry d name t).inode i = s.inode i :=
  put_of_ne s h _

theorem Step.root_eq {c : Cred} (h : Step c s s') : s'.root = s.root := by
  cases h <;> rfl

/-- No step of others changes a guarded inode that is in use, unless it is data they hold open;
    nor do they come to hold it. -/
theorem Step.keeps {c : Cred} (h : Step c s s') (hc : c.uid ≠ 0) (hg : n.Guarded) (hn : s.inode i = some n)
    (huse : s.InUse i) (hheld : i ∈ s.held → ∀ data, n.content ≠ .file data) :
    s'.inode i = some n ∧ (i ∈ s'.held → i ∈ s.held) := by
  have hopen : ∀ {j}, s.OpenTo c j → i ≠ j := fun h => hg.ne_open hn hc h
  have hsame : ∀ {m}, s.inode i = some m → n = m := fun hm => Option.some.inj (hn.symm.trans hm)
  have hnotmine : ∀ {j m}, s.inode j = some m → c.uid = 0 ∨ c.uid = m.uid → i ≠ j := by
    rintro j m hm hown rfl
    rw [← hsame hm, hg.uid] at hown
    exact hc (hown.elim id id)
  cases h with
  | openWrite j h => exact ⟨hn, fun hm => (List.mem_cons.mp hm).resolve_left (hopen h)⟩
  | write j m data data' hj hm hfile =>
    have hne : i ≠ j := by
      rintro rfl
      exact hheld hj data (hsame hm ▸ hfile)
    exact ⟨(put_of_ne s hne _).trans hn, id⟩
  | close j => exact ⟨hn, List.mem_of_mem_erase⟩
  | chmod j m mode hm hown => exact ⟨(put_of_ne s (hnotmine hm hown) _).trans hn, id⟩
  | chgrp j m gid hm hown => exact ⟨(put_of_ne s (hnotmine hm hown) _).trans hn, id⟩
  | create d name j m h hfree hown hempty =>
    have hne : i ≠ j := by
      rintro rfl
      rw [hfree] at hn
      cases hn
    exact ⟨(put_of_ne _ hne _).trans ((putEntry_of_ne (hopen h) _ _).trans hn), id⟩
  | link d name j h => exact ⟨(putEntry_of_ne (hopen h) _ _).trans hn, id⟩
  | unlink d name h => exact ⟨(putEntry_of_ne (hopen h) _ _).trans hn, id⟩
  | rename d d' name name' j h h' hj =>
    exact ⟨(putEntry_of_ne (hopen h') _ _).trans ((putEntry_of_ne (hopen h) _ _).trans hn), id⟩
  | reclaim j hroot hunused =>
    have hne : i ≠ j := by
      rintro rfl
      exact huse.elim hroot fun ⟨d, name, hd⟩ => hunused d name hd
    exact ⟨(put_of_ne s hne _).trans hn, id⟩

theorem Others.walk {d : Ino} {names : List N} (h : Others s s') (hw : GuardedWalk s d names i) (huse : s.InUse d)
    (hheld : i ∉ s.held) : GuardedWalk s' d names i ∧ s'.inode i = s.inode i ∧ i ∉ s'.held := by
  obtain ⟨c, hc, h⟩ := h
  induction hw with
  | here hn hg =>
    obtain ⟨hn', hheld'⟩ := h.keeps hc hg hn huse fun hm => absurd hm hheld
    exact ⟨.here hn' hg, hn'.trans hn.symm, fun hm => hheld (hheld' hm)⟩
  | @down d j k m name rest hm hg hentry _ ih =>
    -- it has entries, so it is no file
    have hdir : ∀ data, m.content ≠ .file data := by
      intro data hfile
      rw [Files.entry, hm, Option.bind_some, Inode.entry, hfile] at hentry
      cases hentry
    have hm' := (h.keeps hc hg hm huse fun _ => hdir).1
    have hentry' : s'.entry d name = some j := by rwa [Files.entry, hm', ← hm]
    obtain ⟨hw', hrest⟩ := ih (.inr ⟨d, name, hentry⟩) hheld
    exact ⟨.down hm' hg hentry' hw', hrest⟩

/-- Whatever others do, a guarded path from the root leads to the same inode, as it was. -/
theorem GuardedWalk.run {names : List N} (hrun : Relation.ReflTransGen Others s s') (hw : GuardedWalk s s.root names i)
    (hheld : i ∉ s.held) : GuardedWalk s' s'.root names i ∧ s'.inode i = s.inode i ∧ i ∉ s'.held := by
  induction hrun with
  | refl => exact ⟨hw, rfl, hheld⟩
  | @tail s' s'' _ hstep ih =>
    obtain ⟨hw', hsame, hheld'⟩ := ih
    obtain ⟨hw'', hsame', hheld''⟩ := hstep.walk hw' (.inl rfl) hheld'
    obtain ⟨c, -, hstep⟩ := hstep
    rw [hstep.root_eq]
    exact ⟨hw'', hsame'.trans hsame, hheld''⟩

end

end SudoWhat.Lib.UnixFiles
