/-
  SudoWhat.Lib.FileNames — names, the objects they name, and the identities the kernel
  gives objects.

  Objects are numbered in the order they are created, so no number comes back; an identity
  (a device and an inode number) does, once its object is gone. An object is there while a
  name or a descriptor leads to it, and no two objects that are there share an identity:
  `Files` carries both. `Change` is what anyone may do to it.

  The descriptor is one program's. What others hold open only keeps objects from being
  dropped, which no change has to do.

  Proved:
  - `Held.change`: whatever changes, the descriptor's object keeps its identity.
  - `Held.named`: while it is open, a name under that identity names that object.
  - `identity_comes_back`: without it, the name can come to name another object under the
    same identity.
-/

import Mathlib.Data.List.Basic
import Mathlib.Logic.Function.Basic
import Mathlib.Logic.Relation

namespace SudoWhat.Lib.FileNames

variable {Path Id : Type}

/-- The identity of the `o`-th object, if it is there. -/
def identityOf (identities : List (Option Id)) (o : Nat) : Option Id := identities[o]?.join

theorem identityOf_append (identities : List (Option Id)) (new : Option Id) (o : Nat) :
    identityOf (identities ++ [new]) o = if o = identities.length then new else identityOf identities o := by
  unfold identityOf
  rcases Nat.lt_trichotomy o identities.length with h | rfl | h
  · rw [List.getElem?_append_left h, if_neg (by omega)]
  · rw [List.getElem?_concat_length, if_pos rfl]
    rfl
  · rw [if_neg (by omega), List.getElem?_eq_none (by simp; omega), List.getElem?_eq_none (by omega)]

theorem identityOf_append_of_some {identities : List (Option Id)} {o : Nat} {id : Id}
    (h : identityOf identities o = some id) (new : Option Id) : identityOf (identities ++ [new]) o = some id := by
  have hne : o ≠ identities.length := by
    rintro rfl
    rw [identityOf, List.getElem?_eq_none (Nat.le_refl _)] at h
    cases h
  rw [identityOf_append, if_neg hne, h]

theorem identityOf_set (identities : List (Option Id)) (gone o : Nat) :
    identityOf (identities.set gone none) o = if o = gone then none else identityOf identities o := by
  unfold identityOf
  rw [List.getElem?_set]
  by_cases h : gone = o
  · subst h
    by_cases hlt : gone < identities.length
    · rw [if_pos rfl, if_pos hlt, if_pos rfl]
      rfl
    · rw [if_pos rfl, if_neg hlt, if_pos rfl]
      rfl
  · rw [if_neg h, if_neg fun e => h e.symm]

structure Files (Path Id : Type) where
  named : Path → Option Nat
  /-- The identity of each object created so far, `none` for one that is gone. -/
  identities : List (Option Id)
  descriptor : Option Nat
  named_there : ∀ p, ∀ o ∈ named p, ∃ id, identityOf identities o = some id
  descriptor_there : ∀ o ∈ descriptor, ∃ id, identityOf identities o = some id
  distinct : ∀ {o o' id}, identityOf identities o = some id → identityOf identities o' = some id → o = o'

namespace Files

def identity (f : Files Path Id) (o : Nat) : Option Id := identityOf f.identities o

/-! ## What anyone may do -/

/-- Lead a name to an object that is there, or to none. -/
def put [DecidableEq Path] (f : Files Path Id) (p : Path) (target : Option Nat)
    (h : ∀ o ∈ target, ∃ id, f.identity o = some id) : Files Path Id where
  named := Function.update f.named p target
  identities := f.identities
  descriptor := f.descriptor
  named_there := by
    intro q o ho
    by_cases e : q = p
    · subst e
      rw [Function.update_self] at ho
      exact h o ho
    · rw [Function.update_of_ne e] at ho
      exact f.named_there q o ho
  descriptor_there := f.descriptor_there
  distinct := f.distinct

/-- A new object, under an identity no object has. -/
def new (f : Files Path Id) (id : Id) (hfresh : ∀ o, f.identity o ≠ some id) : Files Path Id where
  named := f.named
  identities := f.identities ++ [some id]
  descriptor := f.descriptor
  named_there := by
    intro p o ho
    obtain ⟨i, hi⟩ := f.named_there p o ho
    exact ⟨i, identityOf_append_of_some hi _⟩
  descriptor_there := by
    intro o ho
    obtain ⟨i, hi⟩ := f.descriptor_there o ho
    exact ⟨i, identityOf_append_of_some hi _⟩
  distinct := by
    intro o o' i ho ho'
    rw [identityOf_append] at ho ho'
    -- the new object's identity is nobody else's
    by_cases h : o = f.identities.length
    · rw [if_pos h] at ho
      by_cases h' : o' = f.identities.length
      · exact h.trans h'.symm
      · rw [if_neg h', ← ho] at ho'
        exact absurd ho' (hfresh o')
    · rw [if_neg h] at ho
      by_cases h' : o' = f.identities.length
      · rw [if_pos h', ← ho] at ho'
        exact absurd ho'.symm (hfresh o)
      · rw [if_neg h'] at ho'
        exact f.distinct ho ho'

/-- Drop an object nothing leads to. -/
def drop (f : Files Path Id) (o : Nat) (hname : ∀ p, f.named p ≠ some o) (hdesc : f.descriptor ≠ some o) :
    Files Path Id where
  named := f.named
  identities := f.identities.set o none
  descriptor := f.descriptor
  named_there := by
    intro p o' ho'
    obtain ⟨i, hi⟩ := f.named_there p o' ho'
    refine ⟨i, ?_⟩
    rw [identityOf_set, if_neg, hi]
    rintro rfl
    exact hname p ho'
  descriptor_there := by
    intro o' ho'
    obtain ⟨i, hi⟩ := f.descriptor_there o' ho'
    refine ⟨i, ?_⟩
    rw [identityOf_set, if_neg, hi]
    rintro rfl
    exact hdesc ho'
  distinct := by
    intro a b i ha hb
    rw [identityOf_set] at ha hb
    by_cases h : a = o
    · rw [if_pos h] at ha
      cases ha
    · by_cases h' : b = o
      · rw [if_pos h'] at hb
        cases hb
      · rw [if_neg h] at ha
        rw [if_neg h'] at hb
        exact f.distinct ha hb

/-! ## The descriptor -/

def openAt (f : Files Path Id) (p : Path) (o : Nat) (h : f.named p = some o) : Files Path Id where
  named := f.named
  identities := f.identities
  descriptor := some o
  named_there := f.named_there
  descriptor_there := by
    rintro x ⟨⟩
    exact f.named_there p o h
  distinct := f.distinct

def close (f : Files Path Id) : Files Path Id where
  named := f.named
  identities := f.identities
  descriptor := none
  named_there := f.named_there
  descriptor_there := by
    intro o ho
    cases ho
  distinct := f.distinct

end Files

/-- What anyone may do, the kernel included. -/
inductive Change [DecidableEq Path] : Files Path Id → Files Path Id → Prop where
  /-- A new object under a name, whatever the name led to. -/
  | create (f : Files Path Id) (p : Path) (id : Id) (hfresh : ∀ o, f.identity o ≠ some id) :
      Change f ((f.new id hfresh).put p (some f.identities.length) fun o ho => ⟨id, by
        obtain rfl := Option.some.inj ho
        exact (identityOf_append ..).trans (if_pos rfl)⟩)
  /-- A name led to any object that is there. -/
  | link (f : Files Path Id) (p : Path) (target : Nat) (h : ∃ id, f.identity target = some id) :
      Change f (f.put p (some target) fun o ho => by
        obtain rfl := Option.some.inj ho
        exact h)
  | unlink (f : Files Path Id) (p : Path) : Change f (f.put p none fun o ho => by cases ho)
  | rename (f : Files Path Id) (p q : Path) :
      Change f ((f.put p none fun o ho => by cases ho).put q (f.named p) (f.named_there p))
  /-- The kernel lets go of an object nothing leads to. -/
  | drop (f : Files Path Id) (o : Nat) (hname : ∀ p, f.named p ≠ some o) (hdesc : f.descriptor ≠ some o) :
      Change f (f.drop o hname hdesc)

/-! ## What an open descriptor holds -/

/-- The descriptor is open on this object, whose identity this is. -/
structure Held (f : Files Path Id) (o : Nat) (id : Id) : Prop where
  descriptor : f.descriptor = some o
  identity : f.identity o = some id

variable {f f' : Files Path Id} {o : Nat} {id : Id}

theorem Held.change [DecidableEq Path] (h : Held f o id) (hc : Change f f') : Held f' o id := by
  cases hc with
  | create p id' hfresh => exact ⟨h.descriptor, identityOf_append_of_some h.identity _⟩
  | link p target htarget => exact ⟨h.descriptor, h.identity⟩
  | unlink p => exact ⟨h.descriptor, h.identity⟩
  | rename p q => exact ⟨h.descriptor, h.identity⟩
  | drop gone hname hdesc =>
    refine ⟨h.descriptor, ?_⟩
    have hne : o ≠ gone := by
      rintro rfl
      exact hdesc h.descriptor
    exact (identityOf_set ..).trans ((if_neg hne).trans h.identity)

theorem Held.named (h : Held f o id) {o' : Nat} (hid : f.identity o' = some id) : o' = o := f.distinct hid h.identity

theorem held_openAt {p : Path} (hnamed : f.named p = some o) : ∃ id, Held (f.openAt p o hnamed) o id := by
  obtain ⟨id, hid⟩ := f.named_there p o hnamed
  exact ⟨id, rfl, hid⟩

/-- An object one name leads to and no descriptor: the name can be led to another with its
    identity. -/
theorem identity_comes_back [DecidableEq Path] {p : Path} (hnamed : f.named p = some o)
    (honly : ∀ q, f.named q = some o → q = p) (hid : f.identity o = some id) (hdesc : f.descriptor ≠ some o) :
    ∃ f' o', Relation.ReflTransGen Change f f' ∧ f'.named p = some o' ∧ o' ≠ o ∧ f'.identity o' = some id := by
  have hthere : o ≠ f.identities.length := by
    rintro rfl
    have hnone : f.identity f.identities.length = none := by
      unfold Files.identity identityOf
      rw [List.getElem?_eq_none (Nat.le_refl _)]
      rfl
    rw [hnone] at hid
    cases hid
  let unlinked := f.put p none fun o ho => by cases ho
  have hunnamed : ∀ q, unlinked.named q ≠ some o := by
    intro q hq
    by_cases e : q = p
    · subst e
      rw [show unlinked.named q = none from Function.update_self ..] at hq
      cases hq
    · rw [show unlinked.named q = f.named q from Function.update_of_ne e ..] at hq
      exact e (honly q hq)
  let dropped := unlinked.drop o hunnamed hdesc
  have hfresh : ∀ o', dropped.identity o' ≠ some id := by
    intro o' ho'
    rw [show dropped.identity o' = if o' = o then none else f.identity o' from identityOf_set ..] at ho'
    by_cases e : o' = o
    · rw [if_pos e] at ho'
      cases ho'
    · rw [if_neg e] at ho'
      exact e (f.distinct ho' hid)
  have hlen : dropped.identities.length = f.identities.length := List.length_set
  refine ⟨_, dropped.identities.length, .tail (.tail (.single (.unlink f p)) (.drop unlinked o hunnamed hdesc))
    (.create dropped p id hfresh), Function.update_self .., ?_, ?_⟩
  · rw [hlen]
    exact hthere.symm
  · exact (identityOf_append ..).trans (if_pos rfl)

end SudoWhat.Lib.FileNames
