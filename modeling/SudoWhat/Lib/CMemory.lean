/-
  SudoWhat.Lib.CMemory — C functions over objects in memory.

  Memory is the objects alive, by address; a pointer is NULL or the address of an object's
  start, and one into an object is a `Place`. A function runs from a memory to a value and a memory, or does what C leaves
  undefined: reads past an object, follows NULL or a freed pointer, scans a string without
  its NUL (`fault`). Whether an allocation succeeds, and what a new buffer holds, is told from
  outside.

  `Gives x g a g'`: from the objects `g`, `x` runs without a fault, returns `a` and leaves the
  objects `g'`. Proved: the rules for each operation, for a sequence (`gives_bind`) and for an
  object that lives for a while (`gives_alloc_bind`, `gives_withLocal`).
-/

import Mathlib.Logic.Function.Basic
import Mathlib.Data.List.Forall2

namespace SudoWhat.Lib.CMemory

abbrev Addr := Nat

/-- `none` is NULL. -/
abbrev Ptr := Option Addr

inductive Object where
  | bytes (bs : List UInt8)
  | pointers (ps : List Ptr)
  | sizes (ns : List Nat)
  deriving DecidableEq, Repr

abbrev Objects := Addr → Option Object

/-- No object stands at `next` or past it. -/
structure Heap where
  objects : Objects
  next : Addr
  fresh : ∀ a, next ≤ a → objects a = none

/-- A run; `none` is a fault. -/
def C (α : Type) := Heap → Option (α × Heap)

instance : Monad C where
  pure a := fun h => some (a, h)
  bind x f := fun h =>
    match x h with
    | none => none
    | some (a, h) => f a h

variable {α β : Type}

/-! ## Operations -/

def fault : C α := fun _ => none

/-- The object a pointer leads to. -/
def object (p : Ptr) : C Object := fun h =>
  match p with
  | none => none
  | some a => (h.objects a).map (·, h)

/-- Put an object in place of the one that stands there. -/
def replace (a : Addr) (o : Object) : C Unit := fun h =>
  if ha : a < h.next then
    some ((), ⟨Function.update h.objects a (some o), h.next, fun x hx => by
      rw [Function.update_of_ne (Nat.ne_of_gt (Nat.lt_of_lt_of_le ha hx))]
      exact h.fresh x hx⟩)
  else none

def alloc (o : Object) : C Addr := fun h =>
  some (h.next, ⟨Function.update h.objects h.next (some o), h.next + 1, fun x hx => by
    rw [Function.update_of_ne (Nat.ne_of_gt hx)]
    exact h.fresh x (Nat.le_of_succ_le hx)⟩)

/-- `malloc`, `calloc`: NULL, or a new object. -/
def malloc (ok : Bool) (o : Object) : C Ptr := if ok then do return some (← alloc o) else pure none

/-- `free`; of NULL it does nothing. -/
def free (p : Ptr) : C Unit := fun h =>
  match p with
  | none => some ((), h)
  | some a =>
    match h.objects a with
    | none => none
    | some _ => some ((), ⟨Function.update h.objects a none, h.next, fun x hx => by
        by_cases e : x = a
        · rw [e, Function.update_self]
        · rw [Function.update_of_ne e]
          exact h.fresh x hx⟩)

/-- A local variable, alive while `body` runs. -/
def withLocal (o : Object) (body : Addr → C α) : C α := do
  let a ← alloc o
  let r ← body a
  free (some a)
  return r

/-- The first `n` bytes. -/
def loadBytes (p : Ptr) (n : Nat) : C (List UInt8) := do
  match ← object p with
  | .bytes bs => if n ≤ bs.length then return bs.take n else fault
  | _ => fault

def strlen (p : Ptr) : C Nat := do
  match ← object p with
  | .bytes bs =>
    match bs.findIdx? (· == 0) with
    | some n => return n
    | none => fault
  | _ => fault

/-- `while (argv[n] != NULL) n++`. -/
def countPtrs (p : Ptr) : C Nat := do
  match ← object p with
  | .pointers ps =>
    match ps.findIdx? Option.isNone with
    | some n => return n
    | none => fault
  | _ => fault

def loadPtr (p : Ptr) (i : Nat) : C Ptr := do
  match ← object p with
  | .pointers ps =>
    match ps[i]? with
    | some q => return q
    | none => fault
  | _ => fault

def loadSize (p : Ptr) (i : Nat) : C Nat := do
  match ← object p with
  | .sizes ns =>
    match ns[i]? with
    | some n => return n
    | none => fault
  | _ => fault

/-- Copy bytes into a buffer from an offset on. -/
def storeBytes (p : Ptr) (off : Nat) (new : List UInt8) : C Unit :=
  match p with
  | none => fault
  | some a => do
    match ← object p with
    | .bytes bs =>
      if off + new.length ≤ bs.length then replace a (.bytes (bs.take off ++ new ++ bs.drop (off + new.length))) else fault
    | _ => fault

def storePtr (p : Ptr) (i : Nat) (q : Ptr) : C Unit :=
  match p with
  | none => fault
  | some a => do
    match ← object p with
    | .pointers ps => if i < ps.length then replace a (.pointers (ps.set i q)) else fault
    | _ => fault

def storeSize (p : Ptr) (i : Nat) (n : Nat) : C Unit :=
  match p with
  | none => fault
  | some a => do
    match ← object p with
    | .sizes ns => if i < ns.length then replace a (.sizes (ns.set i n)) else fault
    | _ => fault

/-- A pointer into an object. -/
structure Place where
  obj : Addr
  off : Nat
  deriving DecidableEq, Repr

def loadByte (p : Place) : C UInt8 := do
  match ← object (some p.obj) with
  | .bytes bs =>
    match bs[p.off]? with
    | some b => return b
    | none => fault
  | _ => fault

/-- The string that starts there. -/
def loadString (p : Place) : C (List UInt8) := do
  match ← object (some p.obj) with
  | .bytes bs => if 0 ∈ bs.drop p.off then return (bs.drop p.off).takeWhile (· ≠ 0) else fault
  | _ => fault

/-- `p[0]`, `p[1]` and on, as far as the object goes. -/
def loadPtrs (p : Ptr) : C (List Ptr) := do
  match ← object p with
  | .pointers ps => return ps
  | _ => fault

/-- Comparing with a literal: `strncmp(p, key, strlen(key)) == 0`, or `strcmp(p, key) == 0` for
    the `whole` of it. -/
def compareLiteral (whole : Bool) (p : Place) : List UInt8 → C Bool
  | [] => if whole then do return (← loadByte p) == 0 else pure true
  | k :: ks => do
    if (← loadByte p) = k then compareLiteral whole ⟨p.obj, p.off + 1⟩ ks else return false

/-! ## What a run gives -/

def Gives (x : C α) (g : Objects) (a : α) (g' : Objects) : Prop :=
  ∀ h : Heap, h.objects = g → ∃ h', x h = some (a, h') ∧ h'.objects = g'

variable {g g' g'' : Objects} {x : C α} {f : α → C β} {a : α} {b : β}

theorem gives_pure (a : α) : Gives (pure a : C α) g a g := fun h hg => ⟨h, rfl, hg⟩

theorem gives_bind (hx : Gives x g a g') (hf : Gives (f a) g' b g'') : Gives (x >>= f) g b g'' := by
  intro h hg
  obtain ⟨h₁, hrun, hg₁⟩ := hx h hg
  obtain ⟨h₂, hrun', hg₂⟩ := hf h₁ hg₁
  refine ⟨h₂, ?_, hg₂⟩
  have hbind : (x >>= f) h = f a h₁ := by
    change (match x h with | none => none | some (a, h) => f a h) = f a h₁
    rw [hrun]
  rw [hbind, hrun']

theorem gives_alloc_bind {o : Object} {f : Addr → C β}
    (hf : ∀ n, g n = none → Gives (f n) (Function.update g n (some o)) b g') : Gives (alloc o >>= f) g b g' := by
  intro h hg
  have hfresh : g h.next = none := hg ▸ h.fresh h.next (Nat.le_refl _)
  exact hf h.next hfresh _ (congrArg (Function.update · h.next (some o)) hg)

theorem gives_object {n : Addr} {o : Object} (ho : g n = some o) : Gives (object (some n)) g o g := by
  intro h hg
  refine ⟨h, ?_, hg⟩
  change (h.objects n).map (·, h) = some (o, h)
  rw [hg, ho]
  rfl

theorem gives_replace {n : Addr} {o : Object} (ho : g n = some o) (new : Object) :
    Gives (replace n new) g () (Function.update g n (some new)) := by
  intro h hg
  have hlt : n < h.next := by
    by_contra hge
    have hnone : g n = none := hg ▸ h.fresh n (Nat.le_of_not_lt hge)
    cases ho.symm.trans hnone
  exact ⟨_, dif_pos hlt, congrArg (Function.update · n (some new)) hg⟩

theorem gives_free {n : Addr} {o : Object} (ho : g n = some o) : Gives (free (some n)) g () (Function.update g n none) := by
  intro h hg
  have hobj : h.objects n = some o := hg ▸ ho
  refine ⟨⟨Function.update h.objects n none, h.next, ?_⟩, ?_, congrArg (Function.update · n none) hg⟩
  · intro x hx
    by_cases e : x = n
    · rw [e, Function.update_self]
    · rw [Function.update_of_ne e]
      exact h.fresh x hx
  · change (match h.objects n with | none => none | some _ => some ((), _)) = _
    rw [hobj]

theorem gives_free_null : Gives (free none) g () g := fun h hg => ⟨h, rfl, hg⟩

/-- What stands where nothing stood is gone again. -/
theorem update_freed {n : Addr} (hn : g n = none) (o : Option Object) :
    Function.update (Function.update g n o) n none = g := by
  rw [Function.update_idem, ← hn, Function.update_eq_self]

/-- A local is gone when its scope ends; the rest is as the body left it. -/
theorem gives_withLocal {o q : Object} {body : Addr → C α}
    (hbody : ∀ n, g n = none → g' n = none ∧ Gives (body n) (Function.update g n (some o)) a (Function.update g' n (some q))) :
    Gives (withLocal o body) g a g' := by
  refine gives_alloc_bind fun n hn => ?_
  obtain ⟨hn', hrun⟩ := hbody n hn
  refine gives_bind hrun (gives_bind (gives_free (Function.update_self n (some q) g')) ?_)
  rw [update_freed hn']
  exact gives_pure a

theorem gives_malloc_null (o : Object) : Gives (malloc false o) g none g := gives_pure none

theorem gives_malloc_bind {o : Object} {f : Ptr → C β}
    (hf : ∀ n, g n = none → Gives (f (some n)) (Function.update g n (some o)) b g') : Gives (malloc true o >>= f) g b g' := by
  have hassoc : (malloc true o >>= f) = alloc o >>= fun n => f (some n) := by
    funext h
    rfl
  rw [hassoc]
  exact gives_alloc_bind hf

section

variable {n : Addr}

theorem gives_loadBytes {bs : List UInt8} {k : Nat} (ho : g n = some (.bytes bs)) (hk : k ≤ bs.length) :
    Gives (loadBytes (some n) k) g (bs.take k) g := by
  refine gives_bind (gives_object ho) ?_
  dsimp only
  rw [if_pos hk]
  exact gives_pure _

theorem gives_loadPtr {ps : List Ptr} {i : Nat} {q : Ptr} (ho : g n = some (.pointers ps)) (hi : ps[i]? = some q) :
    Gives (loadPtr (some n) i) g q g := by
  refine gives_bind (gives_object ho) ?_
  dsimp only
  rw [hi]
  exact gives_pure _

theorem gives_loadSize {ns : List Nat} {i k : Nat} (ho : g n = some (.sizes ns)) (hi : ns[i]? = some k) :
    Gives (loadSize (some n) i) g k g := by
  refine gives_bind (gives_object ho) ?_
  dsimp only
  rw [hi]
  exact gives_pure _

theorem gives_storeBytes {bs new : List UInt8} {off : Nat} (ho : g n = some (.bytes bs)) (hk : off + new.length ≤ bs.length) :
    Gives (storeBytes (some n) off new) g ()
      (Function.update g n (some (.bytes (bs.take off ++ new ++ bs.drop (off + new.length))))) := by
  refine gives_bind (gives_object ho) ?_
  dsimp only
  rw [if_pos hk]
  exact gives_replace ho _

theorem gives_storePtr {ps : List Ptr} {i : Nat} (ho : g n = some (.pointers ps)) (hi : i < ps.length) (q : Ptr) :
    Gives (storePtr (some n) i q) g () (Function.update g n (some (.pointers (ps.set i q)))) := by
  refine gives_bind (gives_object ho) ?_
  dsimp only
  rw [if_pos hi]
  exact gives_replace ho _

theorem gives_storeSize {ns : List Nat} {i : Nat} (ho : g n = some (.sizes ns)) (hi : i < ns.length) (k : Nat) :
    Gives (storeSize (some n) i k) g () (Function.update g n (some (.sizes (ns.set i k)))) := by
  refine gives_bind (gives_object ho) ?_
  dsimp only
  rw [if_pos hi]
  exact gives_replace ho _

end

/-! ## Strings and arrays of them -/

/-- A string with its NUL at `n`, whatever follows in the object. -/
def CStr (g : Objects) (n : Addr) (s : List UInt8) : Prop := 0 ∉ s ∧ ∃ rest, g n = some (.bytes (s ++ 0 :: rest))

/-- A NULL-terminated array of strings. -/
def CStrs (g : Objects) (n : Addr) (ss : List (List UInt8)) : Prop :=
  ∃ ps rest, g n = some (.pointers (ps.map some ++ none :: rest)) ∧ List.Forall₂ (CStr g) ps ss

/-- Every object is still there. -/
def Extends (g g' : Objects) : Prop := ∀ n o, g n = some o → g' n = some o

theorem extends_refl (g : Objects) : Extends g g := fun _ _ h => h

theorem Extends.absent {n : Addr} (h : Extends g g') (hn : g' n = none) : g n = none := by
  cases ho : g n with
  | none => rfl
  | some o => cases hn.symm.trans (h n o ho)

/-- A new object, or a change in one that was not there, leaves the rest. -/
theorem Extends.update {n : Addr} (h : Extends g g') (hn : g n = none) (o : Option Object) :
    Extends g (Function.update g' n o) := by
  intro m o' ho
  have hne : m ≠ n := by
    rintro rfl
    cases hn.symm.trans ho
  rw [Function.update_of_ne hne]
  exact h m o' ho

theorem CStr.mono {n : Addr} {s : List UInt8} (h : CStr g n s) (he : Extends g g') : CStr g' n s := by
  obtain ⟨hs, rest, ho⟩ := h
  exact ⟨hs, rest, he _ _ ho⟩

theorem CStrs.mono {n : Addr} {ss : List (List UInt8)} (h : CStrs g n ss) (he : Extends g g') : CStrs g' n ss := by
  obtain ⟨ps, rest, ho, hs⟩ := h
  exact ⟨ps, rest, he _ _ ho, hs.imp fun _ _ hp => hp.mono he⟩

theorem gives_strlen {n : Addr} {s : List UInt8} (h : CStr g n s) : Gives (strlen (some n)) g s.length g := by
  obtain ⟨hs, rest, ho⟩ := h
  refine gives_bind (gives_object ho) ?_
  have hfind : (s ++ 0 :: rest).findIdx? (· == 0) = some s.length := by
    rw [List.findIdx?_append, List.findIdx?_eq_none_iff.mpr fun b hb => ?_]
    · simp [List.findIdx?_cons]
    · simpa using fun e : b = 0 => hs (e ▸ hb)
  dsimp only
  rw [hfind]
  exact gives_pure _

theorem CStr.bytes {n : Addr} {s : List UInt8} (h : CStr g n s) : Gives (loadBytes (some n) s.length) g s g := by
  obtain ⟨-, rest, ho⟩ := h
  have hload := gives_loadBytes (k := s.length) ho (by simp)
  rwa [List.take_left] at hload

section

variable {n : Addr} {s : List UInt8} {i : Nat}

theorem CStr.byte (h : CStr g n s) (hi : i ≤ s.length) : Gives (loadByte ⟨n, i⟩) g (((s.drop i).head?).getD 0) g := by
  obtain ⟨-, rest, ho⟩ := h
  refine gives_bind (gives_object ho) ?_
  have hbyte : (s ++ 0 :: rest)[i]? = some ((s.drop i).head?.getD 0) := by
    rw [List.head?_drop]
    rcases Nat.lt_or_eq_of_le hi with hlt | rfl
    · rw [List.getElem?_append_left hlt, List.getElem?_eq_getElem hlt]
      rfl
    · simp
  dsimp only
  rw [hbyte]
  exact gives_pure _

theorem CStr.from (h : CStr g n s) (hi : i ≤ s.length) : Gives (loadString ⟨n, i⟩) g (s.drop i) g := by
  obtain ⟨hs, rest, ho⟩ := h
  refine gives_bind (gives_object ho) ?_
  have hdrop : (s ++ 0 :: rest).drop i = s.drop i ++ 0 :: rest := List.drop_append_of_le_length hi
  have htake : (s.drop i ++ 0 :: rest).takeWhile (· ≠ 0) = s.drop i := by
    rw [List.takeWhile_append_of_pos fun b hb => ?_]
    · simp
    · simpa using fun e : b = 0 => hs (e ▸ List.mem_of_mem_drop hb)
  dsimp only
  rw [hdrop, if_pos (by simp), htake]
  exact gives_pure _

theorem CStr.compare (h : CStr g n s) (whole : Bool) (key : List UInt8) (hkey : 0 ∉ key) (hi : i ≤ s.length) :
    Gives (compareLiteral whole ⟨n, i⟩ key) g (if whole then s.drop i == key else key.isPrefixOf (s.drop i)) g := by
  induction key generalizing i with
  | nil =>
    cases whole with
    | false => exact gives_pure true
    | true =>
      refine gives_bind (h.byte hi) ?_
      cases hd : s.drop i with
      | nil => exact gives_pure true
      | cons c cs =>
        have hc : c ≠ 0 := fun e => h.1 (e ▸ List.mem_of_mem_drop (hd ▸ List.mem_cons_self))
        have hne : (c == 0) = false := by simpa using hc
        rw [List.head?_cons, Option.getD_some, hne]
        exact gives_pure false
  | cons k ks ih =>
    have hk : k ≠ 0 := fun e => hkey (e ▸ List.mem_cons_self)
    refine gives_bind (h.byte hi) ?_
    cases hd : s.drop i with
    | nil =>
      rw [List.head?_nil, Option.getD_none, if_neg hk.symm]
      cases whole <;> exact gives_pure false
    | cons c cs =>
      have hlt : i < s.length := by
        by_contra hge
        rw [List.drop_of_length_le (Nat.le_of_not_lt hge)] at hd
        cases hd
      have htail : s.drop (i + 1) = cs := by
        rw [List.drop_eq_getElem_cons hlt] at hd
        exact (List.cons.inj hd).2
      rw [List.head?_cons, Option.getD_some]
      by_cases hc : c = k
      · rw [if_pos hc]
        have hrest := ih (fun hm => hkey (List.mem_cons_of_mem _ hm)) hlt
        rw [htail] at hrest
        simpa [hc] using hrest
      · rw [if_neg hc]
        have hfront : (k :: ks).isPrefixOf (c :: cs) = false := by simp [List.isPrefixOf, Ne.symm hc]
        have heq : (c :: cs == k :: ks) = false := by simp [hc]
        rw [hfront, heq, ite_self]
        exact gives_pure false

end

theorem gives_countPtrs {n : Addr} {ss : List (List UInt8)} (h : CStrs g n ss) : Gives (countPtrs (some n)) g ss.length g := by
  obtain ⟨ps, rest, ho, hs⟩ := h
  refine gives_bind (gives_object ho) ?_
  have hfind : (ps.map some ++ none :: rest).findIdx? Option.isNone = some ss.length := by
    rw [List.findIdx?_append, List.findIdx?_eq_none_iff.mpr fun p hp => ?_]
    · simp [List.findIdx?_cons, hs.length_eq]
    · obtain ⟨q, -, rfl⟩ := List.mem_map.mp hp
      rfl
  dsimp only
  rw [hfind]
  exact gives_pure _

end SudoWhat.Lib.CMemory
