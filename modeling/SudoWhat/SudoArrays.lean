/-
  SudoWhat.SudoArrays — sudo's arrays where they stand in memory.

  sudo hands its plugins NULL-terminated arrays of C strings. The macOS bundles look keys up in
  them and get a pointer into the entry (`find_kv`, the same in both); the Linux plugin takes
  the strings of a whole array as slices (`collect`). The displays' models read lists instead.

  Proved: over an array that stands where sudo says, both run without a fault, leave memory
  alone and give what the lists give (`gives_findKv`, `gives_collect`).
-/

import SudoWhat.Lib.CMemory
import SudoWhat.Linux.Open

namespace SudoWhat.SudoArrays

open SudoWhat.Lib.CMemory
open SudoWhat.Plugin (findKvIn)

abbrev Bytes := List UInt8

/-! ## Looking a key up -/

/-- `strncmp(entry, key, klen) == 0 && entry[klen] == '='`. -/
def isEntry (key : Bytes) (entry : Addr) : C Bool := do
  if ← compareLiteral false ⟨entry, 0⟩ key then return (← loadByte ⟨entry, key.length⟩) == 0x3D else return false

/-- The rest of `find_kv`'s loop, from these pointers on. -/
def findKvFrom (key : Bytes) : List Ptr → C (Option Place)
  | [] => fault
  | none :: _ => pure none
  | some entry :: rest => do
    if ← isEntry key entry then return some ⟨entry, key.length + 1⟩ else findKvFrom key rest

/-- `find_kv`: the value stands in its entry, behind the `=`. -/
def findKv (arr : Ptr) (key : Bytes) : C (Option Place) := if arr = none then pure none else do findKvFrom key (← loadPtrs arr)

/-- `v != NULL && v[0] != '\0'`. -/
def nonEmpty (v : Option Place) : C Bool :=
  match v with
  | none => pure false
  | some p => do return (← loadByte p) != 0

/-- `collect`, from these pointers on. -/
def collectFrom : List Ptr → C (List Bytes)
  | [] => fault
  | none :: _ => pure []
  | some p :: rest => do
    let s ← loadString ⟨p, 0⟩
    let ss ← collectFrom rest
    return s :: ss

def collect (arr : Ptr) (start : Int) : C (List Bytes) :=
  if arr = none ∨ start < 0 then pure [] else do collectFrom ((← loadPtrs arr).drop start.toNat)

/-! ## What stands where -/

/-- An array of sudo's, or NULL. -/
def ArrayAt (g : Objects) (p : Ptr) (arr : Option (List Bytes)) : Prop :=
  (p = none ∧ arr = none) ∨ ∃ n ss, p = some n ∧ arr = some ss ∧ CStrs g n ss

/-- A value of an entry, or NULL. -/
def ValueAt (g : Objects) (p : Option Place) (v : Option Bytes) : Prop :=
  (p = none ∧ v = none) ∨ ∃ q s, p = some q ∧ v = some (s.drop q.off) ∧ CStr g q.obj s ∧ q.off ≤ s.length

theorem valueAt_none (g : Objects) : ValueAt g none none := .inl ⟨rfl, rfl⟩

section

variable {g : Objects}

/-- An entry is the key's when the key begins it and a `=` stands behind. -/
theorem entry_iff (key entry : Bytes) :
    (key ++ lit "=").isPrefixOf entry = (key.isPrefixOf entry && (entry.drop key.length).head? == some 0x3D) := by
  have hlit : lit "=" = [0x3D] := by decide
  rw [hlit]
  induction key generalizing entry with
  | nil =>
    cases entry with
    | nil => rfl
    | cons c cs =>
      change (0x3D == c && true) = (true && c == 0x3D)
      rw [Bool.and_true, Bool.true_and, Bool.beq_comm]
  | cons k ks ih =>
    cases entry with
    | nil => rfl
    | cons c cs => simp only [List.cons_append, List.isPrefixOf, List.length_cons, List.drop_succ_cons, ih, Bool.and_assoc]

theorem gives_isEntry {key : Bytes} (hkey : 0 ∉ key) {p : Addr} {s : Bytes} (hp : CStr g p s) :
    Gives (isEntry key p) g ((key ++ lit "=").isPrefixOf s) g := by
  have hfirst := hp.compare false key hkey (Nat.zero_le _)
  rw [List.drop_zero, if_neg (by decide)] at hfirst
  rw [entry_iff]
  refine gives_bind hfirst ?_
  cases hpre : key.isPrefixOf s with
  | false => exact gives_pure false
  | true =>
    have hlen : key.length ≤ s.length := (List.isPrefixOf_iff_prefix.mp hpre).length_le
    have hbyte : ((s.drop key.length).head?.getD 0 == 0x3D) = (true && (s.drop key.length).head? == some 0x3D) := by
      cases (s.drop key.length).head? <;> rfl
    rw [if_pos rfl, ← hbyte]
    exact gives_bind (hp.byte hlen) (gives_pure _)

theorem gives_findKvFrom {key : Bytes} (hkey : 0 ∉ key) {ps : List Addr} {ss : List Bytes} (hs : List.Forall₂ (CStr g) ps ss)
    (rest : List Ptr) :
    ∃ r, Gives (findKvFrom key (ps.map some ++ none :: rest)) g r g ∧ ValueAt g r (Plugin.findKv ss key) := by
  induction hs with
  | nil => exact ⟨none, gives_pure none, valueAt_none g⟩
  | @cons p s ps ss hp _ ih =>
    unfold Plugin.findKv
    cases hentry : (key ++ lit "=").isPrefixOf s with
    | true =>
      have hlen : key.length + 1 ≤ s.length := by
        have h := (List.isPrefixOf_iff_prefix.mp hentry).length_le
        rwa [List.length_append] at h
      refine ⟨some ⟨p, key.length + 1⟩, gives_bind (gives_isEntry hkey hp) ?_, .inr ⟨_, s, rfl, rfl, hp, hlen⟩⟩
      rw [hentry]
      exact gives_pure _
    | false =>
      obtain ⟨r, hr, hv⟩ := ih
      refine ⟨r, gives_bind (gives_isEntry hkey hp) ?_, hv⟩
      rw [hentry]
      exact hr

/-- `find_kv` gives a pointer to the value the lists give. -/
theorem gives_findKv {p : Ptr} {arr : Option (List Bytes)} (h : ArrayAt g p arr) {key : Bytes} (hkey : 0 ∉ key) :
    ∃ r, Gives (findKv p key) g r g ∧ ValueAt g r (findKvIn arr key) := by
  unfold findKv
  rcases h with ⟨rfl, rfl⟩ | ⟨n, ss, rfl, rfl, ps, rest, ho, hs⟩
  · exact ⟨none, gives_pure none, valueAt_none g⟩
  · obtain ⟨r, hr, hv⟩ := gives_findKvFrom hkey hs rest
    exact ⟨r, gives_bind (gives_bind (gives_object ho) (gives_pure _)) hr, hv⟩

theorem ValueAt.nonEmpty {p : Option Place} {v : Option Bytes} (h : ValueAt g p v) :
    Gives (SudoArrays.nonEmpty p) g (v.any (· != [])) g := by
  rcases h with ⟨rfl, rfl⟩ | ⟨q, s, rfl, rfl, hs, hq⟩
  · exact gives_pure false
  · have hbyte : ((s.drop q.off).head?.getD 0 != 0) = (some (s.drop q.off)).any (· != []) := by
      cases hd : s.drop q.off with
      | nil => rfl
      | cons c cs =>
        have hc : c ≠ 0 := fun e => hs.1 (e ▸ List.mem_of_mem_drop (hd ▸ List.mem_cons_self))
        exact bne_iff_ne.mpr hc
    rw [← hbyte]
    exact gives_bind (hs.byte hq) (gives_pure _)

theorem ValueAt.string {q : Place} {v : Option Bytes} (h : ValueAt g (some q) v) :
    ∃ s, v = some s ∧ Gives (loadString q) g s g ∧
      ∀ key, 0 ∉ key → Gives (compareLiteral true q key) g (s == key) g := by
  obtain ⟨hq, -⟩ | ⟨q', s, hq, rfl, hs, hlen⟩ := h
  · cases hq
  · obtain rfl := Option.some.inj hq
    exact ⟨_, rfl, hs.from hlen, fun key hkey => hs.compare true key hkey hlen⟩

theorem ValueAt.ends {p : Option Place} {s : Bytes} (h : ValueAt g p (some s)) : 0 ∉ s := by
  obtain ⟨-, hv⟩ | ⟨q, whole, -, hv, hs, -⟩ := h
  · cases hv
  · obtain rfl := Option.some.inj hv
    exact fun hm => hs.1 (List.mem_of_mem_drop hm)

theorem ValueAt.of_none {v : Option Bytes} (h : ValueAt g none v) : v = none := by
  obtain ⟨-, hv⟩ | ⟨q, s, hq, -⟩ := h
  · exact hv
  · cases hq

/-- An array read at an index up to its NULL: the word that stands first from there on, or NULL. -/
theorem gives_word {n : Addr} {ss : List Bytes} (h : CStrs g n ss) {i : Nat} (hi : i ≤ ss.length) :
    ∃ q, Gives (loadPtr (some n) i) g q g ∧
      (q = none ∧ ss.drop i = [] ∨ ∃ a s rest, q = some a ∧ ss.drop i = s :: rest ∧ CStr g a s) := by
  obtain ⟨ps, rest, ho, hs⟩ := h
  have hlen := hs.length_eq
  rcases Nat.lt_or_eq_of_le hi with hlt | rfl
  · have hip : i < ps.length := by omega
    refine ⟨some ps[i], gives_loadPtr ho ?_, .inr ⟨ps[i], ss[i], _, rfl, List.drop_eq_getElem_cons hlt, hs.get hip hlt⟩⟩
    rw [List.getElem?_append_left (by simpa using hip), List.getElem?_map, List.getElem?_eq_getElem hip]
    rfl
  · refine ⟨none, gives_loadPtr ho ?_, .inl ⟨rfl, List.drop_length⟩⟩
    rw [List.getElem?_append_right (by simp [hlen])]
    simp [hlen]

theorem gives_collectFrom {ps : List Addr} {ss : List Bytes} (hs : List.Forall₂ (CStr g) ps ss) (rest : List Ptr) :
    Gives (collectFrom (ps.map some ++ none :: rest)) g ss g := by
  induction hs with
  | nil => exact gives_pure []
  | cons hp _ ih => exact gives_bind (hp.from (Nat.zero_le _)) (gives_bind ih (gives_pure _))

/-- `collect` takes the strings the lists have, from any index up to the NULL. -/
theorem gives_collect {p : Ptr} {arr : Option (List Bytes)} (h : ArrayAt g p arr) {start : Int}
    (hstart : start ≤ (arr.getD []).length) : Gives (collect p start) g (Linux.collect arr start) g := by
  unfold collect Linux.collect
  rcases h with ⟨rfl, rfl⟩ | ⟨n, ss, rfl, rfl, ps, rest, ho, hs⟩
  · exact gives_pure []
  · by_cases hneg : start < 0
    · rw [if_pos (.inr hneg)]
      dsimp only
      rw [if_pos hneg]
      exact gives_pure []
    · rw [if_neg (by simpa using hneg)]
      dsimp only
      rw [if_neg hneg]
      have hlen := hs.length_eq
      have hle : start.toNat ≤ ps.length := by
        rw [Option.getD_some] at hstart
        omega
      have hdrop : (ps.map some ++ none :: rest).drop start.toNat = (ps.drop start.toNat).map some ++ none :: rest := by
        rw [List.drop_append_of_le_length (by simpa using hle), List.map_drop]
      refine gives_bind (gives_bind (gives_object ho) (gives_pure _)) ?_
      rw [hdrop]
      exact gives_collectFrom (List.forall₂_drop _ hs) rest

end

end SudoWhat.SudoArrays
