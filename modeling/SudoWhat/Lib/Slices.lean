/-
  SudoWhat.Lib.Slices — slices read with their bounds checked.

  A `Checked` computation gives a value or stops at its first fault: an index, a range or a
  cut past the end of its slice, a difference below zero, a loop that used up its rounds.
  One rule for each access says when it is in range and what it gives; `scan` and `trim`
  are the loops that walk an index up or down while the element there satisfies a test
  (`scan_ok`, `trim_ok`), and `rposition` is the last index that satisfies one.
-/

import Mathlib.Data.List.TakeWhile

namespace SudoWhat.Lib.Slices

inductive Fault where
  /-- `s[i]`. -/
  | index
  /-- `s[a..]` or `s[..b]`. -/
  | range
  | splitAt
  | underflow
  /-- Still in a loop. -/
  | spinning
  deriving DecidableEq, Repr

abbrev Checked (α : Type) := Except Fault α

variable {α β : Type}

@[simp] theorem ok_bind (a : α) (f : α → Checked β) : (Except.ok a >>= f) = f a := rfl

/-! ## One access -/

def get (s : List α) (i : Nat) : Checked α :=
  match s[i]? with
  | some a => .ok a
  | none => .error .index

/-- `s[start..]`. -/
def sliceFrom (s : List α) (start : Nat) : Checked (List α) := if start ≤ s.length then .ok (s.drop start) else .error .range

/-- `s[..stop]`. -/
def sliceTo (s : List α) (stop : Nat) : Checked (List α) := if stop ≤ s.length then .ok (s.take stop) else .error .range

def splitAt (s : List α) (mid : Nat) : Checked (List α × List α) :=
  if mid ≤ s.length then .ok (s.splitAt mid) else .error .splitAt

def sub (a b : Nat) : Checked Nat := if b ≤ a then .ok (a - b) else .error .underflow

theorem get_of_drop {s rest : List α} {i : Nat} {a : α} (h : s.drop i = a :: rest) : get s i = .ok a := by
  have hi : s[i]? = some a := by rw [← List.head?_drop, h]; rfl
  unfold get
  rw [hi]

theorem sliceFrom_ok {s : List α} {start : Nat} (h : start ≤ s.length) : sliceFrom s start = .ok (s.drop start) := if_pos h

theorem sliceTo_ok {s : List α} {stop : Nat} (h : stop ≤ s.length) : sliceTo s stop = .ok (s.take stop) := if_pos h

theorem splitAt_ok {s : List α} {mid : Nat} (h : mid ≤ s.length) : splitAt s mid = .ok (s.splitAt mid) := if_pos h

theorem sub_ok {a b : Nat} (h : b ≤ a) : sub a b = .ok (a - b) := if_pos h

theorem length_of_drop {s rest : List α} {i : Nat} {a : α} (h : s.drop i = a :: rest) : i < s.length := by
  have := congrArg List.length h
  simp only [List.length_drop, List.length_cons] at this
  omega

theorem drop_next {s rest : List α} {i : Nat} {a : α} (h : s.drop i = a :: rest) : s.drop (i + 1) = rest := by
  rw [← List.drop_drop, h]
  rfl

/-! ## Walking an index -/

variable (p : α → Bool)

/-- `while j < s.len() && p(&s[j]) { j += 1 }`. -/
def scan (s : List α) : Nat → Nat → Checked Nat
  | 0, _ => .error .spinning
  | fuel + 1, j =>
    if j < s.length then do
      let a ← get s j
      if p a then scan s fuel (j + 1) else .ok j
    else .ok j

/-- `while end > 0 && p(&s[end - 1]) { end -= 1 }`. -/
def trim (s : List α) : Nat → Checked Nat
  | 0 => .ok 0
  | last + 1 => do
    let a ← get s last
    if p a then trim s last else .ok (last + 1)

/-- One round more than there are elements left is enough. -/
theorem scan_ok {s : List α} : ∀ {fuel j : Nat}, s.length - j < fuel →
    scan p s fuel j = .ok (j + ((s.drop j).takeWhile p).length) := by
  intro fuel
  induction fuel with
  | zero => intro j h; omega
  | succ fuel ih =>
    intro j h
    unfold scan
    cases hd : s.drop j with
    | nil =>
      rw [if_neg (Nat.not_lt.mpr (List.drop_eq_nil_iff.mp hd))]
      rfl
    | cons a rest =>
      rw [if_pos (length_of_drop hd), get_of_drop hd, ok_bind]
      by_cases ha : p a = true
      · rw [if_pos ha, ih (by have := length_of_drop hd; omega), drop_next hd, List.takeWhile_cons_of_pos ha, List.length_cons]
        congr 1
        omega
      · rw [if_neg ha, List.takeWhile_cons_of_neg ha]
        rfl

/-- What is left ends where the reversed slice stops satisfying the test. -/
theorem trim_ok {s : List α} : ∀ {stop : Nat}, stop ≤ s.length →
    ∃ kept ≤ stop, trim p s stop = .ok kept ∧ (s.take kept).reverse = (s.take stop).reverse.dropWhile p := by
  intro stop
  induction stop with
  | zero => intro _; exact ⟨0, Nat.le_refl 0, rfl, rfl⟩
  | succ last ih =>
    intro h
    have hlast : last < s.length := h
    have hdrop : s.drop last = s[last] :: s.drop (last + 1) := List.drop_eq_getElem_cons hlast
    have htake : (s.take (last + 1)).reverse = s[last] :: (s.take last).reverse := by
      rw [List.take_succ_eq_append_getElem hlast, List.reverse_append]
      rfl
    unfold trim
    rw [get_of_drop hdrop, ok_bind, htake]
    by_cases ha : p s[last] = true
    · obtain ⟨kept, hle, hkept, hrev⟩ := ih (Nat.le_of_lt hlast)
      refine ⟨kept, Nat.le_succ_of_le hle, ?_, ?_⟩
      · rw [if_pos ha, hkept]
      · rw [List.dropWhile_cons_of_pos ha, hrev]
    · refine ⟨last + 1, Nat.le_refl _, if_neg ha, ?_⟩
      rw [List.dropWhile_cons_of_neg ha, htake]

/-! ## The last element that satisfies a test -/

/-- `s.iter().rposition(p)`. -/
def rposition (s : List α) : Option Nat := (s.reverse.findIdx? p).map fun k => s.length - 1 - k

variable {p}

theorem rposition_lt {s : List α} {idx : Nat} (h : rposition p s = some idx) : idx < s.length := by
  obtain ⟨k, hk, rfl⟩ := Option.map_eq_some_iff.mp h
  have := (List.findIdx?_eq_some_iff_getElem.mp hk).1
  rw [List.length_reverse] at this
  omega

/-- Past it nothing satisfies the test. -/
theorem drop_rposition {s : List α} {idx : Nat} (h : rposition p s = some idx) :
    s.drop (idx + 1) = (s.reverse.takeWhile (!p ·)).reverse := by
  obtain ⟨k, hk, rfl⟩ := Option.map_eq_some_iff.mp h
  obtain ⟨hlt, hfirst⟩ := List.findIdx?_eq_some_iff_findIdx_eq.mp hk
  rw [List.length_reverse] at hlt
  have htake : s.reverse.takeWhile (!p ·) = s.reverse.take k := by
    rw [List.takeWhile_eq_take_findIdx_not]
    simp only [Bool.not_not, hfirst]
  rw [htake, ← List.reverse_reverse (s.drop _), List.reverse_drop]
  congr 2
  omega

theorem rposition_eq_none {s : List α} (h : ∀ a ∈ s, p a = false) : rposition p s = none := by
  rw [rposition, Option.map_eq_none_iff, List.findIdx?_eq_none_iff]
  exact fun a ha => h a (List.mem_reverse.mp ha)

theorem rposition_append {s t : List α} {a : α} (ha : p a = true) (ht : ∀ b ∈ t, p b = false) :
    rposition p (s ++ a :: t) = some s.length := by
  have hnone : t.reverse.findIdx? p = none := by
    rw [List.findIdx?_eq_none_iff]
    exact fun b hb => ht b (List.mem_reverse.mp hb)
  rw [rposition, List.reverse_append, List.reverse_cons, List.append_assoc, List.findIdx?_append, hnone,
    List.singleton_append, List.findIdx?_cons, if_pos ha]
  simp

theorem takeWhile_of_rposition_none {s : List α} (h : rposition p s = none) : (s.reverse.takeWhile (!p ·)).reverse = s := by
  have hnone := List.findIdx?_eq_none_iff.mp (Option.map_eq_none_iff.mp h)
  rw [List.takeWhile_eq_self_iff.mpr fun a ha => by simp [hnone a ha], List.reverse_reverse]

end SudoWhat.Lib.Slices
