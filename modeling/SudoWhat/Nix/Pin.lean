/-
  SudoWhat.Nix.Pin — the flake's sudowhat pin, as `nix/bin/deploy` and `nix/bin/deploy-plan`
  read it and change it.

  Both read the first line that holds `sudowhat?ref=`, on it the leftmost ref= token and the
  leftmost rev= token. `deploy` then runs a perl program over every line of the flake;
  `deploy-plan` prints a sed command that runs over every line too. What perl and sed make
  of a line is a parameter. Of names that hold nothing special to them, perl replaces every
  match of the literal (`LawfulPerl`) and sed the first match on a line, where a full stop
  matches any character (`LawfulSed`). A file is its lines; where it ends in a break, the
  empty rest behind it is no line, and no edit of such names changes an empty text.

  Not modelled: how the target is chosen from git's tags, the header, the question and the
  rebuild, and what the shell makes of the printed command line (its words are printed
  quoted).

  Proved: what the two readings find (`pinRefKv_eq_some`, `pinnedRev_eq_some`), and that the
  first line with a sudowhat URL is the line read (`PinIn.pinLine_eq`).
-/

import SudoWhat.Lib.Lines
import SudoWhat.Lib.Substitute
import SudoWhat.Shared

namespace SudoWhat.Nix

open SudoWhat.Lib
open SudoWhat.Lib.Substitute
open Lines (contains contains_iff)

/-! ## The tokens -/

def repoMatch : Text := "sudowhat?ref=".toList

def refKey : Text := "ref=".toList
def revKey : Text := "rev=".toList

/-- `[^&"]`. -/
def inRef (c : Char) : Bool := c != '&' && c != '"'

/-- `[0-9a-f]`. -/
def isHex (c : Char) : Bool := (decide ('0' ≤ c) && decide (c ≤ '9')) || (decide ('a' ≤ c) && decide (c ≤ 'f'))

/-- `ref=[^&"]+` where the text begins. -/
def refAt (t : Text) : Option Text :=
  let value := (t.drop refKey.length).takeWhile inRef
  if refKey.isPrefixOf t && !value.isEmpty then some (refKey ++ value) else none

/-- `rev=[0-9a-f]{40}` where the text begins: the digits. -/
def revAt (t : Text) : Option Text :=
  let rev := (t.drop revKey.length).take 40
  if revKey.isPrefixOf t && rev.length == 40 && rev.all isHex then some rev else none

/-- `pin_line`: `grep -F "${REPO_MATCH}" "${FLAKE}" | head -n1`. -/
def pinLine (text : Text) : Option Text := (text.splitOn '\n').find? (contains repoMatch)

/-- `pin_ref_kv`: `grep -oE 'ref=[^&"]+' | head -n1`. -/
def pinRefKv (line : Text) : Option Text := line.tails.findSome? refAt

/-- `pinned_rev`: `grep -oE 'rev=[0-9a-f]{40}' | head -n1 | cut -d= -f2`. -/
def pinnedRev (line : Text) : Option Text := line.tails.findSome? revAt

/-- `pinned_ref` of `deploy-plan`: the ref= token `cut -d= -f2`. -/
def pinnedRef (line : Text) : Option Text := (pinRefKv line).map fun kv => (kv.drop refKey.length).takeWhile (· != '=')

/-! ## The two edits -/

def tagRef (tag : Text) : Text := refKey ++ "refs/tags/".toList ++ tag

def revToken (rev : Text) : Text := revKey ++ rev

/-- `s{\Q<old>\E}{<new>}g`. -/
def perlSwap (old new : Text) : Text :=
  "s\x7b\\Q".toList ++ old ++ "\\E\x7d\x7b".toList ++ new ++ "\x7dg".toList

def subst (kv : Option Text) (targetTag pinnedRev targetRev : Text) : Text :=
  match kv with
  | some kv => perlSwap kv (tagRef targetTag) ++ "; ".toList ++ perlSwap (revToken pinnedRev) (revToken targetRev)
  | none => perlSwap (revToken pinnedRev) (revToken targetRev)

/-- `perl -i -pe`, and `sed -i`: the edit over every line. -/
def editLines (edit : Text → Text) (text : Text) : Text := ['\n'].intercalate ((text.splitOn '\n').map edit)

inductive Deployed where
  | refused (error : Text)
  | inSync
  | edited (flake : Text)
  deriving DecidableEq

/-- `deploy` from the reading of the pin to `PIN_CMD`. -/
def deploy (perl : Text → Text → Text) (flake text targetTag targetRev : Text) : Deployed :=
  match pinLine text with
  | none => .refused ("✗ error: no sudowhat input pin in the flake: ".toList ++ flake)
  | some line =>
    match pinnedRev line with
    | none => .refused ("✗ error: no rev= pin for sudowhat in the flake: ".toList ++ flake)
    | some rev =>
      if rev = targetRev then .inSync
      else .edited (editLines (perl (subst (pinRefKv line) targetTag rev targetRev)) text)

/-- `s|<old>|<new>|`. -/
def sedSwap (old new : Text) : Text := "s|".toList ++ old ++ "|".toList ++ new ++ "|".toList

/-- The scripts of the sed command `deploy-plan` prints, none where it prints none. -/
def planScripts (text targetTag targetRev : Text) : Option (List Text) :=
  match pinLine text with
  | none => none
  | some line =>
    match pinnedRev line, pinnedRef line with
    | some rev, some ref =>
      if rev = targetRev ∨ ref = [] then none
      else some [sedSwap (refKey ++ ref) (tagRef targetTag), sedSwap (revToken rev) (revToken targetRev)]
    | _, _ => none

/-- The flake after the printed command. -/
def deployPlan (sed : List Text → Text → Text) (text targetTag targetRev : Text) : Option Text :=
  (planScripts text targetTag targetRev).map fun scripts => editLines (sed scripts) text

/-! ## perl and sed -/

/-- How deep a text leaves the braces around it, none where it closes one that it did not open. -/
def braces : Nat → Text → Option Nat
  | d, [] => some d
  | d, c :: t =>
    if c = '{' then braces (d + 1) t
    else if c = '}' then
      match d with
      | 0 => none
      | d + 1 => braces d t
    else braces d t

/-- A text in which perl reads nothing but the text, in a pattern between `\Q` and `\E` and
    in a replacement: braces delimit both, so the text's own have to nest. -/
structure PerlPlain (s : Text) : Prop where
  chars : ∀ c ∈ s, c ∉ ['$', '@', '\\', '\n']
  nest : braces 0 s = some 0

structure LawfulPerl (perl : Text → Text → Text) : Prop where
  one : ∀ {old new line : Text}, PerlPlain old → PerlPlain new → old ≠ [] → '\n' ∉ line →
    perl (perlSwap old new) line = substAll (literal old) new 0 line
  two : ∀ {old new old' new' line : Text}, PerlPlain old → PerlPlain new → old ≠ [] → PerlPlain old' → PerlPlain new' →
    old' ≠ [] → '\n' ∉ line → perl (perlSwap old new ++ "; ".toList ++ perlSwap old' new') line =
      substAll (literal old') new' 0 (substAll (literal old) new 0 line)

/-- A basic regular expression that is special in its full stops only. -/
def SedPlain (s : Text) : Prop := ∀ c ∈ s, c ∉ ['[', '\\', '*', '^', '$', '|', '\n']

def SedReplacement (s : Text) : Prop := ∀ c ∈ s, c ∉ ['&', '\\', '|', '\n']

def sedPattern (s : Text) : Pattern Char := s.map fun c => if c = '.' then none else some c

structure LawfulSed (sed : List Text → Text → Text) : Prop where
  two : ∀ {old new old' new' line : Text}, SedPlain old → SedReplacement new → old ≠ [] → SedPlain old' →
    SedReplacement new' → old' ≠ [] → '\n' ∉ line → sed [sedSwap old new, sedSwap old' new'] line =
      substFirst (sedPattern old') new' (substFirst (sedPattern old) new line)

/-! ## The pin -/

/-- A tag of the characters git allows in one. -/
def IsTag (tag : Text) : Prop :=
  ∀ c ∈ tag, c ∉ [' ', '~', '^', ':', '?', '*', '[', '\\'] ∧ 0x20 ≤ c.toNat ∧ c.toNat ≠ 0x7F

def IsRev (rev : Text) : Prop := rev.length = 40 ∧ ∀ c ∈ rev, isHex c = true

/-- The first sudowhat URL on a line, with its ref= token, the parameters after it, each
    with its `&` in front, and among them a rev= token of 40 digits. -/
structure Pin where
  before : Text
  ref : Text
  params : Text
  rev : Text
  after : Text
  first : ∀ a b, before ++ repoMatch = a ++ (repoMatch ++ b) → a = before
  ref_ne : ref ≠ []
  ref_inRef : ∀ c ∈ ref, inRef c = true
  params_opens : ∀ c ∈ params.head?, c = '&'
  params_quote : '"' ∉ params
  rev_isRev : IsRev rev
  rev_ends : ∀ c ∈ after.head?, isHex c = false

namespace Pin

/-- What stands before the ref= token. -/
def site (p : Pin) : Text := p.before ++ "sudowhat?".toList

def refToken (p : Pin) : Text := refKey ++ p.ref

/-- The line with other names in the two tokens. -/
def lineWith (p : Pin) (refToken rev : Text) : Text :=
  p.site ++ (refToken ++ (p.params ++ '&' :: (revToken rev ++ p.after)))

def line (p : Pin) : Text := p.lineWith p.refToken p.rev

/-- What stands before the rev= token. -/
def revSite (p : Pin) : Text := p.site ++ (p.refToken ++ (p.params ++ ['&']))

end Pin

/-- The pin of a flake: the first line that holds `sudowhat?ref=`, and the others. -/
structure PinIn (text : Text) where
  above : List Text
  pin : Pin
  below : List Text
  lines : text.splitOn '\n' = above ++ pin.line :: below
  first : ∀ l ∈ above, ¬ repoMatch <:+: l

/-- The flake with the pin's two tokens set to the target, and nothing else changed. -/
def PinIn.bumped {text : Text} (p : PinIn text) (targetTag targetRev : Text) : Text :=
  ['\n'].intercalate (p.above ++ p.pin.lineWith (tagRef targetTag) targetRev :: p.below)

def EditsOnlyPin (text targetTag targetRev edited : Text) : Prop := ∃ p : PinIn text, edited = p.bumped targetTag targetRev

/-! ## What the readings find -/

theorem takeWhile_stop {p : Char → Bool} {v b : Text} (hv : ∀ c ∈ v, p c = true) (hb : ∀ c ∈ b.head?, p c = false) :
    (v ++ b).takeWhile p = v := by
  rw [List.takeWhile_append_of_pos hv]
  cases b with
  | nil => rw [List.takeWhile_nil, List.append_nil]
  | cons c b => rw [List.takeWhile_cons_of_neg (by rw [hb c rfl]; exact Bool.false_ne_true), List.append_nil]

theorem refAt_eq_some {t kv : Text} : refAt t = some kv ↔ ∃ v b, t = refKey ++ (v ++ b) ∧ kv = refKey ++ v ∧ v ≠ [] ∧
    (∀ c ∈ v, inRef c = true) ∧ ∀ c ∈ b.head?, inRef c = false := by
  unfold refAt
  constructor
  · intro h
    obtain ⟨hcond, hkv⟩ := Option.ite_none_right_eq_some.mp h
    obtain ⟨hpre, hne⟩ := Bool.and_eq_true_iff.mp hcond
    obtain ⟨rest, rfl⟩ := List.isPrefixOf_iff_prefix.mp hpre
    rw [List.drop_left] at hne hkv
    refine ⟨rest.takeWhile inRef, rest.dropWhile inRef, ?_, (Option.some.inj hkv).symm, ?_, ?_, ?_⟩
    · rw [List.takeWhile_append_dropWhile]
    · intro e
      rw [e] at hne
      exact Bool.false_ne_true hne
    · exact fun c hc => List.mem_takeWhile_imp hc
    · intro c hc
      have := List.head?_dropWhile_not inRef rest
      rw [Option.mem_def.mp hc] at this
      exact this
  · intro ⟨v, b, ht, hkv, hne, hv, hb⟩
    have hvalue : (t.drop refKey.length).takeWhile inRef = v := by rw [ht, List.drop_left, takeWhile_stop hv hb]
    have hpre : refKey.isPrefixOf t = true := List.isPrefixOf_iff_prefix.mpr ⟨v ++ b, ht.symm⟩
    have hnil : v.isEmpty = false := List.isEmpty_eq_false_iff.mpr hne
    simp only [hvalue, hpre, hnil, hkv]
    rfl

theorem revAt_eq_some {t rev : Text} : revAt t = some rev ↔ IsRev rev ∧ ∃ b, t = revToken rev ++ b := by
  unfold revAt
  constructor
  · intro h
    obtain ⟨hcond, hrev⟩ := Option.ite_none_right_eq_some.mp h
    simp only [Bool.and_eq_true, beq_iff_eq, List.all_eq_true] at hcond
    obtain ⟨⟨hpre, hlen⟩, hhex⟩ := hcond
    obtain ⟨rest, rfl⟩ := List.isPrefixOf_iff_prefix.mp hpre
    rw [List.drop_left] at hlen hhex hrev
    obtain rfl := Option.some.inj hrev
    exact ⟨⟨hlen, hhex⟩, rest.drop 40, by rw [revToken, List.append_assoc, List.take_append_drop]⟩
  · intro ⟨hrev, b, ht⟩
    have hdigits : (t.drop revKey.length).take 40 = rev := by
      rw [ht, revToken, List.append_assoc, List.drop_left, ← hrev.1, List.take_left]
    have hpre : revKey.isPrefixOf t = true :=
      List.isPrefixOf_iff_prefix.mpr ⟨rev ++ b, by rw [ht, revToken, List.append_assoc]⟩
    have hall : rev.all isHex = true := List.all_eq_true.mpr hrev.2
    simp only [hdigits, hpre, hrev.1, hall]
    rfl

theorem findSome?_tails {β : Type} {read : Text → Option β} {line : Text} {x : β} :
    line.tails.findSome? read = some x ↔
      ∃ a t, line = a ++ t ∧ read t = some x ∧ ∀ a' t', line = a' ++ t' → a'.length < a.length → read t' = none := by
  induction line with
  | nil =>
    show [[]].findSome? read = some x ↔ _
    rw [List.findSome?_singleton]
    constructor
    · intro h
      exact ⟨[], [], rfl, h, fun _ _ _ h => absurd h (Nat.not_lt_zero _)⟩
    · intro ⟨a, t, e, ht, _⟩
      obtain ⟨-, rfl⟩ := List.append_eq_nil_iff.mp e.symm
      exact ht
  | cons c line ih =>
    rw [List.tails_cons, List.findSome?_cons]
    cases hr : read (c :: line) with
    | some y =>
      constructor
      · intro h
        exact ⟨[], c :: line, rfl, hr.trans h, fun _ _ _ h => absurd h (Nat.not_lt_zero _)⟩
      · intro ⟨a, t, e, ht, hleast⟩
        cases a with
        | nil =>
          rw [List.nil_append] at e
          exact hr.symm.trans (e ▸ ht)
        | cons d a =>
          have := hleast [] (c :: line) rfl (Nat.succ_pos _)
          rw [hr] at this
          exact absurd this (by simp)
    | none =>
      show line.tails.findSome? read = some x ↔ _
      rw [ih]
      constructor
      · intro ⟨a, t, e, ht, hleast⟩
        refine ⟨c :: a, t, by rw [e]; rfl, ht, fun a' t' e' hlt => ?_⟩
        cases a' with
        | nil =>
          rw [List.nil_append] at e'
          exact e' ▸ hr
        | cons d a' => exact hleast a' t' (List.cons.inj e').2 (Nat.lt_of_succ_lt_succ hlt)
      · intro ⟨a, t, e, ht, hleast⟩
        cases a with
        | nil =>
          rw [List.nil_append] at e
          rw [e, ht] at hr
          exact absurd hr (by simp)
        | cons d a =>
          exact ⟨a, t, (List.cons.inj e).2, ht, fun a' t' e' hlt =>
            hleast (c :: a') t' (by rw [e']; rfl) (Nat.succ_lt_succ hlt)⟩

theorem pinRefKv_eq_some {line kv : Text} (h : pinRefKv line = some kv) :
    ∃ a v b, line = a ++ (kv ++ b) ∧ kv = refKey ++ v ∧ v ≠ [] ∧ (∀ c ∈ v, inRef c = true) ∧
      (∀ c ∈ b.head?, inRef c = false) ∧ ∀ a' t', line = a' ++ t' → a'.length < a.length → refAt t' = none := by
  obtain ⟨a, t, e, ht, hleast⟩ := findSome?_tails.mp h
  obtain ⟨v, b, rfl, hkv, hv⟩ := refAt_eq_some.mp ht
  refine ⟨a, v, b, ?_, hkv, hv.1, hv.2.1, hv.2.2, hleast⟩
  rw [e, hkv, List.append_assoc]

theorem pinnedRev_eq_some {line rev : Text} :
    pinnedRev line = some rev ↔
      IsRev rev ∧ ∃ a b, line = a ++ (revToken rev ++ b) ∧
        ∀ a' t', line = a' ++ t' → a'.length < a.length → revAt t' = none := by
  unfold pinnedRev
  rw [findSome?_tails]
  constructor
  · intro ⟨a, t, e, ht, hleast⟩
    obtain ⟨hrev, b, rfl⟩ := revAt_eq_some.mp ht
    exact ⟨hrev, a, b, e, hleast⟩
  · intro ⟨hrev, a, b, e, hleast⟩
    exact ⟨a, _, e, revAt_eq_some.mpr ⟨hrev, b, rfl⟩, hleast⟩

theorem repoMatch_eq : repoMatch = "sudowhat?".toList ++ refKey := rfl

theorem Pin.repoMatch_stands (p : Pin) (ref rev : Text) : repoMatch <:+: p.lineWith (refKey ++ ref) rev := by
  refine ⟨p.before, ref ++ (p.params ++ '&' :: (revToken rev ++ p.after)), ?_⟩
  rw [repoMatch_eq, lineWith, site]
  simp only [List.append_assoc]

theorem PinIn.pinLine_eq {text : Text} (p : PinIn text) : pinLine text = some p.pin.line := by
  unfold pinLine
  have hpin : contains repoMatch p.pin.line = true := contains_iff.mpr (p.pin.repoMatch_stands p.pin.ref p.pin.rev)
  rw [p.lines, List.find?_append, List.find?_cons_of_pos hpin]
  have habove : p.above.find? (contains repoMatch) = none := by
    refine List.find?_eq_none.mpr fun l hl h => ?_
    exact p.first l hl (contains_iff.mp h)
  rw [habove]
  rfl

end SudoWhat.Nix
