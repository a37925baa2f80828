/-
  SudoWhat.EscapeCore.Ffi — the C face of the escape core (`shared/escape_core/src/lib.rs`,
  `escape_core.h`).

  An extern reads its inputs out of the caller's memory, renders them, and writes the result
  under the buffer contract: `*needed` is the length whenever there is one to set; the text and
  a NUL go into the buffer when it has room for both; otherwise the buffer is left alone.

  `KeepsContract g call text`: wherever the inputs of `g` are, `call` does that for `text`, and
  nothing else. Proved: every extern keeps it, for the text the core renders
  (`externs_keep_contract`).
-/

import SudoWhat.EscapeCore.Colour
import SudoWhat.Lib.CMemory

namespace SudoWhat.EscapeCore.Ffi

open SudoWhat.Lib SudoWhat.Lib.CMemory

def swEscapeOk : Nat := 0
def swEscapeTruncated : Nat := 1

/-! ## Reading and writing -/

def readInput (ptr : Ptr) (len : Nat) : C Bytes := if ptr = none ∨ len = 0 then pure [] else loadBytes ptr len

/-- The tokens from the `i`-th on. -/
def readTokens (argv argvLens : Ptr) : Nat → Nat → C (List Bytes)
  | _, 0 => pure []
  | i, k + 1 => do
    let tokPtr ← loadPtr argv i
    let tokLen ← loadSize argvLens i
    let tok ← readInput tokPtr tokLen
    let toks ← readTokens argv argvLens (i + 1) k
    return tok :: toks

def readArgv (argv argvLens : Ptr) (argvCount : Nat) : C (List Bytes) :=
  if argv ≠ none ∧ argvLens ≠ none then readTokens argv argvLens 0 argvCount else pure []

/-- `*needed`, if there is one. -/
def setNeeded (needed : Ptr) (n : Nat) : C Unit := if needed = none then pure () else storeSize needed 0 n

def writeResult (result : List Char) (out : Ptr) (outCap : Nat) (needed : Ptr) : C Nat := do
  setNeeded needed (Utf8.encode result).length
  if out = none ∨ outCap < (Utf8.encode result).length + 1 then return swEscapeTruncated
  else
    storeBytes out 0 (Utf8.encode result)
    storeBytes out (Utf8.encode result).length [0]
    return swEscapeOk

/-! ## The externs -/

/-- One value. -/
def oneValue (render : Bytes → List Char) (input : Ptr) (inputLen : Nat) (out : Ptr) (outCap : Nat) (needed : Ptr) : C Nat := do
  let bytes ← readInput input inputLen
  writeResult (render bytes) out outCap needed

/-- A path and its tokens. -/
def commandLine (render : Bytes → List Bytes → List Char) (path : Ptr) (pathLen : Nat) (argv argvLens : Ptr)
    (argvCount : Nat) (out : Ptr) (outCap : Nat) (needed : Ptr) : C Nat := do
  let toks ← readArgv argv argvLens argvCount
  let path ← readInput path pathLen
  writeResult (render path toks) out outCap needed

def swEscapeControl : Ptr → Nat → Ptr → Nat → Ptr → C Nat := oneValue escapeBytes
def swQuoteToken : Ptr → Nat → Ptr → Nat → Ptr → C Nat := oneValue quoteBytes

/-- The signature the command line's renderers share. -/
abbrev CmdlineFn := Ptr → Nat → Ptr → Ptr → Nat → Ptr → Nat → Ptr → C Nat

def swFullCommandLine : CmdlineFn := commandLine fullCommandLineBytes
def swFullCommandLineColored : CmdlineFn := commandLine fun path argv => renderCommandLine path argv .roles
def swFullCommandLineColoredDim : CmdlineFn := commandLine fun path argv => renderCommandLine path argv .dim

/-! ## Inputs -/

/-- `len` bytes at a pointer; NULL, or no length, is no bytes. -/
def Input (g : Objects) (ptr : Ptr) (len : Nat) (bytes : Bytes) : Prop :=
  ((ptr = none ∨ len = 0) ∧ bytes = []) ∨
    ∃ n bs, ptr = some n ∧ g n = some (.bytes bs) ∧ len ≤ bs.length ∧ bytes = bs.take len

/-- Token `i` of the arrays is `tok`. -/
def TokenAt (g : Objects) (ps : List Ptr) (ns : List Nat) (i : Nat) (tok : Bytes) : Prop :=
  ∃ p n, ps[i]? = some p ∧ ns[i]? = some n ∧ Input g p n tok

/-- The tokens of a C array; with either array NULL there are none. -/
def Argv (g : Objects) (argv argvLens : Ptr) (count : Nat) (toks : List Bytes) : Prop :=
  ((argv = none ∨ argvLens = none) ∧ toks = []) ∨
    ∃ a l ps ns, argv = some a ∧ argvLens = some l ∧ g a = some (.pointers ps) ∧ g l = some (.sizes ns) ∧
      toks.length = count ∧ ∀ i (hi : i < toks.length), TokenAt g ps ns i toks[i]

section

variable {g g' : Objects}

theorem Input.mono {ptr : Ptr} {len : Nat} {bytes : Bytes} (h : Input g ptr len bytes) (he : Extends g g') :
    Input g' ptr len bytes := by
  rcases h with h | ⟨n, bs, hp, ho, hlen, hbytes⟩
  · exact .inl h
  · exact .inr ⟨n, bs, hp, he _ _ ho, hlen, hbytes⟩

theorem Argv.mono {argv argvLens : Ptr} {count : Nat} {toks : List Bytes} (h : Argv g argv argvLens count toks)
    (he : Extends g g') : Argv g' argv argvLens count toks := by
  rcases h with h | ⟨a, l, ps, ns, ha, hl, hpa, hnl, hcount, htoks⟩
  · exact .inl h
  · refine .inr ⟨a, l, ps, ns, ha, hl, he _ _ hpa, he _ _ hnl, hcount, fun i hi => ?_⟩
    obtain ⟨p, n, hp, hn, hin⟩ := htoks i hi
    exact ⟨p, n, hp, hn, hin.mono he⟩

theorem gives_readInput {ptr : Ptr} {len : Nat} {bytes : Bytes} (h : Input g ptr len bytes) :
    Gives (readInput ptr len) g bytes g := by
  unfold readInput
  rcases h with ⟨h, rfl⟩ | ⟨n, bs, rfl, ho, hlen, rfl⟩
  · rw [if_pos h]
    exact gives_pure _
  · by_cases h0 : len = 0
    · subst h0
      rw [if_pos (.inr rfl), List.take_zero]
      exact gives_pure _
    · rw [if_neg (by simp [h0])]
      exact gives_loadBytes ho hlen

theorem gives_readTokens {a l : Addr} {ps : List Ptr} {ns : List Nat} (ha : g a = some (.pointers ps))
    (hl : g l = some (.sizes ns)) : ∀ (toks : List Bytes) (i : Nat),
      (∀ j (hj : j < toks.length), TokenAt g ps ns (i + j) toks[j]) →
      Gives (readTokens (some a) (some l) i toks.length) g toks g := by
  intro toks
  induction toks with
  | nil => exact fun i _ => gives_pure _
  | cons tok toks ih =>
    intro i h
    obtain ⟨p, n, hp, hn, hin⟩ := h 0 (Nat.zero_lt_succ _)
    refine gives_bind (gives_loadPtr ha hp) (gives_bind (gives_loadSize hl hn) (gives_bind (gives_readInput hin) ?_))
    refine gives_bind (ih (i + 1) fun j hj => ?_) (gives_pure _)
    have htok := h (j + 1) (Nat.succ_lt_succ hj)
    rwa [show i + (j + 1) = i + 1 + j by omega] at htok

theorem gives_readArgv {argv argvLens : Ptr} {count : Nat} {toks : List Bytes} (h : Argv g argv argvLens count toks) :
    Gives (readArgv argv argvLens count) g toks g := by
  unfold readArgv
  rcases h with ⟨h, rfl⟩ | ⟨a, l, ps, ns, rfl, rfl, ha, hl, rfl, htoks⟩
  · rw [if_neg (by rcases h with rfl | rfl <;> simp)]
    exact gives_pure _
  · rw [if_pos (by simp)]
    exact gives_readTokens ha hl toks 0 fun j hj => by
      rw [Nat.zero_add]
      exact htoks j hj

end

/-! ## The contract -/

/-- Where the length goes, if it goes anywhere. -/
def NeededAt (g : Objects) (needed : Ptr) : Prop := ∀ m, needed = some m → ∃ k, g m = some (.sizes [k])

/-- With the length set. -/
def withNeeded (g : Objects) (needed : Ptr) (n : Nat) : Objects :=
  match needed with
  | none => g
  | some m => Function.update g m (some (.sizes [n]))

/-- The buffer contract, wherever the inputs are. -/
structure KeepsContract (g : Objects) (call : Ptr → Nat → Ptr → C Nat) (text : List Char) : Prop where
  /-- No buffer, or one without room for the text and its NUL. -/
  truncated : ∀ {g' out cap needed}, Extends g g' → NeededAt g' needed →
    (out = none ∨ cap < (Utf8.encode text).length + 1) →
    Gives (call out cap needed) g' swEscapeTruncated (withNeeded g' needed (Utf8.encode text).length)
  /-- A buffer as large as it is said to be, with room for both. -/
  fits : ∀ {g' b bs cap needed}, Extends g g' → NeededAt g' needed → g' b = some (.bytes bs) → cap ≤ bs.length →
    (Utf8.encode text).length + 1 ≤ cap →
    Gives (call (some b) cap needed) g' swEscapeOk
      (Function.update (withNeeded g' needed (Utf8.encode text).length) b
        (some (.bytes (Utf8.encode text ++ 0 :: bs.drop ((Utf8.encode text).length + 1)))))

section

variable {g : Objects}

theorem gives_setNeeded {needed : Ptr} (h : NeededAt g needed) (n : Nat) :
    Gives (setNeeded needed n) g () (withNeeded g needed n) := by
  unfold setNeeded withNeeded
  cases needed with
  | none => exact gives_pure ()
  | some m =>
    obtain ⟨k, hk⟩ := h m rfl
    rw [if_neg (by simp)]
    exact gives_storeSize hk (by simp) n

theorem withNeeded_bytes {needed : Ptr} (h : NeededAt g needed) {b : Addr} {bs : List UInt8} (hb : g b = some (.bytes bs))
    (n : Nat) : withNeeded g needed n b = some (.bytes bs) := by
  cases needed with
  | none => exact hb
  | some m =>
    obtain ⟨k, hk⟩ := h m rfl
    have hne : b ≠ m := by
      rintro rfl
      cases hk.symm.trans hb
    exact (Function.update_of_ne hne _ _).trans hb

/-- An extern that comes down to writing one text keeps the contract for it. -/
theorem keepsContract_of_writes {call : Ptr → Nat → Ptr → C Nat} {text : List Char}
    (h : ∀ {g' out cap needed r g''}, Extends g g' → Gives (writeResult text out cap needed) g' r g'' →
      Gives (call out cap needed) g' r g'') : KeepsContract g call text := by
  constructor
  · intro g' out cap needed he hneeded hroom
    refine h he (gives_bind (gives_setNeeded hneeded _) ?_)
    rw [if_pos hroom]
    exact gives_pure _
  · intro g' b bs cap needed he hneeded hb hcap hroom
    refine h he (gives_bind (gives_setNeeded hneeded _) ?_)
    have hb' := withNeeded_bytes hneeded hb (Utf8.encode text).length
    generalize withNeeded g' needed (Utf8.encode text).length = now at hb'
    rw [if_neg (by simp; omega)]
    refine gives_bind (gives_storeBytes hb' (by omega)) ?_
    refine gives_bind (gives_storeBytes (Function.update_self b _ now) ?_) ?_
    · simp only [List.take_zero, List.nil_append, List.length_append, List.length_drop, List.length_singleton]
      omega
    · have hbuffer : (bs.take 0 ++ Utf8.encode text ++ bs.drop (0 + (Utf8.encode text).length)).take (Utf8.encode text).length
          ++ [0] ++ (bs.take 0 ++ Utf8.encode text ++ bs.drop (0 + (Utf8.encode text).length)).drop
            ((Utf8.encode text).length + [(0 : UInt8)].length) =
          Utf8.encode text ++ 0 :: bs.drop ((Utf8.encode text).length + 1) := by
        rw [List.take_zero, List.nil_append, Nat.zero_add, List.take_left, List.length_singleton, ← List.drop_drop,
          List.drop_left, List.drop_drop, List.append_assoc]
        rfl
      rw [hbuffer, Function.update_idem]
      exact gives_pure _

end

/-- Every extern keeps the buffer contract, for the text the core renders from the bytes its
    caller passed: NULL and empty inputs, tokens that are NULL, and a NULL buffer included. -/
theorem externs_keep_contract (g : Objects) :
    (∀ input len bytes, Input g input len bytes →
      KeepsContract g (swEscapeControl input len) (escapeBytes bytes) ∧
        KeepsContract g (swQuoteToken input len) (quoteBytes bytes)) ∧
    ∀ path len bytes argv argvLens count toks, Input g path len bytes → Argv g argv argvLens count toks →
      KeepsContract g (swFullCommandLine path len argv argvLens count) (fullCommandLineBytes bytes toks) ∧
        KeepsContract g (swFullCommandLineColored path len argv argvLens count) (renderCommandLine bytes toks .roles) ∧
        KeepsContract g (swFullCommandLineColoredDim path len argv argvLens count) (renderCommandLine bytes toks .dim) := by
  have hvalue : ∀ render input len bytes, Input g input len bytes → KeepsContract g (oneValue render input len) (render bytes) :=
    fun render input len bytes hin => keepsContract_of_writes fun he hw => gives_bind (gives_readInput (hin.mono he)) hw
  have hline : ∀ render path len bytes argv argvLens count toks, Input g path len bytes → Argv g argv argvLens count toks →
      KeepsContract g (commandLine render path len argv argvLens count) (render bytes toks) :=
    fun render path len bytes argv argvLens count toks hin hargv => keepsContract_of_writes fun he hw =>
      gives_bind (gives_readArgv (hargv.mono he)) (gives_bind (gives_readInput (hin.mono he)) hw)
  refine ⟨fun input len bytes hin => ⟨hvalue _ _ _ _ hin, hvalue _ _ _ _ hin⟩, ?_⟩
  intro path len bytes argv argvLens count toks hin hargv
  exact ⟨hline _ _ _ _ _ _ _ _ hin hargv, hline (fun p a => renderCommandLine p a .roles) _ _ _ _ _ _ _ hin hargv,
    hline (fun p a => renderCommandLine p a .dim) _ _ _ _ _ _ _ hin hargv⟩

end SudoWhat.EscapeCore.Ffi
