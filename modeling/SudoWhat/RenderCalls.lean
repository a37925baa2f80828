/-
  SudoWhat.RenderCalls — how the two macOS bundles call the escape core (`sw_exec_render`,
  `sw_exec_command_line_with`, `sw_exec_escape`, `sw_pf_escape`, `sw_pf_command_line`, and the
  audit bundle's copies).

  A value is rendered in two calls: one for its length, one into a buffer of that length and a
  NUL. A command line's tokens are counted and measured into two arrays first. All of it is on
  C memory here; the displays' models take the same functions as texts, and each allocation as
  a yes or no.

  Proved: whatever memory holds and whichever allocations fail, each function runs without a
  fault, gives what the displays' model gives, and leaves memory as it found it
  (`approval_renderers_refine`, `audit_renderers_refine`).
-/

import SudoWhat.Audit.Display
import SudoWhat.EscapeCore.Ffi
import SudoWhat.Lib.Decode
import SudoWhat.Plugin.Display
import SudoWhat.Plugin.PromptFormatter

namespace SudoWhat.RenderCalls

open SudoWhat.Lib SudoWhat.Lib.CMemory SudoWhat.EscapeCore.Ffi
open SudoWhat.EscapeCore (escapeBytes fullCommandLineBytes renderCommandLine)

/-! ## One value in two calls -/

/-- A new buffer, whatever it holds. -/
def buffer (junk : Nat → UInt8) (cap : Nat) : Object := .bytes ((List.range cap).map junk)

/-- `initWithBytes:length:encoding:`, in UTF-8. -/
def nsString (buf : Ptr) (len : Nat) : C (Option Text) := do
  let bytes ← loadBytes buf len
  return Utf8.decode bytes

/-- Probe for the length, allocate, fill. -/
def twoCall (call : Ptr → Nat → Ptr → C Nat) (allocated : Bool) (junk : Nat → UInt8) : C (Option Text) :=
  withLocal (.sizes [0]) fun needed => do
    let _ ← call none 0 (some needed)
    let len ← loadSize (some needed) 0
    let buf ← malloc allocated (buffer junk (len + 1))
    if buf = none then return none
    else
      withLocal (.sizes [0]) fun got => do
        let code ← call buf (len + 1) (some got)
        let s ← if code = swEscapeOk then do
            let gotLen ← loadSize (some got) 0
            nsString buf gotLen
          else pure none
        free buf
        return s

/-! ## The tokens' arrays -/

/-- Token `i` of the arrays, and the ones after it, from `src` at `off`. -/
def fillArrays (src argv lens : Ptr) (off : Nat) : Nat → Nat → C Unit
  | _, 0 => pure ()
  | i, k + 1 => do
    let tok ← loadPtr src (off + i)
    storePtr argv i tok
    let tok ← loadPtr src (off + i)
    let len ← strlen tok
    storeSize lens i len
    fillArrays src argv lens off (i + 1) k

/-- Which allocations succeed, and what new buffers hold. -/
structure Allocs where
  argv : Bool
  lens : Bool
  coloured : Bool
  plain : Bool
  junk : Nat → UInt8

/-- Both arrays, filled, for as long as `body` runs; without both there is no line. `room` is
    what they are allocated for. -/
def withArrays (m : Allocs) (src : Ptr) (off room n : Nat) (body : Ptr → Ptr → C (Option Text)) : C (Option Text) := do
  let argv ← malloc m.argv (.pointers (List.replicate room none))
  let lens ← malloc m.lens (.sizes (List.replicate room 0))
  if argv = none ∨ lens = none then do
    free argv
    free lens
    return none
  else do
    fillArrays src argv lens off 0 n
    let s ← body argv lens
    free argv
    free lens
    return s

/-- The coloured renderer, and the plain one if it gives nothing. -/
def colouredElsePlain (m : Allocs) (coloured plain : Ptr → Nat → Ptr → C Nat) (color : Bool) : C (Option Text) := do
  let s ← if color then twoCall coloured m.coloured m.junk else pure none
  match s with
  | some s => return some s
  | none => twoCall plain m.plain m.junk

/-- How many tokens, none for NULL. -/
def countArgv (p : Ptr) : C Nat := if p = none then pure 0 else countPtrs p

/-! ## The approval bundle -/

def swExecCommandLineWith (colored plain : CmdlineFn) (m : Allocs) (path runArgv : Ptr) (color : Bool) : C (Option Text) :=
  if path = none then pure none
  else do
    let pathLen ← strlen path
    let n ← countArgv runArgv
    let render := fun argv lens =>
      colouredElsePlain m (colored path pathLen argv lens n) (plain path pathLen argv lens n) color
    if n > 0 then withArrays m runArgv 0 n n render else render none none

def swExecCommandLine : Allocs → Ptr → Ptr → Bool → C (Option Text) :=
  swExecCommandLineWith swFullCommandLineColored swFullCommandLine

def swExecEscape (allocated : Bool) (junk : Nat → UInt8) (input : Ptr) : C (Option Text) :=
  if input = none then pure (some [])
  else do
    let len ← strlen input
    twoCall (swEscapeControl input len) allocated junk

def swPfEscape (allocated : Bool) (junk : Nat → UInt8) (s : Ptr) : C (Option Text) := do
  let len ← strlen s
  twoCall (swEscapeControl s len) allocated junk

/-- The arrays are allocated for one token at least. -/
def swPfCommandLine (m : Allocs) (path argv : Ptr) : C (Option Text) := do
  let n ← countArgv argv
  withArrays m argv 0 (if n = 0 then 1 else n) n fun toks lens => do
    let pathLen ← strlen path
    twoCall (swFullCommandLine path pathLen toks lens n) m.plain m.junk

/-! ## The audit bundle -/

def swAuditEscape : Bool → (Nat → UInt8) → Ptr → C (Option Text) := swExecEscape

/-- The tokens from `off` on. -/
def countFrom (p : Ptr) (off : Nat) : C Nat := do
  match ← object p with
  | .pointers ps =>
    match (ps.drop off).findIdx? Option.isNone with
    | some n => return n
    | none => fault
  | _ => fault

def swAuditCommandLineWith (colored plain : CmdlineFn) (m : Allocs) (submitArgv : Ptr) (optind : Int) (color : Bool) :
    C (Option Text) :=
  if submitArgv = none ∨ optind < 0 then pure none
  else do
    let n ← countFrom submitArgv optind.toNat
    if n = 0 then return none
    else do
      let path ← loadPtr submitArgv optind.toNat
      let pathLen ← strlen path
      withArrays m submitArgv optind.toNat n n fun argv lens =>
        colouredElsePlain m (colored path pathLen argv lens n) (plain path pathLen argv lens n) color

def swAuditCommandLine : Allocs → Ptr → Int → Bool → C (Option Text) :=
  swAuditCommandLineWith swFullCommandLineColoredDim swFullCommandLine

/-! ## What the calls give -/

section

variable {g₀ g : Objects}

theorem buffer_length (junk : Nat → UInt8) (cap : Nat) : ((List.range cap).map junk).length = cap := by
  rw [List.length_map, List.length_range]

/-- The two calls give the text, or nothing without a buffer, and leave memory as it was. -/
theorem gives_twoCall {call : Ptr → Nat → Ptr → C Nat} {text : Text} (h : KeepsContract g₀ call text) (he : Extends g₀ g)
    (allocated : Bool) (junk : Nat → UInt8) :
    Gives (twoCall call allocated junk) g (if allocated then some text else none) g := by
  have hsizes : ∀ {g : Objects} {m : Addr} {k : Nat}, g m = some (.sizes [k]) → NeededAt g (some m) := by
    intro g m k hk m' hm
    obtain rfl := Option.some.inj hm
    exact ⟨k, hk⟩
  refine gives_withLocal (q := .sizes [(Utf8.encode text).length]) fun m hm => ⟨hm, ?_⟩
  have hm₀ := he.absent hm
  have hprobe := h.truncated (he.update hm₀ (some (.sizes [0]))) (hsizes (Function.update_self m _ g)) (show none = none ∨ 0 < (Utf8.encode text).length + 1 from .inl rfl)
  rw [withNeeded, Function.update_idem] at hprobe
  refine gives_bind hprobe (gives_bind (gives_loadSize (Function.update_self m _ g) rfl) ?_)
  have he₁ := he.update hm₀ (some (.sizes [(Utf8.encode text).length]))
  generalize Function.update g m (some (.sizes [(Utf8.encode text).length])) = g₁ at he₁
  cases allocated with
  | false => exact gives_bind (gives_malloc_null _) (gives_pure none)
  | true =>
    refine gives_malloc_bind fun b hb => ?_
    rw [if_neg (by simp)]
    refine gives_withLocal (q := .sizes [(Utf8.encode text).length]) fun k hk => ?_
    have hkb : k ≠ b := by
      rintro rfl
      rw [Function.update_self] at hk
      cases hk
    rw [Function.update_of_ne hkb] at hk
    refine ⟨hk, ?_⟩
    have hk₀ := he₁.absent hk
    have hbuf : Function.update (Function.update g₁ b (some (buffer junk ((Utf8.encode text).length + 1)))) k (some (.sizes [0])) b =
        some (buffer junk ((Utf8.encode text).length + 1)) := by
      rw [Function.update_of_ne hkb.symm, Function.update_self]
    have hfill := h.fits ((he₁.update (he₁.absent hb) _).update hk₀ (some (.sizes [0])))
      (hsizes (Function.update_self k _ _)) hbuf (Nat.le_of_eq (buffer_length junk _).symm) (Nat.le_refl _)
    rw [withNeeded, Function.update_idem] at hfill
    refine gives_bind hfill ?_
    rw [if_pos rfl]
    have hgot : ∀ o, Function.update (Function.update (Function.update g₁ b
        (some (buffer junk ((Utf8.encode text).length + 1)))) k (some (.sizes [(Utf8.encode text).length]))) b o k =
        some (.sizes [(Utf8.encode text).length]) := by
      intro o
      rw [Function.update_of_ne hkb, Function.update_self]
    refine gives_bind (gives_loadSize (hgot _) rfl) ?_
    have hstring := gives_loadBytes (k := (Utf8.encode text).length) (Function.update_self b
      (some (.bytes (Utf8.encode text ++ 0 ::
        ((List.range ((Utf8.encode text).length + 1)).map junk).drop ((Utf8.encode text).length + 1))))
      (Function.update (Function.update g₁ b (some (buffer junk ((Utf8.encode text).length + 1)))) k
        (some (.sizes [(Utf8.encode text).length])))) (by simp)
    rw [List.take_left] at hstring
    refine gives_bind (gives_bind hstring (gives_pure _)) ?_
    rw [Utf8.decode_encode]
    refine gives_bind (gives_free (Function.update_self b _ _)) ?_
    have hfreed : Function.update (Function.update (Function.update (Function.update g₁ b
        (some (buffer junk ((Utf8.encode text).length + 1)))) k (some (.sizes [(Utf8.encode text).length]))) b
          (some (.bytes (Utf8.encode text ++ 0 ::
            ((List.range ((Utf8.encode text).length + 1)).map junk).drop ((Utf8.encode text).length + 1))))) b none =
        Function.update g₁ k (some (.sizes [(Utf8.encode text).length])) := by
      rw [Function.update_idem, Function.update_comm hkb, Function.update_idem, ← hb, Function.update_eq_self]
    rw [hfreed]
    exact gives_pure _

/-- The strings an array holds from `off` on. -/
def Tokens (g : Objects) (src : Ptr) (off : Nat) (toks : List Bytes) : Prop :=
  toks = [] ∨ ∃ s ps, src = some s ∧ g s = some (.pointers ps) ∧
    ∀ i (hi : i < toks.length), ∃ p, ps[off + i]? = some (some p) ∧ CStr g p toks[i]

theorem CStr.input {n : Addr} {s : Bytes} (h : CStr g n s) : Input g (some n) s.length s := by
  obtain ⟨-, rest, ho⟩ := h
  exact .inr ⟨n, _, rfl, ho, by simp, by rw [List.take_left]⟩

/-- Memory with the two arrays. -/
def withLists (g : Objects) (a l : Addr) (ps : List Ptr) (ns : List Nat) : Objects :=
  Function.update (Function.update g a (some (.pointers ps))) l (some (.sizes ns))

section

variable {a l : Addr} (ha : g a = none) (hl : g l = none) (hne : a ≠ l)

include ha hl in
theorem extends_withLists (ps : List Ptr) (ns : List Nat) : Extends g (withLists g a l ps ns) :=
  ((extends_refl g).update ha _).update hl _

include hne in
theorem withLists_argv (ps : List Ptr) (ns : List Nat) : withLists g a l ps ns a = some (.pointers ps) := by
  rw [withLists, Function.update_of_ne hne, Function.update_self]

include hne in
theorem gives_storeToken {ps : List Ptr} {i : Nat} (hi : i < ps.length) (ns : List Nat) (q : Ptr) :
    Gives (storePtr (some a) i q) (withLists g a l ps ns) () (withLists g a l (ps.set i q) ns) := by
  have hstore := gives_storePtr (g := withLists g a l ps ns) (withLists_argv hne ps ns) hi q
  rw [withLists, Function.update_comm hne.symm, Function.update_idem] at hstore
  rw [withLists, withLists]
  exact hstore

theorem gives_storeLength {ns : List Nat} {i : Nat} (hi : i < ns.length) (ps : List Ptr) (n : Nat) :
    Gives (storeSize (some l) i n) (withLists g a l ps ns) () (withLists g a l ps (ns.set i n)) := by
  have hstore := gives_storeSize (Function.update_self l (some (.sizes ns)) (Function.update g a (some (.pointers ps)))) hi n
  rw [Function.update_idem] at hstore
  exact hstore

include ha hl hne in
/-- The loop leaves what it has passed and fills the rest, by the number of tokens left. -/
theorem gives_fillArrays {s : Addr} {src : List Ptr} (hs : g s = some (.pointers src)) (off : Nat) :
    ∀ (toks : List Bytes) (i : Nat) (ps : List Ptr) (ns : List Nat), i + toks.length ≤ ps.length → i + toks.length ≤ ns.length →
      (∀ j (hj : j < toks.length), ∃ p, src[off + (i + j)]? = some (some p) ∧ CStr g p toks[j]) →
      ∃ ps' ns', Gives (fillArrays (some s) (some a) (some l) off i toks.length) (withLists g a l ps ns) ()
          (withLists g a l ps' ns') ∧ (∀ j < i, ps'[j]? = ps[j]? ∧ ns'[j]? = ns[j]?) ∧
        ∀ j (hj : j < toks.length), ∃ p, ps'[i + j]? = some (some p) ∧ ns'[i + j]? = some toks[j].length ∧ CStr g p toks[j] := by
  intro toks
  induction toks with
  | nil => exact fun i ps ns _ _ _ => ⟨ps, ns, gives_pure (), fun j _ => ⟨rfl, rfl⟩, fun j hj => absurd hj (Nat.not_lt_zero j)⟩
  | cons tok toks ih =>
    intro i ps ns hps hns h
    rw [List.length_cons] at hps hns
    obtain ⟨p, hp, hstr⟩ := h 0 (Nat.zero_lt_succ _)
    obtain ⟨ps', ns', hrun, hbefore, hafter⟩ := ih (i + 1) (ps.set i (some p)) (ns.set i tok.length) (by simp; omega)
      (by simp; omega) fun j hj => by
        obtain ⟨q, hq, hqs⟩ := h (j + 1) (Nat.succ_lt_succ hj)
        exact ⟨q, by rwa [show off + (i + 1 + j) = off + (i + (j + 1)) by omega], hqs⟩
    have hload : ∀ ps ns, Gives (loadPtr (some s) (off + i)) (withLists g a l ps ns) (some p) (withLists g a l ps ns) :=
      fun ps ns => gives_loadPtr (extends_withLists ha hl ps ns s _ hs) hp
    refine ⟨ps', ns', ?_, fun j hj => ?_, fun j hj => ?_⟩
    · refine gives_bind (hload ps ns) (gives_bind (gives_storeToken hne (by omega) ns (some p)) ?_)
      refine gives_bind (hload _ ns) (gives_bind (gives_strlen (hstr.mono (extends_withLists ha hl _ ns))) ?_)
      exact gives_bind (gives_storeLength (by omega) _ _) hrun
    · obtain ⟨h₁, h₂⟩ := hbefore j (by omega)
      rw [h₁, h₂, List.getElem?_set_ne (by omega), List.getElem?_set_ne (by omega)]
      exact ⟨rfl, rfl⟩
    · cases j with
      | zero =>
        obtain ⟨h₁, h₂⟩ := hbefore i (Nat.lt_succ_self i)
        refine ⟨p, ?_, ?_, hstr⟩
        · rw [Nat.add_zero, h₁, List.getElem?_set_self (by omega)]
        · rw [Nat.add_zero, h₂, List.getElem?_set_self (by omega)]
          rfl
      | succ j =>
        obtain ⟨q, hq, hn, hqs⟩ := hafter j (Nat.lt_of_succ_lt_succ hj)
        exact ⟨q, by rwa [show i + (j + 1) = i + 1 + j by omega], by rwa [show i + (j + 1) = i + 1 + j by omega], hqs⟩

end

/-- The arrays hold the tokens while `body` runs, and are gone after it. -/
theorem gives_withArrays {m : Allocs} {src : Ptr} {off room : Nat} {toks : List Bytes} {r : Option Text}
    {body : Ptr → Ptr → C (Option Text)} (hroom : toks.length ≤ room) (htoks : Tokens g src off toks)
    (hbody : ∀ a l g', Extends g g' → Argv g' (some a) (some l) toks.length toks → Gives (body (some a) (some l)) g' r g') :
    Gives (withArrays m src off room toks.length body) g (if m.argv && m.lens then r else none) g := by
  unfold withArrays
  cases m.argv with
  | false =>
    refine gives_bind (gives_malloc_null _) ?_
    cases m.lens with
    | false =>
      refine gives_bind (gives_malloc_null _) ?_
      exact gives_bind gives_free_null (gives_bind gives_free_null (gives_pure none))
    | true =>
      refine gives_malloc_bind fun l hl => ?_
      refine gives_bind gives_free_null (gives_bind (gives_free (Function.update_self l _ g)) ?_)
      rw [update_freed hl]
      exact gives_pure none
  | true =>
    refine gives_malloc_bind fun a ha => ?_
    cases m.lens with
    | false =>
      refine gives_bind (gives_malloc_null _) ?_
      rw [if_pos (.inr rfl)]
      refine gives_bind (gives_free (Function.update_self a _ g)) (gives_bind gives_free_null ?_)
      rw [update_freed ha]
      exact gives_pure none
    | true =>
      refine gives_malloc_bind fun l hl' => ?_
      rw [if_neg (by simp)]
      have hne : a ≠ l := by
        rintro rfl
        rw [Function.update_self] at hl'
        cases hl'
      have hl : g l = none := by rwa [Function.update_of_ne hne.symm] at hl'
      have hfilled : ∃ ps ns, Gives (fillArrays src (some a) (some l) off 0 toks.length)
          (withLists g a l (List.replicate room none) (List.replicate room 0)) () (withLists g a l ps ns) ∧
          ∀ j (hj : j < toks.length), ∃ p, ps[j]? = some (some p) ∧ ns[j]? = some toks[j].length ∧ CStr g p toks[j] := by
        rcases htoks with rfl | ⟨s, ps, rfl, hs, htoks⟩
        · exact ⟨_, _, gives_pure (), fun j hj => absurd hj (Nat.not_lt_zero j)⟩
        · obtain ⟨ps', ns', hrun, -, hafter⟩ := gives_fillArrays ha hl hne hs off toks 0 (List.replicate room none)
            (List.replicate room 0) (by simpa using hroom) (by simpa using hroom) fun j hj => by
              rw [Nat.zero_add]
              exact htoks j hj
          exact ⟨ps', ns', hrun, fun j hj => by
            have htok := hafter j hj
            rwa [Nat.zero_add] at htok⟩
      obtain ⟨ps, ns, hrun, htok⟩ := hfilled
      have hext := extends_withLists ha hl ps ns
      have hargv : Argv (withLists g a l ps ns) (some a) (some l) toks.length toks :=
        .inr ⟨a, l, ps, ns, rfl, rfl, withLists_argv hne ps ns, Function.update_self l _ _, rfl, fun j hj => by
          obtain ⟨p, hp, hn, hstr⟩ := htok j hj
          exact ⟨some p, _, hp, hn, (CStr.input hstr).mono hext⟩⟩
      refine gives_bind hrun (gives_bind (hbody a l _ hext hargv) ?_)
      refine gives_bind (gives_free (withLists_argv hne ps ns)) ?_
      have hlens : Function.update (withLists g a l ps ns) a none l = some (.sizes ns) := by
        rw [Function.update_of_ne hne.symm, withLists, Function.update_self]
      have hfreed : Function.update (Function.update (withLists g a l ps ns) a none) l none = g := by
        funext x
        by_cases hxl : x = l
        · rw [hxl, Function.update_self, hl]
        · rw [Function.update_of_ne hxl]
          by_cases hxa : x = a
          · rw [hxa, Function.update_self, ha]
          · rw [Function.update_of_ne hxa, withLists, Function.update_of_ne hxl, Function.update_of_ne hxa]
      refine gives_bind (gives_free hlens) ?_
      rw [hfreed]
      exact gives_pure r

/-! ## The functions -/

theorem gives_colouredElsePlain {coloured plain : Ptr → Nat → Ptr → C Nat} {text text' : Text} (h : KeepsContract g₀ coloured text)
    (h' : KeepsContract g₀ plain text') (he : Extends g₀ g) (m : Allocs) (color : Bool) :
    Gives (colouredElsePlain m coloured plain color) g
      (match (if color then (if m.coloured then some text else none) else none : Option Text) with
        | some s => some s
        | none => if m.plain then some text' else none) g := by
  have hplain := gives_twoCall h' he m.plain m.junk
  unfold colouredElsePlain
  cases color with
  | false => exact gives_bind (gives_pure none) hplain
  | true =>
    refine gives_bind (gives_twoCall h he m.coloured m.junk) ?_
    cases m.coloured with
    | false => exact hplain
    | true => exact gives_pure _

/-- A NULL array holds no tokens. -/
def Argument (g : Objects) (p : Ptr) (toks : List Bytes) : Prop :=
  (p = none ∧ toks = []) ∨ ∃ n, p = some n ∧ CStrs g n toks

theorem Argument.count {p : Ptr} {toks : List Bytes} (h : Argument g p toks) :
    Gives (countArgv p) g toks.length g := by
  unfold countArgv
  rcases h with ⟨rfl, rfl⟩ | ⟨n, rfl, hs⟩
  · rw [if_pos rfl]
    exact gives_pure 0
  · rw [if_neg (by simp)]
    exact gives_countPtrs hs

theorem Argument.tokens {p : Ptr} {toks : List Bytes} (h : Argument g p toks) : Tokens g p 0 toks := by
  rcases h with ⟨-, rfl⟩ | ⟨n, rfl, ps, rest, ho, hs⟩
  · exact .inl rfl
  · refine .inr ⟨n, _, rfl, ho, fun i hi => ?_⟩
    have hip : i < ps.length := by rwa [hs.length_eq]
    refine ⟨ps[i], ?_, hs.get hip hi⟩
    rw [Nat.zero_add, List.getElem?_append_left (by simpa using hip), List.getElem?_map, List.getElem?_eq_getElem hip]
    rfl

section

variable {path : Addr} {pathBytes : Bytes} (hpath : CStr g path pathBytes)

include hpath

theorem gives_swExecCommandLine {runArgv : Ptr} {toks : List Bytes} (hargv : Argument g runArgv toks) (m : Allocs) (color : Bool)
    (env : Plugin.CheckEnv) (halloc : env.alloc .execArgv = (m.argv && m.lens) ∧ env.alloc .execColoured = m.coloured ∧
      env.alloc .execPlain = m.plain) :
    Gives (swExecCommandLine m (some path) runArgv color) g (Plugin.swExecCommandLine env pathBytes toks color) g := by
  obtain ⟨harrays, hcoloured, hplain⟩ := halloc
  have hrender : ∀ argv lens g', Extends g g' → Argv g' argv lens toks.length toks →
      Gives (colouredElsePlain m (swFullCommandLineColored (some path) pathBytes.length argv lens toks.length)
        (swFullCommandLine (some path) pathBytes.length argv lens toks.length) color) g'
        (match (if color then (if m.coloured then some (renderCommandLine pathBytes toks .roles) else none) else none : Option Text) with
          | some s => some s
          | none => if m.plain then some (fullCommandLineBytes pathBytes toks) else none) g' := by
    intro argv lens g' he h
    obtain ⟨hp, hc, -⟩ := (externs_keep_contract g').2 _ _ _ _ _ _ _ ((CStr.input hpath).mono he) h
    exact gives_colouredElsePlain hc hp (extends_refl g') m color
  unfold swExecCommandLine swExecCommandLineWith
  rw [if_neg (by simp)]
  refine gives_bind (gives_strlen hpath) (gives_bind hargv.count ?_)
  unfold Plugin.swExecCommandLine Plugin.swExecRender
  rw [harrays, hcoloured, hplain]
  cases toks with
  | nil =>
    rw [if_neg (by simp), if_neg (by simp)]
    exact hrender none none g (extends_refl g) (.inl ⟨.inl rfl, rfl⟩)
  | cons tok toks =>
    rw [if_pos (by simp)]
    have hnil : ∀ r : Option Text, (if tok :: toks ≠ [] ∧ (m.argv && m.lens) = false then none else r) =
        if m.argv && m.lens then r else none := by
      intro r
      cases m.argv && m.lens <;> simp
    rw [hnil]
    exact gives_withArrays (Nat.le_refl _) hargv.tokens fun a l g' he h => hrender (some a) (some l) g' he h

theorem gives_swExecEscape (allocated : Bool) (junk : Nat → UInt8) :
    Gives (swExecEscape allocated junk (some path)) g (if allocated then some (escapeBytes pathBytes) else none) g := by
  unfold swExecEscape
  rw [if_neg (by simp)]
  exact gives_bind (gives_strlen hpath)
    (gives_twoCall ((externs_keep_contract g).1 _ _ _ (CStr.input hpath)).1 (extends_refl g) allocated junk)

theorem gives_swPfCommandLine {argv : Ptr} {toks : List Bytes} (hargv : Argument g argv toks) (m : Allocs) :
    Gives (swPfCommandLine m (some path) argv) g
      (if m.argv && m.lens && m.plain then some (fullCommandLineBytes pathBytes toks) else none) g := by
  have hroom : toks.length ≤ if toks.length = 0 then 1 else toks.length := by
    split <;> omega
  have hresult : (if m.argv && m.lens && m.plain then some (fullCommandLineBytes pathBytes toks) else none : Option Text) =
      if m.argv && m.lens then (if m.plain then some (fullCommandLineBytes pathBytes toks) else none) else none := by
    cases m.argv && m.lens <;> rfl
  rw [hresult]
  refine gives_bind hargv.count (gives_withArrays hroom hargv.tokens fun a l g' he h => ?_)
  have hplain := ((externs_keep_contract g').2 _ _ _ _ _ _ _ ((CStr.input hpath).mono he) h).1
  exact gives_bind (gives_strlen (hpath.mono he)) (gives_twoCall hplain (extends_refl g') m.plain m.junk)

end

end

/-- The approval bundle's renderers, on any memory that holds their strings and with any
    allocations failing, run without a fault, give what the displays' model gives, and leave
    memory as it was: nothing else written, nothing left allocated. -/
theorem approval_renderers_refine (g : Objects) (m : Allocs) {path : Addr} {pathBytes : Bytes} {argv : Ptr} {toks : List Bytes}
    (hpath : CStr g path pathBytes) (hargv : Argument g argv toks) :
    (∀ env : Plugin.CheckEnv, env.alloc .execArgv = (m.argv && m.lens) → env.alloc .execColoured = m.coloured →
      env.alloc .execPlain = m.plain → ∀ color,
      Gives (swExecCommandLine m (some path) argv color) g (Plugin.swExecCommandLine env pathBytes toks color) g) ∧
    Gives (swExecEscape m.plain m.junk (some path)) g (Plugin.swExecRender m.plain (escapeBytes pathBytes)) g ∧
    (∃ text, Gives (swPfEscape m.plain m.junk (some path)) g text g ∧ text.map Plugin.utf16 = Plugin.pfEscape m.plain pathBytes) ∧
    ∃ text, Gives (swPfCommandLine m (some path) argv) g text g ∧
      text.map Plugin.utf16 = Plugin.pfCommandLine (m.argv && m.lens && m.plain) pathBytes toks := by
  refine ⟨fun env h₁ h₂ h₃ color => gives_swExecCommandLine hpath hargv m color env ⟨h₁, h₂, h₃⟩,
    gives_swExecEscape hpath m.plain m.junk, ⟨_, gives_bind (gives_strlen hpath)
      (gives_twoCall ((externs_keep_contract g).1 _ _ _ (CStr.input hpath)).1 (extends_refl g) m.plain m.junk), ?_⟩,
    ⟨_, gives_swPfCommandLine hpath hargv m, ?_⟩⟩
  · unfold Plugin.pfEscape
    cases m.plain <;> rfl
  · unfold Plugin.pfCommandLine
    cases m.argv && m.lens && m.plain <;> rfl

/-- `argv` of `ls -l` at 0, the path at 1. -/
def lsMemory : Objects
  | 0 => some (.pointers [some 2, some 3, none])
  | 1 => some (.bytes (lit "/bin/ls" ++ [0]))
  | 2 => some (.bytes (lit "ls" ++ [0]))
  | 3 => some (.bytes (lit "-l" ++ [0]))
  | _ => none

theorem lsMemory_argv : CStrs lsMemory 0 [lit "ls", lit "-l"] :=
  ⟨[2, 3], [], rfl, .cons ⟨by decide, [], rfl⟩ (.cons ⟨by decide, [], rfl⟩ .nil)⟩

theorem approval_renderers_refine_ls :
    ∃ text, Gives (swPfCommandLine ⟨true, true, true, true, fun _ => 7⟩ (some 1) (some 0)) lsMemory text lsMemory ∧
      text.map Plugin.utf16 = Plugin.pfCommandLine true (lit "/bin/ls") [lit "ls", lit "-l"] :=
  (approval_renderers_refine lsMemory ⟨true, true, true, true, fun _ => 7⟩
    (show CStr lsMemory 1 (lit "/bin/ls") from ⟨by decide, [], rfl⟩) (show Argument lsMemory (some 0) _ from .inr ⟨0, rfl, lsMemory_argv⟩)).2.2.2

/-! ## The audit bundle's -/

section

variable {g : Objects} {argv : Addr} {toks : List Bytes} {off : Nat} (hargv : CStrs g argv toks)

include hargv

theorem gives_countFrom (hoff : off ≤ toks.length) : Gives (countFrom (some argv) off) g (toks.drop off).length g := by
  obtain ⟨ps, rest, ho, hs⟩ := hargv
  refine gives_bind (gives_object ho) ?_
  have hlen := hs.length_eq
  have hdrop : (ps.map some ++ none :: rest).drop off = (ps.drop off).map some ++ none :: rest := by
    rw [List.drop_append_of_le_length (by simp; omega), List.map_drop]
  have hfind : ((ps.map some ++ none :: rest).drop off).findIdx? Option.isNone = some (toks.drop off).length := by
    rw [hdrop, List.findIdx?_append, List.findIdx?_eq_none_iff.mpr fun p hp => ?_]
    · simp [List.findIdx?_cons, hlen]
    · obtain ⟨q, -, rfl⟩ := List.mem_map.mp hp
      rfl
  dsimp only
  rw [hfind]
  exact gives_pure _

theorem CStrs.token {i : Nat} (hi : i < toks.length) :
    ∃ p, Gives (loadPtr (some argv) i) g (some p) g ∧ CStr g p toks[i] := by
  obtain ⟨ps, rest, ho, hs⟩ := hargv
  have hip : i < ps.length := by rwa [hs.length_eq]
  refine ⟨ps[i], gives_loadPtr ho ?_, hs.get hip hi⟩
  rw [List.getElem?_append_left (by simpa using hip), List.getElem?_map, List.getElem?_eq_getElem hip]
  rfl

theorem CStrs.tokens : Tokens g (some argv) off (toks.drop off) := by
  obtain ⟨ps, rest, ho, hs⟩ := hargv
  refine .inr ⟨argv, _, rfl, ho, fun i hi => ?_⟩
  rw [List.length_drop] at hi
  have hip : off + i < ps.length := by rw [hs.length_eq]; omega
  refine ⟨ps[off + i], ?_, ?_⟩
  · rw [List.getElem?_append_left (by simpa using hip), List.getElem?_map, List.getElem?_eq_getElem hip]
    rfl
  · rw [List.getElem_drop]
    exact hs.get hip _

end

/-- `submit_argv`, as the display's model has it. -/
def Submitted (g : Objects) (argv : Ptr) (s : Audit.Submission) : Prop :=
  (argv = none ∧ s.argv = none) ∨ ∃ n toks, argv = some n ∧ s.argv = some toks ∧ CStrs g n toks ∧ s.optind ≤ toks.length

theorem gives_swAuditCommandLine {g : Objects} {argv : Ptr} {s : Audit.Submission} (hargv : Submitted g argv s) (m : Allocs)
    (alloc : Audit.AllocSite → Bool) (harrays : alloc .argvArrays = (m.argv && m.lens)) (hcoloured : alloc .coloured = m.coloured)
    (hplain : alloc .plain = m.plain) (color : Bool) :
    Gives (swAuditCommandLine m argv s.optind color) g (Audit.swAuditCommandLine alloc s color) g := by
  unfold swAuditCommandLine swAuditCommandLineWith Audit.swAuditCommandLine Audit.Submission.typed
  obtain ⟨rfl, hs⟩ | ⟨n, toks, rfl, hs, hstrs, hoptind⟩ := hargv
  · rw [hs, if_pos (.inl rfl)]
    exact gives_pure none
  · rw [hs]
    by_cases hneg : s.optind < 0
    · rw [if_pos (.inr hneg)]
      dsimp only
      rw [if_pos hneg]
      exact gives_pure none
    · rw [if_neg (by simpa using hneg)]
      dsimp only
      rw [if_neg hneg]
      have hoff : s.optind.toNat ≤ toks.length := by omega
      generalize s.optind.toNat = off at hoff
      refine gives_bind (gives_countFrom hstrs hoff) ?_
      cases htyped : toks.drop off with
      | nil => exact gives_pure none
      | cons word rest =>
        have hlt : off < toks.length := by
          by_contra hge
          rw [List.drop_of_length_le (Nat.le_of_not_lt hge)] at htyped
          cases htyped
        obtain ⟨p, hload, hword⟩ := CStrs.token hstrs hlt
        have hhead : toks[off] = word := by
          rw [List.drop_eq_getElem_cons hlt] at htyped
          exact (List.cons.inj htyped).1
        rw [hhead] at hword
        rw [if_neg (by simp)]
        refine gives_bind hload (gives_bind (gives_strlen hword) ?_)
        dsimp only
        rw [harrays, hcoloured, hplain]
        have hswap : ∀ r : Option Text, (if (m.argv && m.lens) = false then none else r) =
            if m.argv && m.lens then r else none := by
          intro r
          cases m.argv && m.lens <;> rfl
        rw [hswap]
        refine gives_withArrays (Nat.le_refl _) (htyped ▸ CStrs.tokens hstrs) fun a l g' he h => ?_
        obtain ⟨hp, -, hd⟩ := (externs_keep_contract g').2 _ _ _ _ _ _ _ ((CStr.input hword).mono he) h
        exact gives_colouredElsePlain hd hp (extends_refl g') m color

/-- The same of the audit bundle's renderers, for the words from `submit_optind` on: a negative
    index, one at the end and no array at all are nothing to render. -/
theorem audit_renderers_refine (g : Objects) (m : Allocs) {argv : Ptr} {s : Audit.Submission} (hargv : Submitted g argv s) :
    (∀ alloc : Audit.AllocSite → Bool, alloc .argvArrays = (m.argv && m.lens) → alloc .coloured = m.coloured →
      alloc .plain = m.plain → ∀ color,
      Gives (swAuditCommandLine m argv s.optind color) g (Audit.swAuditCommandLine alloc s color) g) ∧
    ∀ value bytes, CStr g value bytes →
      Gives (swAuditEscape m.plain m.junk (some value)) g (Audit.swAuditEscape m.plain bytes) g :=
  ⟨fun alloc h₁ h₂ h₃ color => gives_swAuditCommandLine hargv m alloc h₁ h₂ h₃ color,
    fun _ _ hvalue => gives_swExecEscape hvalue m.plain m.junk⟩

theorem audit_renderers_refine_ls :
    Gives (swAuditCommandLine ⟨true, true, true, false, fun _ => 7⟩ (some 0) 1 true) lsMemory
      (Audit.swAuditCommandLine (fun site => site != .plain) ⟨none, none, 1, some [lit "ls", lit "-l"], none⟩ true) lsMemory :=
  (audit_renderers_refine lsMemory ⟨true, true, true, false, fun _ => 7⟩
    (show Submitted lsMemory (some 0) ⟨none, none, 1, some [lit "ls", lit "-l"], none⟩ from .inr ⟨0, _, rfl, rfl, lsMemory_argv, by decide⟩)).1 _ rfl rfl rfl true

end SudoWhat.RenderCalls
