/-
  SudoWhat.Plugin.Session — what `open()` keeps for `check()` (`plugin/sudowhat_approval.m`).

  sudo hands `user_info` and the environment to `open()` only, so the plugin copies what a check
  needs into one static struct of fixed buffers, and `close()` clears it. An `OpenCall` is a
  call as sudo makes it, its arrays standing in memory; any calls of `open()` and `close()` may
  follow one another.

  Proved: whatever the calls, none faults or writes to sudo's memory but for the error a refusing
  `open()` hands back, each `open()` answers as its arrays say, and a check then finds what the
  opens since the last close have brought, the later ones over the earlier; but a terminal only
  looked up is the first one found (`session_keeps_context`). After one open since the last
  close that is what this open brought.
-/

import SudoWhat.Plugin.Open
import SudoWhat.SudoArrays

namespace SudoWhat.Plugin

open SudoWhat.Lib.CMemory
open SudoWhat.SudoArrays (ArrayAt ValueAt nonEmpty gives_findKv)

/-! ## The static struct -/

/-- A `char` array with room for this many bytes and a NUL, and a NUL somewhere in it. -/
structure Buffer (room : Nat) where
  bytes : Bytes
  length_eq : bytes.length = room + 1
  terminated : 0 ∈ bytes

namespace Buffer

variable {room : Nat}

def zeroed (room : Nat) : Buffer room := ⟨List.replicate (room + 1) 0, by simp, by simp⟩

/-- `snprintf(buf, sizeof(buf), "%s", s)`. What stood behind the new NUL stays there. -/
def print (buf : Buffer room) (s : Bytes) : Buffer room where
  bytes := s.take room ++ 0 :: buf.bytes.drop ((s.take room).length + 1)
  length_eq := by
    have hlen := buf.length_eq
    simp
    omega
  terminated := by simp

/-- The string it holds. -/
def string (buf : Buffer room) : Bytes := buf.bytes.takeWhile (· ≠ 0)

theorem string_print (buf : Buffer room) {s : Bytes} (hs : 0 ∉ s) : (buf.print s).string = vsnprintf (room + 1) s := by
  unfold string print vsnprintf
  rw [List.takeWhile_append_of_pos fun b hb => ?_]
  · simp
  · simpa using fun e : b = 0 => hs (e ▸ List.mem_of_mem_take hb)

end Buffer

/-- A buffer and its `have_` flag. -/
structure Field (room : Nat) where
  buf : Buffer room
  kept : Bool

namespace Field

variable {room : Nat}

def cleared (room : Nat) : Field room := ⟨.zeroed room, false⟩

def keep (f : Field room) (s : Bytes) : Field room := ⟨f.buf.print s, true⟩

def value (f : Field room) : Option Bytes := if f.kept then some f.buf.string else none

@[simp] theorem value_cleared (room : Nat) : (cleared room).value = none := rfl

@[simp] theorem value_keep (f : Field room) {s : Bytes} (hs : 0 ∉ s) : (f.keep s).value = some (vsnprintf (room + 1) s) :=
  congrArg some (f.buf.string_print hs)

end Field

structure SwInvokingCtx where
  uid : Uid
  haveUid : Bool
  tty : Field 255
  cwd : Field 1023
  termProgram : Field 63
  term : Field 63
  noColor : Bool

def SwInvokingCtx.cleared : SwInvokingCtx := ⟨0xFFFFFFFF, false, .cleared _, .cleared _, .cleared _, .cleared _, false⟩

/-- The context as a check reads it. -/
def SwInvokingCtx.ctx (c : SwInvokingCtx) : InvokingCtx where
  uid := if c.haveUid then some c.uid else none
  tty := c.tty.value
  cwd := c.cwd.value
  term := c.term.value
  noColor := c.noColor

/-- `g_inv`, `g_plugin_printf` and `g_conversation`. -/
structure Statics where
  inv : SwInvokingCtx
  pluginPrintf : Ptr
  conversation : Ptr

def Statics.loaded : Statics := ⟨.cleared, none, none⟩

def sudowhatClose : Statics := ⟨.cleared, none, none⟩

/-! ## `open()` -/

/-- A call as sudo makes it. -/
structure OpenCall where
  memory : Heap
  version : UInt32
  conversation : Ptr
  pluginPrintf : Ptr
  userInfo : Ptr
  submitEnvp : Ptr
  /-- What the arrays hold. -/
  user : Option (List Bytes)
  env : Option (List Bytes)
  user_at : ArrayAt memory.objects userInfo user
  env_at : ArrayAt memory.objects submitEnvp env
  /-- What `ttyname` will answer. -/
  ttys : TtyNames
  names_end : ∀ name, ttys.stderr = some name ∨ ttys.stdin = some name ∨ ttys.devTty = some name → 0 ∉ name

/-- A value that is there and not empty is kept. -/
def Field.stash {room : Nat} (f : Field room) (v : Option Place) : C (Field room) :=
  match v with
  | none => pure f
  | some p => do if ← nonEmpty (some p) then return f.keep (← loadString p) else return f

/-- A terminal's name, if there is none yet. -/
def Field.orName {room : Nat} (f : Field room) (name : Option Bytes) : Field room :=
  if f.kept then f
  else
    match name with
    | some (c :: cs) => f.keep (c :: cs)
    | _ => f

def openStatics (st : Statics) (call : OpenCall) : C (Except Bytes Unit × Statics) :=
  let st := { st with pluginPrintf := call.pluginPrintf, conversation := call.conversation }
  if apiMajor call.version ≠ 1 then
    pure (.error (lit "sudowhat: unsupported sudo plugin API major version " ++
      Lib.Utf8.encode (decimal (apiMajor call.version).toNat)), st)
  else do
    match ← SudoArrays.findKv call.userInfo (lit "uid") with
    | none => return (.error (lit "sudowhat: missing uid in user_info"), st)
    | some uidStr =>
      let uid ← loadString uidStr
      let tty ← st.inv.tty.stash (← SudoArrays.findKv call.userInfo (lit "tty"))
      let tty := tty.orName (call.ttys.stderr.orElse fun _ => call.ttys.stdin)
      let tty := tty.orName call.ttys.devTty
      let cwd ← st.inv.cwd.stash (← SudoArrays.findKv call.userInfo (lit "cwd"))
      let termProgram ← st.inv.termProgram.stash (← SudoArrays.findKv call.submitEnvp (lit "TERM_PROGRAM"))
      let term ← st.inv.term.stash (← SudoArrays.findKv call.submitEnvp (lit "TERM"))
      let noColor ← nonEmpty (← SudoArrays.findKv call.submitEnvp (lit "NO_COLOR"))
      return (.ok (), { st with inv := ⟨UInt32.ofNat (strtoul uid), true, tty, cwd, termProgram, term, noColor⟩ })

/-! ## Calls in a row -/

inductive Call where
  | opens (call : OpenCall)
  | closes

/-- What a call leaves of the statics, its answer and the memory it leaves; `none` is a fault. -/
def runCalls : Statics → List Call → Option (List (Except Bytes Unit × Objects) × Statics)
  | st, [] => some ([], st)
  | _, .closes :: calls => runCalls sudowhatClose calls
  | st, .opens call :: calls =>
    match openStatics st call call.memory with
    | none => none
    | some ((answer, st), memory) => (runCalls st calls).map fun (answers, st) => ((answer, memory.objects) :: answers, st)

/-! ## What is kept -/

namespace OpenCall

/-- What the call's own arrays come to. -/
def brings (call : OpenCall) : Except Bytes InvokingCtx := sudowhatOpen call.version call.ttys call.user call.env

def namedTty (call : OpenCall) : Option Bytes := Plugin.stash 256 (findKvIn call.user (lit "tty"))
def foundTty (call : OpenCall) : Option Bytes := openTty call.ttys none
def cwd (call : OpenCall) : Option Bytes := Plugin.stash 1024 (findKvIn call.user (lit "cwd"))
def term (call : OpenCall) : Option Bytes := Plugin.stash 64 (findKvIn call.env (lit "TERM"))
def uid (call : OpenCall) : Uid := UInt32.ofNat (strtoul ((findKvIn call.user (lit "uid")).getD []))
def noColor (call : OpenCall) : Bool := (findKvIn call.env (lit "NO_COLOR")).any (· != [])

end OpenCall

/-- The context of these opens, the first one first. -/
def contextOf (opens : List OpenCall) : InvokingCtx where
  uid := opens.getLast?.map OpenCall.uid
  tty := (opens.reverse.findSome? OpenCall.namedTty).or (opens.findSome? OpenCall.foundTty)
  cwd := opens.reverse.findSome? OpenCall.cwd
  term := opens.reverse.findSome? OpenCall.term
  noColor := opens.getLast?.any OpenCall.noColor

/-- The opens that succeeded since the last close, after `opens`. -/
def openedSince : List OpenCall → List Call → List OpenCall
  | opens, [] => opens
  | _, .closes :: calls => openedSince [] calls
  | opens, .opens call :: calls => openedSince (if call.brings.toBool then opens ++ [call] else opens) calls

def Call.callbacks : Call → Ptr × Ptr
  | .opens call => (call.pluginPrintf, call.conversation)
  | .closes => (none, none)

/-- What an `open()` answers, its error in `errstr` if it refuses, and the memory it leaves besides. -/
def Call.answer : Call → Option (Except Bytes Unit × Objects)
  | .opens call => some (call.brings.map fun _ => (), call.memory.objects)
  | .closes => none

/-! ## One open -/

section

variable {room : Nat} {g : Objects}

/-- `stash`, of the value itself. -/
def Field.stashed (f : Field room) (v : Option Bytes) : Field room :=
  match v with
  | some (c :: cs) => f.keep (c :: cs)
  | _ => f

theorem gives_stash (f : Field room) {p : Option Place} {v : Option Bytes} (hv : ValueAt g p v) :
    Gives (f.stash p) g (f.stashed v) g := by
  cases p with
  | none =>
    rw [hv.of_none]
    exact gives_pure f
  | some q =>
    obtain ⟨s, rfl, hload, -⟩ := hv.string
    refine gives_bind hv.nonEmpty ?_
    cases s with
    | nil => exact gives_pure f
    | cons c cs => exact gives_bind hload (gives_pure _)

theorem value_stashed (f : Field room) {v : Option Bytes} (hv : ∀ s, v = some s → 0 ∉ s) :
    (f.stashed v).value = (Plugin.stash (room + 1) v).or f.value := by
  cases v with
  | none => rfl
  | some s =>
    cases s with
    | nil => rfl
    | cons c cs => exact f.value_keep (hv _ rfl)

theorem value_orName (f : Field room) {name : Option Bytes} (hname : ∀ s, name = some s → 0 ∉ s) :
    (f.orName name).value = f.value.or (Plugin.stash (room + 1) name) := by
  unfold Field.orName
  cases hk : f.kept with
  | true => simp [Field.value, hk]
  | false =>
    have hnone : f.value = none := by simp [Field.value, hk]
    rw [hnone, Option.none_or]
    cases name with
    | none => exact hnone
    | some s =>
      cases s with
      | nil => exact hnone
      | cons c cs => exact f.value_keep (hname _ rfl)

end

namespace OpenCall

variable (call : OpenCall)

theorem openTty_eq (ttys : TtyNames) (user : Option (List Bytes)) :
    openTty ttys user = (Plugin.stash 256 (findKvIn user (lit "tty"))).or (openTty ttys none) := by
  unfold openTty
  cases findKvIn user (lit "tty") with
  | none => rfl
  | some s => cases s <;> rfl

theorem foundTty_eq : call.foundTty = (Plugin.stash 256 (call.ttys.stderr.orElse fun _ => call.ttys.stdin)).or
    (Plugin.stash 256 call.ttys.devTty) := by
  unfold foundTty openTty
  cases call.ttys.stderr.orElse fun _ => call.ttys.stdin with
  | none =>
    cases call.ttys.devTty with
    | none => rfl
    | some s => cases s <;> rfl
  | some s =>
    cases s with
    | cons c cs => rfl
    | nil =>
      cases call.ttys.devTty with
      | none => rfl
      | some s => cases s <;> rfl

/-- What an open that succeeds makes of the context it finds. -/
def laidOver (old : InvokingCtx) : InvokingCtx where
  uid := some call.uid
  tty := call.namedTty.or (old.tty.or call.foundTty)
  cwd := call.cwd.or old.cwd
  term := call.term.or old.term
  noColor := call.noColor

theorem brings_eq : call.brings =
    if apiMajor call.version ≠ 1 then
      .error (lit "sudowhat: unsupported sudo plugin API major version " ++
        Lib.Utf8.encode (decimal (apiMajor call.version).toNat))
    else if findKvIn call.user (lit "uid") = none then .error (lit "sudowhat: missing uid in user_info")
    else .ok (contextOf [call]) := by
  have hone : contextOf [call] = ⟨some call.uid, openTty call.ttys call.user, call.cwd, call.term, call.noColor⟩ := by
    rw [openTty_eq]
    simp [contextOf, namedTty, foundTty]
  unfold brings sudowhatOpen
  rw [hone]
  split
  · rfl
  · cases huid : findKvIn call.user (lit "uid") with
    | none => rfl
    | some uidStr =>
      have hnum : call.uid = UInt32.ofNat (strtoul uidStr) := by
        unfold uid
        rw [huid]
        rfl
      rw [hnum, if_neg (by simp)]
      unfold noColor
      cases findKvIn call.env (lit "NO_COLOR") <;> rfl

theorem latest_snoc {α : Type} (f : OpenCall → Option α) (opens : List OpenCall) :
    (opens ++ [call]).reverse.findSome? f = (f call).or (opens.reverse.findSome? f) := by
  rw [List.reverse_append, List.reverse_singleton, List.singleton_append, List.findSome?_cons]
  cases f call <;> rfl

theorem contextOf_snoc (opens : List OpenCall) : contextOf (opens ++ [call]) = call.laidOver (contextOf opens) := by
  have hlast : (opens ++ [call]).getLast? = some call := by simp
  have hfound : (opens ++ [call]).findSome? foundTty = (opens.findSome? foundTty).or call.foundTty := by
    simp [List.findSome?_append]
  unfold contextOf laidOver
  rw [hlast, hfound]
  simp only [latest_snoc, Option.or_assoc]
  rfl

end OpenCall

/-- An open answers as its arrays say; one that succeeds lays what it brings over what was kept. -/
theorem gives_openStatics (st : Statics) (call : OpenCall) :
    ∃ st', Gives (openStatics st call) call.memory.objects (call.brings.map fun _ => (), st') call.memory.objects ∧
      (st'.pluginPrintf, st'.conversation) = (call.pluginPrintf, call.conversation) ∧
      st'.inv.ctx = if call.brings.toBool then call.laidOver st.inv.ctx else st.inv.ctx := by
  rw [call.brings_eq]
  unfold openStatics
  split
  · exact ⟨_, gives_pure _, rfl, rfl⟩
  · obtain ⟨u, hu, huid⟩ := gives_findKv call.user_at (show 0 ∉ lit "uid" by decide)
    cases u with
    | none =>
      rw [huid.of_none, if_pos rfl]
      exact ⟨_, gives_bind hu (gives_pure _), rfl, rfl⟩
    | some q =>
      obtain ⟨uid, hval, hload, -⟩ := huid.string
      obtain ⟨t, ht, htty⟩ := gives_findKv call.user_at (show 0 ∉ lit "tty" by decide)
      obtain ⟨d, hd, hcwd⟩ := gives_findKv call.user_at (show 0 ∉ lit "cwd" by decide)
      obtain ⟨p, hp, hprogram⟩ := gives_findKv call.env_at (show 0 ∉ lit "TERM_PROGRAM" by decide)
      obtain ⟨m, hm, hterm⟩ := gives_findKv call.env_at (show 0 ∉ lit "TERM" by decide)
      obtain ⟨c, hc, hcolor⟩ := gives_findKv call.env_at (show 0 ∉ lit "NO_COLOR" by decide)
      rw [hval, if_neg (by simp)]
      refine ⟨_, gives_bind hu (gives_bind hload (gives_bind ht (gives_bind (gives_stash _ htty) (gives_bind hd
        (gives_bind (gives_stash _ hcwd) (gives_bind hp (gives_bind (gives_stash _ hprogram) (gives_bind hm
        (gives_bind (gives_stash _ hterm) (gives_bind hc (gives_bind hcolor.nonEmpty (gives_pure _)))))))))))), rfl, ?_⟩
      have hname : ∀ s, (call.ttys.stderr.orElse fun _ => call.ttys.stdin) = some s → 0 ∉ s := by
        intro s hs
        cases herr : call.ttys.stderr with
        | none => exact call.names_end s (.inr (.inl (by rwa [herr] at hs)))
        | some name => exact call.names_end s (.inl (by rwa [herr] at hs ⊢))
      have htty' : (((st.inv.tty.stashed (findKvIn call.user (lit "tty"))).orName
          (call.ttys.stderr.orElse fun _ => call.ttys.stdin)).orName call.ttys.devTty).value =
          call.namedTty.or (st.inv.tty.value.or call.foundTty) := by
        rw [value_orName _ fun s hs => call.names_end s (.inr (.inr hs)), value_orName _ hname,
          value_stashed _ fun s hs => (hs ▸ htty).ends, OpenCall.foundTty_eq]
        simp only [Option.or_assoc]
        rfl
      have hcwd' := value_stashed st.inv.cwd (v := findKvIn call.user (lit "cwd")) fun s hs => (hs ▸ hcwd).ends
      have hterm' := value_stashed st.inv.term (v := findKvIn call.env (lit "TERM")) fun s hs => (hs ▸ hterm).ends
      have hnum : call.uid = UInt32.ofNat (strtoul uid) := by
        unfold OpenCall.uid
        rw [hval]
        rfl
      change _ = call.laidOver st.inv.ctx
      unfold OpenCall.laidOver SwInvokingCtx.ctx
      rw [hnum]
      dsimp only
      rw [htty', hcwd', hterm']
      rfl

/-! ## Any calls -/

theorem runCalls_keeps (calls : List Call) : ∀ (st : Statics) (opens : List OpenCall), st.inv.ctx = contextOf opens →
    ∃ st', runCalls st calls = some (calls.filterMap Call.answer, st') ∧ st'.inv.ctx = contextOf (openedSince opens calls) ∧
      (st'.pluginPrintf, st'.conversation) = calls.foldl (fun _ call => call.callbacks) (st.pluginPrintf, st.conversation) := by
  induction calls with
  | nil => exact fun st opens h => ⟨st, rfl, h, rfl⟩
  | cons c calls ih =>
    intro st opens h
    cases c with
    | closes => exact ih sudowhatClose [] rfl
    | opens call =>
      obtain ⟨st₁, hrun, hcallbacks, hctx⟩ := gives_openStatics st call
      obtain ⟨memory, hmem, hsame⟩ := hrun call.memory rfl
      have hnow : st₁.inv.ctx = contextOf (if call.brings.toBool then opens ++ [call] else opens) := by
        rw [hctx, h]
        split
        · exact (call.contextOf_snoc opens).symm
        · rfl
      obtain ⟨st', hrest, hctx', hcallbacks'⟩ := ih st₁ _ hnow
      refine ⟨st', ?_, hctx', ?_⟩
      · unfold runCalls
        rw [hmem]
        dsimp only
        rw [hrest, hsame]
        rfl
      · rw [hcallbacks', hcallbacks]
        rfl

theorem openedSince_append (calls calls' : List Call) (opens : List OpenCall) :
    openedSince opens (calls ++ calls') = openedSince (openedSince opens calls) calls' := by
  induction calls generalizing opens with
  | nil => rfl
  | cons c calls ih =>
    cases c with
    | closes => exact ih []
    | opens call => exact ih _

/-- The last call of all is a successful open, and the one before it, if any, a close. -/
def FreshOpen (calls : List Call) (call : OpenCall) (ctx : InvokingCtx) : Prop :=
  (calls = [.opens call] ∨ ∃ before, calls = before ++ [.closes, .opens call]) ∧ call.brings = .ok ctx

theorem FreshOpen.context {calls : List Call} {call : OpenCall} {ctx : InvokingCtx} (h : FreshOpen calls call ctx) :
    contextOf (openedSince [] calls) = ctx := by
  obtain ⟨hcalls, hok⟩ := h
  have hone : openedSince [] [.opens call] = [call] := by
    unfold openedSince
    rw [hok]
    rfl
  have hctx : contextOf [call] = ctx := by
    have heq := call.brings_eq
    rw [hok] at heq
    split at heq
    · cases heq
    · split at heq
      · cases heq
      · exact (Except.ok.inj heq).symm
  obtain rfl | ⟨before, rfl⟩ := hcalls
  · rw [hone, hctx]
  · rw [openedSince_append]
    change contextOf (openedSince [] [.opens call]) = ctx
    rw [hone, hctx]

/-- Any calls run through, answer as their arrays say and leave sudo's memory alone; what a
    check finds then is the context of the opens since the last close, and the callbacks of the
    last call. One open after a close, and a check finds what that open brought. -/
theorem session_keeps_context (calls : List Call) :
    ∃ st, runCalls .loaded calls = some (calls.filterMap Call.answer, st) ∧
      st.inv.ctx = contextOf (openedSince [] calls) ∧
      (st.pluginPrintf, st.conversation) = calls.foldl (fun _ call => call.callbacks) (none, none) ∧
      ∀ call ctx, FreshOpen calls call ctx → st.inv.ctx = ctx := by
  obtain ⟨st, hrun, hctx, hcallbacks⟩ := runCalls_keeps calls .loaded [] rfl
  exact ⟨st, hrun, hctx, hcallbacks, fun call ctx h => hctx.trans h.context⟩

end SudoWhat.Plugin
