/-
  SudoWhat.Plugin.Effects — what the approval plugin asks and does, and the two loops that
  wait on its surroundings (`plugin/sudowhat_approval.m`).

  `CheckEnv` holds every answer one `check()` can be given: verdicts, session, files,
  terminal, conversation, Touch ID. An answer that is asked for at several places is a
  function of the place. `Eff` is what it does, in order. The write loop and the confirm
  loop end only when their surroundings let them; `fuel` bounds the rounds a run waits,
  and a run that is still waiting then has not returned (`Halt.waiting`).
-/

import Mathlib.Algebra.Group.Nat.Defs
import SudoWhat.Lib.Traced
import SudoWhat.Pam.Authenticate

namespace SudoWhat.Plugin

open SudoWhat.Lib SudoWhat.Pam

/-! ## Answers -/

/-- The result of one `write()`. -/
inductive WriteResult where
  | wrote (n : Nat)
  /-- `EINTR`. -/
  | interrupted
  | failed
  deriving DecidableEq, Repr

/-- `/dev/tty` as one place finds it. -/
structure Tty where
  opens : Bool
  isTerminal : Bool
  write : Nat → WriteResult

/-- The places that open `/dev/tty`; a check comes to each at most once. -/
inductive TtySite where
  | verifyCode
  | execLine
  | confirmGate
  | confirmColour
  deriving DecidableEq, Repr

/-- The places that allocate. -/
inductive AllocSite where
  | sheetVerify | sheetUser | sheetCwd | sheetCommand
  | execArgv | execColoured | execPlain | execUser
  | errorPath
  deriving DecidableEq, Repr

/-- A file's identity. -/
structure FileId where
  dev : Nat
  ino : Nat
  deriving DecidableEq, Repr

/-- One reply of sudo's conversation: whether it succeeded, and the text it brought. -/
structure ConvReply where
  ok : Bool
  reply : Option Bytes
  deriving DecidableEq, Repr

inductive LAPolicy where
  | deviceOwner
  | biometricsOrCompanion
  deriving DecidableEq, Repr

structure NSError where
  domain : Text
  code : Int
  deriving DecidableEq, Repr

/-- What `evaluatePolicy` replies. -/
structure LAReply where
  success : Bool
  err : Option NSError
  deriving DecidableEq, Repr

/-- The verification code's alphabet has a first letter, `0`. -/
instance neZeroAlphabet : @NeZero Nat Zero.ofOfNat0 25 := Nat.instNeZeroSucc

/-- Everything one `check()` can be told. An error of a system call is its message. -/
structure CheckEnv where
  pamSignature : Signature
  auditExists : Bool
  auditSignature : Signature
  session : SecuritySession
  consoleUid : Uid
  /-- `/etc/pam.d/sudo_local`, decoded. -/
  sudoLocal : Option Text
  /-- The name `getpwuid(0)` gives. -/
  rootName : Option Bytes
  pluginPrintf : Bool
  stderrIsTerminal : Bool
  tty : TtySite → Tty
  conversation : Option (Nat → ConvReply)
  alloc : AllocSite → Bool
  openTarget : Except Bytes Unit
  fstatTarget : Except Bytes FileId
  statTarget : Except Bytes FileId
  random : Nat → Fin 25
  osMajor : Nat
  seteuidDrop : Except Bytes Unit
  seteuidBack : Bool
  canCompanion : Bool
  canBiometricsOrCompanion : Bool
  canDeviceOwner : Except (Option Text) Unit
  reply : LAReply
  /-- The reply to the second dialog, if there is one. -/
  passwordReply : LAReply
  fuel : Nat

/-! ## Effects -/

inductive Channel where
  | pluginPrintf
  | stderr
  deriving DecidableEq, Repr

inductive Eff where
  /-- What `*errstr` points at from here on. -/
  | errstr (text : Bytes)
  | message (channel : Channel) (text : Bytes)
  | syslog (text : Bytes)
  | unsetMarker
  /-- Bytes delivered to `/dev/tty`. -/
  | ttyWrite (bytes : Bytes)
  /-- A question put through the conversation. -/
  | converse (prompt : Text)
  | openTarget (path : Bytes) (opened : Bool)
  | fstatTarget (id : Option FileId)
  | statTarget (path : Bytes) (id : Option FileId)
  | closeTarget
  | seteuid (uid : Uid) (ok : Bool)
  /-- A Touch ID sheet raised, its text in UTF-16, and whether it was approved. -/
  | sheet (policy : LAPolicy) (reason : List UInt16) (approved : Bool)
  deriving DecidableEq, Repr

/-- Why a run did not return. -/
inductive Halt where
  /-- Still in a loop its surroundings have not ended. -/
  | waiting
  /-- `_exit(1)`. -/
  | exited
  deriving DecidableEq, Repr

abbrev Act (α : Type) := Traced Eff Halt α

/-- `check()`'s return: 1, 0 and -1. -/
inductive Ret where
  | allow
  | deny
  | error
  deriving DecidableEq, Repr

/-- The invoking context `open()` stashed; a field is there when its `have_` flag is set. -/
structure InvokingCtx where
  uid : Option Uid
  tty : Option Bytes
  cwd : Option Bytes
  term : Option Bytes
  noColor : Bool
  deriving DecidableEq, Repr

/-- The value of the first entry for a key. -/
def findKv : List Bytes → Bytes → Option Bytes
  | [], _ => none
  | entry :: rest, key =>
    if (key ++ lit "=").isPrefixOf entry then some (entry.drop (key.length + 1)) else findKv rest key

/-- `find_kv` on an array that may be NULL. -/
def findKvIn (arr : Option (List Bytes)) (key : Bytes) : Option Bytes :=
  match arr with
  | none => none
  | some arr => findKv arr key

def isCSpace (c : UInt8) : Bool := c == 0x20 || (0x09 ≤ c && c ≤ 0x0D)

def isDigit (c : UInt8) : Bool := 0x30 ≤ c && c ≤ 0x39

/-- The number a run of digits spells. -/
def digitsValue (ds : Bytes) : Nat := ds.foldl (fun n d => 10 * n + (d.toNat - 0x30)) 0

/-- `strtoul(s, NULL, 10)`: blanks, a sign, digits; `ULONG_MAX` on overflow. -/
def strtoul (s : Bytes) : Nat :=
  let (negative, digits) :=
    match s.dropWhile isCSpace with
    | 0x2D :: rest => (true, rest)
    | 0x2B :: rest => (false, rest)
    | rest => (false, rest)
  let n := digitsValue (digits.takeWhile isDigit)
  if n ≥ 2 ^ 64 then 2 ^ 64 - 1 else if negative then (2 ^ 64 - n) % 2 ^ 64 else n

def apiMajor (version : UInt32) : UInt32 := version >>> 16

/-! ## Saying something -/

def CheckEnv.channel (env : CheckEnv) : Channel := if env.pluginPrintf then .pluginPrintf else .stderr

/-- The error goes into its buffer, and out as a line of its own. -/
def setErrstr (env : CheckEnv) (formatted : Bytes) : Act Unit := do
  Traced.emit (.errstr (vsnprintf 512 formatted))
  Traced.emit (.message env.channel (vsnprintf 512 formatted ++ lit "\n"))

/-- Whether the invoking environment permits colour. -/
def swColorAllowed (ctx : InvokingCtx) : Bool :=
  if ctx.noColor then false
  else
    match ctx.term with
    | none => false
    | some term => if term = [] then false else if term = lit "dumb" then false else true

def swDeclineText : Bytes := lit "sudowhat: aborted; command not run"

def swDeclineLine (color : Bool) : Bytes :=
  if color then lit "\x1b[33m" ++ swDeclineText ++ lit "\x1b[0m" else swDeclineText

/-- A decline: plain in errstr, yellow on a terminal. -/
def setDecline (env : CheckEnv) (ctx : InvokingCtx) : Act Unit := do
  Traced.emit (.errstr (vsnprintf 512 swDeclineText))
  Traced.emit (.message env.channel (swDeclineLine (swColorAllowed ctx && env.stderrIsTerminal) ++ lit "\n"))

/-! ## Writing to the terminal -/

/-- The loop both line writers run: the rest of the line, from the `k`-th `write()` on. -/
def writeLoop (write : Nat → WriteResult) : Nat → Nat → Bytes → Act Bool
  | _, _, [] => pure true
  | 0, _, _ :: _ => Traced.halt .waiting
  | fuel + 1, k, c :: cs =>
    match write k with
    | .failed => pure false
    | .interrupted => writeLoop write fuel (k + 1) (c :: cs)
    | .wrote n => do
      Traced.emit (.ttyWrite ((c :: cs).take n))
      writeLoop write fuel (k + 1) ((c :: cs).drop n)

def swHaveControllingTty (env : CheckEnv) (site : TtySite) : Bool :=
  (env.tty site).opens && (env.tty site).isTerminal

/-! ## Kinds of effect -/

inductive EffKind where
  /-- Shows or logs something and decides nothing. -/
  | display
  | question
  | target
  | privilege
  | sheet
  | marker
  deriving DecidableEq, Repr

def Eff.kind : Eff → EffKind
  | .errstr _ | .message _ _ | .syslog _ | .ttyWrite _ => .display
  | .converse _ => .question
  | .openTarget _ _ | .fstatTarget _ | .statTarget _ _ | .closeTarget => .target
  | .seteuid _ _ => .privilege
  | .sheet _ _ _ => .sheet
  | .unsetMarker => .marker

@[simp] theorem kind_errstr (t : Bytes) : (Eff.errstr t).kind = .display := rfl
@[simp] theorem kind_message (c : Channel) (t : Bytes) : (Eff.message c t).kind = .display := rfl
@[simp] theorem kind_syslog (t : Bytes) : (Eff.syslog t).kind = .display := rfl
@[simp] theorem kind_ttyWrite (t : Bytes) : (Eff.ttyWrite t).kind = .display := rfl
@[simp] theorem kind_converse (t : Text) : (Eff.converse t).kind = .question := rfl
@[simp] theorem kind_openTarget (p : Bytes) (o : Bool) : (Eff.openTarget p o).kind = .target := rfl
@[simp] theorem kind_fstatTarget (i : Option FileId) : (Eff.fstatTarget i).kind = .target := rfl
@[simp] theorem kind_statTarget (p : Bytes) (i : Option FileId) : (Eff.statTarget p i).kind = .target := rfl
@[simp] theorem kind_closeTarget : Eff.closeTarget.kind = .target := rfl
@[simp] theorem kind_seteuid (u : Uid) (o : Bool) : (Eff.seteuid u o).kind = .privilege := rfl
@[simp] theorem kind_sheet (p : LAPolicy) (r : List UInt16) (a : Bool) : (Eff.sheet p r a).kind = .sheet := rfl
@[simp] theorem kind_unsetMarker : Eff.unsetMarker.kind = .marker := rfl

/-- Every effect of the run is of one of these kinds. -/
def OnlyKinds {α : Type} (ks : List EffKind) (x : Act α) : Prop := x.All fun e => e.kind ∈ ks

section OnlyKinds

variable {α β : Type} {ks : List EffKind}

@[simp] theorem onlyKinds_pure (a : α) : OnlyKinds ks (pure a : Act α) := Traced.all_pure a
@[simp] theorem onlyKinds_halt (h : Halt) : OnlyKinds ks (Traced.halt h : Act α) := Traced.all_halt h
@[simp] theorem onlyKinds_emit (e : Eff) : OnlyKinds ks (Traced.emit e : Act Unit) ↔ e.kind ∈ ks := Traced.all_emit e

@[simp] theorem onlyKinds_bind {x : Act α} {f : α → Act β} :
    OnlyKinds ks (x >>= f) ↔ OnlyKinds ks x ∧ ∀ a, x.Returns a → OnlyKinds ks (f a) := Traced.all_bind

theorem OnlyKinds.not_mem {x : Act α} (h : OnlyKinds ks x) {e : Eff} (he : e.kind ∉ ks) : e ∉ x.trace :=
  fun hm => he (h e hm)

@[simp] theorem setErrstr_returns (env : CheckEnv) (text : Bytes) (u : Unit) : (setErrstr env text).Returns u := rfl
@[simp] theorem setDecline_returns (env : CheckEnv) (ctx : InvokingCtx) (u : Unit) :
    (setDecline env ctx).Returns u := rfl

@[simp] theorem setErrstr_kinds (h : .display ∈ ks) (env : CheckEnv) (text : Bytes) :
    OnlyKinds ks (setErrstr env text) := by
  simp [setErrstr, h]

@[simp] theorem setDecline_kinds (h : .display ∈ ks) (env : CheckEnv) (ctx : InvokingCtx) :
    OnlyKinds ks (setDecline env ctx) := by
  simp [setDecline, h]

@[simp] theorem writeLoop_kinds (h : .display ∈ ks) (write : Nat → WriteResult) :
    ∀ (fuel k : Nat) (rest : Bytes), OnlyKinds ks (writeLoop write fuel k rest) := by
  intro fuel
  induction fuel with
  | zero => intro k rest; cases rest <;> simp [writeLoop]
  | succ fuel ih =>
    intro k rest
    cases rest with
    | nil => simp [writeLoop]
    | cons c cs =>
      unfold writeLoop
      cases write k with
      | failed => simp
      | interrupted => exact ih _ _
      | wrote n => simp [h, ih]

end OnlyKinds

end SudoWhat.Plugin
