/-
  SudoWhat.Linux.Open — the Linux audit plugin's `open()` (`linux/sudowhat_audit/src/lib.rs`)
  and the one place it writes (`src/tty.rs`).

  sudo's arrays are read as the byte slices they are. Nothing is shown to a caller with
  uid 0, or with none; every other caller with a command or a shell gets the block, on the
  controlling terminal or nowhere. No signature is checked on Linux.
-/

import SudoWhat.Linux.Display
import SudoWhat.Plugin.Effects

namespace SudoWhat.Linux

open SudoWhat.Lib
open SudoWhat.Plugin (Act Tty WriteResult apiMajor)

/-- An array from `start` on; NULL or a negative start is an empty one. -/
def collect (arr : Option (List Bytes)) (start : Int) : List Bytes :=
  match arr with
  | none => []
  | some arr => if start < 0 then [] else arr.drop start.toNat

/-- A write of nothing ends the loop, as a failed one does. -/
def writeLoop (write : Nat → WriteResult) : Nat → Nat → Bytes → Act Unit
  | _, _, [] => pure ()
  | 0, _, _ :: _ => Traced.halt .waiting
  | fuel + 1, k, c :: cs =>
    match write k with
    | .failed => pure ()
    | .interrupted => writeLoop write fuel (k + 1) (c :: cs)
    | .wrote 0 => pure ()
    | .wrote (n + 1) => do
      Traced.emit (.ttyWrite ((c :: cs).take (n + 1)))
      writeLoop write fuel (k + 1) ((c :: cs).drop (n + 1))

def writeTty (tty : Tty) (fuel : Nat) (block : Text) : Act Unit :=
  if block = [] then pure ()
  else if !tty.opens then pure ()
  else if !tty.isTerminal then pure ()
  else writeLoop tty.write fuel 0 (Utf8.encode block)

/-- The block `open()` comes to, if it comes to one. -/
def openBlock (settings userInfo : Option (List Bytes)) (submitOptind : Int) (submitArgv submitEnvp : Option (List Bytes)) :
    Option Text :=
  buildBlock (collect settings 0) (collect userInfo 0) (collect submitArgv submitOptind) (colorAllowed (collect submitEnvp 0))

/-- `displayOn` is the build's switch. The return is 1, loaded, but for an API of another
    generation. -/
def sudowhatAuditOpen (displayOn : Bool) (tty : Tty) (fuel : Nat) (version : UInt32) (settings userInfo : Option (List Bytes))
    (submitOptind : Int) (submitArgv submitEnvp : Option (List Bytes)) : Act Bool :=
  if apiMajor version ≠ 1 then pure false
  else if !displayOn then pure true
  else
    match findKv (collect userInfo 0) (lit "uid") with
    | none => pure true
    | some uid =>
      if parseUid uid = 0 then pure true
      else
        match openBlock settings userInfo submitOptind submitArgv submitEnvp with
        | none => pure true
        | some block => do
          writeTty tty fuel block
          return true

/-- What lets a caller past the version, the switch and the uid. -/
structure PastChecks (displayOn : Bool) (version : UInt32) (userInfo : Option (List Bytes)) : Prop where
  api : apiMajor version = 1
  on : displayOn = true
  caller : ∃ uid, findKv (collect userInfo 0) (lit "uid") = some uid ∧ parseUid uid ≠ 0

theorem open_shows {displayOn : Bool} {version : UInt32} {settings userInfo submitArgv submitEnvp : Option (List Bytes)}
    {submitOptind : Int} (h : PastChecks displayOn version userInfo) (tty : Tty) (fuel : Nat) :
    sudowhatAuditOpen displayOn tty fuel version settings userInfo submitOptind submitArgv submitEnvp =
      match openBlock settings userInfo submitOptind submitArgv submitEnvp with
      | none => pure true
      | some block => do
        writeTty tty fuel block
        return true := by
  obtain ⟨uid, huid, hne⟩ := h.caller
  unfold sudowhatAuditOpen
  rw [h.api, h.on, huid]
  dsimp only
  rw [if_neg hne]
  rfl

end SudoWhat.Linux
