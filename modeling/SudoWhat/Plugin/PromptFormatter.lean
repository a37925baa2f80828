/-
  SudoWhat.Plugin.PromptFormatter — the Touch ID sheet's text (`plugin/PromptFormatter.m`).

  A text is an `NSString`: its UTF-16 units, which is what its lengths count. Every value
  is rendered by the escape core from the raw bytes and shown whole, or replaced as a
  whole by `(see terminal)` when it does not fit its budget. A value whose buffer cannot
  be had fails the whole sheet.
-/

import SudoWhat.Plugin.Effects
import SudoWhat.EscapeCore.CommandLine

namespace SudoWhat.Plugin

open SudoWhat.EscapeCore (escapeBytes fullCommandLineBytes)

abbrev NSString := List UInt16

/-- A character's UTF-16 units. -/
def utf16Char (c : Char) : NSString :=
  if c.toNat < 0x10000 then [UInt16.ofNat c.toNat]
  else
    [UInt16.ofNat (0xD800 + (c.toNat - 0x10000) / 0x400), UInt16.ofNat (0xDC00 + (c.toNat - 0x10000) % 0x400)]

def utf16 (t : Text) : NSString := t.flatMap utf16Char

def ns (s : String) : NSString := utf16 s.toList

inductive PromptStyle where
  | systemSheet
  /-- macOS 27 and later, whose sheet appends its period even after ours. -/
  | systemHeadline
  deriving DecidableEq, Repr

def swSheetStyleFor (major : Nat) : PromptStyle := if major ≥ 27 then .systemHeadline else .systemSheet

/-- Which items were replaced by the marker. -/
structure PromptOverflow where
  user : Bool
  path : Bool
  command : Bool
  deriving DecidableEq, Repr

def maxTotal : Nat := 480
def maxUserDisplay : Nat := 64
def maxCwdDisplay : Nat := 160
def maxVerifyDisplay : Nat := 32

def seeTerminal : NSString := ns "(see terminal)"
def promptHeader : NSString := ns "run a command."
def bottomClean : NSString := ns "Code must match your terminal."
def bottomTrunc : NSString := ns "⚠️ Long items are shown in your terminal."

/-- A value escaped, unless its buffer cannot be had. -/
def pfEscape (allocated : Bool) (s : Bytes) : Option NSString := if allocated then some (utf16 (escapeBytes s)) else none

def pfCommandLine (allocated : Bool) (path : Bytes) (argv : List Bytes) : Option NSString :=
  if allocated then some (utf16 (fullCommandLineBytes path argv)) else none

def verifyLine (alloc : AllocSite → Bool) (verifyCode : Option Text) : Option NSString :=
  match verifyCode with
  | some (c :: cs) =>
    (pfEscape (alloc .sheetVerify) (cString (c :: cs))).map fun v => ns "Verify Code: " ++ v.take maxVerifyDisplay
  | _ => some (ns "Verify Code: unavailable")

def userValue (alloc : AllocSite → Bool) (user : Option Bytes) : Option NSString :=
  match user with
  | some (c :: cs) => pfEscape (alloc .sheetUser) (c :: cs)
  | _ => some (ns "root")

/-- The directory's value, `some none` when there is none to show. -/
def cwdValue (alloc : AllocSite → Bool) (cwd : Option Bytes) : Option (Option NSString) :=
  match cwd with
  | some (c :: cs) => (pfEscape (alloc .sheetCwd) (c :: cs)).map some
  | _ => some none

/-- Whole, or the marker. -/
def shownWithin (budget : Nat) (value : NSString) : NSString := if value.length > budget then seeTerminal else value

/-- The units every other part of the sheet takes. -/
def promptOverhead (verify userShown : NSString) (pathShown : Option NSString) : Nat :=
  promptHeader.length + 2 + (verify.length + 2) + (7 + userShown.length + 2)
    + (match pathShown with | some p => 10 + p.length + 2 | none => 0)
    + 8 + (2 + max bottomClean.length bottomTrunc.length)

/-- The closing line: bare under the headline style, where the system adds the stop. -/
def promptBottom (style : PromptStyle) (anyOverflow : Bool) : NSString :=
  let bottom := if anyOverflow then bottomTrunc else bottomClean
  if style = .systemHeadline ∧ (ns ".").isSuffixOf bottom then bottom.dropLast else bottom

/-- `formatWithCommandPath:runasUser:cwd:verifyCode:argv:style:overflow:`. -/
def formatWithCommandPath (alloc : AllocSite → Bool) (path : Option Bytes) (user cwd : Option Bytes)
    (verifyCode : Option Text) (argv : List Bytes) (style : PromptStyle) : Option (NSString × PromptOverflow) :=
  match path with
  | none => none
  | some path =>
    match verifyLine alloc verifyCode, cwdValue alloc cwd, userValue alloc user,
      pfCommandLine (alloc .sheetCommand) path argv with
    | some verify, some pathVal, some userVal, some cmdVal =>
      let userOverflow := userVal.length > maxUserDisplay
      let userShown := shownWithin maxUserDisplay userVal
      let pathOverflow := pathVal.any fun p => p.length > maxCwdDisplay
      let pathShown := pathVal.map (shownWithin maxCwdDisplay)
      let cmdBudget := maxTotal - promptOverhead verify userShown pathShown
      let cmdOverflow := cmdVal.length > cmdBudget
      let cmdShown := shownWithin cmdBudget cmdVal
      let bottom := promptBottom style (userOverflow || pathOverflow || cmdOverflow)
      some
        (promptHeader ++ ns "\n\nRUN AS\n" ++ userShown ++ ns "\n\n"
          ++ (match pathShown with | some p => ns "DIRECTORY\n" ++ p ++ ns "\n\n" | none => [])
          ++ ns "EXECUTE\n" ++ cmdShown ++ ns "\n\n" ++ verify ++ ns "\n\n" ++ bottom,
          ⟨userOverflow, pathOverflow, cmdOverflow⟩)
    | _, _, _, _ => none

end SudoWhat.Plugin
