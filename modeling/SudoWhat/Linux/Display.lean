/-
  SudoWhat.Linux.Display — the Linux audit plugin's block
  (`linux/sudowhat_audit/src/display.rs`).

  Up to three rows before sudo's password prompt: run as, directory, input. One space
  follows each label and only the labels are coloured. The values are rendered by the
  escape core.

  Proved: the block displays the request it was given, so two plain blocks are equal only
  for one target user, one directory and one command (`block_determines_request`).
-/

import SudoWhat.Row

namespace SudoWhat.Linux

open SudoWhat.Lib
open SudoWhat.Lib.Sgr (paintSpans)
open SudoWhat.EscapeCore (escapeBytes fullCommandLineBytes quoteBytes)

/-! ## Values -/

/-- The value of the first entry for a key. -/
def findKv : List Bytes → Bytes → Option Bytes
  | [], _ => none
  | entry :: rest, key =>
    match (key.isPrefixOf? entry).bind (lit "=").isPrefixOf? with
    | some val => some val
    | none => findKv rest key

def isAsciiDigit (b : UInt8) : Bool := 0x30 ≤ b && b ≤ 0x39

/-- The leading digits' number, in 64 bits that saturate. -/
def parseUid (s : Bytes) : Nat :=
  (s.takeWhile isAsciiDigit).foldl (fun n b => min (min (n * 10) (2 ^ 64 - 1) + (b.toNat - 0x30)) (2 ^ 64 - 1)) 0

def colorAllowed (envp : List Bytes) : Bool :=
  if (findKv envp (lit "NO_COLOR")).any (· != []) then false
  else
    match findKv envp (lit "TERM") with
    | none => false
    | some t => if t = [] ∨ t = lit "dumb" then false else true

def escape (s : Bytes) : Text := escapeBytes s

def commandLine (argv : List Bytes) : Option Text :=
  match argv with
  | [] => none
  | argv0 :: rest => some (fullCommandLineBytes argv0 (argv0 :: rest))

def settingTrue (settings : List Bytes) (key : String) : Bool := findKv settings (lit key) == some (lit "true")

def runsShell (settings : List Bytes) : Bool :=
  settingTrue settings "run_shell" || settingTrue settings "login_shell" || settingTrue settings "implied_shell"

def dirLine (settings userInfo : List Bytes) : Option Text :=
  let dir :=
    match findKv settings (lit "cmnd_cwd") with
    | some (d :: ds) => some (d :: ds)
    | _ => if settingTrue settings "login_shell" then none else findKv userInfo (lit "cwd")
  dir.bind fun dir => if dir = [] then none else some (escape dir)

/-! ## The block -/

def buildBlock (settings userInfo argv : List Bytes) (color : Bool) : Option Text :=
  let command : Option (Option Text) :=
    match commandLine argv with
    | some c => if c = [] then none else some (some c)
    | none => if runsShell settings then some none else none
  match command with
  | none => none
  | some command =>
    let userLine :=
      match findKv settings (lit "runas_user") with
      | some (r :: rs) => escape (r :: rs)
      | _ => "root".toList
    let (lb, lo) := if color then ("\x1b[1m".toList, "\x1b[0m".toList) else ([], [])
    some
      ("sudowhat: ".toList ++ lb ++ "run as:".toList ++ lo ++ [' '] ++ userLine ++ ['\n']
        ++ (match dirLine settings userInfo with
          | some d => "sudowhat: ".toList ++ lb ++ "directory:".toList ++ lo ++ [' '] ++ d ++ ['\n']
          | none => [])
        ++ (match command with
          | some c => "sudowhat: ".toList ++ lb ++ "input:".toList ++ lo ++ [' '] ++ c ++ ['\n']
          | none => []))

/-- One space after each label. -/
def oneSpace : RowKind → Nat := fun _ => 1

/-- What the block says. -/
def request (settings userInfo argv : List Bytes) : Request where
  user := targetUser (findKv settings)
  directory := startDirectory (findKv settings) (findKv userInfo)
  typed := argv
  path := none

theorem dirLine_eq (settings userInfo : List Bytes) :
    dirLine settings userInfo = (startDirectory (findKv settings) (findKv userInfo)).map escapeBytes := by
  have hcwd : ((if settingTrue settings "login_shell" then none else findKv userInfo (lit "cwd")).bind fun dir =>
      if dir = [] then none else some (escape dir)) = (if findKv settings (lit "login_shell") == some (lit "true") then none
        else given (findKv userInfo (lit "cwd"))).map escapeBytes := by
    unfold settingTrue
    split
    · rfl
    · rcases findKv userInfo (lit "cwd") with _ | _ | ⟨c, cs⟩ <;> rfl
  unfold dirLine startDirectory
  rcases findKv settings (lit "cmnd_cwd") with _ | _ | ⟨c, cs⟩
  · exact hcwd
  · exact hcwd
  · rfl

theorem row_shown (r : Row) (color : Bool) :
    r.Shown oneSpace color ("sudowhat: ".toList ++ (if color then "\x1b[1m".toList else []) ++ r.kind.label
      ++ (if color then "\x1b[0m".toList else []) ++ [' '] ++ r.value ++ ['\n']) := by
  refine ⟨r.value, Sgr.dressed_plain (r.clean.not_mem (by decide)), fun _ => rfl, ?_⟩
  have hon : "\x1b[1m".toList = Sgr.seq ['1'] := by decide
  have hoff : "\x1b[0m".toList = Sgr.seq Sgr.reset := by decide
  have hplain : "sudowhat: ".toList = provenance := rfl
  rw [hon, hoff, hplain]
  cases color with
  | false => simp [paintSpans, labelFrame, oneSpace]
  | true => simp [paintSpans, labelFrame, oneSpace, Sgr.Span.shown]

theorem displays_input (argv : List Bytes) (color : Bool) : Displays oneSpace color (inputRow argv)
    (match commandLine argv with
      | some c => "sudowhat: ".toList ++ (if color then "\x1b[1m".toList else []) ++ "input:".toList
          ++ (if color then "\x1b[0m".toList else []) ++ [' '] ++ c ++ ['\n']
      | none => []) := by
  cases argv with
  | nil => exact displays_nil
  | cons argv0 rest => exact displays_singleton (row_shown (Row.command argv0 (argv0 :: rest)) color)

theorem displays_dir (dir : Option Bytes) (color : Bool) :
    Displays oneSpace color (dir.toList.map (Row.escaped .directory))
      (match dir.map escapeBytes with
        | some d => "sudowhat: ".toList ++ (if color then "\x1b[1m".toList else []) ++ "directory:".toList
            ++ (if color then "\x1b[0m".toList else []) ++ [' '] ++ d ++ ['\n']
        | none => []) := by
  cases dir with
  | none => exact displays_nil
  | some raw => exact displays_singleton (row_shown (Row.escaped .directory raw) color)

theorem userLine_eq (settings : List Bytes) : (match findKv settings (lit "runas_user") with
    | some (r :: rs) => escape (r :: rs)
    | _ => "root".toList) = escapeBytes (targetUser (findKv settings)) := by
  have hroot : "root".toList = escapeBytes (lit "root") := by decide
  unfold targetUser
  rcases findKv settings (lit "runas_user") with _ | _ | ⟨r, rs⟩
  · exact hroot
  · exact hroot
  · rfl

theorem buildBlock_none_iff (settings userInfo argv : List Bytes) (color : Bool) :
    buildBlock settings userInfo argv color = none ↔ argv = [] ∧ runsShell settings = false := by
  unfold buildBlock
  cases argv with
  | nil => cases runsShell settings <;> simp [commandLine]
  | cons argv0 rest => simp [commandLine, EscapeCore.fullCommandLineBytes_ne_nil]

theorem buildBlock_displays {settings userInfo argv : List Bytes} {color : Bool} {block : Text}
    (h : buildBlock settings userInfo argv color = some block) :
    Displays oneSpace color (request settings userInfo argv).rows block := by
  have huser : Displays oneSpace color [Row.escaped .runAs (targetUser (findKv settings))] _ :=
    displays_singleton (row_shown _ color)
  have hdir : Displays oneSpace color
      ((startDirectory (findKv settings) (findKv userInfo)).toList.map (Row.escaped .directory)) _ :=
    displays_dir (startDirectory (findKv settings) (findKv userInfo)) color
  have hall := (huser.append hdir).append (displays_input argv color)
  have hrows : [Row.escaped .runAs (targetUser (findKv settings))]
      ++ (startDirectory (findKv settings) (findKv userInfo)).toList.map (Row.escaped .directory) ++ inputRow argv =
      (request settings userInfo argv).rows := by
    simp [Request.rows, request]
  rw [hrows] at hall
  unfold buildBlock at h
  rw [userLine_eq, dirLine_eq] at h
  cases argv with
  | nil =>
    cases hs : runsShell settings with
    | false => rw [hs] at h; cases h
    | true =>
      rw [hs] at h
      cases color <;> exact Option.some.inj h ▸ hall
  | cons argv0 rest =>
    dsimp only [commandLine] at h
    rw [if_neg (EscapeCore.fullCommandLineBytes_ne_nil argv0 (argv0 :: rest))] at h
    cases color <;> exact Option.some.inj h ▸ hall

theorem runsShell_iff (settings : List Bytes) : runsShell settings = false ↔
    ∀ key ∈ ["run_shell", "login_shell", "implied_shell"], findKv settings (lit key) ≠ some (lit "true") := by
  simp [runsShell, settingTrue, and_assoc]

theorem buildBlock_strip (settings userInfo argv : List Bytes) :
    (buildBlock settings userInfo argv true).map Sgr.strip = buildBlock settings userInfo argv false := by
  have hnone :=
    (buildBlock_none_iff settings userInfo argv true).trans (buildBlock_none_iff settings userInfo argv false).symm
  cases hp : buildBlock settings userInfo argv false with
  | none =>
    rw [hnone.mpr hp]
    rfl
  | some plain =>
    cases hc : buildBlock settings userInfo argv true with
    | none =>
      rw [hnone.mp hc] at hp
      cases hp
    | some shown => rw [Option.map_some, (buildBlock_displays hc).strip, (buildBlock_displays hp).plain]

/-- The block is there unless there is nothing to run; it is rows in order, and stripped
    of colour it is the plain one; and the plain one determines the target user, the
    directory and the command as typed. -/
theorem block_determines_request :
    (∀ settings userInfo argv color, buildBlock settings userInfo argv color = none ↔
      argv = [] ∧ ∀ key ∈ ["run_shell", "login_shell", "implied_shell"], findKv settings (lit key) ≠ some (lit "true")) ∧
      (∀ settings userInfo argv color block, buildBlock settings userInfo argv color = some block →
        ∃ texts, block = texts.flatten ∧
          List.Forall₂ (fun r text => IsRow text ∧ r.Shown oneSpace color text) (request settings userInfo argv).rows texts ∧
          (request settings userInfo argv).rows.map Row.kind =
            .runAs :: ((if (dirLine settings userInfo).isSome then [.directory] else []) ++
              (if argv ≠ [] then [.input] else []))) ∧
      (∀ settings userInfo argv,
        (buildBlock settings userInfo argv true).map Sgr.strip = buildBlock settings userInfo argv false) ∧
      (∀ settings userInfo argv settings' userInfo' argv' block, buildBlock settings userInfo argv false = some block →
        buildBlock settings' userInfo' argv' false = some block →
        targetUser (findKv settings) = targetUser (findKv settings') ∧
          startDirectory (findKv settings) (findKv userInfo) = startDirectory (findKv settings') (findKv userInfo') ∧
          argv = argv') ∧
      ∀ argv0 rest, commandLine (argv0 :: rest) = some ([' '].intercalate ((argv0 :: rest).map quoteBytes)) := by
  refine ⟨?_, ?_, buildBlock_strip, ?_, ?_⟩
  · intro settings userInfo argv color
    rw [buildBlock_none_iff, runsShell_iff]
  · intro settings userInfo argv color block h
    obtain ⟨texts, hflat, hrows⟩ := (buildBlock_displays h).isRow
    have hkinds := (request settings userInfo argv).kinds
    refine ⟨texts, hflat, hrows, ?_⟩
    rw [dirLine_eq, Option.isSome_map]
    exact hkinds.trans (congrArg (RowKind.runAs :: ·) (List.append_nil _))
  · intro settings userInfo argv settings' userInfo' argv' block h h'
    have hblocks := (buildBlock_displays h).plain.symm.trans (buildBlock_displays h').plain
    have hrequest := Request.rows_injective (plainBlock_inj hblocks)
    exact ⟨congrArg Request.user hrequest, congrArg Request.directory hrequest, congrArg Request.typed hrequest⟩
  · intro argv0 rest
    rw [commandLine, fullCommandLineBytes, commandTokens_typed]

end SudoWhat.Linux
