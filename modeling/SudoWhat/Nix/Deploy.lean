/-
  SudoWhat.Nix.Deploy — `nix/bin/deploy` as a run: its arguments, the refusals, the header,
  the two command lines, the question, and the commands.

  A run writes to its two streams and starts commands under sudo; it comes to its end, or
  exits with a status. What git says of the repository, what the flake holds, what is typed
  and how each command ends is told from outside (`Env`), and so are `sort -V`, `dirname` and
  the quoting of `printf %q`. A command that fails ends the run with its status (`set -e`).

  The pin's reading and the perl program are `SudoWhat.Nix.Pin`'s. Not modelled: what git, sudo
  and the commands write themselves, and the greps that read the version out of the tag's
  `nix/package.nix`.

  Proved: a command line, without its colours, is its words (`printCommand_dressed`), and an
  argument nobody knows is always shown (`escapeUntrusted_ends`).
-/

import SudoWhat.Lib.Sgr
import SudoWhat.Lib.Traced
import SudoWhat.Nix.EscapeUntrusted
import SudoWhat.Nix.Pin

namespace SudoWhat.Nix.Deploy

open SudoWhat.Lib

/-! ## What a run does and is told -/

inductive Eff where
  | out (bytes : Bytes)
  | err (bytes : Bytes)
  | underSudo (argv : List Text)
  deriving DecidableEq, Repr

/-- Up to the exit status, where it exits. -/
abbrev Script := Traced Eff Nat

structure Env where
  args : List Bytes
  /-- `-t 1`, `-t 2`, `-t 0`. -/
  outTty : Bool
  errTty : Bool
  inTty : Bool
  /-- `NO_COLOR` is there and not empty. -/
  noColor : Bool
  flakeVar : Option Text
  repoRoot : Bool
  cd : Bool
  clean : Bool
  cleanIndex : Bool
  /-- `git status --short`, indented; a status instead where git fails. -/
  gitStatus : Except Nat Bytes
  head : Except Nat Text
  mergedTags : List Text
  sortV : List Text → List Text
  revList : Text → Except Nat Text
  tagVersion : Text
  /-- `git rev-list --count`, none where it fails. -/
  ahead : Option Text
  /-- The flake, where it can be read. -/
  flake : Option Text
  dirname : Text → Text
  /-- `printf %q`. -/
  quote : Text → Text
  ord : UInt8 → Int
  /-- The lines typed before the input ends. -/
  answers : List Bytes
  /-- How a command under sudo ends. -/
  status : List Text → Nat

/-! ## The two palettes -/

def sgr (on : Bool) (code : Text) : Text := if on then Sgr.seq code else []

def off (on : Bool) : Text := sgr on ['0']
def bold (on : Bool) : Text := sgr on ['1']
def dim (on : Bool) : Text := sgr on ['2']
def red (on : Bool) : Text := sgr on ['3', '1']
def green (on : Bool) : Text := sgr on ['3', '2']
def yellow (on : Bool) : Text := sgr on ['3', '3']
def cyan (on : Bool) : Text := sgr on ['3', '6']
def blue (on : Bool) : Text := sgr on ['1', ';', '3', '4']
def hidden (on : Bool) : Text := sgr on ['7', ';', '3', '1']

def Env.outColor (env : Env) : Bool := env.outTty && !env.noColor
def Env.errColor (env : Env) : Bool := env.errTty && !env.noColor

def say (t : Text) : Script Unit := Traced.emit (.out (Utf8.encode t))
def complain (t : Text) : Script Unit := Traced.emit (.err (Utf8.encode t))

def refuse {α : Type} (env : Env) (error : Text) (status : Nat) : Script α := do
  complain (red env.errColor ++ "✗ error: ".toList ++ error ++ off env.errColor ++ ['\n'])
  Traced.halt status

/-! ## The arguments -/

def usage : Text := "usage: deploy [--yes] [--dry-run] [-h|--help]

Bumps the sudowhat input in the nix-darwin flake to the latest release tag
reachable from HEAD (ref=refs/tags/vX.Y.Z + rev), then runs darwin-rebuild.
Both steps run under sudo, after showing the exact commands and confirming.

  --yes      skip the confirmation prompt (still prints the commands)
  --dry-run  print the commands, run nothing

Env:
  NIX_DARWIN_FLAKE   path to the system flake (default /etc/nix-darwin/flake.nix)
".toList

structure Opts where
  yes : Bool
  dryRun : Bool
  deriving DecidableEq, Repr

def unknownArgument (env : Env) (arg : Bytes) : Bytes :=
  Utf8.encode (red env.errColor ++ "✗ error: unknown argument: ".toList) ++
    (escapeUntrusted env.ord (arg.length + 1) arg (Utf8.encode (hidden env.errColor))
      (Utf8.encode (off env.errColor ++ red env.errColor))).getD [] ++
    Utf8.encode (off env.errColor ++ ['\n'])

def readArgs (env : Env) : List Bytes → Opts → Script Opts
  | [], opts => pure opts
  | arg :: args, opts =>
    if arg = lit "--yes" then readArgs env args { opts with yes := true }
    else if arg = lit "--dry-run" then readArgs env args { opts with dryRun := true }
    else if arg = lit "-h" ∨ arg = lit "--help" then do
      say usage
      Traced.halt 0
    else do
      Traced.emit (.err (unknownArgument env arg))
      complain usage
      Traced.halt 1

/-! ## The target and the pin -/

structure Target where
  head : Text
  tag : Text
  rev : Text

/-- `^v[0-9]`. -/
def isRelease : Text → Bool
  | 'v' :: c :: _ => c.isDigit
  | _ => false

/-- `target_tag`, empty where there is none. -/
def Env.targetTag (env : Env) : Text := (env.sortV (env.mergedTags.filter isRelease)).getLast?.getD []

def refuseDirty {α : Type} (env : Env) : Script α := do
  complain (red env.errColor ++ "✗ error: working tree is dirty -- uncommitted changes are in no release tag".toList ++
    off env.errColor ++ ['\n'])
  complain (dim env.errColor ++ "         commit and tag a release, or stash, before deploying:".toList ++
    off env.errColor ++ ['\n'])
  match env.gitStatus with
  | .error status => Traced.halt status
  | .ok lines => do
    Traced.emit (.err lines)
    Traced.halt 1

def readTarget (env : Env) : Script Target :=
  if !env.repoRoot then refuse env "not inside a git repository".toList 1
  else if !env.cd then Traced.halt 1
  else if !env.clean || !env.cleanIndex then refuseDirty env
  else
    match env.head with
    | .error status => Traced.halt status
    | .ok head =>
      if env.targetTag = [] then
        refuse env "no release tag (vX.Y.Z) reachable from HEAD -- tag a release first".toList 1
      else
        match env.revList env.targetTag with
        | .error status => Traced.halt status
        | .ok rev => pure ⟨head, env.targetTag, rev⟩

def Env.flakePath (env : Env) : Text :=
  match env.flakeVar with
  | some (c :: cs) => c :: cs
  | _ => "/etc/nix-darwin/flake.nix".toList

/-- `pin_ref_kv` and `pinned_rev`. -/
structure Found where
  refKv : Option Text
  rev : Text

def readPin (env : Env) : Script Found :=
  match env.flake with
  | none => refuse env ("cannot read the flake (set NIX_DARWIN_FLAKE to name another): ".toList ++ env.flakePath) 1
  | some text =>
    match pinLine text with
    | none => refuse env ("no sudowhat input pin in the flake: ".toList ++ env.flakePath) 1
    | some line =>
      match pinnedRev line with
      | none => refuse env ("no rev= pin for sudowhat in the flake: ".toList ++ env.flakePath) 1
      | some rev => pure ⟨pinRefKv line, rev⟩

/-! ## The rows -/

def headRow (on : Bool) (env : Env) (t : Target) : Text :=
  bold on ++ "HEAD:".toList ++ off on ++ "    ".toList ++ cyan on ++ t.head.take 10 ++ off on ++
    if t.head = t.rev then
      "  ".toList ++ dim on ++ ['('] ++ (off on ++ green on) ++ "at the target".toList ++ (off on ++ dim on) ++ [')'] ++ off on ++
        ['\n']
    else
      "  ".toList ++ dim on ++ ['('] ++ (off on ++ yellow on) ++ env.ahead.getD ['?'] ++
        " commit(s) after the target -- unreleased".toList ++ (off on ++ dim on) ++ [')'] ++ off on ++ ['\n']

def printHeader (on : Bool) (env : Env) (t : Target) (p : Found) : Text :=
  bold on ++ "target:".toList ++ off on ++ "  ".toList ++ cyan on ++ t.rev.take 10 ++ off on ++ "  ".toList ++ cyan on ++ t.tag ++
    off on ++ ['\n'] ++ headRow on env t ++
    (bold on ++ "pinned:".toList ++ off on ++ "  ".toList ++ cyan on ++ p.rev.take 10 ++ off on ++ "  ".toList ++ dim on ++
      p.refKv.getD "ref=?".toList ++ off on ++ ['\n']) ++
    (bold on ++ "flake:".toList ++ off on ++ "   ".toList ++ cyan on ++ env.flakePath ++ off on ++ ['\n']) ++
    (if env.tagVersion ≠ [] ∧ t.tag ≠ 'v' :: env.tagVersion then
      yellow on ++ "warning: nix/package.nix at the target tag declares version ".toList ++ env.tagVersion ++ off on ++ ['\n']
    else []) ++ ['\n']

/-- One word of a command line, with the space in front of it. -/
def commandWord (on : Bool) (quote : Text → Text) (tok : Text) : Text :=
  if (quote tok).head? = some '-' then ' ' :: (blue on ++ quote tok ++ off on) else ' ' :: quote tok

def sudoWord : Text := "sudo".toList

def printCommand (on : Bool) (quote : Text → Text) : List Text → Text
  | [] => []
  | program :: args =>
    [' ', ' '] ++ bold on ++ sudoWord ++ off on ++ [' '] ++ blue on ++ quote program ++ off on ++
      args.flatMap (commandWord on quote) ++ ['\n']

/-! ## The commands -/

def pinCmd (env : Env) (t : Target) (p : Found) : List Text :=
  ["perl".toList, "-i".toList, "-pe".toList, subst p.refKv t.tag p.rev t.rev, "--".toList, env.flakePath]

def rebuildCmd (env : Env) : List Text :=
  ["darwin-rebuild".toList, "switch".toList, "--flake".toList, env.dirname env.flakePath]

/-- `sudo "${CMD[@]}"`, under `set -e`. -/
def runUnderSudo (env : Env) (argv : List Text) : Script Unit := do
  Traced.emit (.underSudo argv)
  if env.status argv = 0 then pure () else Traced.halt (env.status argv)

def pinUpdated (env : Env) (t : Target) : Text :=
  green env.outColor ++ "✓ pin updated: ".toList ++ t.rev.take 10 ++ "  ".toList ++ t.tag ++ off env.outColor ++ ['\n']

def runCommands (env : Env) (t : Target) (p : Found) : Script Unit := do
  runUnderSudo env (pinCmd env t p)
  say (pinUpdated env t)
  runUnderSudo env (rebuildCmd env)
  say (green env.outColor ++ "✓ rebuild complete".toList ++ off env.outColor ++ ['\n'])

/-! ## The question -/

inductive Answer where
  | yes
  | no
  | none
  deriving DecidableEq, Repr

def answerOf (typed : Bytes) : Answer :=
  if typed = lit "y" ∨ typed = lit "Y" ∨ typed = lit "yes" ∨ typed = lit "YES" then .yes
  else if typed = [] ∨ typed = lit "n" ∨ typed = lit "N" ∨ typed = lit "no" ∨ typed = lit "NO" then .no
  else .none

def question (on : Bool) : Text :=
  bold on ++ "run the lines above? [".toList ++ blue on ++ ['y'] ++ off on ++ bold on ++ ['/'] ++ blue on ++ ['N'] ++ off on ++
    bold on ++ [']'] ++ off on ++ [' ']

def notAnAnswer (on : Bool) : Text := yellow on ++ "not an answer".toList ++ off on ++ ['\n']

def decline (env : Env) : Script Unit := do
  say (yellow env.outColor ++ "aborted; flake pin unchanged".toList ++ off env.outColor ++ ['\n'])
  Traced.halt 2

/-- The loop, the question asked. -/
def ask (env : Env) : List Bytes → Script Unit
  | [] => do
    say ['\n']
    decline env
  | typed :: rest =>
    match answerOf typed with
    | .yes => pure ()
    | .no => decline env
    | .none => do
      say (notAnAnswer env.outColor ++ question env.outColor)
      ask env rest

/-- `--yes` has answered. -/
def confirm (env : Env) (opts : Opts) : Script Unit :=
  if opts.yes then pure ()
  else do
    say (question env.outColor)
    ask env env.answers

/-! ## The script -/

def alreadyInSync (env : Env) : Text := green env.outColor ++ "✓ already in sync".toList ++ off env.outColor ++ ['\n']

def inSync (env : Env) (t : Target) (p : Found) : Script Unit := do
  say (printHeader env.outColor env t p)
  say (alreadyInSync env)

/-- The rows of the question, the question, the commands. -/
def proceed (env : Env) (opts : Opts) (t : Target) (p : Found) : Script Unit := do
  say (printHeader env.outColor env t p)
  say (printCommand env.outColor env.quote (pinCmd env t p))
  say (printCommand env.outColor env.quote (rebuildCmd env))
  say ['\n']
  if opts.dryRun then say (yellow env.outColor ++ "Dry run -- nothing executed.".toList ++ off env.outColor ++ ['\n'])
  else do
    confirm env opts
    runCommands env t p

def script (env : Env) : Script Unit := do
  let opts ← readArgs env env.args ⟨false, false⟩
  let t ← readTarget env
  let p ← readPin env
  if p.rev = t.rev then inSync env t p
  else if !opts.dryRun && !opts.yes && !env.inTty then
    refuse env "no tty for confirmation -- pass --yes to proceed non-interactively".toList 2
  else proceed env opts t p

/-- How a run ends. -/
def exitStatus (x : Script Unit) : Nat :=
  match x.result with
  | .ok () => 0
  | .error status => status

/-! ## An argument nobody knows -/

theorem sequenceAt_pos {ord : UInt8 → Int} {s : Bytes} {i b len cp : Nat} (h : sequenceAt ord s i b = some (len, cp)) :
    0 < len := by
  unfold sequenceAt at h
  dsimp only at h
  split at h
  · cases h
  · split at h
    · cases h
    · split at h
      · cases h
      · rename_i hne
        cases h
        exact Nat.pos_of_ne_zero hne

theorem escapeLoop_ends {ord : UInt8 → Int} {s on off : Bytes} :
    ∀ (rounds i : Nat) (out : Bytes), s.length - i < rounds → ∃ shown, escapeLoop ord s on off rounds i out = some shown := by
  intro rounds
  induction rounds with
  | zero => exact fun i out h => absurd h (Nat.not_lt_zero _)
  | succ rounds ih =>
    intro i out h
    rw [escapeLoop]
    cases hi : s[i]? with
    | none => exact ⟨out, rfl⟩
    | some byte =>
      have hlt : i < s.length := (List.getElem?_eq_some_iff.mp hi).1
      dsimp only
      cases hseq : sequenceAt ord s i (byteValue ord byte) with
      | none => exact ih _ _ (by omega)
      | some found =>
        obtain ⟨len, cp⟩ := found
        have hpos := sequenceAt_pos hseq
        exact ih _ _ (by omega)

theorem escapeUntrusted_ends (ord : UInt8 → Int) (s on off : Bytes) :
    ∃ shown, escapeUntrusted ord (s.length + 1) s on off = some shown :=
  escapeLoop_ends _ _ _ (by omega)

/-! ## A command line -/

/-- Words with a space between them. -/
def spaced (words : List Text) : Text := [' '].intercalate words

theorem spaced_cons (w : Text) (ws : List Text) : spaced (w :: ws) = w ++ ws.flatMap (' ' :: ·) := by
  induction ws generalizing w with
  | nil => simp [spaced]
  | cons v ws ih =>
    have hcons : spaced (w :: v :: ws) = w ++ ' ' :: spaced (v :: ws) := by simp [spaced, List.intercalate, List.intersperse]
    rw [hcons, ih, List.flatMap_cons]
    rfl

def palette : List Sgr.Code := [['0'], ['1'], ['1', ';', '3', '4']]

theorem sgr_dressed (on : Bool) {code : Text} (h : code ∈ palette) : Sgr.Dressed palette [] (sgr on code) := by
  cases on with
  | false => exact Sgr.dressed_nil
  | true =>
    refine Sgr.dressed_seq (fun c hc => ?_) h
    have hall : (palette.all fun code => code.all Sgr.isParam) = true := by decide
    exact List.all_eq_true.mp (List.all_eq_true.mp hall code h) c hc

theorem off_dressed (on : Bool) : Sgr.Dressed palette [] (off on) := sgr_dressed on (by decide)
theorem bold_dressed (on : Bool) : Sgr.Dressed palette [] (bold on) := sgr_dressed on (by decide)
theorem blue_dressed (on : Bool) : Sgr.Dressed palette [] (blue on) := sgr_dressed on (by decide)

section

variable {quote : Text → Text} (hquote : ∀ w, Sgr.esc ∉ quote w) (on : Bool)

include hquote

theorem commandWord_dressed (tok : Text) : Sgr.Dressed palette (' ' :: quote tok) (commandWord on quote tok) := by
  have hword : Sgr.Dressed palette (quote tok) (quote tok) := Sgr.dressed_plain (hquote tok)
  unfold commandWord
  split
  · have hcolored := ((blue_dressed on).append hword).append (off_dressed on)
    rw [List.nil_append, List.append_nil] at hcolored
    exact hcolored.cons (by decide)
  · exact hword.cons (by decide)

/-- A command line reads as its words, each as the shell quotes it, once its colours are off. -/
theorem printCommand_dressed (program : Text) (args : List Text) :
    Sgr.Dressed palette ([' ', ' '] ++ spaced (sudoWord :: (program :: args).map quote) ++ ['\n'])
      (printCommand on quote (program :: args)) := by
  have hindent : Sgr.Dressed palette [' ', ' '] [' ', ' '] := Sgr.dressed_plain (by decide)
  have hsudo : Sgr.Dressed palette sudoWord sudoWord := Sgr.dressed_plain (by decide)
  have hspace : Sgr.Dressed palette [' '] [' '] := Sgr.dressed_plain (by decide)
  have hbreak : Sgr.Dressed palette ['\n'] ['\n'] := Sgr.dressed_plain (by decide)
  have hwords : Sgr.Dressed palette (args.flatMap fun tok => ' ' :: quote tok) (args.flatMap (commandWord on quote)) :=
    Sgr.dressed_flatMap fun tok _ => commandWord_dressed hquote on tok
  have hleader := ((hindent.append (bold_dressed on)).append hsudo).append ((off_dressed on).append hspace)
  have hprogram := ((blue_dressed on).append (Sgr.dressed_plain (hquote program))).append (off_dressed on)
  have hline := ((hleader.append hprogram).append hwords).append hbreak
  have hspaced : spaced (sudoWord :: (program :: args).map quote) =
      sudoWord ++ ([' '] ++ (quote program ++ args.flatMap fun tok => ' ' :: quote tok)) := by
    rw [spaced_cons, List.map_cons, List.flatMap_cons, List.flatMap_map]
    rfl
  rw [hspaced]
  simpa only [printCommand, List.append_assoc, List.append_nil, List.nil_append] using hline

end

end SudoWhat.Nix.Deploy
