/-
  SudoWhat.Plugin.Open — `sudowhat_open` (`plugin/sudowhat_approval.m`): the invoking
  context is copied into fixed buffers, because sudo gives `user_info` and the environment
  to `open()` only.

  A copy longer than its buffer loses its tail. Proved: a directory that lost bytes is far
  past what the sheet shows, so the sheet has the marker in its place
  (`stashed_cwd_overflows`), and every sheet fits with its values whole or replaced
  (`sheet_never_clips`).
-/

import SudoWhat.Plugin.Check
import SudoWhat.Plugin.Sheet

namespace SudoWhat.Plugin

open SudoWhat.EscapeCore (escapeBytes fullCommandLineBytes)

/-- The names `ttyname` gives for stderr, stdin and what `/dev/tty` opens. -/
structure TtyNames where
  stderr : Option Bytes
  stdin : Option Bytes
  devTty : Option Bytes

/-- The terminal, from the first place that names one. -/
def openTty (ttys : TtyNames) (userInfo : Option (List Bytes)) : Option Bytes :=
  match findKvIn userInfo (lit "tty") with
  | some (c :: cs) => some (vsnprintf 256 (c :: cs))
  | _ =>
    match ttys.stderr.orElse fun _ => ttys.stdin with
    | some (c :: cs) => some (vsnprintf 256 (c :: cs))
    | _ =>
      match ttys.devTty with
      | some (c :: cs) => some (vsnprintf 256 (c :: cs))
      | _ => none

/-- A value copied into a buffer of `size` bytes; absent or empty, it is not kept. -/
def stash (size : Nat) (value : Option Bytes) : Option Bytes :=
  match value with
  | some (c :: cs) => some (vsnprintf size (c :: cs))
  | _ => none

/-- The context kept for `check()`, or the error. -/
def sudowhatOpen (version : UInt32) (ttys : TtyNames) (userInfo submitEnvp : Option (List Bytes)) :
    Except Bytes InvokingCtx :=
  if apiMajor version ≠ 1 then
    .error (lit "sudowhat: unsupported sudo plugin API major version " ++ Lib.Utf8.encode (decimal (apiMajor version).toNat))
  else
    match findKvIn userInfo (lit "uid") with
    | none => .error (lit "sudowhat: missing uid in user_info")
    | some uidStr =>
      .ok {
        uid := some (UInt32.ofNat (strtoul uidStr))
        tty := openTty ttys userInfo
        cwd := stash 1024 (findKvIn userInfo (lit "cwd"))
        term := stash 64 (findKvIn submitEnvp (lit "TERM"))
        noColor := match findKvIn submitEnvp (lit "NO_COLOR") with
          | some noColor => noColor != []
          | none => false }

theorem open_ok {version : UInt32} {ttys : TtyNames} {userInfo submitEnvp : Option (List Bytes)} {ctx : InvokingCtx}
    (h : sudowhatOpen version ttys userInfo submitEnvp = .ok ctx) :
    ctx.cwd = stash 1024 (findKvIn userInfo (lit "cwd")) ∧ ctx.term = stash 64 (findKvIn submitEnvp (lit "TERM")) ∧
      ctx.noColor = match findKvIn submitEnvp (lit "NO_COLOR") with | some noColor => noColor != [] | none => false := by
  unfold sudowhatOpen at h
  split at h
  · cases h
  · split at h
    · cases h
    · cases h
      exact ⟨rfl, rfl, rfl⟩

/-! ## The stashed directory -/

/-- A directory that lost bytes in the copy still fills the buffer. -/
theorem length_of_lost {dir kept : Bytes} (h : stash 1024 (some dir) = some kept) (hlost : kept ≠ dir) :
    kept.length = 1023 := by
  cases dir with
  | nil => cases h
  | cons c cs =>
    obtain rfl := Option.some.inj h
    have hlen : ¬ (c :: cs).length ≤ 1023 := fun hle => hlost (List.take_of_length_le hle)
    unfold vsnprintf
    rw [List.length_take]
    omega

theorem stashed_cwd_overflows {alloc : AllocSite → Bool} {i : SheetInput} {text : NSString} {ov : PromptOverflow}
    {dir kept : Bytes} (hkept : stash 1024 (some dir) = some kept) (hlost : kept ≠ dir) (hcwd : i.cwd = some kept)
    (h : i.format alloc = some (text, ov)) :
    ov.path = true ∧ ∃ user command verify closing,
      text.splitOn lf = sheetLines user (some seeTerminal) command verify closing := by
  have hlen := length_of_lost hkept hlost
  have heff : effectiveCwd i.cwd = some kept := by
    rw [hcwd]
    cases kept with
    | nil => simp at hlen
    | cons c cs => rfl
  obtain ⟨-, path, verify, -, -, hsplit, ho, -⟩ := sheet_fits h
  have hover : ov.path = true := by
    have hunits := bytes_le_shown kept
    rw [ho.cwdFlag, heff]
    simp only [Option.any_some, decide_eq_true_eq]
    unfold maxCwdDisplay
    omega
  refine ⟨hover, wholeOr ov.user (escapeBytes (effectiveUser i.user)), wholeOr ov.command (fullCommandLineBytes path i.argv),
    verify, promptBottom i.style ov.any, ?_⟩
  rw [hsplit, SheetInput.lines, heff, hover]
  rfl

/-- Every sheet fits, the command's budget is never less than 121 units, each value is
    whole or replaced, and a directory that lost bytes on its way from `open()` is
    replaced. -/
theorem sheet_never_clips :
    (∀ alloc i text ov, SheetInput.format alloc i = some (text, ov) →
      text.length ≤ maxTotal ∧ ∃ path verify closing, i.path = some path ∧ verifyLine alloc i.verifyCode = some verify ∧
        text.splitOn lf = sheetLines (wholeOr ov.user (escapeBytes (effectiveUser i.user)))
          ((effectiveCwd i.cwd).map fun d => wholeOr ov.path (escapeBytes d))
          (wholeOr ov.command (fullCommandLineBytes path i.argv)) verify closing ∧
        promptOverhead verify (wholeOr ov.user (escapeBytes (effectiveUser i.user)))
          ((effectiveCwd i.cwd).map fun d => wholeOr ov.path (escapeBytes d)) + 121 ≤ maxTotal) ∧
      ∀ version ttys userInfo submitEnvp ctx dir, sudowhatOpen version ttys userInfo submitEnvp = .ok ctx →
        findKvIn userInfo (lit "cwd") = some dir → dir ≠ [] → ctx.cwd ≠ some dir →
        ∀ commandInfo alloc i text ov, (∀ c cs, findKv commandInfo (lit "cwd") ≠ some (c :: cs)) →
          i.cwd = checkCwd ctx commandInfo → SheetInput.format alloc i = some (text, ov) →
          ov.path = true ∧
            ∃ user command verify closing, text.splitOn lf = sheetLines user (some seeTerminal) command verify closing := by
  constructor
  · intro alloc i text ov h
    obtain ⟨hlen, path, verify, hp, hv, hsplit, -, hover⟩ := sheet_fits h
    exact ⟨hlen, path, verify, _, hp, hv, hsplit, hover⟩
  · intro version ttys userInfo submitEnvp ctx dir hopen hdir hne hlost commandInfo alloc i text ov hinfo hcwd h
    obtain ⟨hkept, -, -⟩ := open_ok hopen
    rw [hdir] at hkept
    have hcheck : checkCwd ctx commandInfo = ctx.cwd := by
      unfold checkCwd
      split
      · rename_i c cs heq
        exact absurd heq (hinfo c cs)
      · rfl
    cases dir with
    | nil => exact absurd rfl hne
    | cons c cs =>
      have hsome : ctx.cwd = some (vsnprintf 1024 (c :: cs)) := hkept
      have hcut : vsnprintf 1024 (c :: cs) ≠ c :: cs := fun e => hlost (hsome.trans (congrArg some e))
      exact stashed_cwd_overflows rfl hcut (hcwd.trans (hcheck.trans hsome)) h

end SudoWhat.Plugin
