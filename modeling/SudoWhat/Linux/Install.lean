/-
  SudoWhat.Linux.Install — the Linux installer and the walk it trusts
  (`install/linux/install.bash`).

  sudo does not look at the permissions of a plugin, so those of its path are the whole defence:
  after installing, and with `--verify` alone, the script stats each directory from /usr/local
  down and the plugin itself, and fails unless each is root's and neither its group nor the
  world may write it. `stat` prints the owner and the mode; the script reads them back off the
  text. What the install commands do to the files is the host's.

  Proved:
  - `complaints_eq_nil_iff`: nothing is said of a path exactly when its inode is there and guarded.
  - `verified_plugin_stays`: when the script has verified the path and exits with 0, then whatever
    others do from there on, the path leads to the same inode, byte for byte as it was, and
    verifies again; provided / and /usr are as guarded as what the walk looks at.
-/

import SudoWhat.Lib.UnixFiles
import SudoWhat.Shared

namespace SudoWhat.Linux.Install

open SudoWhat.Lib.UnixFiles

abbrev Disk := Files Text Bytes

/-! ## The machine -/

structure Host where
  /-- `REPO_DIR`. -/
  repoDir : Text
  /-- The build artifact is a file. -/
  artifact : Bool
  isRoot : Bool
  /-- How many names the kernel looks up before it gives a path up. -/
  pathLimit : Nat
  /-- What a command does to the files, and its exit status. -/
  run : List Text → Disk → Disk × Nat

inductive Line where
  | out (text : Text)
  | err (text : Text)
  deriving DecidableEq, Repr

structure Outcome where
  files : Disk
  lines : List Line
  status : Nat

def Host.auditSrc (host : Host) : Text :=
  host.repoDir ++ "/linux/sudowhat_audit/target/release/libsudowhat_audit.so".toList

def auditDst : Text := "/usr/local/libexec/sudo/sudowhat_audit.so".toList

/-- The names of an absolute path. -/
def components (path : Text) : List Text := (path.splitOn '/').filter (!·.isEmpty)

/-- The inode `lstat` finds. -/
def Host.lstat (host : Host) (fs : Disk) (path : Text) : Option (Inode Text Bytes) :=
  (fs.lookup false host.pathLimit fs.root (components path)).bind fs.inode

/-- `[ -f path ]`. -/
def Host.isFile (host : Host) (fs : Disk) (path : Text) : Bool :=
  match (fs.lookup true host.pathLimit fs.root (components path)).bind fs.inode with
  | some n =>
    match n.content with
    | .file _ => true
    | _ => false
  | none => false

/-- `stat -c '%u %a' -- path`. -/
def Host.stat (host : Host) (fs : Disk) (path : Text) : Option Text :=
  (host.lstat fs path).map fun n => decimal n.uid ++ ' ' :: Nat.toDigits 8 n.perm

/-! ## The walk -/

/-- `${text: -k:1}`. -/
def fromEnd (k : Nat) (text : Text) : Text := if text.length < k then [] else (text.drop (text.length - k)).take 1

/-- A variable in an arithmetic expression; empty is 0. -/
def number (text : Text) : Nat := Nat.ofDigitChars 10 text 0

def walkedPaths : List Text :=
  ["/usr/local".toList, "/usr/local/libexec".toList, "/usr/local/libexec/sudo".toList, auditDst]

/-- What is said of one path, given what `stat` printed. -/
def complaints (path : Text) (st : Option Text) : List Text :=
  match st with
  | none => ["install.bash: FAIL: cannot stat ".toList ++ path]
  | some st =>
    let uid := st.takeWhile (· != ' ')
    let mode := (st.dropWhile (· != ' ')).drop 1
    let grp := fromEnd 2 mode
    let oth := fromEnd 1 mode
    (if number uid ≠ 0 then
      ["install.bash: FAIL: ".toList ++ path ++ " is owned by uid ".toList ++ uid
        ++ ", not root — sudo does not perm-check the plugin .so, so this path MUST be root-owned".toList] else [])
    ++ if number grp &&& 2 ≠ 0 ∨ number oth &&& 2 ≠ 0 then
      ["install.bash: FAIL: ".toList ++ path ++ " is group/other-writable (mode ".toList ++ mode
        ++ ") — anyone with that write bit can replace the plugin".toList] else []

def Host.walk (host : Host) (fs : Disk) : List Text := walkedPaths.flatMap fun path => complaints path (host.stat fs path)

/-- `verify_perms`: what it prints, and whether it returns rather than exits with 1. -/
def Host.verifyPerms (host : Host) (fs : Disk) : List Line × Bool :=
  if host.walk fs = [] then
    ([.out ("sudowhat: verified root-owned, non-writable path to ".toList ++ auditDst)], true)
  else
    ((host.walk fs).map .err ++ [.err ("install.bash: plugin path verification FAILED — fix the permissions above before "
      ++ "adding the plugin to /etc/sudo.conf").toList], false)

/-! ## The script -/

/-- `PRINT_ONLY` and `VERIFY_ONLY`, or the argument that is neither. -/
def readArgs : List Text → Bool → Bool → Except Text (Bool × Bool)
  | [], print, verify => .ok (print, verify)
  | arg :: rest, print, verify =>
    if arg = "--print".toList then readArgs rest true verify
    else if arg = "--verify".toList then readArgs rest print true
    else .error arg

def printSudoConf : List Line :=
  ["", "# Write to /etc/sudo.conf (root-owned, mode 0644; sudo IGNORES a sudo.conf not",
    "# owned by uid 0 or writable by group/other). CRITICAL: adding ANY Plugin line stops",
    "# sudo from auto-loading its default sudoers policy, so the three stock sudoers",
    "# plugins MUST be present too, or sudo loses its policy and every sudo fails.",
    "# Bare 'sudoers.so' resolves relative to sudo's own plugin dir.", "", "Plugin sudoers_policy sudoers.so",
    "Plugin sudoers_io     sudoers.so", "Plugin sudoers_audit  sudoers.so",
    "Plugin sudowhat_audit_plugin /usr/local/libexec/sudo/sudowhat_audit.so", "",
    "# A ready-to-review copy of this file is in config/linux/sudo.conf.sample."].map fun line => .out line.toList

/-- The commands that install, in order. -/
def Host.commands (host : Host) : List (List Text) :=
  [["install", "-m", "0755", "-o", "0", "-g", "0", "-d", "/usr/local/libexec/sudo"].map String.toList,
    ["install", "-m", "0644", "-o", "0", "-g", "0"].map String.toList ++ [host.auditSrc, auditDst],
    ["chown".toList, "0:0".toList, auditDst], ["chmod".toList, "0644".toList, auditDst]]

/-- Commands under `set -e`. -/
def Host.runAll (host : Host) : List (List Text) → Disk → Disk × Nat
  | [], fs => (fs, 0)
  | argv :: rest, fs =>
    let (fs', status) := host.run argv fs
    if status ≠ 0 then (fs', status) else host.runAll rest fs'

def quoted (path : Text) : Text := '\'' :: path ++ ['\'']

/-- What `--print` prints. -/
def Host.printed (host : Host) : List Line :=
  ["# Run as root:".toList, [],
    "install -m 0755 -o 0 -g 0 -d /usr/local/libexec/sudo".toList,
    "install -m 0644 -o 0 -g 0 ".toList ++ quoted host.auditSrc ++ ' ' :: quoted auditDst,
    "chown 0:0 ".toList ++ quoted auditDst, "chmod 0644 ".toList ++ quoted auditDst, [],
    "# Then verify the whole path is root-owned and not group/other-writable".toList,
    "# (sudo does NOT perm-check the plugin .so — these perms are the defence):".toList,
    "stat -c '%A %u %n' /usr/local /usr/local/libexec /usr/local/libexec/sudo ".toList ++ quoted auditDst].map .out
  ++ printSudoConf

def Host.install (host : Host) (args : List Text) (fs : Disk) : Outcome :=
  match readArgs args false false with
  | .error arg => ⟨fs, [.err ("install.bash: unknown arg ".toList ++ quoted arg)], 1⟩
  | .ok (printOnly, verifyOnly) =>
    if !verifyOnly && !host.artifact then
      ⟨fs, [.err "install.bash: build artifact missing; run 'make build-linux' first".toList,
        .err ("  (expected: ".toList ++ host.auditSrc ++ [')'])], 1⟩
    else if verifyOnly then
      if !host.isFile fs auditDst then ⟨fs, [.err ("install.bash: nothing installed at ".toList ++ auditDst)], 1⟩
      else
        let (lines, passed) := host.verifyPerms fs
        ⟨fs, lines, if passed then 0 else 1⟩
    else if printOnly then ⟨fs, host.printed, 0⟩
    else if !host.isRoot then ⟨fs, [.err "install.bash: must run as root (or use --print)".toList], 1⟩
    else
      let (fs', status) := host.runAll host.commands fs
      if status ≠ 0 then ⟨fs', [], status⟩
      else
        let (lines, passed) := host.verifyPerms fs'
        if !passed then ⟨fs', lines, 1⟩
        else
          ⟨fs', lines ++ [.out ("sudowhat: installed audit plugin to ".toList ++ auditDst),
            .out "sudowhat: /etc is unchanged — write the following to /etc/sudo.conf yourself:".toList] ++ printSudoConf, 0⟩

/-! ## Reading `stat` back -/

theorem digit_not_blank {b : Nat} (hb : 0 < b) (hten : b ≤ 10) (n : Nat) : ∀ c ∈ Nat.toDigits b n, (c != ' ') = true := by
  intro c hc
  have hdigit : c.isDigit = true := Nat.isDigit_of_mem_toDigits hb hten hc
  rw [bne_iff_ne]
  rintro rfl
  exact absurd hdigit (by decide)

theorem fromEnd_last (text : Text) (c : Char) : fromEnd 1 (text ++ [c]) = [c] := by
  have hlen : (text ++ [c]).length = text.length + 1 := List.length_append
  rw [fromEnd, if_neg (by omega), hlen, Nat.add_sub_cancel, List.drop_left]
  rfl

theorem fromEnd_second (text : Text) (c d : Char) : fromEnd 2 (text ++ [c, d]) = [c] := by
  have hlen : (text ++ [c, d]).length = text.length + 2 := List.length_append
  rw [fromEnd, if_neg (by omega), hlen, Nat.add_sub_cancel, List.drop_left]
  rfl

theorem number_digit {n : Nat} (h : n < 8) : number [n.digitChar] = n := by
  rw [number, Nat.ofDigitChars_cons_digitChar_of_lt_ten (by omega), Nat.ofDigitChars_nil]
  omega

theorem octal_last (n : Nat) : ∃ front, Nat.toDigits 8 n = front ++ [(n % 8).digitChar] := by
  by_cases h : n < 8
  · exact ⟨[], by rw [Nat.toDigits_of_lt_base h, Nat.mod_eq_of_lt h]; rfl⟩
  · exact ⟨Nat.toDigits 8 (n / 8), Nat.toDigits_of_base_le (by decide) (by omega)⟩

theorem world_digit (mode : Nat) : number (fromEnd 1 (Nat.toDigits 8 mode)) = mode % 8 := by
  obtain ⟨front, h⟩ := octal_last mode
  rw [h, fromEnd_last, number_digit (Nat.mod_lt _ (by decide))]

/-- A mode of one digit has none for the group, which counts as 0. -/
theorem group_digit (mode : Nat) : number (fromEnd 2 (Nat.toDigits 8 mode)) = mode / 8 % 8 := by
  by_cases hsmall : mode < 8
  · rw [Nat.toDigits_of_lt_base hsmall, Nat.div_eq_of_lt hsmall]
    rfl
  · obtain ⟨front, h⟩ := octal_last (mode / 8)
    rw [Nat.toDigits_of_base_le (by decide) (by omega), h, List.append_assoc]
    exact (congrArg number (fromEnd_second front _ _)).trans (number_digit (Nat.mod_lt _ (by decide)))

theorem digit_write_bit : ∀ n < 8, (n &&& 2 ≠ 0 ↔ n.testBit 1 = true) := by decide

theorem world_write_bit (mode : Nat) : mode % 8 &&& 2 ≠ 0 ↔ mode.testBit 1 = true := by
  rw [digit_write_bit _ (Nat.mod_lt _ (by decide)), Nat.testBit_mod_two_pow mode 3 1]
  exact ⟨fun h => (Bool.and_eq_true_iff.mp h).2, fun h => Bool.and_eq_true_iff.mpr ⟨rfl, h⟩⟩

theorem group_write_bit (mode : Nat) : mode / 8 % 8 &&& 2 ≠ 0 ↔ mode.testBit 4 = true := by
  rw [world_write_bit]
  exact Bool.eq_iff_iff.mp (@Nat.testBit_div_two_pow 3 mode 1)

theorem writable_digits (mode : Nat) :
    (number (fromEnd 2 (Nat.toDigits 8 mode)) &&& 2 ≠ 0 ∨ number (fromEnd 1 (Nat.toDigits 8 mode)) &&& 2 ≠ 0) ↔
      mode.testBit 4 = true ∨ mode.testBit 1 = true := by
  rw [group_digit, world_digit, group_write_bit, world_write_bit]

/-- Nothing is said of a path exactly when there is an inode there, and it is guarded. -/
theorem complaints_eq_nil_iff (host : Host) (fs : Disk) (path : Text) :
    complaints path (host.stat fs path) = [] ↔ ∃ n, host.lstat fs path = some n ∧ n.Guarded := by
  rw [Host.stat]
  cases host.lstat fs path with
  | none => exact ⟨fun h => absurd h (List.cons_ne_nil _ _), fun ⟨_, h, _⟩ => nomatch h⟩
  | some n =>
    have hdigits : ∀ c ∈ decimal n.uid, (c != ' ') = true := digit_not_blank (by decide) (Nat.le_refl 10) n.uid
    have huid : (decimal n.uid ++ ' ' :: Nat.toDigits 8 n.perm).takeWhile (· != ' ') = decimal n.uid := by
      rw [List.takeWhile_append_of_pos hdigits]
      exact List.append_nil _
    have hmode : ((decimal n.uid ++ ' ' :: Nat.toDigits 8 n.perm).dropWhile (· != ' ')).drop 1 = Nat.toDigits 8 n.perm := by
      rw [List.dropWhile_append_of_pos hdigits]
      rfl
    have howner : number (decimal n.uid) = n.uid := Nat.ofDigitChars_ten_toDigits
    rw [Option.map_some, complaints]
    simp only [huid, hmode, howner, writable_digits, List.append_eq_nil_iff, ite_eq_right_iff, List.cons_ne_nil, imp_false,
      not_not, not_or, Bool.not_eq_true, Option.some.injEq]
    constructor
    · intro ⟨h, hgroup, hworld⟩
      exact ⟨n, rfl, h, hgroup, hworld⟩
    · rintro ⟨_, rfl, h, hgroup, hworld⟩
      exact ⟨h, hgroup, hworld⟩

theorem verifyPerms_iff (host : Host) (fs : Disk) :
    (host.verifyPerms fs).2 = true ↔ ∀ path ∈ walkedPaths, ∃ n, host.lstat fs path = some n ∧ n.Guarded := by
  have hwalk : host.walk fs = [] ↔ ∀ path ∈ walkedPaths, ∃ n, host.lstat fs path = some n ∧ n.Guarded := by
    rw [Host.walk, List.flatMap_eq_nil_iff]
    exact forall_congr' fun path => imp_congr_right fun _ => complaints_eq_nil_iff host fs path
  rw [← hwalk, Host.verifyPerms]
  split
  · next h => exact ⟨fun _ => h, fun _ => rfl⟩
  · next h => exact ⟨fun hpass => absurd hpass Bool.false_ne_true, fun hw => absurd hw h⟩

/-! ## What is verified stays -/

section

variable {host : Host} {fs : Disk}

theorem lstat_eq_some {path : Text} {n : Inode Text Bytes} (h : host.lstat fs path = some n) :
    ∃ i, fs.lookup false host.pathLimit fs.root (components path) = some i ∧ fs.inode i = some n := by
  rw [Host.lstat, Option.bind_eq_some_iff] at h
  exact h

theorem walk_down {parent path : Text} (name : Text) {d : Ino} (hw : GuardedWalk fs fs.root (components parent) d)
    (hpath : components path = components parent ++ [name]) (h : ∃ n, host.lstat fs path = some n ∧ n.Guarded) :
    ∃ i, GuardedWalk fs fs.root (components path) i := by
  obtain ⟨n, hn, hg⟩ := h
  obtain ⟨i, hl, hi⟩ := lstat_eq_some hn
  rw [hpath] at hl ⊢
  exact ⟨i, hw.extend hi hg hl⟩

/-- With / and /usr guarded too, a passing walk is a guarded path to the plugin. -/
theorem walk_of_verified (h : (host.verifyPerms fs).2 = true) {u : Ino}
    (husr : GuardedWalk fs fs.root (components "/usr".toList) u) : ∃ i, GuardedWalk fs fs.root (components auditDst) i := by
  have hwalk := (verifyPerms_iff host fs).mp h
  obtain ⟨_, hlocal⟩ := walk_down "local".toList husr (by decide) (hwalk "/usr/local".toList (by decide))
  obtain ⟨_, hlibexec⟩ := walk_down "libexec".toList hlocal (by decide) (hwalk "/usr/local/libexec".toList (by decide))
  obtain ⟨_, hdir⟩ := walk_down "sudo".toList hlibexec (by decide) (hwalk "/usr/local/libexec/sudo".toList (by decide))
  exact walk_down "sudowhat_audit.so".toList hdir (by decide) (hwalk auditDst (by decide))

theorem verified_of_walk {i : Ino} (h : GuardedWalk fs fs.root (components auditDst) i)
    (hlimit : (components auditDst).length ≤ host.pathLimit) : (host.verifyPerms fs).2 = true := by
  refine (verifyPerms_iff host fs).mpr fun path hpath => ?_
  have hprefix : ∀ path ∈ walkedPaths, components path <+: components auditDst := by decide
  obtain ⟨rest, hrest⟩ := hprefix path hpath
  rw [← hrest] at h hlimit
  obtain ⟨j, hj⟩ := h.front
  obtain ⟨n, hn, hg⟩ := hj.last
  rw [List.length_append] at hlimit
  refine ⟨n, ?_, hg⟩
  rw [Host.lstat, hj.lookup (by omega), Option.bind_some, hn]

end

theorem readArgs_print : ∀ {args : List Text} {print verify v : Bool},
    readArgs args print verify = .ok (true, v) → print = true ∨ "--print".toList ∈ args := by
  intro args
  induction args with
  | nil => exact fun h => .inl (congrArg Prod.fst (Except.ok.inj h))
  | cons arg rest ih =>
    intro print verify v h
    rw [readArgs] at h
    split at h
    · next e => exact .inr (e ▸ List.mem_cons_self)
    · split at h
      · exact (ih h).imp_right (List.mem_cons_of_mem _)
      · cases h

theorem readArgs_verify : ∀ {args : List Text} {print verify p : Bool},
    readArgs args print verify = .ok (p, false) → verify = false ∧ "--verify".toList ∉ args := by
  intro args
  induction args with
  | nil => exact fun h => ⟨congrArg Prod.snd (Except.ok.inj h), List.not_mem_nil⟩
  | cons arg rest ih =>
    intro print verify p h
    rw [readArgs] at h
    split at h
    · next e =>
      obtain ⟨hv, hm⟩ := ih h
      refine ⟨hv, fun hmem => (List.mem_cons.mp hmem).elim (fun e' => ?_) hm⟩
      exact absurd (e'.trans e) (by decide)
    · split at h
      · exact absurd (ih h).1 (by decide)
      · cases h

/-- A run that exits with 0 and does not only print has verified what it leaves. -/
theorem install_verified {host : Host} {args : List Text} {fs : Disk} (hdone : (host.install args fs).status = 0)
    (hverified : "--print".toList ∉ args ∨ "--verify".toList ∈ args) :
    (host.verifyPerms (host.install args fs).files).2 = true := by
  unfold Host.install at hdone ⊢
  cases hargs : readArgs args false false with
  | error arg =>
    rw [hargs] at hdone
    cases hdone
  | ok options =>
    obtain ⟨print, verify⟩ := options
    rw [hargs] at hdone
    dsimp only at hdone ⊢
    by_cases hmissing : (!verify && !host.artifact) = true
    · rw [if_pos hmissing] at hdone
      cases hdone
    rw [if_neg hmissing] at hdone ⊢
    cases verify with
    | true =>
      rw [if_pos rfl] at hdone ⊢
      by_cases habsent : (!host.isFile fs auditDst) = true
      · rw [if_pos habsent] at hdone
        cases hdone
      rw [if_neg habsent] at hdone ⊢
      cases hp : (host.verifyPerms fs).2 with
      | true => rfl
      | false =>
        rw [hp] at hdone
        cases hdone
    | false =>
      rw [if_neg Bool.false_ne_true] at hdone ⊢
      cases print with
      | true =>
        have hprint := (readArgs_print hargs).resolve_left Bool.false_ne_true
        exact absurd hverified (not_or.mpr ⟨fun h => h hprint, (readArgs_verify hargs).2⟩)
      | false =>
        rw [if_neg Bool.false_ne_true] at hdone ⊢
        by_cases hroot : (!host.isRoot) = true
        · rw [if_pos hroot] at hdone
          cases hdone
        rw [if_neg hroot] at hdone ⊢
        by_cases hran : (host.runAll host.commands fs).2 ≠ 0
        · rw [if_pos hran] at hdone
          exact absurd hdone hran
        rw [if_neg hran] at hdone ⊢
        cases hp : (host.verifyPerms (host.runAll host.commands fs).1).2 with
        | true => exact hp
        | false =>
          rw [hp] at hdone
          cases hdone

/-- What the script verified stays: whatever others do after it, the plugin's path leads to the
    same inode, as it was, with or without links followed, and would be verified again. The walk
    begins below /usr, so / and /usr are the reader's to guard; and nobody else may still hold
    the plugin open for writing. -/
theorem verified_plugin_stays (host : Host) (args : List Text) (fs later : Disk) {u : Ino}
    (hdone : (host.install args fs).status = 0) (hverified : "--print".toList ∉ args ∨ "--verify".toList ∈ args)
    (husr : GuardedWalk (host.install args fs).files (host.install args fs).files.root (components "/usr".toList) u)
    (hheld : ∀ i fuel, (host.install args fs).files.lookup true fuel (host.install args fs).files.root (components auditDst)
      = some i → i ∉ (host.install args fs).files.held)
    (hrun : Relation.ReflTransGen Others (host.install args fs).files later) :
    ∃ i n, (host.install args fs).files.inode i = some n ∧ later.inode i = some n ∧
      (∀ follow fuel, (components auditDst).length ≤ fuel →
        (host.install args fs).files.lookup follow fuel (host.install args fs).files.root (components auditDst) = some i ∧
          later.lookup follow fuel later.root (components auditDst) = some i) ∧
      (host.verifyPerms later).2 = true := by
  have hpassed := install_verified hdone hverified
  generalize (host.install args fs).files = after at *
  obtain ⟨i, hwalk⟩ := walk_of_verified hpassed husr
  obtain ⟨n, hn, -⟩ := hwalk.last
  obtain ⟨hwalk', hsame, -⟩ := GuardedWalk.run hrun hwalk (hheld i _ (hwalk.lookup (Nat.le_refl _)))
  refine ⟨i, n, hn, hsame.trans hn, fun follow fuel hfuel => ⟨hwalk.lookup hfuel, hwalk'.lookup hfuel⟩, ?_⟩
  -- the walk that passed looked up as many names
  have hdst : auditDst ∈ walkedPaths := by decide
  obtain ⟨m, hm, -⟩ := (verifyPerms_iff host after).mp hpassed auditDst hdst
  obtain ⟨_, hl, -⟩ := lstat_eq_some hm
  exact verified_of_walk hwalk' (Files.length_le_of_lookup hl)

/-! ## A disk -/

def directory (uid mode : Nat) (entries : List (Text × Ino)) : Inode Text Bytes :=
  ⟨uid, 0, mode, .dir fun name => entries.lookup name⟩

/-- The plugin installed, /usr under this mode, and a tree of uid 501's in /tmp. -/
def disk (usrMode : Nat) : Disk where
  root := 1
  inode i :=
    match i with
    | 1 => some (directory 0 0o755 [("usr".toList, 2), ("tmp".toList, 10)])
    | 2 => some (directory 0 usrMode [("local".toList, 3)])
    | 3 => some (directory 0 0o755 [("libexec".toList, 4)])
    | 4 => some (directory 0 0o755 [("sudo".toList, 5)])
    | 5 => some (directory 0 0o755 [("sudowhat_audit.so".toList, 6)])
    | 6 => some ⟨0, 0, 0o644, .file (lit "plugin")⟩
    | 10 => some (directory 0 0o1777 [("local".toList, 11)])
    | 11 => some (directory 501 0o755 [("libexec".toList, 12)])
    | 12 => some (directory 501 0o755 [("sudo".toList, 13)])
    | 13 => some (directory 501 0o755 [("sudowhat_audit.so".toList, 14)])
    | 14 => some ⟨501, 501, 0o644, .file (lit "not the plugin")⟩
    | _ => none
  held := [14]

def verifyingHost : Host := ⟨"/src".toList, true, false, 40, fun _ fs => (fs, 0)⟩

theorem guarded_disk : GuardedWalk (disk 0o755) 1 (components auditDst) 6 := by
  have hnames : components auditDst =
      ["usr".toList, "local".toList, "libexec".toList, "sudo".toList, "sudowhat_audit.so".toList] := by decide
  have hdir : ∀ entries, (directory 0 0o755 entries).Guarded := fun _ =>
    ⟨rfl, show Nat.testBit 0o755 4 = false by decide, show Nat.testBit 0o755 1 = false by decide⟩
  rw [hnames]
  refine .down (j := 2) rfl (hdir _) (by decide) (.down (j := 3) rfl (hdir _) (by decide) ?_)
  refine .down (j := 4) rfl (hdir _) (by decide) (.down (j := 5) rfl (hdir _) (by decide) ?_)
  exact .down (j := 6) rfl (hdir _) (by decide) (.here rfl ⟨rfl, by decide, by decide⟩)

theorem verified_plugin_stays_disk :
    ∃ i n, (disk 0o755).inode i = some n ∧ ((disk 0o755).putEntry 10 "local".toList none).inode i = some n ∧
      (∀ follow fuel, (components auditDst).length ≤ fuel →
        (disk 0o755).lookup follow fuel (disk 0o755).root (components auditDst) = some i ∧
          ((disk 0o755).putEntry 10 "local".toList none).lookup follow fuel
            ((disk 0o755).putEntry 10 "local".toList none).root (components auditDst) = some i) ∧
      (verifyingHost.verifyPerms ((disk 0o755).putEntry 10 "local".toList none)).2 = true := by
  have hstep : Others (disk 0o755) ((disk 0o755).putEntry 10 "local".toList none) :=
    ⟨⟨501, []⟩, by decide, .unlink 10 _ ⟨_, rfl, by decide⟩⟩
  have husr : GuardedWalk (disk 0o755) (disk 0o755).root (components "/usr".toList) 2 :=
    .down rfl ⟨rfl, by decide, by decide⟩ (by decide) (.here rfl ⟨rfl, by decide, by decide⟩)
  have hheld : ∀ i fuel, (disk 0o755).lookup true fuel (disk 0o755).root (components auditDst) = some i →
      i ∉ (disk 0o755).held := by
    intro i fuel h
    obtain rfl : i = 6 := Option.some.inj (h.symm.trans (guarded_disk.lookup (Files.length_le_of_lookup h)))
    decide
  exact verified_plugin_stays verifyingHost ["--verify".toList] (disk 0o755) _ rfl (.inr List.mem_cons_self) husr hheld
    (.single hstep)

/-- The walk says nothing of /usr: where the world may write that, a path that was verified comes
    to lead to somebody else's file. -/
theorem a_writable_usr_gives_the_path_away : (verifyingHost.verifyPerms (disk 0o777)).2 = true ∧
    ∃ later, Relation.ReflTransGen Others (disk 0o777) later ∧
      later.lookup true 5 later.root (components auditDst) = some 14 := by
  have haside : Others (disk 0o777) (((disk 0o777).putEntry 2 "local".toList none).putEntry 2 "old".toList (some 3)) :=
    ⟨⟨501, []⟩, by decide, .rename 2 2 _ _ 3 ⟨_, rfl, by decide⟩ ⟨_, rfl, by decide⟩ (by decide)⟩
  refine ⟨by decide, _, (Relation.ReflTransGen.single haside).tail ⟨⟨501, []⟩, by decide, .rename 10 2 "local".toList
    "local".toList 11 ⟨_, rfl, by decide⟩ ⟨_, rfl, by decide⟩ (by decide)⟩, by decide⟩

end SudoWhat.Linux.Install
