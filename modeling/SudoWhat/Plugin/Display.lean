/-
  SudoWhat.Plugin.Display — the two lines the approval plugin writes to the controlling
  terminal: `verify:` and `execute:` (`plugin/sudowhat_approval.m`).

  Both go to `/dev/tty` or nowhere. The verify line fits a fixed buffer or is not written.
  The execute line is rendered by the escape core; its frame follows the runtime colour
  gates, its value the echoColor knob too. `emitExecLine` is the informational echo, which
  the execDisplay knob silences.
-/

import SudoWhat.EscapeCore.Colour
import SudoWhat.Plugin.Effects

namespace SudoWhat.Plugin

open SudoWhat.Lib
open SudoWhat.EscapeCore (escapeBytes fullCommandLineBytes renderCommandLine)

/-! ## verify: -/

def verifyAlphabet : Text := "3456789ACDEFHJKLMNPQRTVXZ".toList

/-- `generate_verify_nonce` for a buffer of `outsz` bytes. -/
def generateVerifyNonce (random : Nat → Fin 25) (outsz : Nat) : Text :=
  (List.range (outsz - 1)).map fun i => verifyAlphabet.getD (random i) '3'

def formatVerifyLine (code : Text) (colorize : Bool) : Bytes :=
  if colorize then
    lit "sudowhat: \x1b[1mverify:\x1b[0m     \x1b[1;35m" ++ Utf8.encode code
      ++ lit "\x1b[0m  \x1b[2m(compare with the dialog)\x1b[0m\n"
  else lit "sudowhat: verify:     " ++ Utf8.encode code ++ lit "  (compare with the dialog)\n"

def writeVerifyCodeToTty (env : CheckEnv) (code : Text) (colorAllowed : Bool) : Act Bool :=
  let fd := env.tty .verifyCode
  if !fd.opens then pure false
  else
    let line := formatVerifyLine code (colorAllowed && fd.isTerminal)
    if line.length ≥ 128 then pure false else writeLoop fd.write env.fuel 0 line

def emitVerifyCode (env : CheckEnv) (code : Text) (colorAllowed : Bool) : Act Unit := do
  let _ ← writeVerifyCodeToTty env code colorAllowed

/-! ## execute: -/

/-- Which frame a line takes: the last row of a table, or a line of its own. -/
inductive ExecLayout where
  | grouped
  | solo
  deriving DecidableEq, Repr

/-- One renderer's text, unless its buffer cannot be had. -/
def swExecRender (allocated : Bool) (rendered : Text) : Option Text := if allocated then some rendered else none

def swExecCommandLine (env : CheckEnv) (path : Bytes) (runArgv : List Bytes) (color : Bool) : Option Text :=
  if runArgv ≠ [] ∧ env.alloc .execArgv = false then none
  else
    let coloured := if color then swExecRender (env.alloc .execColoured) (renderCommandLine path runArgv .roles) else none
    match coloured with
    | some s => some s
    | none => swExecRender (env.alloc .execPlain) (fullCommandLineBytes path runArgv)

def swFormatExecLine (env : CheckEnv) (path : Bytes) (runArgv : List Bytes) (layout : ExecLayout) (runas : Option Bytes)
    (frameColor valueColor : Bool) : Option Text :=
  match swExecCommandLine env path runArgv valueColor with
  | none => none
  | some value =>
    if value = [] then none
    else
      let bare :=
        let prefixText :=
          match layout, frameColor with
          | .solo, true => "sudowhat: \x1b[1mexecute:\x1b[0m "
          | .solo, false => "sudowhat: execute: "
          | .grouped, true => "sudowhat: \x1b[1mexecute:\x1b[0m    "
          | .grouped, false => "sudowhat: execute:    "
        some (prefixText.toList ++ value ++ ['\n'] ++ if layout = .grouped then ['\n'] else [])
      match layout, runas with
      | .solo, some (c :: cs) =>
        match swExecRender (env.alloc .execUser) (escapeBytes (c :: cs)) with
        | none => none
        | some user =>
          let shown := if frameColor && user != "root".toList then "\x1b[33m".toList ++ user ++ "\x1b[0m".toList else user
          some ((if frameColor then "sudowhat: \x1b[1mexecute as\x1b[0m " else "sudowhat: execute as ").toList ++ shown
            ++ (if frameColor then "\x1b[1m:\x1b[0m " else ": ").toList ++ value ++ ['\n'])
      | _, _ => bare

def writeExecLineToTty (b : Build) (env : CheckEnv) (path : Bytes) (runArgv : List Bytes) (layout : ExecLayout)
    (runas : Option Bytes) (colorAllowed : Bool) : Act Bool :=
  let fd := env.tty .execLine
  if !fd.opens then pure false
  else
    let frameColor := colorAllowed && fd.isTerminal
    match swFormatExecLine env path runArgv layout runas frameColor (frameColor && b.echoColor) with
    | none => pure false
    | some line => writeLoop fd.write env.fuel 0 (Utf8.encode line)

def emitExecLine (b : Build) (env : CheckEnv) (path : Option Bytes) (runArgv : List Bytes) (layout : ExecLayout)
    (runas : Option Bytes) (colorAllowed : Bool) : Act Unit :=
  if !b.execDisplay then pure ()
  else
    match path with
    | none => pure ()
    | some path => do
      let _ ← writeExecLineToTty b env path runArgv layout runas colorAllowed

/-- The target user's name, as sudo resolved it. -/
def swRunasName (env : CheckEnv) (commandInfo : List Bytes) : Bytes :=
  match findKv commandInfo (lit "runas_user") with
  | some (c :: cs) => c :: cs
  | _ => env.rootName.getD (lit "root")

/-- An error about the target binary, its escaped path last. -/
def setErrstrPath (env : CheckEnv) (what errno path : Bytes) : Act Unit :=
  setErrstr env (lit "sudowhat: " ++ what ++ lit " (" ++ errno ++ lit "): "
    ++ utf8Or (swExecRender (env.alloc .errorPath) (escapeBytes path)) "(the path cannot be shown)".toList)

/-! ## The value -/

/-- Coloured or not, the value shows the plain line's characters. -/
theorem swExecCommandLine_dressed {env : CheckEnv} {path : Bytes} {runArgv : List Bytes} {color : Bool} {value : Text}
    (h : swExecCommandLine env path runArgv color = some value) :
    Sgr.Dressed EscapeCore.paletteCodes (fullCommandLineBytes path runArgv) value := by
  have hplain : ∀ {v : Text}, swExecRender (env.alloc .execPlain) (fullCommandLineBytes path runArgv) = some v →
      Sgr.Dressed EscapeCore.paletteCodes (fullCommandLineBytes path runArgv) v := by
    intro v hv
    unfold swExecRender at hv
    split at hv
    · cases hv
      exact Sgr.dressed_plain ((EscapeCore.clean_fullCommandLineBytes path runArgv).not_mem (by decide))
    · cases hv
  unfold swExecCommandLine at h
  split at h
  · cases h
  · cases color with
    | false => exact hplain h
    | true =>
      cases hc : env.alloc .execColoured with
      | false => exact hplain (by simpa [swExecRender, hc] using h)
      | true =>
        have e : renderCommandLine path runArgv .roles = value := by simpa [swExecRender, hc] using h
        rw [← e]
        exact EscapeCore.dressed_renderCommandLine path runArgv .roles

/-! ## What the lines leave alone -/

@[simp] theorem setErrstrPath_returns (env : CheckEnv) (what errno path : Bytes) (u : Unit) :
    (setErrstrPath env what errno path).Returns u := rfl

section Kinds

variable {ks : List EffKind} (h : .display ∈ ks) (b : Build) (env : CheckEnv)

include h

@[simp] theorem setErrstrPath_kinds (what errno path : Bytes) : OnlyKinds ks (setErrstrPath env what errno path) :=
  setErrstr_kinds h env _

@[simp] theorem writeVerifyCodeToTty_kinds (code : Text) (colorAllowed : Bool) :
    OnlyKinds ks (writeVerifyCodeToTty env code colorAllowed) := by
  unfold writeVerifyCodeToTty
  dsimp only
  split
  · simp
  · split <;> simp [h]

@[simp] theorem writeExecLineToTty_kinds (path : Bytes) (runArgv : List Bytes) (layout : ExecLayout)
    (runas : Option Bytes) (colorAllowed : Bool) :
    OnlyKinds ks (writeExecLineToTty b env path runArgv layout runas colorAllowed) := by
  unfold writeExecLineToTty
  dsimp only
  split
  · simp
  · split <;> simp [h]

@[simp] theorem emitVerifyCode_kinds (code : Text) (colorAllowed : Bool) :
    OnlyKinds ks (emitVerifyCode env code colorAllowed) := by
  simp [emitVerifyCode, h]

@[simp] theorem emitExecLine_kinds (path : Option Bytes) (runArgv : List Bytes) (layout : ExecLayout)
    (runas : Option Bytes) (colorAllowed : Bool) :
    OnlyKinds ks (emitExecLine b env path runArgv layout runas colorAllowed) := by
  unfold emitExecLine
  split
  · simp
  · split <;> simp [h]

end Kinds

/-! ## When a line is done -/

/-- A terminal that always comes to a write that fails or takes something. -/
def Answers (write : Nat → WriteResult) : Prop := ∀ k, ∃ j, write (k + j) = .failed ∨ ∃ n, write (k + j) = .wrote (n + 1)

/-- Given rounds enough the loop ends. -/
def LoopEnds (write : Nat → WriteResult) (k : Nat) (rest : Bytes) : Prop :=
  ∃ enough, ∀ fuel ≥ enough, ∃ v, (writeLoop write fuel k rest).Returns v

theorem loopEnds_nil (write : Nat → WriteResult) (k : Nat) : LoopEnds write k [] :=
  ⟨0, fun fuel _ => ⟨true, by cases fuel <;> rfl⟩⟩

theorem LoopEnds.round {write : Nat → WriteResult} {k : Nat} {c : UInt8} {cs rest : Bytes}
    (h : LoopEnds write (k + 1) rest)
    (hstep : ∀ fuel v, (writeLoop write fuel (k + 1) rest).Returns v →
      ∃ v, (writeLoop write (fuel + 1) k (c :: cs)).Returns v) :
    LoopEnds write k (c :: cs) := by
  obtain ⟨enough, he⟩ := h
  refine ⟨enough + 1, fun fuel hf => ?_⟩
  cases fuel with
  | zero => omega
  | succ fuel =>
    obtain ⟨v, hv⟩ := he fuel (by omega)
    exact hstep fuel v hv

theorem loopEnds_failed {write : Nat → WriteResult} {k : Nat} {rest : Bytes} (hw : write k = .failed) :
    LoopEnds write k rest := by
  cases rest with
  | nil => exact loopEnds_nil write k
  | cons c cs =>
    refine (loopEnds_nil write (k + 1)).round fun fuel v _ => ⟨false, ?_⟩
    simp [writeLoop, hw]

/-- A write that was interrupted, or took what it took, is followed by the next. -/
theorem loopEnds_next {write : Nat → WriteResult} {k : Nat} {c : UInt8} {cs : Bytes}
    (h : ∀ n, write k = .wrote n → LoopEnds write (k + 1) ((c :: cs).drop n))
    (hi : write k = .interrupted → LoopEnds write (k + 1) (c :: cs)) : LoopEnds write k (c :: cs) := by
  cases hw : write k with
  | failed => exact loopEnds_failed hw
  | interrupted => exact (hi hw).round fun fuel v hv => ⟨v, by simpa [writeLoop, hw] using hv⟩
  | wrote n => exact (h n hw).round fun fuel v hv => ⟨v, by simpa [writeLoop, hw] using hv⟩

/-- The bytes a result takes off the line. -/
def WriteResult.count : WriteResult → Nat
  | .wrote n => n
  | _ => 0

/-- Neither ends the loop nor shortens its line. -/
def WriteResult.Idle (r : WriteResult) : Prop := r = .wrote 0 ∨ r = .interrupted

/-- What `m` writes take, from the `k`-th on. -/
def taken (write : Nat → WriteResult) : Nat → Nat → Nat
  | _, 0 => 0
  | k, m + 1 => (write k).count + taken write (k + 1) m

/-- Some time after the `k`-th write, with less than `len` taken and nothing failed, every
    further result is idle. -/
def Stalls (write : Nat → WriteResult) (k len : Nat) : Prop :=
  ∃ m, (∀ i < m, write (k + i) ≠ .failed) ∧ taken write k m < len ∧ ∀ i, (write (k + m + i)).Idle

theorem stalls_step {write : Nat → WriteResult} {k len : Nat} :
    Stalls write k len ↔ write k ≠ .failed ∧ Stalls write (k + 1) (len - (write k).count) := by
  constructor
  · intro ⟨m, hrun, htaken, hidle⟩
    cases m with
    | zero =>
      have hk : (write k).Idle := hidle 0
      have hrest : ∀ i, (write (k + 1 + 0 + i)).Idle := fun i => by
        have := hidle (i + 1)
        rwa [show k + 0 + (i + 1) = k + 1 + 0 + i by omega] at this
      have hlen : 0 < len := htaken
      rcases hk with hk | hk
      · refine ⟨by simp [hk], 0, fun i hi => absurd hi (Nat.not_lt_zero i), ?_, hrest⟩
        rw [hk]
        exact hlen
      · refine ⟨by simp [hk], 0, fun i hi => absurd hi (Nat.not_lt_zero i), ?_, hrest⟩
        rw [hk]
        exact hlen
    | succ m =>
      refine ⟨hrun 0 (by omega), m, fun i hi => ?_, ?_, fun i => ?_⟩
      · have := hrun (i + 1) (by omega)
        rwa [show k + (i + 1) = k + 1 + i by omega] at this
      · unfold taken at htaken
        omega
      · have := hidle i
        rwa [show k + (m + 1) + i = k + 1 + m + i by omega] at this
  · intro ⟨hk, m, hrun, htaken, hidle⟩
    refine ⟨m + 1, fun i hi => ?_, ?_, fun i => ?_⟩
    · cases i with
      | zero => exact hk
      | succ i =>
        have := hrun i (by omega)
        rwa [show k + 1 + i = k + (i + 1) by omega] at this
    · unfold taken
      omega
    · have := hidle i
      rwa [show k + 1 + m + i = k + (m + 1) + i by omega] at this

/-- Unless it stalls the terminal ends the loop: by the length of what is left, and then by
    how far the next write is that is not idle. -/
theorem loopEnds_of_not_stalls {write : Nat → WriteResult} :
    ∀ len rest k, rest.length ≤ len → ¬ Stalls write k rest.length → LoopEnds write k rest := by
  intro len
  induction len with
  | zero =>
    intro rest k hlen _
    rw [List.eq_nil_of_length_eq_zero (Nat.le_zero.mp hlen)]
    exact loopEnds_nil write k
  | succ len ih =>
    intro rest k hlen hstall
    cases rest with
    | nil => exact loopEnds_nil write k
    | cons c cs =>
      have hdrop : ∀ n k, write k = .wrote (n + 1) → ¬ Stalls write k (c :: cs).length →
          LoopEnds write (k + 1) ((c :: cs).drop (n + 1)) := by
        intro n k hn hstall
        refine ih _ (k + 1) ?_ fun h => hstall (stalls_step.mpr ⟨by simp [hn], ?_⟩)
        · simp only [List.length_cons, List.length_drop] at hlen ⊢
          omega
        · rw [List.length_drop] at h
          rw [hn]
          exact h
      have hsome : ∃ j, ¬ (write (k + j)).Idle := by
        refine not_forall.mp fun h => hstall ⟨0, fun i hi => absurd hi (Nat.not_lt_zero i), ?_, h⟩
        exact Nat.zero_lt_succ _
      obtain ⟨j, hj⟩ := hsome
      induction j generalizing k with
      | zero =>
        refine loopEnds_next (fun n hn => ?_) fun hi => absurd (.inr hi) hj
        cases n with
        | zero => exact absurd (.inl hn) hj
        | succ n => exact hdrop n k hn hstall
      | succ j ihj =>
        have hnext : (write k).count = 0 → write k ≠ .failed → LoopEnds write (k + 1) (c :: cs) := by
          intro hzero hk
          refine ihj (k + 1) (fun h => hstall (stalls_step.mpr ⟨hk, ?_⟩)) (by rwa [Nat.add_right_comm])
          rw [hzero]
          exact h
        refine loopEnds_next (fun n hn => ?_) fun hi => hnext (by rw [hi]; rfl) (by simp [hi])
        cases n with
        | zero => exact hnext (by rw [hn]; rfl) (by simp [hn])
        | succ n => exact hdrop n k hn hstall

/-- A terminal that stalls keeps the loop waiting, whatever the rounds. -/
theorem stalled_waits {write : Nat → WriteResult} :
    ∀ fuel k rest v, Stalls write k rest.length → ¬ (writeLoop write fuel k rest).Returns v := by
  intro fuel
  induction fuel with
  | zero =>
    intro k rest v hstall
    cases rest with
    | nil =>
      obtain ⟨m, -, htaken, -⟩ := hstall
      exact absurd htaken (Nat.not_lt_zero _)
    | cons c cs => exact Traced.returns_halt
  | succ fuel ih =>
    intro k rest v hstall
    cases rest with
    | nil =>
      obtain ⟨m, -, htaken, -⟩ := hstall
      exact absurd htaken (Nat.not_lt_zero _)
    | cons c cs =>
      obtain ⟨hk, hnext⟩ := stalls_step.mp hstall
      unfold writeLoop
      cases hw : write k with
      | failed => exact absurd hw hk
      | interrupted =>
        rw [hw] at hnext
        exact ih (k + 1) (c :: cs) v hnext
      | wrote n =>
        rw [hw] at hnext
        intro hret
        obtain ⟨_, -, hret⟩ := Traced.returns_bind.mp hret
        refine ih (k + 1) ((c :: cs).drop n) v ?_ hret
        rw [List.length_drop]
        exact hnext

theorem loopEnds_iff {write : Nat → WriteResult} {k : Nat} {rest : Bytes} :
    LoopEnds write k rest ↔ ¬ Stalls write k rest.length := by
  constructor
  · intro ⟨enough, he⟩ hstall
    obtain ⟨v, hv⟩ := he enough (Nat.le_refl _)
    exact stalled_waits enough k rest v hstall hv
  · exact loopEnds_of_not_stalls _ rest k (Nat.le_refl _)

theorem Answers.not_stalls {write : Nat → WriteResult} (h : Answers write) (k len : Nat) : ¬ Stalls write k len := by
  intro ⟨m, _, _, hidle⟩
  obtain ⟨j, hj⟩ := h (k + m)
  rcases hj with hj | ⟨n, hj⟩
  · rcases hidle j with hi | hi <;> cases hj.symm.trans hi
  · rcases hidle j with hi | hi <;> cases hj.symm.trans hi

theorem writeExecLineToTty_answers (b : Build) {env : CheckEnv} (h : Answers (env.tty .execLine).write) (path : Bytes)
    (runArgv : List Bytes) (layout : ExecLayout) (runas : Option Bytes) (colorAllowed : Bool) :
    ∃ enough, ∀ fuel ≥ enough, ∃ v,
      (writeExecLineToTty b { env with fuel := fuel } path runArgv layout runas colorAllowed).Returns v := by
  unfold writeExecLineToTty
  dsimp only
  split
  · exact ⟨0, fun _ _ => ⟨false, rfl⟩⟩
  -- the line itself does not depend on the rounds
  · have hline : ∀ fuel frame value, swFormatExecLine { env with fuel := fuel } path runArgv layout runas frame value =
        swFormatExecLine env path runArgv layout runas frame value := fun _ _ _ => rfl
    simp only [hline]
    split
    · exact ⟨0, fun _ _ => ⟨false, rfl⟩⟩
    · exact loopEnds_iff.mpr (h.not_stalls 0 _)

/-- Given rounds enough such a terminal is done with the execute line. -/
theorem emitExecLine_answers (b : Build) {env : CheckEnv} (h : Answers (env.tty .execLine).write) (path : Option Bytes)
    (runArgv : List Bytes) (layout : ExecLayout) (runas : Option Bytes) (colorAllowed : Bool) :
    ∃ enough, ∀ fuel ≥ enough,
      (emitExecLine b { env with fuel := fuel } path runArgv layout runas colorAllowed).Returns () := by
  unfold emitExecLine
  split
  · exact ⟨0, fun _ _ => rfl⟩
  · cases path with
    | none => exact ⟨0, fun _ _ => rfl⟩
    | some path =>
      obtain ⟨enough, he⟩ := writeExecLineToTty_answers b h path runArgv layout runas colorAllowed
      refine ⟨enough, fun fuel hf => ?_⟩
      obtain ⟨v, hv⟩ := he fuel hf
      exact Traced.returns_bind.mpr ⟨v, hv, rfl⟩

theorem writeLoop_ends (write : Nat → WriteResult) :
    ∀ fuel k rest, (∃ v, (writeLoop write fuel k rest).Returns v) ∨
      (writeLoop write fuel k rest).result = .error .waiting := by
  intro fuel
  induction fuel with
  | zero =>
    intro k rest
    cases rest with
    | nil => exact .inl ⟨true, rfl⟩
    | cons c cs => exact .inr rfl
  | succ fuel ih =>
    intro k rest
    cases rest with
    | nil => exact .inl ⟨true, rfl⟩
    | cons c cs =>
      unfold writeLoop
      cases write k with
      | failed => exact .inl ⟨false, rfl⟩
      | interrupted => exact ih _ _
      | wrote n =>
        rcases ih (k + 1) ((c :: cs).drop n) with ⟨v, hv⟩ | hw
        · exact .inl ⟨v, by simpa using hv⟩
        · exact .inr (by simpa using hw)

theorem emitExecLine_ends (b : Build) (env : CheckEnv) (path : Option Bytes) (runArgv : List Bytes) (layout : ExecLayout)
    (runas : Option Bytes) (colorAllowed : Bool) :
    (emitExecLine b env path runArgv layout runas colorAllowed).Returns () ∨
      (emitExecLine b env path runArgv layout runas colorAllowed).result = .error .waiting := by
  have hline : ∀ path, (∃ v, (writeExecLineToTty b env path runArgv layout runas colorAllowed).Returns v) ∨
      (writeExecLineToTty b env path runArgv layout runas colorAllowed).result = .error .waiting := by
    intro path
    unfold writeExecLineToTty
    dsimp only
    split
    · exact .inl ⟨false, rfl⟩
    · split
      · exact .inl ⟨false, rfl⟩
      · exact writeLoop_ends _ _ _ _
  unfold emitExecLine
  split
  · exact .inl rfl
  · cases path with
    | none => exact .inl rfl
    | some path =>
      rcases hline path with ⟨v, hv⟩ | hw
      · exact .inl (Traced.returns_bind.mpr ⟨v, hv, rfl⟩)
      · exact .inr (by simp [Traced.bind_def, Traced.andThen, hw])

/-- Showing something and then allowing ends in an allow, or is still showing. -/
theorem shown_then_allow {x : Act Unit} {y : Act Ret} (hx : x.Returns () ∨ x.result = .error .waiting)
    (hy : y.Returns .allow) : (x >>= fun _ => y).Returns .allow ∨ (x >>= fun _ => y).result = .error .waiting := by
  rcases hx with hx | hx
  · exact .inl (Traced.returns_bind.mpr ⟨(), hx, hy⟩)
  · exact .inr (by simp [Traced.bind_def, Traced.andThen, hx])

end SudoWhat.Plugin
