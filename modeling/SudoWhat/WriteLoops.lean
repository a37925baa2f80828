/-
  SudoWhat.WriteLoops — the four loops that write to the controlling terminal.

  The Linux block writer, the audit block writer and the writers of the `execute:` and the
  `verify:` line retry a write that was interrupted and go on after a short one. The Linux
  one takes a write of nothing for an end, the other three ask again. A terminal is a
  sequence of results; `fuel` counts the calls.

  Proved: what a loop delivered is at every round the head of its line, and the two that
  report success report the whole line. The Linux loop returns on every terminal that does
  not interrupt it for ever; the others on exactly those that do not stall on what they
  are given (`write_loops_iff`). As built a terminal that takes nothing keeps the audit
  plugin's `open()` from returning (`a_zero_write_spins`).
-/

import SudoWhat.Linux.Open
import SudoWhat.Referral

namespace SudoWhat

open SudoWhat.Lib SudoWhat.Plugin
open SudoWhat.Audit (AuditEnv swAuditWriteTty)

/-- Given rounds enough the run returns, and what it delivered after any number of them is
    the head of the line. -/
structure WritesOut {α : Type} (line : Bytes) (run : Nat → Act α) : Prop where
  ends : ∃ enough, ∀ fuel ≥ enough, ∃ v, (run fuel).Returns v
  inOrder : ∀ fuel, written (run fuel).trace <+: line

/-- What it returns says whether the whole line was delivered. -/
def ReportsWhole (line : Bytes) (run : Nat → Act Bool) : Prop :=
  ∀ fuel v, (run fuel).Returns v → (v = true ↔ written (run fuel).trace = line)

/-! ## Linux -/

theorem linux_writeLoop_inOrder (write : Nat → WriteResult) :
    ∀ fuel k rest, written (Linux.writeLoop write fuel k rest).trace <+: rest := by
  intro fuel
  induction fuel with
  | zero => intro k rest; cases rest <;> exact List.nil_prefix
  | succ fuel ih =>
    intro k rest
    cases rest with
    | nil => exact List.nil_prefix
    | cons c cs =>
      unfold Linux.writeLoop
      cases write k with
      | failed => exact List.nil_prefix
      | interrupted => exact ih (k + 1) (c :: cs)
      | wrote n =>
        cases n with
        | zero => exact List.nil_prefix
        | succ n =>
          obtain ⟨left, hleft⟩ := ih (k + 1) ((c :: cs).drop (n + 1))
          refine ⟨left, ?_⟩
          show (c :: cs).take (n + 1) ++ written (Linux.writeLoop write fuel (k + 1) ((c :: cs).drop (n + 1))).trace ++ left = _
          rw [List.append_assoc, hleft]
          exact List.take_append_drop _ _

/-- By the length of what is left, and then by how far the next answer is. -/
theorem linux_writeLoop_ends {write : Nat → WriteResult} (h : ∀ k, ∃ i, write (k + i) ≠ .interrupted) :
    ∀ len rest k, rest.length ≤ len → ∃ enough, ∀ fuel ≥ enough, (Linux.writeLoop write fuel k rest).Returns () := by
  intro len
  induction len with
  | zero =>
    intro rest k hlen
    rw [List.eq_nil_of_length_eq_zero (Nat.le_zero.mp hlen)]
    exact ⟨0, fun fuel _ => by cases fuel <;> rfl⟩
  | succ len ih =>
    intro rest k hlen
    cases rest with
    | nil => exact ⟨0, fun fuel _ => by cases fuel <;> rfl⟩
    | cons c cs =>
      have hround : ∀ k, (∃ enough, ∀ fuel ≥ enough, (Linux.writeLoop write (fuel + 1) k (c :: cs)).Returns ()) →
          ∃ enough, ∀ fuel ≥ enough, (Linux.writeLoop write fuel k (c :: cs)).Returns () := by
        intro k ⟨enough, he⟩
        refine ⟨enough + 1, fun fuel hf => ?_⟩
        obtain ⟨fuel, rfl⟩ : ∃ fuel', fuel = fuel' + 1 := ⟨fuel - 1, by omega⟩
        exact he fuel (by omega)
      have hanswered : ∀ k, write k ≠ .interrupted →
          ∃ enough, ∀ fuel ≥ enough, (Linux.writeLoop write fuel k (c :: cs)).Returns () := by
        intro k hk
        apply hround
        unfold Linux.writeLoop
        cases hw : write k with
        | failed => exact ⟨0, fun _ _ => rfl⟩
        | interrupted => exact absurd hw hk
        | wrote n =>
          cases n with
          | zero => exact ⟨0, fun _ _ => rfl⟩
          | succ n =>
            apply ih ((c :: cs).drop (n + 1)) (k + 1)
            simp only [List.length_cons, List.length_drop] at hlen ⊢
            omega
      obtain ⟨i, hi⟩ := h k
      induction i generalizing k with
      | zero => exact hanswered k hi
      | succ i ihi =>
        by_cases hw : write k = .interrupted
        · apply hround
          unfold Linux.writeLoop
          rw [hw]
          apply ihi (k + 1)
          rwa [Nat.add_right_comm]
        · exact hanswered k hw

theorem linux_writes_out {write : Nat → WriteResult} (h : ∀ k, ∃ i, write (k + i) ≠ .interrupted) (block : Text) :
    WritesOut (Utf8.encode block) fun fuel => Linux.writeTty ⟨true, true, write⟩ fuel block := by
  have hloop : ∀ fuel, Linux.writeTty ⟨true, true, write⟩ fuel block = Linux.writeLoop write fuel 0 (Utf8.encode block) := by
    intro fuel
    unfold Linux.writeTty
    cases block with
    | nil => cases fuel <;> rfl
    | cons c cs => rfl
  simp only [hloop]
  obtain ⟨enough, he⟩ := linux_writeLoop_ends h _ (Utf8.encode block) 0 (Nat.le_refl _)
  exact ⟨⟨enough, fun fuel hf => ⟨(), he fuel hf⟩⟩, fun fuel => linux_writeLoop_inOrder write fuel 0 _⟩

/-! ## macOS -/

theorem writeLoop_writes_out_iff (write : Nat → WriteResult) (line : Bytes) :
    (WritesOut line fun fuel => writeLoop write fuel 0 line) ↔ ¬ Stalls write 0 line.length := by
  constructor
  · intro h
    exact loopEnds_iff.mp h.ends
  · intro h
    refine ⟨loopEnds_iff.mpr h, fun fuel => ?_⟩
    obtain ⟨left, hleft, -⟩ := writeLoop_delivers write fuel 0 line
    exact ⟨left, hleft⟩

theorem writeLoop_reports (write : Nat → WriteResult) (line : Bytes) :
    ReportsWhole line fun fuel => writeLoop write fuel 0 line := by
  intro fuel v h
  obtain ⟨left, hleft, hv⟩ := writeLoop_delivers write fuel 0 line
  rw [hv v h]
  constructor
  · intro hnil
    rw [hnil, List.append_nil] at hleft
    exact hleft
  · intro hall
    exact List.append_right_eq_self.mp (hall ▸ hleft)

theorem audit_writes_out_iff (write : Nat → WriteResult) (env : AuditEnv) (block : Text) :
    (WritesOut (Utf8.encode block) fun fuel => swAuditWriteTty { env with tty := ⟨true, true, write⟩, fuel := fuel } block) ↔
      ¬ Stalls write 0 (Utf8.encode block).length := by
  have hloop : ∀ fuel, swAuditWriteTty { env with tty := ⟨true, true, write⟩, fuel := fuel } block =
      (writeLoop write fuel 0 (Utf8.encode block) >>= fun _ => pure ()) := by
    intro fuel
    unfold swAuditWriteTty
    cases block with
    | nil => cases fuel <;> rfl
    | cons c cs => rfl
  have hreturns : ∀ fuel, (∃ v, (writeLoop write fuel 0 (Utf8.encode block) >>= fun _ => (pure () : Act Unit)).Returns v) ↔
      ∃ v, (writeLoop write fuel 0 (Utf8.encode block)).Returns v := by
    intro fuel
    simp
  have htrace : ∀ fuel, (writeLoop write fuel 0 (Utf8.encode block) >>= fun _ => (pure () : Act Unit)).trace =
      (writeLoop write fuel 0 (Utf8.encode block)).trace := by
    intro fuel
    rcases Traced.trace_bind_cases (writeLoop write fuel 0 (Utf8.encode block)) fun _ => (pure () : Act Unit) with h | ⟨_, _, h⟩
    · exact h
    · rw [h, Traced.trace_pure, List.append_nil]
  rw [← writeLoop_writes_out_iff]
  simp only [hloop]
  constructor
  · intro ⟨⟨enough, he⟩, hinOrder⟩
    exact ⟨⟨enough, fun fuel hf => (hreturns fuel).mp (he fuel hf)⟩, fun fuel => htrace fuel ▸ hinOrder fuel⟩
  · intro ⟨⟨enough, he⟩, hinOrder⟩
    exact ⟨⟨enough, fun fuel hf => (hreturns fuel).mpr (he fuel hf)⟩, fun fuel => (htrace fuel).symm ▸ hinOrder fuel⟩

theorem lawful_iff {write : Nat → WriteResult} {line : Bytes} {run : Nat → Act Bool}
    (hloop : ∀ fuel, run fuel = writeLoop write fuel 0 line) :
    WritesOut line run ∧ ReportsWhole line run ↔ ¬ Stalls write 0 line.length := by
  rw [funext hloop, writeLoop_writes_out_iff]
  exact and_iff_left (writeLoop_reports write line)

theorem exec_writes_out_iff (write : Nat → WriteResult) {b : Build} {env : CheckEnv} {path : Bytes} {runArgv : List Bytes}
    {layout : ExecLayout} {runas : Option Bytes} {colorAllowed isTerminal : Bool} {line : Text}
    (hline : swFormatExecLine env path runArgv layout runas (colorAllowed && isTerminal)
      (colorAllowed && isTerminal && b.echoColor) = some line) :
    let run := fun fuel => writeExecLineToTty b { env with tty := fun _ => ⟨true, isTerminal, write⟩, fuel := fuel }
      path runArgv layout runas colorAllowed
    WritesOut (Utf8.encode line) run ∧ ReportsWhole (Utf8.encode line) run ↔ ¬ Stalls write 0 (Utf8.encode line).length := by
  intro run
  refine lawful_iff fun fuel => ?_
  have hline' : swFormatExecLine { env with tty := fun _ => ⟨true, isTerminal, write⟩, fuel := fuel } path runArgv layout runas
      (colorAllowed && isTerminal) (colorAllowed && isTerminal && b.echoColor) = some line := hline
  show writeExecLineToTty _ _ _ _ _ _ _ = _
  unfold writeExecLineToTty
  dsimp only
  rw [hline']
  rfl

theorem verify_writes_out_iff (write : Nat → WriteResult) {env : CheckEnv} {code : Text} {colorAllowed isTerminal : Bool}
    (hlen : (formatVerifyLine code (colorAllowed && isTerminal)).length < 128) :
    let line := formatVerifyLine code (colorAllowed && isTerminal)
    let run := fun fuel => writeVerifyCodeToTty { env with tty := fun _ => ⟨true, isTerminal, write⟩, fuel := fuel }
      code colorAllowed
    WritesOut line run ∧ ReportsWhole line run ↔ ¬ Stalls write 0 line.length := by
  intro line run
  refine lawful_iff fun fuel => ?_
  show writeVerifyCodeToTty _ _ _ = _
  unfold writeVerifyCodeToTty
  dsimp only
  rw [if_neg (by simp), if_neg (Nat.not_le_of_lt hlen)]

/-! ## The law -/

/-- On a terminal that does not interrupt for ever, the Linux loop delivers the head of any
    block and returns; the other three do so, the last two with a true report, exactly when
    the terminal does not stall on the line. -/
theorem write_loops_iff {write : Nat → WriteResult} (h : ∀ k, ∃ i, write (k + i) ≠ .interrupted) :
    (∀ block, WritesOut (Utf8.encode block) fun fuel => Linux.writeTty ⟨true, true, write⟩ fuel block) ∧
      (∀ (env : AuditEnv) block, (WritesOut (Utf8.encode block) fun fuel =>
          swAuditWriteTty { env with tty := ⟨true, true, write⟩, fuel := fuel } block) ↔
        ¬ Stalls write 0 (Utf8.encode block).length) ∧
      (∀ (b : Build) (env : CheckEnv) path runArgv layout runas colorAllowed isTerminal line,
        swFormatExecLine env path runArgv layout runas (colorAllowed && isTerminal)
          (colorAllowed && isTerminal && b.echoColor) = some line →
        let run := fun fuel => writeExecLineToTty b { env with tty := fun _ => ⟨true, isTerminal, write⟩, fuel := fuel }
          path runArgv layout runas colorAllowed
        WritesOut (Utf8.encode line) run ∧ ReportsWhole (Utf8.encode line) run ↔ ¬ Stalls write 0 (Utf8.encode line).length) ∧
      ∀ (env : CheckEnv) code colorAllowed isTerminal, (formatVerifyLine code (colorAllowed && isTerminal)).length < 128 →
        let line := formatVerifyLine code (colorAllowed && isTerminal)
        let run := fun fuel => writeVerifyCodeToTty { env with tty := fun _ => ⟨true, isTerminal, write⟩, fuel := fuel }
          code colorAllowed
        WritesOut line run ∧ ReportsWhole line run ↔ ¬ Stalls write 0 line.length :=
  ⟨linux_writes_out h, audit_writes_out_iff write, fun _ _ _ _ _ _ _ _ _ hline => exec_writes_out_iff write hline,
    fun _ _ _ _ hlen => verify_writes_out_iff write hlen⟩

/-- Interrupted once, then three bytes a call. -/
def slowWrite : Nat → WriteResult := fun k => if k = 0 then .interrupted else .wrote 3

theorem write_loops_iff_slow :
    (∃ line, swFormatExecLine soundCheck (lit "/bin/ls") [lit "ls"] .solo none false false = some line ∧
      WritesOut (Utf8.encode line) fun fuel => writeExecLineToTty Build.stock
        { soundCheck with tty := fun _ => ⟨true, true, slowWrite⟩, fuel := fuel } (lit "/bin/ls") [lit "ls"] .solo none false) ∧
      WritesOut (formatVerifyLine ['7', 'K'] false) fun fuel => writeVerifyCodeToTty
        { soundCheck with tty := fun _ => ⟨true, true, slowWrite⟩, fuel := fuel } ['7', 'K'] false := by
  have hnext : ∀ k, slowWrite (k + 1) = .wrote 3 := fun k => rfl
  have hanswers : Answers slowWrite := fun k => ⟨1, .inr ⟨2, hnext k⟩⟩
  have hlaw := @write_loops_iff slowWrite fun k => ⟨1, by rw [hnext]; nofun⟩
  refine ⟨⟨_, rfl, ?_⟩, ?_⟩
  · exact ((hlaw.2.2.1 Build.stock soundCheck (lit "/bin/ls") [lit "ls"] .solo none false true _ rfl).mpr
      (hanswers.not_stalls 0 _)).1
  · exact ((hlaw.2.2.2 soundCheck ['7', 'K'] false true (by decide)).mpr (hanswers.not_stalls 0 _)).1

/-- As built: on a terminal that takes nothing the audit block writer never returns, though
    no call was interrupted. -/
theorem a_zero_write_spins :
    (∀ k, ∃ i, (fun _ : Nat => WriteResult.wrote 0) (k + i) ≠ .interrupted) ∧
      ¬ WritesOut (Utf8.encode ['x']) fun fuel =>
        swAuditWriteTty { soundAudit with tty := ⟨true, true, fun _ => .wrote 0⟩, fuel := fuel } ['x'] := by
  refine ⟨fun k => ⟨0, nofun⟩, ?_⟩
  rw [audit_writes_out_iff, not_not]
  exact ⟨0, fun i hi => absurd hi (Nat.not_lt_zero i), by decide, fun _ => .inl rfl⟩

end SudoWhat
