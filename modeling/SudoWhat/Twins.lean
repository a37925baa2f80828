/-
  SudoWhat.Twins — the Linux and the macOS audit display are twins.

  One reads sudo's arrays as slices, the other as C strings; both find the same first
  value for a key, take the same rules for what a row says, and differ only in what is
  theirs: the gutter, the colours, the PATH row. The colour gate's half that reads the
  environment is written three times, once over the copies `open()` keeps in its fixed
  buffers; the three decide the same.

  Proved: `displays_are_twins`. The uid each exempts as root's is not twinned: one reads
  digits and saturates, the other is `strtoul` narrowed to 32 bits. They exempt the same
  values exactly where `UidTwinned` says (`root_exemption_iff`).
-/

import SudoWhat.Audit.Rows
import SudoWhat.Linux.Open
import SudoWhat.Plugin.RootUid

namespace SudoWhat

open SudoWhat.Lib
open SudoWhat.Plugin (findKvIn InvokingCtx TtyNames sudowhatOpen swColorAllowed isDigit isCSpace digitsValue digitsValue_snoc
  strtoul unsigned leadingNumber narrowed_zero_iff)
open SudoWhat.Audit (AuditBuild AuditEnv Submission auditBlock gutterGap swAuditColorAllowed swAuditRunsShell)

/-! ## Looking a key up -/

section IsPrefixOf

variable {α : Type} [BEq α]

theorem isPrefixOf?_append : ∀ p q s : List α, (p ++ q).isPrefixOf? s = (p.isPrefixOf? s).bind q.isPrefixOf?
  | [], _, _ => by simp [List.isPrefixOf?]
  | _ :: _, _, [] => by simp [List.isPrefixOf?]
  | a :: p, q, b :: s => by
    simp only [List.cons_append, List.isPrefixOf?]
    split
    · exact isPrefixOf?_append p q s
    · rfl

theorem isPrefixOf?_eq : ∀ p s : List α, p.isPrefixOf? s = if p.isPrefixOf s then some (s.drop p.length) else none
  | [], s => by simp [List.isPrefixOf?]
  | _ :: _, [] => by simp [List.isPrefixOf?]
  | a :: p, b :: s => by
    rw [List.isPrefixOf?, List.isPrefixOf, isPrefixOf?_eq p s]
    cases a == b <;> rfl

end IsPrefixOf

theorem linux_findKv (key : Bytes) : ∀ arr : List Bytes, Linux.findKv arr key = Plugin.findKv arr key
  | [] => rfl
  | entry :: rest => by
    have hlen : (key ++ lit "=").length = key.length + 1 := by
      rw [List.length_append]
      exact congrArg (key.length + ·) (by decide)
    unfold Linux.findKv Plugin.findKv
    rw [← isPrefixOf?_append, isPrefixOf?_eq, hlen]
    cases (key ++ lit "=").isPrefixOf entry with
    | true => rfl
    | false => exact linux_findKv key rest

theorem findKv_collect (arr : Option (List Bytes)) (key : Bytes) :
    Linux.findKv (Linux.collect arr 0) key = findKvIn arr key := by
  rw [linux_findKv]
  cases arr <;> rfl

/-! ## The colour gate -/

theorem linux_colorAllowed (envp : Option (List Bytes)) :
    Linux.colorAllowed (Linux.collect envp 0) = swAuditColorAllowed envp := by
  have hterm : ∀ t : Bytes, (if t = [] ∨ t = lit "dumb" then false else true) =
      if t = [] then false else if t = lit "dumb" then false else true := by
    intro t
    by_cases he : t = []
    · rw [if_pos (.inl he), if_pos he]
    · by_cases hd : t = lit "dumb"
      · rw [if_pos (.inr hd), if_neg he, if_pos hd]
      · rw [if_neg (not_or.mpr ⟨he, hd⟩), if_neg he, if_neg hd]
  unfold Linux.colorAllowed swAuditColorAllowed
  rw [findKv_collect, findKv_collect]
  cases findKvIn envp (lit "TERM") with
  | none => rcases findKvIn envp (lit "NO_COLOR") with _ | _ | ⟨c, cs⟩ <;> rfl
  | some t =>
    rcases findKvIn envp (lit "NO_COLOR") with _ | _ | ⟨c, cs⟩
    · exact hterm t
    · exact hterm t
    · rfl

/-- Cut to its buffer, a terminal's name is `dumb` only if it was. -/
theorem stashed_dumb (term : Bytes) : vsnprintf 64 term = lit "dumb" ↔ term = lit "dumb" := by
  have hdumb : (lit "dumb").length = 4 := by decide
  unfold vsnprintf
  constructor
  · intro h
    have hlen := congrArg List.length h
    rw [List.length_take, hdumb] at hlen
    rwa [List.take_of_length_le (by omega)] at h
  · rintro rfl
    exact List.take_of_length_le (by omega)

theorem stashed_colorAllowed {version : UInt32} {ttys : TtyNames} {userInfo envp : Option (List Bytes)} {ctx : InvokingCtx}
    (h : sudowhatOpen version ttys userInfo envp = .ok ctx) : swColorAllowed ctx = swAuditColorAllowed envp := by
  obtain ⟨-, hterm, hnoColor⟩ := Plugin.open_ok h
  unfold swColorAllowed swAuditColorAllowed
  rw [hnoColor, hterm]
  rcases findKvIn envp (lit "TERM") with _ | _ | ⟨d, ds⟩
  · rcases findKvIn envp (lit "NO_COLOR") with _ | _ | ⟨c, cs⟩ <;> rfl
  · rcases findKvIn envp (lit "NO_COLOR") with _ | _ | ⟨c, cs⟩ <;> rfl
  · have hne : vsnprintf 64 (d :: ds) ≠ [] := List.cons_ne_nil d _
    have hstash : (if vsnprintf 64 (d :: ds) = [] then false else if vsnprintf 64 (d :: ds) = lit "dumb" then false else true) =
        if d :: ds = [] then false else if d :: ds = lit "dumb" then false else true := by
      simp only [if_neg hne, stashed_dumb, if_neg (List.cons_ne_nil d ds)]
    rcases findKvIn envp (lit "NO_COLOR") with _ | _ | ⟨c, cs⟩
    · exact hstash
    · exact hstash
    · rfl

/-! ## The blocks -/

theorem linux_runsShell (settings : Option (List Bytes)) :
    Linux.runsShell (Linux.collect settings 0) = swAuditRunsShell settings := by
  unfold Linux.runsShell swAuditRunsShell Linux.settingTrue Audit.swAuditSettingTrue
  rw [findKv_collect, findKv_collect, findKv_collect]

theorem collect_typed (s : Submission) : Linux.collect s.argv s.optind = s.typed := by
  unfold Linux.collect Submission.typed
  cases s.argv <;> rfl

/-- With memory enough the macOS request is the Linux one, and the `PATH`. -/
theorem request_rows {alloc : Audit.AllocSite → Bool} (halloc : ∀ site, alloc site = true) (s : Submission) :
    (s.request alloc).rows.filter (fun r => r.kind ≠ .path) =
      (Linux.request (Linux.collect s.settings 0) (Linux.collect s.userInfo 0) (Linux.collect s.argv s.optind)).rows := by
  have hsetting : Linux.findKv (Linux.collect s.settings 0) = findKvIn s.settings := funext (findKv_collect s.settings)
  have huser : Linux.findKv (Linux.collect s.userInfo 0) = findKvIn s.userInfo := funext (findKv_collect s.userInfo)
  rw [Request.rows_without_path]
  unfold Linux.request Submission.request
  rw [hsetting, huser, collect_typed, halloc .dirLine]
  rfl

/-- Both displays show something or both show nothing, whatever colours they choose; the
    rows they share say the same. -/
theorem blocks_agree {b : AuditBuild} {alloc : Audit.AllocSite → Bool} (halloc : ∀ site, alloc site = true) (s : Submission)
    (color color' : Bool) :
    (auditBlock b alloc s color = none ∧ Linux.buildBlock (Linux.collect s.settings 0) (Linux.collect s.userInfo 0)
        (Linux.collect s.argv s.optind) color' = none) ∨
      ∃ rows mac linux, auditBlock b alloc s color = some mac ∧
        Linux.buildBlock (Linux.collect s.settings 0) (Linux.collect s.userInfo 0) (Linux.collect s.argv s.optind)
          color' = some linux ∧
        Sgr.strip mac = plainBlock gutterGap rows ∧
        Sgr.strip linux = plainBlock Linux.oneSpace (rows.filter fun r => r.kind ≠ .path) := by
  have hmac := Audit.auditBlock_none_iff (b := b) halloc s color
  have hlinux := Linux.buildBlock_none_iff (Linux.collect s.settings 0) (Linux.collect s.userInfo 0)
    (Linux.collect s.argv s.optind) color'
  rw [linux_runsShell, collect_typed] at hlinux
  rw [collect_typed]
  cases hm : auditBlock b alloc s color with
  | none => exact .inl ⟨rfl, hlinux.mpr (hmac.mp hm)⟩
  | some mac =>
    cases hl : Linux.buildBlock (Linux.collect s.settings 0) (Linux.collect s.userInfo 0) s.typed color' with
    | none =>
      rw [hmac.mpr (hlinux.mp hl)] at hm
      cases hm
    | some linux =>
      have hrows := request_rows halloc s
      rw [collect_typed] at hrows
      refine .inr ⟨(s.request alloc).rows, mac, linux, rfl, rfl, (Audit.auditBlock_displays hm).strip, ?_⟩
      rw [hrows]
      exact (Linux.buildBlock_displays hl).strip

/-- Past their checks the two audit plugins both show a block or both show nothing, and
    but for the PATH row the blocks say the same in the same order; and the three copies of
    the colour gate decide the same about one environment. -/
theorem displays_are_twins :
    (∀ b env version s, Audit.PastChecks b env version s → (∀ site, env.alloc site = true) →
      ∀ displayOn tty fuel version', Linux.PastChecks displayOn version' s.userInfo →
        ∃ mac linux : Option Text,
          (Audit.sudowhatAuditOpen b env version s = match mac with
            | none => pure true
            | some block => do
              Audit.swAuditWriteTty env block
              return true) ∧
            (Linux.sudowhatAuditOpen displayOn tty fuel version' s.settings s.userInfo s.optind s.argv s.envp = match linux with
              | none => pure true
              | some block => do
                Linux.writeTty tty fuel block
                return true) ∧
            ((mac = none ∧ linux = none) ∨ ∃ rows macBlock linuxBlock, mac = some macBlock ∧ linux = some linuxBlock ∧
              Sgr.strip macBlock = plainBlock gutterGap rows ∧
              Sgr.strip linuxBlock = plainBlock Linux.oneSpace (rows.filter fun r => r.kind ≠ .path))) ∧
      (∀ envp, Linux.colorAllowed (Linux.collect envp 0) = swAuditColorAllowed envp) ∧
      ∀ version ttys userInfo envp ctx, sudowhatOpen version ttys userInfo envp = .ok ctx →
        swColorAllowed ctx = swAuditColorAllowed envp := by
  refine ⟨?_, linux_colorAllowed, fun _ _ _ _ _ => stashed_colorAllowed⟩
  intro b env version s hmac halloc displayOn tty fuel version' hlinux
  refine ⟨auditBlock b env.alloc s (swAuditColorAllowed s.envp),
    Linux.openBlock s.settings s.userInfo s.optind s.argv s.envp, ?_, Linux.open_shows hlinux tty fuel,
    blocks_agree halloc s _ _⟩
  rw [Audit.open_shows hmac, Audit.showBlock]
  cases auditBlock b env.alloc s (swAuditColorAllowed s.envp) <;> rfl

/-! ## The root exemption -/

/-- The saturating loop computes the digits' number, or the largest 64-bit one. -/
theorem parseUid_eq (s : Bytes) : Linux.parseUid s = min (digitsValue (s.takeWhile isDigit)) (2 ^ 64 - 1) := by
  show (s.takeWhile isDigit).foldl _ 0 = _
  generalize s.takeWhile isDigit = ds
  induction ds using List.reverseRecOn with
  | nil => rfl
  | append_singleton ds d ih =>
    rw [digitsValue_snoc, List.foldl_append, ih, List.foldl_cons, List.foldl_nil]
    omega

/-- The value starts with a digit: no blank and no sign stands before its number. -/
def startsWithDigit (s : Bytes) : Bool := s.head?.any isDigit

theorem digit_bare {c : UInt8} (hc : isDigit c = true) : isCSpace c = false ∧ c ≠ 0x2D ∧ c ≠ 0x2B := by
  simp only [isDigit, Bool.and_eq_true, decide_eq_true_eq, UInt8.le_iff_toNat_le] at hc
  have hlow : (0x30 : UInt8).toNat = 48 := rfl
  refine ⟨?_, ?_, ?_⟩
  · simp only [isCSpace, Bool.or_eq_false_iff, beq_eq_false_iff_ne, Bool.and_eq_false_iff, decide_eq_false_iff_not,
      UInt8.le_iff_toNat_le]
    have hcr : (0x0D : UInt8).toNat = 13 := rfl
    exact ⟨fun h => by subst h; exact absurd hc.1 (by decide), .inr (by omega)⟩
  · intro h
    subst h
    exact absurd hc.1 (by decide)
  · intro h
    subst h
    exact absurd hc.1 (by decide)

theorem leadingNumber_of_digit {s : Bytes} (h : startsWithDigit s = true) :
    leadingNumber s = digitsValue (s.takeWhile isDigit) := by
  rcases s with _ | ⟨c, cs⟩
  · cases h
  · obtain ⟨hblank, hminus, hplus⟩ := digit_bare h
    unfold leadingNumber unsigned
    rw [List.dropWhile_cons_of_neg (by simp [hblank])]
    simp [hminus, hplus]

theorem takeWhile_of_no_digit {s : Bytes} (h : startsWithDigit s = false) : s.takeWhile isDigit = [] := by
  rcases s with _ | ⟨c, cs⟩
  · rfl
  · have hc : isDigit c = false := h
    rw [List.takeWhile_cons_of_neg (by simp [hc])]

/-- Digits first: no multiple of 2^32 but 0, unless it overflows 64 bits. Anything else
    first: a number that `strtoul` and the narrowing make 0 as well. -/
def UidTwinned (s : Bytes) : Prop :=
  if startsWithDigit s then leadingNumber s = 0 ∨ 2 ^ 64 ≤ leadingNumber s ∨ ¬ 2 ^ 32 ∣ leadingNumber s
  else leadingNumber s < 2 ^ 64 ∧ 2 ^ 32 ∣ leadingNumber s

/-- Both platforms exempt the same callers exactly for such values. -/
theorem root_exemption_iff (s : Bytes) : (Linux.parseUid s = 0 ↔ UInt32.ofNat (strtoul s) = 0) ↔ UidTwinned s := by
  rw [narrowed_zero_iff, parseUid_eq]
  unfold UidTwinned
  cases h : startsWithDigit s with
  | true =>
    rw [if_pos rfl, ← leadingNumber_of_digit h]
    omega
  | false =>
    have hzero : digitsValue [] = 0 := rfl
    rw [if_neg Bool.false_ne_true, takeWhile_of_no_digit h, hzero]
    omega

/-- As built: after a sign the Linux display takes any caller for root. -/
theorem a_signed_uid_is_exempt :
    ¬ ∀ s : Bytes, 0 ∉ s → (Linux.parseUid s = 0 ↔ UInt32.ofNat (strtoul s) = 0) := by
  intro h
  exact absurd (h (lit "+501") (by decide)) (by decide)

end SudoWhat
