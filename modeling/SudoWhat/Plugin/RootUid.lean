/-
  SudoWhat.Plugin.RootUid — the uid `open()` takes for root's.

  `open()` reads the uid with `strtoul` and narrows it to 32 bits; nothing checks that the
  value was a number, or that it fits. A uid of 0 then passes every gate of `check()`
  (`root_uid_bypasses`). Proved: the uid is 0 exactly where the number at the value's head,
  past blanks and one sign, is a multiple of 2^32 below 2^64, which it is where there is no
  number at all (`narrowed_zero_iff`); so only a root's uid is taken for one, unless the value
  is of that kind and not spelled in zeros (`root_uid_spelled_iff`). As built a name is root
  (`a_name_is_root`).
-/

import SudoWhat.Plugin.Open
import SudoWhat.Plugin.CheckGate

namespace SudoWhat.Plugin

open SudoWhat.Lib

/-! ## What the uid opens -/

/-- With the bundles intact a uid of 0 is allowed, whatever the session, the files and the
    marker, and nothing is asked on the way. -/
theorem root_uid_bypasses {b : Build} {ctx : InvokingCtx} {env : CheckEnv} (commandInfo runArgv : List Bytes) (marker : Bool)
    (hi : env.bundlesIntact) (hu : ctx.uid = some 0) :
    ((sudowhatCheck b ctx env commandInfo runArgv marker).Returns .allow ∨
      (sudowhatCheck b ctx env commandInfo runArgv marker).result = .error .waiting) ∧
      OnlyKinds [.display, .marker] (sudowhatCheck b ctx env commandInfo runArgv marker) := by
  have hroot : checkCaller b ctx env commandInfo runArgv marker = checkRoot b ctx env commandInfo runArgv := by
    unfold checkCaller
    rw [hu]
    exact if_pos rfl
  rw [sudowhatCheck_intact hi, hroot]
  constructor
  · have hshown := shown_then_allow (y := pure .allow)
      (emitExecLine_ends b env (findKv commandInfo (lit "command")) runArgv .solo (some (swRunasName env commandInfo))
        (swColorAllowed ctx)) (Traced.returns_pure.mpr rfl)
    exact hshown
  · refine onlyKinds_bind.mpr ⟨by simp, fun _ _ => ?_⟩
    exact (checkRoot_kinds b ctx env commandInfo runArgv).mono fun e he => List.mem_cons.mpr (.inl (List.mem_singleton.mp he))

/-! ## The number at a value's head -/

/-- What follows the blanks and one sign. -/
def unsigned (s : Bytes) : Bytes :=
  match s.dropWhile isCSpace with
  | 0x2D :: rest => rest
  | 0x2B :: rest => rest
  | rest => rest

/-- The number at the head, past blanks and one sign; without digits it is 0. -/
def leadingNumber (s : Bytes) : Nat := digitsValue ((unsigned s).takeWhile isDigit)

/-- `strtoul` is that number, or its negation, or `ULONG_MAX`. -/
theorem strtoul_eq (s : Bytes) : ∃ negative : Bool, strtoul s =
    if leadingNumber s ≥ 2 ^ 64 then 2 ^ 64 - 1
    else if negative then (2 ^ 64 - leadingNumber s) % 2 ^ 64 else leadingNumber s := by
  unfold strtoul leadingNumber unsigned
  generalize s.dropWhile isCSpace = t
  rcases t with _ | ⟨c, cs⟩
  · exact ⟨false, rfl⟩
  · by_cases hminus : c = 0x2D
    · subst hminus
      exact ⟨true, rfl⟩
    by_cases hplus : c = 0x2B
    · subst hplus
      exact ⟨false, rfl⟩
    · refine ⟨false, ?_⟩
      simp [hminus, hplus]

/-- Narrowed to 32 bits it is 0 exactly for a multiple of 2^32 that did not overflow. -/
theorem narrowed_zero_iff (s : Bytes) :
    UInt32.ofNat (strtoul s) = 0 ↔ leadingNumber s < 2 ^ 64 ∧ 2 ^ 32 ∣ leadingNumber s := by
  have hzero : UInt32.ofNat (strtoul s) = 0 ↔ strtoul s % 2 ^ 32 = 0 := by
    rw [← UInt32.toNat_inj, UInt32.toNat_ofNat']
    rfl
  obtain ⟨negative, h⟩ := strtoul_eq s
  rw [hzero, Nat.dvd_iff_mod_eq_zero, h]
  by_cases hn : leadingNumber s ≥ 2 ^ 64
  · rw [if_pos hn]
    omega
  · rw [if_neg hn]
    cases negative with
    | true => rw [if_pos rfl]; omega
    | false => rw [if_neg Bool.false_ne_true]; omega

/-! ## A root's uid -/

/-- A non-empty string of decimal digits whose value is 0. -/
def SpellsZero (s : Bytes) : Prop := s ≠ [] ∧ (∀ c ∈ s, isDigit c = true) ∧ digitsValue s = 0

theorem digitsValue_snoc (ds : Bytes) (d : UInt8) : digitsValue (ds ++ [d]) = 10 * digitsValue ds + (d.toNat - 0x30) := by
  unfold digitsValue
  rw [List.foldl_append]
  rfl

theorem digitsValue_zero_iff {ds : Bytes} (h : ∀ c ∈ ds, isDigit c = true) : digitsValue ds = 0 ↔ ∀ c ∈ ds, c = 0x30 := by
  induction ds using List.reverseRecOn with
  | nil => exact ⟨fun _ c hc => absurd hc List.not_mem_nil, fun _ => rfl⟩
  | append_singleton ds d ih =>
    have hd : isDigit d = true := h d (by simp)
    have hlow : 0x30 ≤ d.toNat := by
      simp only [isDigit, Bool.and_eq_true, decide_eq_true_eq] at hd
      exact UInt8.le_iff_toNat_le.mp hd.1
    have hzero : d = 0x30 ↔ d.toNat = 0x30 := by rw [← UInt8.toNat_inj]; rfl
    have hrest := ih fun c hc => h c (List.mem_append_left _ hc)
    rw [digitsValue_snoc]
    constructor
    · intro hv c hc
      rcases List.mem_append.mp hc with hc | hc
      · exact hrest.mp (by omega) c hc
      · rw [List.mem_singleton.mp hc, hzero]
        omega
    · intro hall
      have := hrest.mpr fun c hc => hall c (List.mem_append_left _ hc)
      have := hzero.mp (hall d (by simp))
      omega

theorem spellsZero_iff {s : Bytes} : SpellsZero s ↔ s ≠ [] ∧ ∀ c ∈ s, c = 0x30 := by
  constructor
  · intro ⟨hne, hdigits, hv⟩
    exact ⟨hne, (digitsValue_zero_iff hdigits).mp hv⟩
  · intro ⟨hne, hall⟩
    have hdigits : ∀ c ∈ s, isDigit c = true := fun c hc => by rw [hall c hc]; decide
    exact ⟨hne, hdigits, (digitsValue_zero_iff hdigits).mpr hall⟩

theorem open_uid {version : UInt32} {ttys : TtyNames} {userInfo submitEnvp : Option (List Bytes)} {ctx : InvokingCtx}
    (h : sudowhatOpen version ttys userInfo submitEnvp = .ok ctx) :
    apiMajor version = 1 ∧ ∃ s, findKvIn userInfo (lit "uid") = some s ∧ ctx.uid = some (UInt32.ofNat (strtoul s)) := by
  unfold sudowhatOpen at h
  split at h
  · cases h
  · next hv =>
    split at h
    · cases h
    · next s hs =>
      cases h
      exact ⟨not_not.mp hv, s, hs, rfl⟩

theorem open_of_uid {version : UInt32} {userInfo : Option (List Bytes)} {s : Bytes} (hv : apiMajor version = 1)
    (hs : findKvIn userInfo (lit "uid") = some s) (ttys : TtyNames) (submitEnvp : Option (List Bytes)) :
    ∃ ctx, sudowhatOpen version ttys userInfo submitEnvp = .ok ctx ∧ ctx.uid = some (UInt32.ofNat (strtoul s)) := by
  unfold sudowhatOpen
  rw [if_neg (not_not.mpr hv), hs]
  exact ⟨_, rfl, rfl⟩

/-- A context whose uid is root's comes from a root's uid, exactly unless the first `uid=`
    value has a number at its head that narrows to 0 and is not spelled in zeros alone. -/
theorem root_uid_spelled_iff (version : UInt32) (ttys : TtyNames) (userInfo submitEnvp : Option (List Bytes)) :
    (∀ ctx, sudowhatOpen version ttys userInfo submitEnvp = .ok ctx → ctx.uid = some 0 →
      ∃ s, findKvIn userInfo (lit "uid") = some s ∧ SpellsZero s) ↔
    ∀ s, apiMajor version = 1 → findKvIn userInfo (lit "uid") = some s → leadingNumber s < 2 ^ 64 →
      2 ^ 32 ∣ leadingNumber s → s ≠ [] ∧ ∀ c ∈ s, c = 0x30 := by
  constructor
  · intro h s hv hs hlt hdvd
    obtain ⟨ctx, hopen, huid⟩ := open_of_uid hv hs ttys submitEnvp
    rw [(narrowed_zero_iff s).mpr ⟨hlt, hdvd⟩] at huid
    obtain ⟨s', hs', hzero⟩ := h ctx hopen huid
    cases hs.symm.trans hs'
    exact spellsZero_iff.mp hzero
  · intro h ctx hopen huid
    obtain ⟨hv, s, hs, hctx⟩ := open_uid hopen
    have hzero := Option.some.inj (hctx.symm.trans huid)
    obtain ⟨hlt, hdvd⟩ := (narrowed_zero_iff s).mp hzero
    exact ⟨s, hs, spellsZero_iff.mpr (h s hv hs hlt hdvd)⟩

theorem taken_for_root {version : UInt32} {userInfo : Option (List Bytes)} {s : Bytes} (hv : apiMajor version = 1)
    (hs : findKvIn userInfo (lit "uid") = some s) (hlt : leadingNumber s < 2 ^ 64) (hdvd : 2 ^ 32 ∣ leadingNumber s)
    (hnot : ¬ (s ≠ [] ∧ ∀ c ∈ s, c = 0x30)) (ttys : TtyNames) (submitEnvp : Option (List Bytes)) :
    ∃ ctx, sudowhatOpen version ttys userInfo submitEnvp = .ok ctx ∧ ctx.uid = some 0 ∧
      ¬ ∃ s, findKvIn userInfo (lit "uid") = some s ∧ SpellsZero s := by
  obtain ⟨ctx, hopen, huid⟩ := open_of_uid hv hs ttys submitEnvp
  rw [(narrowed_zero_iff s).mpr ⟨hlt, hdvd⟩] at huid
  refine ⟨ctx, hopen, huid, ?_⟩
  intro ⟨s', hs', hzero⟩
  cases hs.symm.trans hs'
  exact hnot (spellsZero_iff.mp hzero)

/-- As built: a name is taken for root's uid. -/
theorem a_name_is_root :
    ¬ ∀ ctx, sudowhatOpen 0x10015 ⟨none, none, none⟩ (some [lit "user=alice", lit "uid=nobody"]) none = .ok ctx →
      ctx.uid = some 0 →
      ∃ s, findKvIn (some [lit "user=alice", lit "uid=nobody"]) (lit "uid") = some s ∧ SpellsZero s := by
  have hversion : apiMajor 0x10015 = 1 := by decide
  have hs : findKvIn (some [lit "user=alice", lit "uid=nobody"]) (lit "uid") = some (lit "nobody") := by decide
  have hnumber : leadingNumber (lit "nobody") = 0 := by decide
  intro h
  obtain ⟨ctx, hopen, huid, hnot⟩ :=
    taken_for_root hversion hs (by omega) (by omega) (by decide) ⟨none, none, none⟩ none
  exact hnot (h ctx hopen huid)

end SudoWhat.Plugin
