/-
  SudoWhat.Plugin.PathError — the line an error about the target binary ends up as
  (`set_errstr_path`, `set_errstr`).

  The path is escaped whole and stands last; the message is then formatted into a buffer of
  512 bytes, which keeps its first 511. Proved: the line is clean text, its path cut between
  two pieces, exactly when what stands before the path has no control character and the bytes
  left over for the path hold a number of whole pieces of it (`path_error_shown_iff`). As
  built a path of 466 bytes loses half a character (`an_error_cuts_a_character`).
-/

import SudoWhat.Lib.Resync
import SudoWhat.Plugin.Ceremony

namespace SudoWhat.Plugin

open SudoWhat.Lib
open SudoWhat.EscapeCore (Clean Piece escapeBytes isHidden pieces textOf)

/-! ## The line -/

/-- What the callers say went wrong. -/
def pathErrors : List Bytes :=
  [lit "cannot open the target binary", lit "fstat failed", lit "post-confirm stat failed", lit "post-auth stat failed"]

/-- What stands before the path. -/
def pathErrorHead (what errno : Bytes) : Bytes := lit "sudowhat: " ++ what ++ lit " (" ++ errno ++ lit "): "

def unshownPath : Bytes := lit "(the path cannot be shown)"

/-- The path, as it is formatted. -/
def shownPath (env : CheckEnv) (path : Bytes) : Bytes :=
  utf8Or (swExecRender (env.alloc .errorPath) (escapeBytes path)) "(the path cannot be shown)".toList

def pathErrorLine (env : CheckEnv) (what errno path : Bytes) : Bytes :=
  vsnprintf 512 (pathErrorHead what errno ++ shownPath env path)

theorem setErrstrPath_trace (env : CheckEnv) (what errno path : Bytes) : (setErrstrPath env what errno path).trace =
    [.errstr (pathErrorLine env what errno path), .message env.channel (pathErrorLine env what errno path ++ lit "\n")] := rfl

/-- The first pieces of the escaped path: whole characters and whole escapes. -/
def firstPieces (path : Bytes) (n : Nat) : Text := textOf ((pieces path).take n)

/-- The line is clean text, and ends in a number of whole pieces of the escaped path. -/
structure ShownWhole (what errno path line : Bytes) : Prop where
  clean : ∃ text, line = Utf8.encode text ∧ Clean text
  whole : ∃ n, line.drop (pathErrorHead what errno).length = Utf8.encode (firstPieces path n)

/-- Every line the error keeps or prints is. -/
def ErrorShownWhole (env : CheckEnv) (what errno path : Bytes) : Prop :=
  ∀ line, (.errstr line ∈ (setErrstrPath env what errno path).trace ∨
      ∃ channel, .message channel (line ++ lit "\n") ∈ (setErrstrPath env what errno path).trace) →
    ShownWhole what errno path line

theorem errorShownWhole_iff {env : CheckEnv} {what errno path : Bytes} :
    ErrorShownWhole env what errno path ↔ ShownWhole what errno path (pathErrorLine env what errno path) := by
  unfold ErrorShownWhole
  rw [setErrstrPath_trace]
  constructor
  · intro h
    exact h _ (.inl List.mem_cons_self)
  · rintro h line (hline | ⟨channel, hline⟩)
    · simp only [List.mem_cons, List.not_mem_nil, or_false, Eff.errstr.injEq, reduceCtorEq] at hline
      exact hline ▸ h
    · simp only [List.mem_cons, List.not_mem_nil, or_false, Eff.message.injEq, reduceCtorEq, false_or,
        List.append_cancel_right_eq] at hline
      exact hline.2 ▸ h

/-! ## The path as it is formatted -/

theorem cString_clean {t : Text} (h : Clean t) : cString t = Utf8.encode t := by
  have hzero : 0 ∉ Utf8.encode t := by
    refine Utf8.zero_not_mem_encode fun c hc h0 => ?_
    have hhidden : isHidden c.toNat = true := by rw [h0]; decide
    exact absurd ((h c hc).symm.trans hhidden) Bool.false_ne_true
  refine List.takeWhile_eq_self_iff.mpr fun b hb => ?_
  have hne : b ≠ 0 := fun h0 => hzero (h0 ▸ hb)
  simpa using hne

theorem shownPath_escaped {env : CheckEnv} {path : Bytes} (ha : env.alloc .errorPath = true) (hne : path ≠ []) :
    shownPath env path = Utf8.encode (escapeBytes path) := by
  have hne' : Utf8.encode (escapeBytes path) ≠ [] := by
    intro h
    exact EscapeCore.escapeBytes_ne_nil hne (Utf8.encode_injective (h.trans Utf8.encode_nil.symm))
  unfold shownPath swExecRender
  rw [ha, if_pos rfl, utf8Or, cString_clean (EscapeCore.clean_escapeBytes path), if_neg hne']

theorem shownPath_unshown {env : CheckEnv} {path : Bytes} (h : ¬ (env.alloc .errorPath = true ∧ path ≠ [])) :
    shownPath env path = unshownPath := by
  have hfallback : cString "(the path cannot be shown)".toList = unshownPath := by decide
  unfold shownPath swExecRender
  cases ha : env.alloc .errorPath with
  | false => exact hfallback
  | true =>
    obtain rfl : path = [] := by
      by_contra hne
      exact h ⟨ha, hne⟩
    exact hfallback

theorem escapeBytes_split (path : Bytes) (n : Nat) :
    Utf8.encode (escapeBytes path) = Utf8.encode (firstPieces path n) ++ Utf8.encode (textOf ((pieces path).drop n)) := by
  rw [← Utf8.encode_append, firstPieces, textOf, textOf, ← List.flatMap_append, List.take_append_drop]
  rfl

theorem clean_firstPieces (path : Bytes) (n : Nat) : Clean (firstPieces path n) :=
  EscapeCore.clean_flatMap fun p hp => EscapeCore.clean_pieces p (List.mem_of_mem_take hp)

/-! ## The cut -/

/-- A text is cut behind its first part when the part's length is what is kept. -/
theorem take_eq_left_iff {α : Type} {xs ys : List α} {k : Nat} :
    (xs ++ ys).take k = xs ↔ xs.length = min k (xs ++ ys).length := by
  constructor
  · intro h
    rw [← List.length_take, h]
  · intro h
    have hcases : xs.length = k ∨ ys.length = 0 := by
      rw [List.length_append] at h
      omega
    rcases hcases with hk | hys
    · exact List.take_left' hk
    · rw [List.length_eq_zero_iff.mp hys, List.append_nil]
      exact List.take_of_length_le (by omega)

theorem drop_pathErrorLine (env : CheckEnv) (what errno path : Bytes) :
    (pathErrorLine env what errno path).drop (pathErrorHead what errno).length =
      (shownPath env path).take (511 - (pathErrorHead what errno).length) := by
  show ((pathErrorHead what errno ++ shownPath env path).take 511).drop _ = _
  rw [List.drop_take, List.drop_left]

/-- What stands before the path has no control character, as far as it is kept, and the
    bytes left for the path hold a number of whole pieces. -/
structure CutBetween (env : CheckEnv) (what errno path : Bytes) : Prop where
  head : ∀ c ∈ (pathErrorHead what errno).take 511, isHidden c.toNat = false
  path : if env.alloc .errorPath = true ∧ path ≠ [] then
      ∃ n, (Utf8.encode (firstPieces path n)).length =
        min (511 - (pathErrorHead what errno).length) (Utf8.encode (escapeBytes path)).length
    else ∃ n, Utf8.encode (firstPieces path n) = unshownPath.take (511 - (pathErrorHead what errno).length)

theorem whole_iff (env : CheckEnv) (what errno path : Bytes) :
    (∃ n, (pathErrorLine env what errno path).drop (pathErrorHead what errno).length = Utf8.encode (firstPieces path n)) ↔
    if env.alloc .errorPath = true ∧ path ≠ [] then
      ∃ n, (Utf8.encode (firstPieces path n)).length =
        min (511 - (pathErrorHead what errno).length) (Utf8.encode (escapeBytes path)).length
    else ∃ n, Utf8.encode (firstPieces path n) = unshownPath.take (511 - (pathErrorHead what errno).length) := by
  rw [drop_pathErrorLine]
  split
  · next h =>
    rw [shownPath_escaped h.1 h.2]
    refine exists_congr fun n => ?_
    rw [escapeBytes_split path n, take_eq_left_iff]
  · next h =>
    rw [shownPath_unshown h]
    exact exists_congr fun n => eq_comm

theorem pathErrorHead_ascii {what errno : Bytes} (hwhat : what ∈ pathErrors) (hascii : ∀ c ∈ errno, c.toNat < 0x80) :
    ∀ c ∈ pathErrorHead what errno, c.toNat < 0x80 := by
  have hall : (([lit "sudowhat: ", lit " (", lit "): "] ++ pathErrors).all fun t => t.all fun c => c.toNat < 0x80) = true := by
    decide
  have hfixed : ∀ t ∈ [lit "sudowhat: ", lit " (", lit "): "] ++ pathErrors, ∀ c ∈ t, c.toNat < 0x80 :=
    fun t ht c hc => of_decide_eq_true (List.all_eq_true.mp (List.all_eq_true.mp hall t ht) c hc)
  intro c hc
  unfold pathErrorHead at hc
  simp only [List.mem_append] at hc
  rcases hc with (((hc | hc) | hc) | hc) | hc
  · exact hfixed _ (by simp) c hc
  · exact hfixed _ (List.mem_append_right _ hwhat) c hc
  · exact hfixed _ (by simp) c hc
  · exact hascii c hc
  · exact hfixed _ (by simp) c hc

theorem clean_asciiText_iff {bs : Bytes} (h : ∀ b ∈ bs, b.toNat < 0x80) :
    Clean (Utf8.asciiText bs) ↔ ∀ b ∈ bs, isHidden b.toNat = false := by
  have hchar : ∀ b ∈ bs, (Char.ofNat b.toNat).toNat = b.toNat := by
    intro b hb
    have := h b hb
    exact Utf8.toNat_ofNat (.inl (by omega))
  unfold Utf8.asciiText Clean
  rw [List.forall_mem_map]
  exact forall₂_congr fun b hb => by rw [hchar b hb]

/-- An error about the target is shown clean and its path cut between two pieces, exactly
    when what stands before the path is clean and what is left for the path is a number of
    whole pieces. -/
theorem path_error_shown_iff (env : CheckEnv) {what errno : Bytes} (path : Bytes) (hwhat : what ∈ pathErrors)
    (hascii : ∀ c ∈ errno, c.toNat < 0x80) :
    ErrorShownWhole env what errno path ↔ CutBetween env what errno path := by
  have hhead : ∀ c ∈ (pathErrorHead what errno).take 511, c.toNat < 0x80 :=
    fun c hc => pathErrorHead_ascii hwhat hascii c (List.mem_of_mem_take hc)
  -- the line, once its path is whole
  have hline : ∀ n, (pathErrorLine env what errno path).drop (pathErrorHead what errno).length =
        Utf8.encode (firstPieces path n) →
      pathErrorLine env what errno path =
        Utf8.encode (Utf8.asciiText ((pathErrorHead what errno).take 511) ++ firstPieces path n) := by
    intro n hn
    rw [drop_pathErrorLine] at hn
    rw [Utf8.encode_append, Utf8.encode_asciiText hhead, ← hn]
    exact List.take_append
  rw [errorShownWhole_iff]
  constructor
  · intro ⟨⟨text, htext, hclean⟩, n, hn⟩
    refine ⟨?_, (whole_iff env what errno path).mp ⟨n, hn⟩⟩
    obtain rfl := Utf8.encode_injective ((hline n hn).symm.trans htext)
    exact (clean_asciiText_iff hhead).mp fun c hc => hclean c (List.mem_append_left _ hc)
  · intro ⟨hkept, hpath⟩
    obtain ⟨n, hn⟩ := (whole_iff env what errno path).mpr hpath
    exact ⟨⟨_, hline n hn, ((clean_asciiText_iff hhead).mpr hkept).append (clean_firstPieces path n)⟩, n, hn⟩

theorem path_error_shown_iff_short :
    ErrorShownWhole answeredCheck (lit "fstat failed") (lit "Bad file descriptor") (lit "/opt/x y") := by
  have hascii : ((lit "Bad file descriptor").all fun c => c.toNat < 0x80) = true := by decide
  have hclean : (((pathErrorHead (lit "fstat failed") (lit "Bad file descriptor")).take 511).all fun c =>
      !isHidden c.toNat) = true := by decide
  refine (path_error_shown_iff answeredCheck (lit "/opt/x y") (by decide)
    fun c hc => of_decide_eq_true (List.all_eq_true.mp hascii c hc)).mpr ⟨fun c hc => ?_, ?_⟩
  · simpa using List.all_eq_true.mp hclean c hc
  · rw [if_pos (by decide)]
    exact ⟨8, by decide⟩

/-! ## As built -/

theorem pieces_printable {bs : Bytes} (h : ∀ b ∈ bs, 0x20 ≤ b.toNat ∧ b.toNat ≤ 0x7E ∧ b ≠ 0x5C) (rest : Bytes) :
    pieces (bs ++ rest) = bs.map (fun b => .char (Char.ofNat b.toNat)) ++ pieces rest := by
  induction bs with
  | nil => rfl
  | cons b bs ih =>
    obtain ⟨hlo, hhi, hne⟩ := h b List.mem_cons_self
    have hitems : EscapeCore.decoded (b :: (bs ++ rest)) = .ok (Char.ofNat b.toNat) :: EscapeCore.decoded (bs ++ rest) :=
      Utf8.items_ascii (by omega) (bs ++ rest)
    have hchar : (Char.ofNat b.toNat).toNat = b.toNat := Utf8.toNat_ofNat (.inl (by omega))
    have hslash : Char.ofNat b.toNat ≠ '\\' := by
      intro he
      have hn := congrArg Char.toNat he
      rw [hchar] at hn
      exact hne (UInt8.toNat_inj.mp hn)
    have hpiece : ∀ ds, EscapeCore.pieceOf (.ok (Char.ofNat b.toNat)) ds = .char (Char.ofNat b.toNat) := by
      intro ds
      simp [EscapeCore.pieceOf, hchar, EscapeCore.not_hidden_of_ascii ⟨hlo, hhi⟩, hslash]
    show EscapeCore.piecesOf (EscapeCore.decoded (b :: (bs ++ rest))) = _
    rw [hitems, EscapeCore.piecesOf, hpiece, List.map_cons, List.cons_append]
    exact congrArg _ (ih fun c hc => h c (List.mem_cons_of_mem _ hc))

theorem firstPieces_printable {bs : Bytes} (h : ∀ b ∈ bs, 0x20 ≤ b.toNat ∧ b.toNat ≤ 0x7E ∧ b ≠ 0x5C) (rest : Bytes) (n : Nat) :
    Utf8.encode (firstPieces (bs ++ rest) n) = bs.take n ++ Utf8.encode (firstPieces rest (n - bs.length)) := by
  have htext : ∀ cs : Bytes, textOf (cs.map fun b => .char (Char.ofNat b.toNat)) = Utf8.asciiText cs := by
    intro cs
    induction cs with
    | nil => rfl
    | cons b cs ih => rw [List.map_cons, EscapeCore.textOf_cons, ih]; rfl
  have hascii : ∀ b ∈ bs.take n, b.toNat < 0x80 := by
    intro b hb
    have := h b (List.mem_of_mem_take hb)
    omega
  unfold firstPieces
  rw [pieces_printable h, List.take_append, List.length_map, ← List.map_take, textOf, List.flatMap_append,
    Utf8.encode_append]
  exact congrArg (· ++ _) ((congrArg Utf8.encode (htext (bs.take n))).trans (Utf8.encode_asciiText hascii))

/-- A path of 466 bytes, the last of its characters two bytes long. -/
def accentedPath : Bytes := (0x2F :: List.replicate 463 0x61) ++ [0xC3, 0xA9]

theorem length_firstPieces_accented (n : Nat) :
    (Utf8.encode (firstPieces accentedPath n)).length = if n ≤ 464 then n else 466 := by
  have hprintable : ∀ b ∈ 0x2F :: List.replicate 463 (0x61 : UInt8), 0x20 ≤ b.toNat ∧ b.toNat ≤ 0x7E ∧ b ≠ 0x5C := by
    intro b hb
    rcases List.mem_cons.mp hb with rfl | hb
    · decide
    · rw [List.eq_of_mem_replicate hb]
      decide
  have hlast : pieces [0xC3, 0xA9] = [.char 'é'] := by decide
  have hfixed : (0x2F :: List.replicate 463 (0x61 : UInt8)).length = 464 := by
    rw [List.length_cons, List.length_replicate]
  rw [accentedPath, firstPieces_printable hprintable, List.length_append, List.length_take, hfixed, firstPieces, hlast]
  split
  · next hn =>
    rw [Nat.sub_eq_zero_of_le hn, Nat.min_eq_left hn]
    rfl
  · next hn =>
    rw [List.take_of_length_le (by rw [List.length_singleton]; omega), Nat.min_eq_right (by omega)]
    rfl

/-- As built: the error about a file that `fstat` fails on, whose name ends in an accented
    letter, ends in half of it. -/
theorem an_error_cuts_a_character :
    ¬ ErrorShownWhole answeredCheck (lit "fstat failed") (lit "Bad file descriptor") accentedPath := by
  have hhead : (pathErrorHead (lit "fstat failed") (lit "Bad file descriptor")).length = 46 := by decide
  have hne : accentedPath ≠ [] := by
    unfold accentedPath
    exact List.append_ne_nil_of_right_ne_nil _ (by decide)
  have hfull : (Utf8.encode (escapeBytes accentedPath)).length = 466 := by
    have hall : firstPieces accentedPath ((pieces accentedPath).length + 465) = escapeBytes accentedPath := by
      rw [firstPieces, List.take_of_length_le (Nat.le_add_right _ _)]
      rfl
    rw [← hall, length_firstPieces_accented, if_neg (by omega)]
  intro h
  obtain ⟨-, hwhole⟩ := errorShownWhole_iff.mp h
  rw [whole_iff, if_pos ⟨rfl, hne⟩, hhead, hfull] at hwhole
  obtain ⟨n, hn⟩ := hwhole
  rw [length_firstPieces_accented] at hn
  split at hn <;> omega

end SudoWhat.Plugin
