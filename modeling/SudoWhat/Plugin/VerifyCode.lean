/-
  SudoWhat.Plugin.VerifyCode — the verify code binds the sheet to the terminal and does nothing
  else (`generate_verify_nonce`, `emit_verify_code`, `sudowhat_check`).

  A check draws one code, three letters of an alphabet without look-alikes, shows it on the
  terminal and puts it into the sheet's text. Proved:
  - `check_blind_to_code`: two checks that differ in what they draw go the same way, effect by
    effect; only the code's own letters differ, on the terminal and in the sheets.
  - `sheet_under_its_code`: when a sheet comes up, it shows the code that was drawn, and the
    terminal was given that code's verify line, whole if it takes what it is given, and then
    nothing but what the execute line's write left.
-/

import SudoWhat.EscapeCore.Attribution
import SudoWhat.Lib.Monitor
import SudoWhat.Lib.Related
import SudoWhat.Plugin.CheckGate
import SudoWhat.Plugin.Sheet
import SudoWhat.Plugin.Terminal

namespace SudoWhat.Plugin

open SudoWhat.Lib
open SudoWhat.EscapeCore (escapeBytes)
open Traced (Related related_refl related_bind related_emit_bind)

/-! ## The code -/

/-- What a check draws. -/
structure IsVerifyCode (code : Text) : Prop where
  length : code.length = 3
  letters : ∀ c ∈ code, c ∈ verifyAlphabet

theorem isVerifyCode_nonce (random : Nat → Fin 25) : IsVerifyCode (generateVerifyNonce random 4) := by
  refine ⟨by rw [generateVerifyNonce, List.length_map, List.length_range], fun c hc => ?_⟩
  have halphabet : ∀ i : Fin 25, verifyAlphabet.getD i '3' ∈ verifyAlphabet := by decide
  obtain ⟨i, -, rfl⟩ := List.mem_map.mp hc
  exact halphabet (random i)

theorem letter_ascii : ∀ c ∈ verifyAlphabet, EscapeCore.isSafe c = true ∧ String.utf8EncodeChar c = [UInt8.ofNat c.toNat] ∧
    utf16Char c = [UInt16.ofNat c.toNat] ∧ Char.ofNat (UInt8.ofNat c.toNat).toNat = c ∧ UInt8.ofNat c.toNat ≠ 0 := by
  have hall : (verifyAlphabet.all fun c => decide (EscapeCore.isSafe c = true ∧
      String.utf8EncodeChar c = [UInt8.ofNat c.toNat] ∧ utf16Char c = [UInt16.ofNat c.toNat] ∧
      Char.ofNat (UInt8.ofNat c.toNat).toNat = c ∧ UInt8.ofNat c.toNat ≠ 0)) = true := by decide
  exact fun c hc => of_decide_eq_true (List.all_eq_true.mp hall c hc)

theorem encode_letters {code : Text} (h : ∀ c ∈ code, c ∈ verifyAlphabet) :
    Utf8.encode code = code.map fun c => UInt8.ofNat c.toNat := by
  induction code with
  | nil => rfl
  | cons c cs ih =>
    rw [Utf8.encode_cons, (letter_ascii c (h c List.mem_cons_self)).2.1, ih fun d hd => h d (List.mem_cons_of_mem _ hd)]
    rfl

theorem utf16_letters {code : Text} (h : ∀ c ∈ code, c ∈ verifyAlphabet) :
    utf16 code = code.map fun c => UInt16.ofNat c.toNat := by
  induction code with
  | nil => rfl
  | cons c cs ih =>
    rw [utf16_cons, (letter_ascii c (h c List.mem_cons_self)).2.2.1, ih fun d hd => h d (List.mem_cons_of_mem _ hd)]
    rfl

theorem escapeBytes_safe {raw : Bytes} (h : ∀ b ∈ raw, EscapeCore.isSafe (Char.ofNat b.toNat) = true) :
    escapeBytes raw = raw.map fun b => Char.ofNat b.toNat := by
  rw [escapeBytes, EscapeCore.pieces, EscapeCore.decoded_safe h]
  induction raw with
  | nil => rfl
  | cons b raw ih =>
    rw [List.map_cons, EscapeCore.piecesOf, EscapeCore.pieceOf_safe (h b List.mem_cons_self), List.flatMap_cons,
      ih fun x hx => h x (List.mem_cons_of_mem _ hx)]
    rfl

theorem escape_letters {code : Text} (h : ∀ c ∈ code, c ∈ verifyAlphabet) : escapeBytes (cString code) = code := by
  have hbytes : cString code = code.map fun c => UInt8.ofNat c.toNat := by
    rw [cString, encode_letters h, List.takeWhile_eq_self_iff]
    intro b hb
    obtain ⟨c, hc, rfl⟩ := List.mem_map.mp hb
    simpa using (letter_ascii c (h c hc)).2.2.2.2
  have hback : (code.map fun c => UInt8.ofNat c.toNat).map (fun b => Char.ofNat b.toNat) = code := by
    rw [List.map_map]
    exact (List.map_congr_left fun c hc => (letter_ascii c (h c hc)).2.2.2.1).trans (List.map_id code)
  rw [hbytes]
  conv_rhs => rw [← hback]
  refine escapeBytes_safe fun b hb => ?_
  obtain ⟨c, hc, rfl⟩ := List.mem_map.mp hb
  rw [(letter_ascii c (h c hc)).2.2.2.1]
  exact (letter_ascii c (h c hc)).1

theorem IsVerifyCode.ne_nil {code : Text} (h : IsVerifyCode code) : code ≠ [] := by
  rintro rfl
  exact absurd h.length (by decide)

theorem verifyLine_code {alloc : AllocSite → Bool} {code : Text} (h : IsVerifyCode code) :
    verifyLine alloc (some code) = if alloc .sheetVerify then some (ns "Verify Code: " ++ utf16 code) else none := by
  have hlen : (utf16 code).length = 3 := by rw [utf16_letters h.letters, List.length_map, h.length]
  obtain ⟨c, cs, rfl⟩ := List.exists_cons_of_ne_nil h.ne_nil
  rw [verifyLine, pfEscape, escape_letters h.letters]
  cases alloc .sheetVerify with
  | false => rfl
  | true =>
    rw [if_pos rfl, if_pos rfl, Option.map_some, List.take_of_length_le]
    exact Nat.le_trans (Nat.le_of_eq hlen) (by decide)

/-! ## Two codes, one sheet -/

/-- With another code the sheet is the same but for the code, and there is one or there is not. -/
theorem format_codes (alloc : AllocSite → Bool) (path user cwd : Option Bytes) (argv : List Bytes) (style : PromptStyle)
    {code code' : Text} (h : IsVerifyCode code) (h' : IsVerifyCode code') :
    (formatWithCommandPath alloc path user cwd (some code) argv style = none ∧
        formatWithCommandPath alloc path user cwd (some code') argv style = none) ∨
      ∃ front back overflow,
        formatWithCommandPath alloc path user cwd (some code) argv style = some (front ++ utf16 code ++ back, overflow) ∧
        formatWithCommandPath alloc path user cwd (some code') argv style = some (front ++ utf16 code' ++ back, overflow) := by
  have hlen : (ns "Verify Code: " ++ utf16 code').length = (ns "Verify Code: " ++ utf16 code).length := by
    rw [List.length_append, List.length_append, utf16_letters h.letters, utf16_letters h'.letters, List.length_map,
      List.length_map, h.length, h'.length]
  have hover : ∀ u p, promptOverhead (ns "Verify Code: " ++ utf16 code') u p =
      promptOverhead (ns "Verify Code: " ++ utf16 code) u p := by
    intro u p
    unfold promptOverhead
    rw [hlen]
  unfold formatWithCommandPath
  rw [verifyLine_code h, verifyLine_code h']
  cases path with
  | none => exact .inl ⟨rfl, rfl⟩
  | some path =>
    dsimp only
    cases alloc .sheetVerify with
    | false => exact .inl ⟨rfl, rfl⟩
    | true =>
      cases cwdValue alloc cwd with
      | none => exact .inl ⟨rfl, rfl⟩
      | some pathVal =>
        cases userValue alloc user with
        | none => exact .inl ⟨rfl, rfl⟩
        | some userVal =>
          cases pfCommandLine (alloc .sheetCommand) path argv with
          | none => exact .inl ⟨rfl, rfl⟩
          | some cmdVal =>
            right
            have hsplit : ∀ front head gap closing c : NSString,
                front ++ (head ++ c) ++ gap ++ closing = front ++ head ++ c ++ (gap ++ closing) := by
              intro front head gap closing c
              simp only [List.append_assoc]
            simp only [if_true, hover, hsplit]
            exact ⟨_, _, _, rfl, rfl⟩

/-! ## Two checks -/

/-- The same surroundings, where other letters are drawn. -/
def CheckEnv.redrawn (env : CheckEnv) (random' : Nat → Fin 25) : CheckEnv := { env with random := random' }

/-- One effect, but for the code in it: the same piece of a line with the one code and of that
    line with the other, or a sheet with the one and with the other. -/
inductive SameButCode (code code' : Text) : Eff → Eff → Prop where
  | same (e : Eff) : SameButCode code code' e e
  | tty (front back : Bytes) (i n : Nat) :
      SameButCode code code' (.ttyWrite (((front ++ Utf8.encode code ++ back).drop i).take n))
        (.ttyWrite (((front ++ Utf8.encode code' ++ back).drop i).take n))
  | sheet (policy : LAPolicy) (front back : NSString) (approved : Bool) :
      SameButCode code code' (.sheet policy (front ++ utf16 code ++ back) approved)
        (.sheet policy (front ++ utf16 code' ++ back) approved)

theorem formatVerifyLine_codes (code code' : Text) (colorize : Bool) : ∃ front back,
    formatVerifyLine code colorize = front ++ Utf8.encode code ++ back ∧
      formatVerifyLine code' colorize = front ++ Utf8.encode code' ++ back := by
  unfold formatVerifyLine
  cases colorize with
  | true => exact ⟨_, _, rfl, rfl⟩
  | false => exact ⟨_, _, rfl, rfl⟩

theorem encode_length {code : Text} (h : IsVerifyCode code) : (Utf8.encode code).length = 3 := by
  rw [encode_letters h.letters, List.length_map, h.length]

section

variable {code code' : Text}

theorem drop_length (h : IsVerifyCode code) (h' : IsVerifyCode code') (front back : Bytes) (i : Nat) :
    ((front ++ Utf8.encode code ++ back).drop i).length = ((front ++ Utf8.encode code' ++ back).drop i).length := by
  simp only [List.length_drop, List.length_append, encode_length h, encode_length h']

theorem writeLoop_related (h : IsVerifyCode code) (h' : IsVerifyCode code') (write : Nat → WriteResult) (front back : Bytes) :
    ∀ (fuel k i : Nat), Related (SameButCode code code')
      (writeLoop write fuel k ((front ++ Utf8.encode code ++ back).drop i))
      (writeLoop write fuel k ((front ++ Utf8.encode code' ++ back).drop i)) := by
  intro fuel
  induction fuel with
  | zero =>
    intro k i
    have hlen := drop_length h h' front back i
    cases hxs : (front ++ Utf8.encode code ++ back).drop i <;>
      cases hys : (front ++ Utf8.encode code' ++ back).drop i <;> rw [hxs, hys] at hlen
    · exact ⟨rfl, .nil⟩
    · cases hlen
    · cases hlen
    · exact ⟨rfl, .nil⟩
  | succ fuel ih =>
    intro k i
    have hlen := drop_length h h' front back i
    have hnext := fun n => @SameButCode.tty code code' front back i n
    have hrest := fun n => ih (k + 1) (i + n)
    have hagain := ih (k + 1) i
    simp only [← List.drop_drop] at hrest
    cases hxs : (front ++ Utf8.encode code ++ back).drop i <;>
      cases hys : (front ++ Utf8.encode code' ++ back).drop i <;> rw [hxs, hys] at hlen
    · exact ⟨rfl, .nil⟩
    · cases hlen
    · cases hlen
    · rw [hxs, hys] at hagain
      simp only [hxs, hys] at hnext hrest
      unfold writeLoop
      cases write k with
      | failed => exact ⟨rfl, .nil⟩
      | interrupted => exact hagain
      | wrote n => exact related_emit_bind (hnext n) (hrest n)

theorem emitVerifyCode_related (h : IsVerifyCode code) (h' : IsVerifyCode code') (env : CheckEnv) (colorAllowed : Bool) :
    Related (SameButCode code code') (emitVerifyCode env code colorAllowed) (emitVerifyCode env code' colorAllowed) := by
  refine related_bind ?_ fun _ _ => related_refl .same _
  obtain ⟨front, back, hline, hline'⟩ := formatVerifyLine_codes code code' (colorAllowed && (env.tty .verifyCode).isTerminal)
  have hlen := drop_length h h' front back 0
  rw [List.drop_zero, List.drop_zero] at hlen
  unfold writeVerifyCodeToTty
  dsimp only
  rw [hline, hline', ← hlen]
  split
  · exact related_refl .same _
  · split
    · exact related_refl .same _
    · exact writeLoop_related h h' _ front back _ _ 0

variable {env : CheckEnv} {front back : NSString}

theorem evaluatePolicy_related (chosen : LAPolicy) :
    Related (SameButCode code code') (evaluatePolicy env chosen (front ++ utf16 code ++ back))
      (evaluatePolicy env chosen (front ++ utf16 code' ++ back)) := by
  refine related_emit_bind (.sheet _ _ _ _) ?_
  split
  · exact related_emit_bind (.sheet _ _ _ _) (related_refl .same _)
  · exact related_refl .same _

theorem raiseSheet_related (uid : Uid) (path : Bytes) (pin : FileId) :
    Related (SameButCode code code') (raiseSheet env uid path pin (front ++ utf16 code ++ back))
      (raiseSheet env uid path pin (front ++ utf16 code' ++ back)) := by
  unfold raiseSheet
  split
  · exact related_refl .same _
  · refine related_emit_bind (.same _) ?_
    split
    · exact related_refl .same _
    · exact related_bind (evaluatePolicy_related _) fun _ _ => related_refl .same _

end

theorem askConsole_related (b : Build) (ctx : InvokingCtx) (env : CheckEnv) (commandInfo runArgv : List Bytes) (uid : Uid)
    (path : Bytes) (random' : Nat → Fin 25) :
    Related (SameButCode (generateVerifyNonce env.random 4) (generateVerifyNonce random' 4))
      (askConsole b ctx env commandInfo runArgv uid path)
      (askConsole b ctx (env.redrawn random') commandInfo runArgv uid path) := by
  have hcode := isVerifyCode_nonce env.random
  have hcode' := isVerifyCode_nonce random'
  have hsheet : (sheetText ctx env commandInfo runArgv path = none ∧
        sheetText ctx (env.redrawn random') commandInfo runArgv path = none) ∨
      ∃ front back, sheetText ctx env commandInfo runArgv path = some (front ++ utf16 (generateVerifyNonce env.random 4) ++ back) ∧
        sheetText ctx (env.redrawn random') commandInfo runArgv path =
          some (front ++ utf16 (generateVerifyNonce random' 4) ++ back) := by
    rcases format_codes env.alloc (some path) (some (swRunasName env commandInfo)) (checkCwd ctx commandInfo) runArgv
      (swSheetStyleFor env.osMajor) hcode hcode' with ⟨h, h'⟩ | ⟨front, back, overflow, h, h'⟩
    · exact .inl ⟨congrArg (Option.map Prod.fst) h, congrArg (Option.map Prod.fst) h'⟩
    · exact .inr ⟨front, back, congrArg (Option.map Prod.fst) h, congrArg (Option.map Prod.fst) h'⟩
  have hopen : (env.redrawn random').openTarget = env.openTarget := rfl
  have hfstat : (env.redrawn random').fstatTarget = env.fstatTarget := rfl
  unfold askConsole
  rw [hopen]
  cases env.openTarget with
  | error errno => exact related_refl .same _
  | ok u =>
    refine related_emit_bind (.same _) ?_
    rw [hfstat]
    cases env.fstatTarget with
    | error saved => exact related_refl .same _
    | ok pin =>
      refine related_emit_bind (.same _) ?_
      rcases hsheet with ⟨h, h'⟩ | ⟨front, back, h, h'⟩
      · rw [h, h']
        exact related_refl .same _
      · rw [h, h']
        refine related_bind (emitVerifyCode_related hcode hcode' env _) fun _ _ => ?_
        refine related_bind (related_refl .same _) fun _ _ => ?_
        exact raiseSheet_related uid path pin

theorem checkConsole_related (b : Build) (ctx : InvokingCtx) (env : CheckEnv) (commandInfo runArgv : List Bytes) (uid : Uid)
    (marker : Bool) (random' : Nat → Fin 25) :
    Related (SameButCode (generateVerifyNonce env.random 4) (generateVerifyNonce random' 4))
      (checkConsole b ctx env commandInfo runArgv uid marker)
      (checkConsole b ctx (env.redrawn random') commandInfo runArgv uid marker) := by
  have hdefer : deferSkips b (env.redrawn random') marker = deferSkips b env marker := rfl
  unfold checkConsole
  rw [hdefer]
  split
  · exact related_refl .same _
  · split
    · exact related_refl .same _
    · exact askConsole_related b ctx env commandInfo runArgv uid _ random'

theorem checkCaller_related (b : Build) (ctx : InvokingCtx) (env : CheckEnv) (commandInfo runArgv : List Bytes)
    (marker : Bool) (random' : Nat → Fin 25) :
    Related (SameButCode (generateVerifyNonce env.random 4) (generateVerifyNonce random' 4))
      (checkCaller b ctx env commandInfo runArgv marker)
      (checkCaller b ctx (env.redrawn random') commandInfo runArgv marker) := by
  have hsession : (env.redrawn random').session = env.session := rfl
  have hconsole : (env.redrawn random').consoleUid = env.consoleUid := rfl
  unfold checkCaller
  rw [hsession, hconsole]
  split
  · exact related_refl .same _
  · split
    · exact related_refl .same _
    · split
      · exact related_refl .same _
      · exact checkConsole_related b ctx env commandInfo runArgv _ marker random'

/-- Two checks that differ in the code they draw end alike, and do the same things in the same
    order: what is said, logged, asked and looked up is the same to the byte. On the terminal
    and in the sheets only the code differs. -/
theorem check_blind_to_code (b : Build) (ctx : InvokingCtx) (env : CheckEnv) (commandInfo runArgv : List Bytes)
    (marker : Bool) (random' : Nat → Fin 25) :
    Related (SameButCode (generateVerifyNonce env.random 4) (generateVerifyNonce random' 4))
      (sudowhatCheck b ctx env commandInfo runArgv marker)
      (sudowhatCheck b ctx (env.redrawn random') commandInfo runArgv marker) := by
  have hpam : (env.redrawn random').pamSignature = env.pamSignature := rfl
  have haudit : sudowhatAuditBundleOk (env.redrawn random') = sudowhatAuditBundleOk env := rfl
  unfold sudowhatCheck
  rw [hpam, haudit]
  split
  · exact related_refl .same _
  · split
    · exact related_refl .same _
    · exact related_emit_bind (.same _) (checkCaller_related b ctx env commandInfo runArgv marker random')

/-! ## The sheet and the terminal -/

/-- Follows what the terminal was given; `shown` is what a sheet may come up on. -/
def atSheets (shown : Bytes → NSString → Prop) : Monitor Eff Halt Bytes where
  step given e := given ++ e.ttyBytes
  ok given e :=
    match e with
    | .sheet _ text _ => shown given text
    | _ => True
  stop _ _ := True

section

variable {α : Type} {shown : Bytes → NSString → Prop}

theorem atSheets_after (es : List Eff) : ∀ given, (atSheets shown).after given es = given ++ written es := by
  induction es with
  | nil => exact fun given => (List.append_nil given).symm
  | cons e es ih =>
    intro given
    rw [Monitor.after_cons, ih, written_cons, ← List.append_assoc]
    rfl

theorem free_of_kinds {x : Act α} {ks : List EffKind} (h : OnlyKinds ks x) (hs : .sheet ∉ ks) (given : Bytes) :
    (atSheets shown).Triple (· = given) x fun a now => x.Returns a ∧ now = given ++ written x.trace := by
  have hallows : ∀ (es : List Eff) (now : Bytes), (∀ e ∈ es, e.kind ∈ ks) → (atSheets shown).Allows now es := by
    intro es
    induction es with
    | nil => exact fun _ _ => trivial
    | cons e es ih =>
      intro now he
      refine ⟨?_, ih _ fun e' he' => he e' (List.mem_cons_of_mem _ he')⟩
      cases e with
      | sheet policy text approved => exact absurd (he _ List.mem_cons_self) hs
      | _ => trivial
  rintro now rfl
  exact ⟨hallows _ _ h, fun a ha => ⟨ha, atSheets_after _ _⟩, fun _ _ => trivial⟩

theorem free_ends {x : Act α} {ks : List EffKind} (h : OnlyKinds ks x) (hs : .sheet ∉ ks) :
    (atSheets shown).Triple (fun _ => True) x fun _ _ => True := by
  intro given _
  obtain ⟨hallows, -, hstop⟩ := free_of_kinds h hs given given rfl
  exact ⟨hallows, fun _ _ => trivial, hstop⟩

variable {env : CheckEnv} {text : NSString}

theorem raiseSheet_shown (uid : Uid) (path : Bytes) (pin : FileId) :
    (atSheets shown).Triple (shown · text) (raiseSheet env uid path pin text) fun _ _ => True := by
  have hkeeps : ∀ e : Eff, e.ttyBytes = [] → e.kind ≠ .sheet → ∀ given, shown given text →
      (atSheets shown).ok given e ∧ shown ((atSheets shown).step given e) text := by
    intro e he hk given hg
    have hstep : (atSheets shown).step given e = given := by
      change given ++ e.ttyBytes = given
      rw [he, List.append_nil]
    rw [hstep]
    refine ⟨?_, hg⟩
    cases e with
    | sheet policy text approved => exact absurd rfl hk
    | _ => trivial
  have hsheet : ∀ policy approved given, shown given text →
      (atSheets shown).ok given (.sheet policy text approved) ∧
        shown ((atSheets shown).step given (.sheet policy text approved)) text := by
    intro policy approved given hg
    have hstep : (atSheets shown).step given (.sheet policy text approved) = given := List.append_nil given
    rw [hstep]
    exact ⟨hg, hg⟩
  have hfree : ∀ {ks : List EffKind} {x : Act Ret}, OnlyKinds ks x → .sheet ∉ ks →
      (atSheets shown).Triple (shown · text) x fun _ _ => True :=
    fun h hs => (free_ends h hs).conseq (fun _ _ => trivial) fun _ _ h => h
  unfold raiseSheet
  split
  · exact hfree (show OnlyKinds [.display, .target, .privilege] _ by simp) (by simp)
  · refine Monitor.triple_emit_bind (M := (shown · text)) (hkeeps (.seteuid uid true) rfl (by simp)) ?_
    split
    · exact hfree (show OnlyKinds [.display, .target, .privilege] _ by simp) (by simp)
    · refine Monitor.triple_bind (Q := fun _ => (shown · text)) ?_ fun reply => hfree (afterDialogs_kinds _ _ _ _) (by simp)
      unfold evaluatePolicy
      refine Monitor.triple_emit_bind (M := (shown · text)) (hsheet _ _) ?_
      split
      · exact Monitor.triple_emit_bind (M := (shown · text)) (hsheet _ _) (Monitor.triple_pure fun _ h => h)
      · exact Monitor.triple_pure fun _ h => h

end

/-- The sheet's last item is the code that was drawn. What the terminal was given is that code's
    verify line, cut off where the terminal stopped taking it, and then what the execute line's
    write left. -/
structure CodeShown (b : Build) (ctx : InvokingCtx) (env : CheckEnv) (commandInfo runArgv : List Bytes) (given : Bytes)
    (text : NSString) : Prop where
  isCode : IsVerifyCode (generateVerifyNonce env.random 4)
  inSheet : ∃ front closing,
    text.splitOn lf = front ++ [ns "Verify Code: " ++ utf16 (generateVerifyNonce env.random 4), [], closing]
  onTerminal : ∃ path verify, findKv commandInfo (lit "command") = some path ∧
    given = verify ++ written (emitExecLine b env (some path) runArgv .grouped none (swColorAllowed ctx)).trace ∧
    verify <+: formatVerifyLine (generateVerifyNonce env.random 4) (swColorAllowed ctx && (env.tty .verifyCode).isTerminal) ∧
    ((env.tty .verifyCode).Writable → verify =
      formatVerifyLine (generateVerifyNonce env.random 4) (swColorAllowed ctx && (env.tty .verifyCode).isTerminal))

theorem formatVerifyLine_length {code : Text} (h : IsVerifyCode code) (colorize : Bool) :
    (formatVerifyLine code colorize).length < 128 := by
  have hlen := encode_length h
  have hcoloured : (lit "sudowhat: \x1b[1mverify:\x1b[0m     \x1b[1;35m").length = 37 ∧
      (lit "\x1b[0m  \x1b[2m(compare with the dialog)\x1b[0m\n").length = 40 := by decide
  have hplain : (lit "sudowhat: verify:     ").length = 22 ∧ (lit "  (compare with the dialog)\n").length = 28 := by decide
  unfold formatVerifyLine
  cases colorize with
  | true =>
    rw [if_pos rfl, List.length_append, List.length_append, hlen, hcoloured.1, hcoloured.2]
    decide
  | false =>
    rw [if_neg Bool.false_ne_true, List.length_append, List.length_append, hlen, hplain.1, hplain.2]
    decide

theorem emitVerifyCode_given {env : CheckEnv} {code : Text} (hcode : IsVerifyCode code) {colorAllowed : Bool}
    (h : (emitVerifyCode env code colorAllowed).Returns ()) :
    written (emitVerifyCode env code colorAllowed).trace <+:
        formatVerifyLine code (colorAllowed && (env.tty .verifyCode).isTerminal) ∧
      ((env.tty .verifyCode).Writable → written (emitVerifyCode env code colorAllowed).trace =
        formatVerifyLine code (colorAllowed && (env.tty .verifyCode).isTerminal)) := by
  obtain ⟨v, hv, -⟩ := Traced.returns_bind.mp h
  have htrace : (emitVerifyCode env code colorAllowed).trace = (writeVerifyCodeToTty env code colorAllowed).trace := by
    rw [emitVerifyCode, Traced.trace_bind hv]
    exact List.append_nil _
  rw [htrace]
  unfold writeVerifyCodeToTty at hv ⊢
  dsimp only at hv ⊢
  rw [if_neg (Nat.not_le_of_lt (formatVerifyLine_length hcode _))] at hv ⊢
  cases ho : (env.tty .verifyCode).opens with
  | false =>
    rw [Bool.not_false, if_pos rfl]
    exact ⟨List.nil_prefix, fun hw => absurd hw.opens (by rw [ho]; decide)⟩
  | true =>
    rw [ho] at hv
    simp only [Bool.not_true, Bool.false_eq_true, if_false] at hv ⊢
    obtain ⟨left, hleft, -⟩ := writeLoop_delivers (env.tty .verifyCode).write env.fuel 0
      (formatVerifyLine code (colorAllowed && (env.tty .verifyCode).isTerminal))
    exact ⟨⟨left, hleft⟩, fun hw => writeLoop_written hw.succeeds _ _ _ v hv⟩

theorem sheetText_code {ctx : InvokingCtx} {env : CheckEnv} {commandInfo runArgv : List Bytes} {path : Bytes} {text : NSString}
    (h : sheetText ctx env commandInfo runArgv path = some text) : ∃ front closing,
      text.splitOn lf = front ++ [ns "Verify Code: " ++ utf16 (generateVerifyNonce env.random 4), [], closing] := by
  obtain ⟨⟨_, ov⟩, hformat, rfl⟩ := Option.map_eq_some_iff.mp h
  let i : SheetInput := ⟨some path, some (swRunasName env commandInfo), checkCwd ctx commandInfo,
    some (generateVerifyNonce env.random 4), runArgv, swSheetStyleFor env.osMajor⟩
  have hi : i.format env.alloc = some (_, ov) := hformat
  obtain ⟨path', verify, -, hv, hsplit⟩ := split_format hi
  have hverify : verifyLine env.alloc (some (generateVerifyNonce env.random 4)) = some verify := hv
  rw [verifyLine_code (isVerifyCode_nonce env.random)] at hverify
  split at hverify
  · obtain rfl := Option.some.inj hverify
    have hlines : ∀ user cwd command verify closing, ∃ front,
        sheetLines user cwd command verify closing = front ++ [verify, [], closing] := by
      intro user cwd command verify closing
      cases cwd with
      | none => exact ⟨[promptHeader, [], ns "RUN AS", user, [], ns "EXECUTE", command, []], rfl⟩
      | some d => exact ⟨[promptHeader, [], ns "RUN AS", user, [], ns "DIRECTORY", d, [], ns "EXECUTE", command, []], rfl⟩
    obtain ⟨front, hfront⟩ := hlines _ _ _ _ _
    rw [hsplit]
    exact ⟨front, _, hfront⟩
  · cases hverify

theorem askConsole_shown (b : Build) (ctx : InvokingCtx) (env : CheckEnv) {commandInfo : List Bytes} (runArgv : List Bytes)
    (uid : Uid) {path : Bytes} (hpath : findKv commandInfo (lit "command") = some path) :
    (atSheets (CodeShown b ctx env commandInfo runArgv)).Triple (· = []) (askConsole b ctx env commandInfo runArgv uid path)
      fun _ _ => True := by
  have hfree : ∀ {x : Act Ret}, OnlyKinds [.display, .target] x →
      (atSheets (CodeShown b ctx env commandInfo runArgv)).Triple (· = []) x fun _ _ => True :=
    fun h => (free_ends h (by simp)).conseq (fun _ _ => trivial) fun _ _ h => h
  have hsilent : ∀ e : Eff, e.kind = .target → ∀ given, given = [] →
      (atSheets (CodeShown b ctx env commandInfo runArgv)).ok given e ∧
        (atSheets (CodeShown b ctx env commandInfo runArgv)).step given e = [] := by
    rintro e he given rfl
    cases e <;> first | exact ⟨trivial, rfl⟩ | cases he
  unfold askConsole
  split
  · exact hfree (by simp)
  · refine Monitor.triple_emit_bind (M := (· = [])) (hsilent _ rfl) ?_
    split
    · exact hfree (by simp)
    · refine Monitor.triple_emit_bind (M := (· = [])) (hsilent _ rfl) ?_
      split
      · exact hfree (by simp)
      · rename_i text htext
        refine Monitor.triple_bind (free_of_kinds (emitVerifyCode_kinds (List.mem_singleton_self EffKind.display) _ _ _) (by simp) []) fun u => ?_
        refine Monitor.triple_fact fun hverify => ?_
        obtain ⟨hhead, hwhole⟩ := emitVerifyCode_given (isVerifyCode_nonce env.random) hverify
        refine Monitor.triple_bind (free_of_kinds (emitExecLine_kinds (List.mem_singleton_self EffKind.display) _ _ _ _ _ _ _) (by simp) _)
          fun u => ?_
        refine (raiseSheet_shown uid path _).conseq (fun given hgiven => ?_) fun _ _ h => h
        obtain ⟨-, rfl⟩ := hgiven
        exact ⟨isVerifyCode_nonce env.random, sheetText_code htext, path, _, hpath, rfl, hhead, hwhole⟩

/-- When a sheet comes up, the code it ends with is the one that was drawn and that the terminal
    was given first. -/
theorem sheet_under_its_code (b : Build) (ctx : InvokingCtx) (env : CheckEnv) (commandInfo runArgv : List Bytes)
    (marker : Bool) {pre post : List Eff} {policy : LAPolicy} {text : NSString} {approved : Bool}
    (h : (sudowhatCheck b ctx env commandInfo runArgv marker).trace = pre ++ .sheet policy text approved :: post) :
    CodeShown b ctx env commandInfo runArgv (written pre) text := by
  have hfree : ∀ {ks : List EffKind} {x : Act Ret}, OnlyKinds ks x → .sheet ∉ ks →
      (atSheets (CodeShown b ctx env commandInfo runArgv)).Triple (· = []) x fun _ _ => True :=
    fun h hs => (free_ends h hs).conseq (fun _ _ => trivial) fun _ _ h => h
  have hcheck : (atSheets (CodeShown b ctx env commandInfo runArgv)).Triple (· = [])
      (sudowhatCheck b ctx env commandInfo runArgv marker) fun _ _ => True := by
    by_cases hi : env.bundlesIntact
    · rw [sudowhatCheck_intact hi]
      refine Monitor.triple_emit_bind (M := (· = [])) (fun given hg => ⟨trivial, (List.append_nil given).trans hg⟩) ?_
      unfold checkCaller
      split
      · exact hfree (show OnlyKinds [.display] _ by simp) (by simp)
      · split
        · exact hfree (checkRoot_kinds _ _ _ _ _) (by simp)
        · split
          · exact hfree (checkNonConsole_kinds _ _ _ _ _ _ _) (by simp)
          · unfold checkConsole
            split
            · exact hfree (show OnlyKinds [.display] _ by simp) (by simp)
            · next path hpath =>
              split
              · exact hfree (show OnlyKinds [.display] _ by simp) (by simp)
              · exact askConsole_shown b ctx env runArgv _ hpath
    · exact hfree (sudowhatCheck_not_intact hi).2 (by simp)
  have hok := hcheck.at_effect rfl h
  rwa [atSheets_after] at hok

/-- A console user at a terminal that takes every line at once, asked for Touch ID. -/
def promptedCheck : CheckEnv where
  pamSignature := .ok ()
  auditExists := true
  auditSignature := .ok ()
  session := ⟨true, true, false⟩
  consoleUid := 501
  sudoLocal := none
  rootName := some (lit "root")
  pluginPrintf := true
  stderrIsTerminal := true
  tty := fun _ => ⟨true, true, fun _ => .wrote 200⟩
  conversation := none
  alloc := fun _ => true
  openTarget := .ok ()
  fstatTarget := .ok ⟨1, 2⟩
  statTarget := .ok ⟨1, 2⟩
  random := fun k => if k = 0 then 7 else 0
  osMajor := 26
  seteuidDrop := .ok ()
  seteuidBack := true
  canCompanion := false
  canBiometricsOrCompanion := false
  canDeviceOwner := .ok ()
  reply := ⟨true, none⟩
  passwordReply := ⟨false, none⟩
  fuel := 4

theorem sheet_under_its_code_prompted : ∃ pre text, CodeShown Build.stock ⟨some 501, none, none, none, true⟩ promptedCheck
    [lit "command=/bin/ls"] [lit "ls"] (written pre) text := by
  have hsheet : ((sudowhatCheck Build.stock ⟨some 501, none, none, none, true⟩ promptedCheck [lit "command=/bin/ls"]
      [lit "ls"] true).trace.any fun e => e.kind == .sheet) = true := by rfl
  obtain ⟨e, hmem, hkind⟩ := List.any_eq_true.mp hsheet
  cases e with
  | sheet policy text approved =>
    obtain ⟨pre, post, h⟩ := List.append_of_mem hmem
    exact ⟨pre, text, sheet_under_its_code _ _ _ _ _ _ h⟩
  | _ => cases hkind

end SudoWhat.Plugin
