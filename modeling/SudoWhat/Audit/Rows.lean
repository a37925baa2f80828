/-
  SudoWhat.Audit.Rows — the macOS display is rows, and colour adds nothing to them.

  The colouring helpers cut an escaped value into spans, each by its own rule, and paint
  the spans one by one. Proved: what the audit plugin writes displays the rows of the
  request (`auditBlock_displays`); with the execute line they are the rows the display
  promises, whatever the arrays hold, and stripped of colour they are the plain ones
  (`rows_unforgeable`).
-/

import SudoWhat.Audit.Display
import SudoWhat.Plugin.ExecLine

namespace SudoWhat.Audit

open SudoWhat.Lib SudoWhat.Plugin
open SudoWhat.Lib.Sgr (Span Dressed Painted paintSpans NoEmptySpan)
open SudoWhat.EscapeCore (Clean escapeBytes fullCommandLineBytes renderCommandLine)

/-! ## The colouring helpers -/

/-- The codes the helpers switch on. -/
def auditCodes : List Sgr.Code := ["1", "33", "1;36", "1;34"].map String.toList

theorem auditCodes_ok : ∀ code ∈ auditCodes, (Sgr.IsCode code ∧ code ≠ Sgr.reset) ∧ code ∈ frameCodes := by decide

/-- A span the helpers draw: under one of their codes only if there is something in it. -/
def Inked (p : Span) : Prop := ∀ code, p.code = some code → code ∈ auditCodes ∧ p.text ≠ []

theorem inked_plain (text : Text) : Inked ⟨none, text⟩ := fun _ h => by cases h

theorem inked_code {code : Sgr.Code} {text : Text} (hc : code ∈ auditCodes) (ht : text ≠ []) : Inked ⟨some code, text⟩ :=
  fun _ h => by cases h; exact ⟨hc, ht⟩

section Inked

variable {plain shown : Text}

theorem dressed_of_inked (h : Painted Inked plain shown) (hplain : Clean plain) : Dressed frameCodes plain shown :=
  h.dressed (hplain.not_mem (by decide)) (by decide) fun _ hp code hc => auditCodes_ok code (hp code hc).1

theorem noEmptySpan_of_inked (h : Painted Inked plain shown) (hplain : Clean plain) : NoEmptySpan shown :=
  h.noEmptySpan (hplain.not_mem (by decide)) fun _ hp code hc => ⟨(auditCodes_ok code (hp code hc).1).1, (hp code hc).2⟩

end Inked

theorem painted_swAuditSgr {P : Span → Prop} {code : String} {text : Text}
    (h : text ≠ [] → P ⟨some code.toList, text⟩) : Painted P text (swAuditSgr code text) := by
  have hoff : "\x1b[0m".toList = Sgr.seq Sgr.reset := by decide
  unfold swAuditSgr
  by_cases ht : text = []
  · rw [if_pos ht, ht]
    exact Sgr.painted_nil
  · rw [if_neg ht]
    have hp := Sgr.painted_span (h ht)
    rw [Span.shown] at hp
    rw [hoff]
    simpa [Sgr.seq, Sgr.esc] using hp

theorem painted_inked {code : String} (hc : code.toList ∈ auditCodes) (text : Text) :
    Painted Inked text (swAuditSgr code text) :=
  painted_swAuditSgr fun ht => inked_code hc ht

/-- Where the parent of a directory is cut, it is put together again. -/
theorem splitParent_append (parent : Text) : (splitParent parent).1 ++ (splitParent parent).2 = parent := by
  unfold splitParent
  split
  · split
    · rw [List.splitAt_eq]
      exact List.take_append_drop _ _
    · rfl
  · rfl

theorem painted_swAuditColorDir (dir : Text) : Painted Inked dir (swAuditColorDir dir) := by
  unfold swAuditColorDir
  cases lastSlash dir with
  | none => exact painted_inked (by decide) dir
  | some slash =>
    dsimp only
    rw [List.splitAt_eq]
    have hparent := splitParent_append (dir.take (slash + 1))
    have hhead : Painted Inked _ (swAuditSgr "1;36" (splitParent (dir.take (slash + 1))).1) := painted_inked (by decide) _
    have hmiddle := Sgr.painted_plain (inked_plain (splitParent (dir.take (slash + 1))).2)
    have hlast : Painted Inked _ (swAuditSgr "1" (dir.drop (slash + 1))) := painted_inked (by decide) _
    have hall := (hhead.append hmiddle).append hlast
    rwa [hparent, List.take_append_drop] at hall

theorem entryHead_append (entry : Text) : entryHead entry ++ entry.drop (entryHead entry).length = entry := by
  have hprefix : entryHead entry <+: entry := by
    unfold entryHead
    split
    · split
      · exact List.prefix_rfl
      · exact List.take_prefix _ _
    · exact List.nil_prefix
  exact List.prefix_iff_eq_append.mp hprefix

/-- A span of a list of entries: bold blue on the colons, and there only. -/
def ListSpan (p : Span) : Prop := Inked p ∧ ∀ c ∈ p.text, p.code = some ['1', ';', '3', '4'] ↔ c = ':'

theorem painted_colorEntry {entry : Text} (h : ':' ∉ entry) : Painted ListSpan entry (colorEntry entry) := by
  have hcolon : ∀ {text : Text}, (∀ c ∈ text, c ∈ entry) → ∀ c ∈ text, c ≠ ':' := by
    rintro text htext c hc rfl
    exact h (htext _ hc)
  have e := entryHead_append entry
  have hsub : ∀ c ∈ entryHead entry, c ∈ entry := fun c hc => e ▸ List.mem_append_left _ hc
  have hhead : Painted ListSpan (entryHead entry) (swAuditSgr "1;36" (entryHead entry)) := by
    refine painted_swAuditSgr fun hne => ⟨inked_code (by decide) hne, fun c hc => iff_of_false ?_ (hcolon hsub c hc)⟩
    exact (by decide : ¬ some "1;36".toList = some ['1', ';', '3', '4'])
  have htail : Painted ListSpan (entry.drop (entryHead entry).length) (entry.drop (entryHead entry).length) := by
    refine Sgr.painted_plain ⟨inked_plain _, fun c hc => iff_of_false ?_ (hcolon (fun _ => List.mem_of_mem_drop) c hc)⟩
    exact fun h => by cases h
  have hall := hhead.append htail
  rwa [e] at hall

theorem painted_colon : Painted ListSpan [':'] (swAuditSgr "1;34" [':']) := by
  refine painted_swAuditSgr fun hne => ⟨inked_code (by decide) hne, fun c hc => iff_of_true rfl ?_⟩
  exact List.mem_singleton.mp hc

theorem painted_entries : ∀ (entries : List Text) (entry : Text), (∀ e ∈ entry :: entries, ':' ∉ e) →
    Painted ListSpan ([':'].intercalate (entry :: entries))
      (colorEntry entry ++ entries.flatMap fun entry => swAuditSgr "1;34" [':'] ++ colorEntry entry) := by
  intro entries
  induction entries with
  | nil =>
    intro entry h
    simpa using painted_colorEntry (h entry List.mem_cons_self)
  | cons next entries ih =>
    intro entry h
    have hrest := ih next fun e he => h e (List.mem_cons_of_mem _ he)
    have hall := ((painted_colorEntry (h entry List.mem_cons_self)).append painted_colon).append hrest
    rw [List.intercalate_cons_cons, List.flatMap_cons]
    simpa [List.append_assoc] using hall

theorem painted_swAuditColorPathList (escaped : Text) : Painted ListSpan escaped (swAuditColorPathList escaped) := by
  have hcolons : ∀ entry ∈ escaped.splitOn ':', ':' ∉ entry := Fields.not_mem_of_mem_splitOn
  have hjoin : [':'].intercalate (escaped.splitOn ':') = escaped := List.intercalate_splitOn ':'
  unfold swAuditColorPathList
  cases hs : escaped.splitOn ':' with
  | nil => exact absurd hs (List.splitOn_ne_nil ':' escaped)
  | cons entry entries =>
    rw [hs] at hcolons hjoin
    have hall := painted_entries entries entry hcolons
    rwa [hjoin] at hall

theorem dressed_swAuditColorUser {user : Text} (h : Clean user) : Dressed frameCodes user (swAuditColorUser user) := by
  have hesc : Sgr.esc ∉ user := h.not_mem (by decide)
  unfold swAuditColorUser
  split
  · exact Sgr.dressed_plain hesc
  · have hspan : (⟨some ['3', '3'], user⟩ : Span).WellFormed := ⟨hesc, fun code hc => by cases hc; decide⟩
    have hd : Dressed frameCodes user (⟨some ['3', '3'], user⟩ : Span).shown :=
      Sgr.dressed_span hspan (by decide) fun code hc => by cases hc; decide
    have hon : "\x1b[33m".toList = Sgr.seq ['3', '3'] := by decide
    have hoff : "\x1b[0m".toList = Sgr.seq Sgr.reset := by decide
    rw [hon, hoff]
    exact hd

/-! ## Values -/

theorem rowValue_eq (allocated : Bool) (value : Option Bytes) :
    rowValue allocated value = if allocated then (given value).map escapeBytes else none := by
  rcases value with _ | _ | ⟨c, cs⟩
  · cases allocated <;> rfl
  · cases allocated <;> rfl
  · cases allocated with
    | false => rfl
    | true =>
      have hne : escapeBytes (c :: cs) ≠ [] := EscapeCore.escapeBytes_ne_nil (List.cons_ne_nil c cs)
      simp [rowValue, swAuditEscape, given, hne]

theorem userLine_eq (alloc : AllocSite → Bool) (s : Submission) :
    userLine alloc s = none ∨ userLine alloc s = some (escapeBytes (targetUser (findKvIn s.settings))) := by
  have hroot : "root".toList = escapeBytes (lit "root") := by decide
  unfold userLine targetUser swAuditEscape
  rcases findKvIn s.settings (lit "runas_user") with _ | _ | ⟨c, cs⟩
  · exact .inr (congrArg some hroot)
  · exact .inr (congrArg some hroot)
  · cases alloc .userLine with
    | false => exact .inl rfl
    | true => exact .inr rfl

theorem swAuditDirRowValue_eq (alloc : AllocSite → Bool) (s : Submission) : swAuditDirRowValue alloc s =
    if alloc .dirLine then (startDirectory (findKvIn s.settings) (findKvIn s.userInfo)).map escapeBytes else none := by
  have hcwd := rowValue_eq (alloc .dirLine) (findKvIn s.userInfo (lit "cwd"))
  unfold swAuditDirRowValue startDirectory swAuditSettingTrue
  rcases findKvIn s.settings (lit "cmnd_cwd") with _ | _ | ⟨c, cs⟩
  · by_cases hl : (findKvIn s.settings (lit "login_shell") == some (lit "true")) = true
    · simp [given, hl]
    · simp [given, hl, hcwd]
  · by_cases hl : (findKvIn s.settings (lit "login_shell") == some (lit "true")) = true
    · simp [given, hl]
    · simp [given, hl, hcwd]
  · exact rowValue_eq (alloc .dirLine) (some (c :: cs))

theorem swAuditCommandLine_spec {alloc : AllocSite → Bool} {s : Submission} {color : Bool} {line : Text}
    (h : swAuditCommandLine alloc s color = some line) : ∃ word rest, s.typed = word :: rest ∧
      Dressed frameCodes (fullCommandLineBytes word (word :: rest)) line ∧
        (color = false → line = fullCommandLineBytes word (word :: rest)) := by
  unfold swAuditCommandLine at h
  cases ht : s.typed with
  | nil => rw [ht] at h; cases h
  | cons word rest =>
    rw [ht] at h
    dsimp only at h
    split at h
    · cases h
    · have hplain : ∀ {l : Text}, swAuditRender (alloc .plain) (fullCommandLineBytes word (word :: rest)) = some l →
          l = fullCommandLineBytes word (word :: rest) := by
        intro l hl
        unfold swAuditRender at hl
        split at hl
        · exact (Option.some.inj hl).symm
        · cases hl
      have hesc : Sgr.esc ∉ fullCommandLineBytes word (word :: rest) :=
        (EscapeCore.clean_fullCommandLineBytes word (word :: rest)).not_mem (by decide)
      refine ⟨word, rest, rfl, ?_⟩
      cases color with
      | false =>
        obtain rfl := hplain h
        exact ⟨Sgr.dressed_plain hesc, fun _ => rfl⟩
      | true =>
        refine ⟨?_, fun hc => by cases hc⟩
        cases hc : alloc .coloured with
        | false =>
          obtain rfl := hplain (by simpa [swAuditRender, hc] using h)
          exact Sgr.dressed_plain hesc
        | true =>
          have e : renderCommandLine word (word :: rest) .dim = line := by simpa [swAuditRender, hc] using h
          rw [← e]
          exact dressed_frame (EscapeCore.dressed_renderCommandLine word (word :: rest) .dim)

/-! ## The block -/

def gutterGap (kind : RowKind) : Nat := if kind.label.length < auditGutter then auditGutter - kind.label.length else 1

/-- What the block can say, with the memory there is. -/
def Submission.request (alloc : AllocSite → Bool) (s : Submission) : Request where
  user := targetUser (findKvIn s.settings)
  directory := if alloc .dirLine then startDirectory (findKvIn s.settings) (findKvIn s.userInfo) else none
  typed := s.typed
  path := if swAuditIsBareName s.typed.head? && alloc .pathRow then given (findKvIn s.envp (lit "PATH")) else none

theorem swAuditPathRowValue_eq (alloc : AllocSite → Bool) (s : Submission) :
    swAuditPathRowValue alloc s = (s.request alloc).path.map escapeBytes := by
  unfold swAuditPathRowValue Submission.request
  cases swAuditIsBareName s.typed.head? with
  | false => rfl
  | true =>
    rw [if_pos rfl, rowValue_eq]
    cases alloc .pathRow <;> rfl

theorem swAuditDirRowValue_request (alloc : AllocSite → Bool) (s : Submission) :
    swAuditDirRowValue alloc s = (s.request alloc).directory.map escapeBytes := by
  rw [swAuditDirRowValue_eq, Submission.request]
  cases alloc .dirLine <;> rfl

theorem swAuditRow_shown {r : Row} {value : Text} {color : Bool} (hd : Dressed frameCodes r.value value)
    (hp : color = false → value = r.value) : r.Shown gutterGap color (swAuditRow r.kind.label value color) := by
  refine ⟨value, hd, hp, ?_⟩
  have hon : "sudowhat: \x1b[1m".toList = provenance ++ Sgr.seq ['1'] := by decide
  have hoff : "\x1b[0m".toList = Sgr.seq Sgr.reset := by decide
  have hplain : "sudowhat: ".toList = provenance := rfl
  unfold swAuditRow
  dsimp only
  rw [hon, hoff, hplain]
  cases color with
  | false => simp [paintSpans, labelFrame, gutterGap]
  | true => simp [paintSpans, labelFrame, gutterGap, Span.shown]

theorem displays_escaped {kind : RowKind} {raw : Bytes} {color : Bool} {paint : Text → Text}
    (hpaint : ∀ {v : Text}, Clean v → Dressed frameCodes v (paint v)) :
    Displays gutterGap color [Row.escaped kind raw]
      (swAuditRow kind.label (if color then paint (escapeBytes raw) else escapeBytes raw) color) := by
  have hclean := EscapeCore.clean_escapeBytes raw
  refine displays_singleton (swAuditRow_shown (r := Row.escaped kind raw) ?_ fun hc => by rw [hc]; rfl)
  cases color with
  | false => exact Sgr.dressed_plain (hclean.not_mem (by decide))
  | true => exact hpaint hclean

theorem displays_option {kind : RowKind} {value : Option Bytes} {color : Bool} {paint : Text → Text}
    (hpaint : ∀ {v : Text}, Clean v → Dressed frameCodes v (paint v)) :
    Displays gutterGap color (value.toList.map (Row.escaped kind))
      (match value.map escapeBytes with
        | some v => swAuditRow kind.label (if color then paint v else v) color
        | none => []) := by
  cases value with
  | none => exact displays_nil
  | some raw => exact displays_escaped hpaint

theorem displays_input {b : AuditBuild} {alloc : AllocSite → Bool} {s : Submission} {color : Bool} {line : Option Text} :
    inputValue b alloc s color = some line → Displays gutterGap color (inputRow s.typed)
      (match line with
        | some line => swAuditRow "input:".toList line color
        | none => []) := by
  intro h
  unfold inputValue at h
  by_cases ht : s.typed ≠ []
  · rw [if_pos ht] at h
    cases hl : swAuditCommandLine alloc s (color && b.echoColor) with
    | none => rw [hl] at h; cases h
    | some text =>
      rw [hl] at h
      dsimp only at h
      split at h
      · cases h
      · obtain rfl := Option.some.inj h
        obtain ⟨word, rest, htyped, hd, hp⟩ := swAuditCommandLine_spec hl
        rw [htyped]
        refine displays_singleton (swAuditRow_shown (r := Row.command word (word :: rest)) hd fun hc => hp ?_)
        rw [hc, Bool.false_and]
  · have hnil : s.typed = [] := not_not.mp ht
    rw [if_neg ht] at h
    rw [hnil]
    split at h
    · cases h
    · obtain rfl := Option.some.inj h
      exact displays_nil

theorem auditBlock_displays {b : AuditBuild} {alloc : AllocSite → Bool} {s : Submission} {color : Bool} {block : Text}
    (h : auditBlock b alloc s color = some block) : Displays gutterGap color (s.request alloc).rows block := by
  unfold auditBlock at h
  cases hi : inputValue b alloc s color with
  | none => rw [hi] at h; cases h
  | some line =>
    rw [hi] at h
    dsimp only at h
    rcases userLine_eq alloc s with hu | hu
    · rw [hu] at h; cases h
    · rw [hu] at h
      obtain rfl := Option.some.inj h
      rw [swAuditDirRowValue_request, swAuditPathRowValue_eq]
      have huser : Displays gutterGap color [Row.escaped .runAs (targetUser (findKvIn s.settings))] _ :=
        displays_escaped dressed_swAuditColorUser
      have hdir : Displays gutterGap color ((s.request alloc).directory.toList.map (Row.escaped .directory)) _ :=
        displays_option fun hv => dressed_of_inked (painted_swAuditColorDir _) hv
      have hpath : Displays gutterGap color ((s.request alloc).path.toList.map (Row.escaped .path)) _ :=
        displays_option fun hv => dressed_of_inked ((painted_swAuditColorPathList _).mono fun _ hp => hp.1) hv
      have hall := ((huser.append hdir).append (displays_input hi)).append hpath
      have hrows : [Row.escaped .runAs (targetUser (findKvIn s.settings))]
          ++ (s.request alloc).directory.toList.map (Row.escaped .directory) ++ inputRow s.typed
          ++ (s.request alloc).path.toList.map (Row.escaped .path) = (s.request alloc).rows := by
        simp only [Request.rows, List.append_assoc, List.singleton_append]
        rfl
      rw [hrows] at hall
      exact hall

/-! ## When there is a block -/

theorem swAuditCommandLine_color {alloc : AllocSite → Bool} {s : Submission} (color : Bool) {line : Text}
    (h : swAuditCommandLine alloc s false = some line) : (swAuditCommandLine alloc s color).isSome := by
  unfold swAuditCommandLine at h ⊢
  cases ht : s.typed with
  | nil => rw [ht] at h; cases h
  | cons word rest =>
    rw [ht] at h
    dsimp only at h ⊢
    by_cases ha : alloc .argvArrays = false
    · rw [if_pos ha] at h; cases h
    · rw [if_neg ha] at h
      have hplain : swAuditRender (alloc .plain) (fullCommandLineBytes word (word :: rest)) = some line := h
      rw [if_neg ha]
      split
      · rfl
      · rw [hplain]
        rfl

theorem swAuditCommandLine_ne_nil {alloc : AllocSite → Bool} {s : Submission} {color : Bool} {line : Text}
    (h : swAuditCommandLine alloc s color = some line) : line ≠ [] := by
  obtain ⟨word, rest, -, hd, -⟩ := swAuditCommandLine_spec h
  rintro rfl
  exact EscapeCore.fullCommandLineBytes_ne_nil word (word :: rest) hd.strip.symm

/-- An uncoloured block has a coloured one beside it, which strips to it. -/
theorem auditBlock_strip {b : AuditBuild} {alloc : AllocSite → Bool} {s : Submission} {plain : Text}
    (h : auditBlock b alloc s false = some plain) : (auditBlock b alloc s true).map Sgr.strip = some plain := by
  have hplain := (auditBlock_displays h).plain
  suffices hsome : (auditBlock b alloc s true).isSome by
    obtain ⟨shown, hs⟩ := Option.isSome_iff_exists.mp hsome
    rw [hs, Option.map_some, (auditBlock_displays hs).strip, ← hplain]
  have hinput : (inputValue b alloc s true).isSome := by
    unfold auditBlock at h
    cases hi : inputValue b alloc s false with
    | none => rw [hi] at h; cases h
    | some line =>
      unfold inputValue at hi ⊢
      by_cases ht : s.typed ≠ []
      · rw [if_pos ht] at hi ⊢
        cases hl : swAuditCommandLine alloc s (false && b.echoColor) with
        | none => rw [hl] at hi; cases hi
        | some text =>
          obtain ⟨shown, hs⟩ := Option.isSome_iff_exists.mp (swAuditCommandLine_color (true && b.echoColor) hl)
          rw [hs]
          dsimp only
          rw [if_neg (swAuditCommandLine_ne_nil hs)]
          rfl
      · rw [if_neg ht] at hi ⊢
        rw [hi]
        rfl
  obtain ⟨line, hl⟩ := Option.isSome_iff_exists.mp hinput
  unfold auditBlock at h ⊢
  rw [hl]
  cases hu : userLine alloc s with
  | none =>
    rw [hu] at h
    split at h <;> cases h
  | some user => rfl

/-- With memory enough there is a block unless there is nothing to run. -/
theorem auditBlock_none_iff {b : AuditBuild} {alloc : AllocSite → Bool} (halloc : ∀ site, alloc site = true) (s : Submission)
    (color : Bool) : auditBlock b alloc s color = none ↔ s.typed = [] ∧ swAuditRunsShell s.settings = false := by
  have huser : ∃ user, userLine alloc s = some user := by
    unfold userLine swAuditEscape
    rw [halloc]
    rcases findKvIn s.settings (lit "runas_user") with _ | _ | ⟨c, cs⟩ <;> exact ⟨_, rfl⟩
  have hinput : inputValue b alloc s color = none ↔ s.typed = [] ∧ swAuditRunsShell s.settings = false := by
    unfold inputValue
    cases ht : s.typed with
    | nil => cases swAuditRunsShell s.settings <;> simp
    | cons word rest =>
      have hline : ∃ line, swAuditCommandLine alloc s false = some line := by
        unfold swAuditCommandLine swAuditRender
        rw [ht, halloc .argvArrays, halloc .plain]
        exact ⟨_, rfl⟩
      obtain ⟨plain, hplain⟩ := hline
      obtain ⟨line, hl⟩ := Option.isSome_iff_exists.mp (swAuditCommandLine_color (color && b.echoColor) hplain)
      rw [hl]
      simp [swAuditCommandLine_ne_nil hl]
  obtain ⟨user, hu⟩ := huser
  unfold auditBlock
  rw [hu, ← hinput]
  cases inputValue b alloc s color <;> simp

/-! ## The display -/

theorem kinds_sublist (q : Request) :
    (q.rows.map Row.kind).Sublist [.runAs, .directory, .input, .path] ∧ (q.rows.map Row.kind).head? = some .runAs := by
  rw [q.kinds]
  refine ⟨?_, rfl⟩
  cases q.directory.isSome <;> cases q.path.isSome <;> by_cases ht : q.typed ≠ [] <;> simp [ht]

/-- Colour on a list of entries is one thing a character, and blue on its colons only. -/
theorem cells_swAuditColorPathList {v : Text} (hv : Clean v) :
    (Sgr.cells (swAuditColorPathList v)).map Prod.fst = v ∧
      ∀ c style, (c, style) ∈ Sgr.cells (swAuditColorPathList v) → (style = ["1;34".toList] ↔ c = ':') := by
  have hcode : ∀ p, ListSpan p → ∀ code, p.code = some code → Sgr.IsCode code ∧ code ≠ Sgr.reset :=
    fun p hp code hc => (auditCodes_ok code (hp.1 code hc).1).1
  obtain ⟨htext, hcells⟩ := (painted_swAuditColorPathList v).cells (hv.not_mem (by decide)) hcode
  refine ⟨htext, fun c style hm => ?_⟩
  obtain ⟨p, hp, hc, rfl⟩ := hcells c style hm
  rw [← hp.2 c hc]
  have e : "1;34".toList = ['1', ';', '3', '4'] := by decide
  rw [e]
  cases p.code with
  | none => exact iff_of_false (List.cons_ne_nil _ []).symm (Option.some_ne_none _).symm
  | some code =>
    exact ⟨fun h => congrArg some (List.head_eq_of_cons_eq h), fun h => congrArg (fun c => [c]) (Option.some.inj h)⟩

/-- The audit block and the execute line are rows in order, colour adds nothing but
    sequences to them, and the two helpers that slice a value keep it whole. -/
theorem rows_unforgeable :
    (∀ b alloc s color block, auditBlock b alloc s color = some block →
      ∃ texts, block = texts.flatten ∧
        List.Forall₂ (fun r text => IsRow text ∧ r.Shown gutterGap color text) (s.request alloc).rows texts ∧
        ((s.request alloc).rows.map Row.kind).Sublist [.runAs, .directory, .input, .path] ∧
        ((s.request alloc).rows.map Row.kind).head? = some .runAs) ∧
      (∀ b alloc s plain, auditBlock b alloc s false = some plain →
        (auditBlock b alloc s true).map Sgr.strip = some plain) ∧
      (∀ env path runArgv layout runas frameColor valueColor line,
        swFormatExecLine env path runArgv layout runas frameColor valueColor = some line →
          (∃ row, IsRow row ∧ line = row ++ if layout = .grouped then ['\n'] else []) ∧
            Sgr.strip line = plainExecLine path runArgv layout runas ∧
            ∀ plain, swFormatExecLine env path runArgv layout runas false false = some plain → Sgr.strip line = plain) ∧
      (∀ raw, Sgr.strip (swAuditColorDir (escapeBytes raw)) = escapeBytes raw ∧
        NoEmptySpan (swAuditColorDir (escapeBytes raw))) ∧
      ∀ raw, Sgr.strip (swAuditColorPathList (escapeBytes raw)) = escapeBytes raw ∧
        NoEmptySpan (swAuditColorPathList (escapeBytes raw)) ∧
        (Sgr.cells (swAuditColorPathList (escapeBytes raw))).map Prod.fst = escapeBytes raw ∧
        ∀ c style, (c, style) ∈ Sgr.cells (swAuditColorPathList (escapeBytes raw)) → (style = ["1;34".toList] ↔ c = ':') := by
  refine ⟨?_, fun _ _ _ _ => auditBlock_strip, ?_, ?_, ?_⟩
  · intro b alloc s color block h
    obtain ⟨texts, hflat, hrows⟩ := (auditBlock_displays h).isRow
    obtain ⟨hsub, hhead⟩ := kinds_sublist (s.request alloc)
    exact ⟨texts, hflat, hrows, hsub, hhead⟩
  · intro env path runArgv layout runas frameColor valueColor line h
    have hstrip : Sgr.strip line = plainExecLine path runArgv layout runas := (swFormatExecLine_dressed h).strip
    exact ⟨swFormatExecLine_row h, hstrip, fun plain hp => hstrip.trans (swFormatExecLine_plain hp).symm⟩
  · intro raw
    have hclean := EscapeCore.clean_escapeBytes raw
    have hpaint := painted_swAuditColorDir (escapeBytes raw)
    exact ⟨(dressed_of_inked hpaint hclean).strip, noEmptySpan_of_inked hpaint hclean⟩
  · intro raw
    have hclean := EscapeCore.clean_escapeBytes raw
    have hpaint := (painted_swAuditColorPathList (escapeBytes raw)).mono fun _ hp => hp.1
    obtain ⟨htext, hcells⟩ := cells_swAuditColorPathList hclean
    exact ⟨(dressed_of_inked hpaint hclean).strip, noEmptySpan_of_inked hpaint hclean, htext, hcells⟩

end SudoWhat.Audit
