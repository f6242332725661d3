/-
The next event of a sheet.

Which event comes next is settled by the first boundary of the marked text ahead, and
what is left afterwards is the text behind that boundary.  There is one lemma for each
kind of boundary.

The cursor of the events is always past the blanks at the beginning of a span, while the
text behind a boundary still has them.  `Ahead` allows for this: the events stand in
front of a text up to blanks.  Neither the search for boundaries nor the cleaning of a
span notices the difference.
-/
import FlatSheet.Declaration
import FlatSheet.Proofs.Cursor
import FlatSheet.Proofs.Outline

namespace FlatSheet

open Scan

/-! ### Blanks in front of a text -/

theorem isBlank_of_isSpacing {c : Char} (h : Cursor.isSpacing c = true) :
    Text.isBlank c = true := by
  simp only [Cursor.isSpacing, Bool.or_eq_true, decide_eq_true_eq] at h
  rcases h with (((rfl | rfl) | rfl) | rfl) | rfl <;> rfl

theorem isBoundary_of_isSpacing {c : Char} (h : Cursor.isSpacing c = true) (mode : ScanMode) :
    mode.isBoundary c = false := by
  simp only [Cursor.isSpacing, Bool.or_eq_true, decide_eq_true_eq] at h
  rcases h with (((rfl | rfl) | rfl) | rfl) | rfl <;> cases mode <;> rfl

theorem trim_append_of_blank {cs : List Char} (h : ∀ c ∈ cs, Text.isBlank c = true)
    (ds : List Char) : Text.trim (cs ++ ds) = Text.trim ds := by
  unfold Text.trim
  rw [List.dropWhile_append_of_pos h]

theorem closing?_blanks {blanks : List (Char × Location)}
    (h : ∀ m ∈ blanks, Cursor.isSpacing m.1 = true) (inner : Nat) (ms : List (Char × Location)) :
    Marked.closing? inner (blanks ++ ms)
      = (Marked.closing? inner ms).map fun c => { c with inside := blanks ++ c.inside } := by
  refine Marked.closing?_append_of_forall ?_ inner ms
  intro m hm
  have := isBoundary_of_isSpacing (h m hm) .topLevel
  simpa [ScanMode.isBoundary] using this

/-! ### Stretches of marked text -/

section

variable {c : Cursor .char} {mode : ScanMode}

/-- A stretch ends in front of the first boundary ahead. -/
theorem stretch_of_boundary {pre rest : List (Char × Location)} {b : Char} {x : Location}
    (hc : c.parens = 0) (hm : c.marks = pre ++ (b, x) :: rest)
    (hpre : ∀ m ∈ pre, mode.isBoundary m.1 = false) (hb : mode.isBoundary b = true) :
    ∃ c', (c.stretch mode.isBoundary).2.next? = some (.plain b, c') ∧
      (c.stretch mode.isBoundary).2.location = x ∧ c'.marks = rest ∧
      Scan.clean (c.stretch mode.isBoundary).1 = Text.trim (pre.map Prod.fst) := by
  obtain ⟨ps, hr, hw, hps, hend⟩ := Cursor.reads_stretch mode.isBoundary c
  have hmarks : ∀ m ∈ Scan.marks .char c.location ps, mode.isBoundary m.1 = false := by
    intro m hm
    exact hps _ (mem_shown_of_mem_marks hm)
  have hcut := congrArg (Marked.cut mode.isBoundary) (hm.symm.trans hr.marks)
  rw [Marked.cut_append_cons hpre hb] at hcut
  rcases hend with hnone | ⟨ch, c', hsome, hch⟩
  · rw [Cursor.marks_of_none hnone, List.append_nil, Marked.cut_of_forall hmarks] at hcut
    simp at hcut
  · rw [Cursor.marks_of_plain hsome, Marked.cut_append_cons hmarks hch] at hcut
    obtain ⟨htext, ⟨rfl, hx⟩, hrest⟩ := by simpa using hcut
    refine ⟨c', hsome, hx.symm, hrest.symm, ?_⟩
    rw [htext, hw, Scan.clean, Cursor.stripComments_written hr hc]

/-- A stretch without a boundary reaches to the end. -/
theorem stretch_of_forall (hc : c.parens = 0)
    (hm : ∀ m ∈ c.marks, mode.isBoundary m.1 = false) :
    (c.stretch mode.isBoundary).2.rest = [] ∧
      Scan.clean (c.stretch mode.isBoundary).1 = Text.trim (c.marks.map Prod.fst) := by
  obtain ⟨ps, hr, hw, hps, hend⟩ := Cursor.reads_stretch mode.isBoundary c
  rcases hend with hnone | ⟨ch, c', hsome, hch⟩
  · refine ⟨Cursor.next?_eq_none_iff.mp hnone, ?_⟩
    rw [hr.marks, Cursor.marks_of_none hnone, List.append_nil, map_fst_marks, hw, Scan.clean,
      Cursor.stripComments_written hr hc]
  · have hmem : (ch, (c.stretch mode.isBoundary).2.location) ∈ c.marks := by
      rw [hr.marks, Cursor.marks_of_plain hsome]
      simp
    have := hm _ hmem
    simp only [hch] at this
    contradiction

end

namespace Events

/-! ### Reading on, by the boundary that a stretch ends at -/

section

variable {mode : ScanMode} {c c' : Cursor .char}

theorem read_of_end (h : (c.stretch mode.isBoundary).2.rest = []) :
    read mode c = (textEvent? (Scan.clean (c.stretch mode.isBoundary).1) c.location,
      ⟨(c.stretch mode.isBoundary).2, none⟩) := by
  have hn := Cursor.next?_eq_none_iff.mpr h
  rw [read]
  split <;> rename_i hs <;> rw [hn] at hs
  · simp at hs
  · simp at hs
  · simp at hs

theorem read_of_open
    (h : (c.stretch mode.isBoundary).2.next? = some (.plain '{', c')) :
    read mode c = (some (.opened (String.ofList (Scan.clean (c.stretch mode.isBoundary).1))
      (c.stretch mode.isBoundary).2.location), ⟨c'.skipTrivia, none⟩) := by
  rw [read]
  split <;> rename_i hs <;> rw [h] at hs
  · simp at hs
  · obtain rfl := by simpa using hs
    rfl
  · simp at hs
  · rename_i hne _
    obtain ⟨rfl, -⟩ := by simpa using hs
    exact (hne rfl).elim

/-- Text in front of a closing brace comes before it. -/
theorem read_of_close_of_some {event : Event}
    (h : (c.stretch ScanMode.nested.isBoundary).2.next? = some (.plain '}', c'))
    (ht : textEvent? (Scan.clean (c.stretch ScanMode.nested.isBoundary).1) c.location
      = some event) :
    read .nested c = (some event,
      ⟨c'.skipTrivia, some (.closed (c.stretch ScanMode.nested.isBoundary).2.location)⟩) := by
  rw [read]
  split <;> rename_i hs <;> rw [h] at hs
  · simp at hs
  · simp at hs
  · obtain rfl := by simpa using hs
    simp only [ht]
  · rename_i hne
    obtain ⟨rfl, -⟩ := by simpa using hs
    exact (hne rfl).elim

/-- No text comes before a closing brace outside all blocks, or when there is none. -/
theorem read_of_close
    (h : (c.stretch mode.isBoundary).2.next? = some (.plain '}', c'))
    (ht : mode = .topLevel ∨
      textEvent? (Scan.clean (c.stretch mode.isBoundary).1) c.location = none) :
    read mode c
      = (some (.closed (c.stretch mode.isBoundary).2.location), ⟨c'.skipTrivia, none⟩) := by
  rw [read]
  split <;> rename_i hs <;> rw [h] at hs
  · simp at hs
  · simp at hs
  · obtain rfl := by simpa using hs
    rcases ht with rfl | ht
    · rfl
    · cases mode with
      | topLevel => rfl
      | nested => simp only [ht]
  · rename_i hne
    obtain ⟨rfl, -⟩ := by simpa using hs
    exact (hne rfl).elim

theorem read_of_semicolon
    (h : (c.stretch mode.isBoundary).2.next? = some (.plain ';', c')) :
    read mode c =
      match textEvent? (Scan.clean (c.stretch mode.isBoundary).1) c.location with
      | some e => (some e, ⟨c'.skipTrivia, none⟩)
      | none => read mode c'.skipTrivia := by
  rw [read]
  split <;> rename_i hs <;> rw [h] at hs
  · simp at hs
  · simp at hs
  · simp at hs
  · obtain ⟨rfl, rfl⟩ := by simpa using hs
    rfl

end

/-- A closing that waits comes first. -/
theorem next_of_queued {e : Events} {event : Event} (h : e.queued = some event)
    (mode : ScanMode) : e.next mode = (some event, ⟨e.cursor, none⟩) := by
  unfold next
  rw [h]

theorem next_of_not_queued {e : Events} (h : e.queued = none) (mode : ScanMode) :
    e.next mode = read mode e.cursor := by
  unfold next
  rw [h]

/-! ### The text ahead of the events -/

/-- The events stand in front of a marked text, up to blanks. -/
structure Ahead (e : Events) (ms : List (Char × Location)) : Prop where
  queued : e.queued = none
  parens : e.cursor.parens = 0
  marks : ∃ blanks, (∀ m ∈ blanks, Cursor.isSpacing m.1 = true) ∧ ms = blanks ++ e.cursor.marks

theorem ahead_skipTrivia {c : Cursor .char} (hc : c.parens = 0) :
    Ahead ⟨c.skipTrivia, none⟩ c.marks := by
  obtain ⟨ps, hr, hs⟩ := c.reads_skipTrivia
  refine ⟨rfl, ?_, Scan.marks .char c.location ps, ?_, hr.marks⟩
  · rw [Cursor.parens_skipTrivia, hc]
  · intro m hm
    exact hs _ (mem_shown_of_mem_marks hm)

theorem ahead_ofText (text : String) :
    (ofText text).Ahead (Cursor.ofText text.toList).marks :=
  ahead_skipTrivia rfl

section

variable {e : Events} {mode : ScanMode} {pre rest : List (Char × Location)} {x : Location}

/-- Up to the blanks, the events stand in front of the same boundary as the text. -/
theorem Ahead.stretch {b : Char} (h : e.Ahead (pre ++ (b, x) :: rest))
    (hpre : ∀ m ∈ pre, mode.isBoundary m.1 = false) (hb : mode.isBoundary b = true) :
    ∃ c', (e.cursor.stretch mode.isBoundary).2.next? = some (.plain b, c') ∧
      (e.cursor.stretch mode.isBoundary).2.location = x ∧ c'.marks = rest ∧
      Scan.clean (e.cursor.stretch mode.isBoundary).1 = Text.trim (pre.map Prod.fst) := by
  obtain ⟨-, hparens, blanks, hblank, hms⟩ := h
  -- The first boundary is no blank, so the blanks end in front of it.
  have hsplit : ∃ pre', pre = blanks ++ pre' ∧ e.cursor.marks = pre' ++ (b, x) :: rest := by
    rcases List.append_eq_append_iff.mp hms with ⟨after, hblanks, hrest⟩ | ⟨pre', hpre', hrest⟩
    · rcases after with _ | ⟨m, after⟩
      · exact ⟨[], by rw [hblanks]; simp, hrest.symm⟩
      · obtain ⟨rfl, -⟩ := by simpa using hrest
        have := isBoundary_of_isSpacing (hblank (b, x) (by simp [hblanks])) mode
        simp [hb] at this
    · exact ⟨pre', hpre', hrest⟩
  obtain ⟨pre', rfl, hrest⟩ := hsplit
  obtain ⟨c', hnext, hx, hmarks, hclean⟩ :=
    stretch_of_boundary hparens hrest (fun m hm => hpre m (by simp [hm])) hb
  refine ⟨c', hnext, hx, hmarks, ?_⟩
  rw [hclean, List.map_append, trim_append_of_blank]
  intro ch hch
  obtain ⟨m, hm, rfl⟩ := List.mem_map.mp hch
  exact isBlank_of_isSpacing (hblank m hm)

/-! ### The next event, by the first boundary ahead -/

theorem next_of_ahead {ms : List (Char × Location)} (h : e.Ahead ms) (mode : ScanMode) :
    e.next mode = read mode e.cursor :=
  next_of_not_queued h.queued mode

theorem ahead_of_boundary {c c' : Cursor .char} {b : Char} (h : c.next? = some (.plain b, c'))
    (hb : b = '{' ∨ b = '}' ∨ b = ';') : Ahead ⟨c'.skipTrivia, none⟩ c'.marks :=
  ahead_skipTrivia (Cursor.parens_of_brace h hb)

theorem textEvent?_of_ne_nil {text : List Char} (h : text ≠ []) (l : Location) :
    textEvent? text l = some (.text (String.ofList text) l) := by
  unfold textEvent?
  rw [if_neg (by simpa using h)]

theorem next_of_open (h : e.Ahead (pre ++ ('{', x) :: rest))
    (hpre : ∀ m ∈ pre, mode.isBoundary m.1 = false) :
    ∃ e', e.next mode = (some (.opened (trimmed (pre.map Prod.fst)) x), e') ∧ e'.Ahead rest := by
  have hb : mode.isBoundary '{' = true := by cases mode <;> rfl
  obtain ⟨c', hnext, rfl, rfl, hclean⟩ := h.stretch hpre hb
  refine ⟨⟨c'.skipTrivia, none⟩, ?_, ahead_of_boundary hnext (by simp)⟩
  rw [next_of_ahead h, read_of_open hnext, hclean]
  rfl

theorem next_of_stray (h : e.Ahead (pre ++ ('}', x) :: rest))
    (hpre : ∀ m ∈ pre, ScanMode.topLevel.isBoundary m.1 = false) :
    ∃ e', e.next .topLevel = (some (.closed x), e') ∧ e'.Ahead rest := by
  obtain ⟨c', hnext, rfl, rfl, -⟩ := h.stretch hpre rfl
  refine ⟨⟨c'.skipTrivia, none⟩, ?_, ahead_of_boundary hnext (by simp)⟩
  rw [next_of_ahead h, read_of_close hnext (Or.inl rfl)]

theorem next_of_blank_close (h : e.Ahead (pre ++ ('}', x) :: rest))
    (hpre : ∀ m ∈ pre, ScanMode.nested.isBoundary m.1 = false)
    (hblank : Text.trim (pre.map Prod.fst) = []) :
    ∃ e', e.next .nested = (some (.closed x), e') ∧ e'.Ahead rest := by
  obtain ⟨c', hnext, rfl, rfl, hclean⟩ := h.stretch hpre rfl
  refine ⟨⟨c'.skipTrivia, none⟩, ?_, ahead_of_boundary hnext (by simp)⟩
  rw [next_of_ahead h, read_of_close hnext (Or.inr ?_)]
  rw [hclean, hblank]
  rfl

/-- A declaration that the closing brace ends comes first, and the closing waits. -/
theorem next_of_text_close (h : e.Ahead (pre ++ ('}', x) :: rest))
    (hpre : ∀ m ∈ pre, ScanMode.nested.isBoundary m.1 = false)
    (htext : Text.trim (pre.map Prod.fst) ≠ []) :
    ∃ l c, e.next .nested = (some (.text (trimmed (pre.map Prod.fst)) l), ⟨c, some (.closed x)⟩) ∧
      Ahead ⟨c, none⟩ rest := by
  obtain ⟨c', hnext, rfl, rfl, hclean⟩ := h.stretch hpre rfl
  refine ⟨e.cursor.location, c'.skipTrivia, ?_, ahead_of_boundary hnext (by simp)⟩
  rw [next_of_ahead h, read_of_close_of_some hnext]
  rw [hclean, textEvent?_of_ne_nil htext]
  rfl

/-- Blank text in front of a semicolon is passed over. -/
theorem next_of_blank_semicolon (h : e.Ahead (pre ++ (';', x) :: rest))
    (hpre : ∀ m ∈ pre, ScanMode.nested.isBoundary m.1 = false)
    (hblank : Text.trim (pre.map Prod.fst) = []) :
    ∃ e' : Events, e.next .nested = e'.next .nested ∧ e'.Ahead rest := by
  obtain ⟨c', hnext, rfl, rfl, hclean⟩ := h.stretch hpre rfl
  refine ⟨⟨c'.skipTrivia, none⟩, ?_, ahead_of_boundary hnext (by simp)⟩
  rw [next_of_ahead h, read_of_semicolon hnext, hclean, hblank]
  rfl

theorem next_of_text_semicolon (h : e.Ahead (pre ++ (';', x) :: rest))
    (hpre : ∀ m ∈ pre, ScanMode.nested.isBoundary m.1 = false)
    (htext : Text.trim (pre.map Prod.fst) ≠ []) :
    ∃ l e', e.next .nested = (some (.text (trimmed (pre.map Prod.fst)) l), e') ∧
      e'.Ahead rest := by
  obtain ⟨c', hnext, rfl, rfl, hclean⟩ := h.stretch hpre rfl
  refine ⟨e.cursor.location, ⟨c'.skipTrivia, none⟩, ?_, ahead_of_boundary hnext (by simp)⟩
  rw [next_of_ahead h, read_of_semicolon hnext, hclean, textEvent?_of_ne_nil htext]
  rfl

/-- Text without a boundary is the last text of the sheet, if it is any. -/
theorem next_of_forall {ms : List (Char × Location)} (h : e.Ahead ms)
    (hms : ∀ m ∈ ms, mode.isBoundary m.1 = false) :
    ∃ l e', e.next mode = (textEvent? (Text.trim (ms.map Prod.fst)) l, e') ∧
      e'.queued = none ∧ e'.cursor.rest = [] := by
  obtain ⟨hqueued, hparens, blanks, hblank, rfl⟩ := h
  obtain ⟨hend, hclean⟩ := stretch_of_forall hparens fun m hm => hms m (by simp [hm])
  refine ⟨e.cursor.location, ⟨(e.cursor.stretch mode.isBoundary).2, none⟩, ?_, rfl, hend⟩
  unfold next
  rw [hqueued, read_of_end hend, hclean, List.map_append, trim_append_of_blank]
  intro ch hch
  obtain ⟨m, hm, rfl⟩ := List.mem_map.mp hch
  exact isBlank_of_isSpacing (hblank m hm)

/-- Nothing follows the end of the sheet. -/
theorem next_of_rest_eq_nil (hqueued : e.queued = none) (hrest : e.cursor.rest = [])
    (mode : ScanMode) : e.next mode = (none, e) := by
  have hs : e.cursor.stretch mode.isBoundary = ([], e.cursor) := by
    rw [Cursor.stretch]
    split <;> rename_i hs <;> rw [Cursor.next?_eq_none_iff.mpr hrest] at hs
    · simp at hs
    · simp at hs
  have hclean : Scan.clean [] = [] := by
    rw [Scan.clean, Scan.stripComments, Cursor.visible_eq]
    show Text.trim (shown (Scan.pieces 0 [])) = []
    rw [pieces_nil]
    rfl
  obtain ⟨c, queued⟩ := e
  obtain rfl : queued = none := hqueued
  show read mode c = _
  rw [read_of_end (by rw [hs]; exact hrest), hs, hclean]
  rfl

/-! ### Skipping a block -/

theorem skipBlock_of_closing {ms : List (Char × Location)} {c : Marked.Closing Location}
    (h : e.Ahead ms) (hc : Marked.closing? 0 ms = some c) :
    ∃ e', e.skipBlock = (true, e') ∧ e'.Ahead c.after := by
  obtain ⟨hqueued, hparens, blanks, hblank, rfl⟩ := h
  rw [closing?_blanks hblank] at hc
  obtain ⟨d, hd, rfl⟩ := Option.map_eq_some_iff.mp hc
  obtain ⟨hplace, hafter⟩ := e.cursor.closingBrace_eq 0
  obtain ⟨hmarks, hzero⟩ := hafter d hd
  refine ⟨⟨(e.cursor.closingBrace 0).2.skipTrivia, none⟩, ?_, ?_⟩
  · rw [skipBlock, hplace, hd, hqueued]
    rfl
  · rw [← hmarks]
    exact ahead_skipTrivia hzero

theorem skipBlock_of_none {ms : List (Char × Location)} (h : e.Ahead ms)
    (hc : Marked.closing? 0 ms = none) : e.skipBlock.1 = false := by
  obtain ⟨hqueued, hparens, blanks, hblank, rfl⟩ := h
  rw [closing?_blanks hblank, Option.map_eq_none_iff] at hc
  rw [skipBlock, (e.cursor.closingBrace_eq 0).offset, hc]
  rfl

end

end Events

end FlatSheet
