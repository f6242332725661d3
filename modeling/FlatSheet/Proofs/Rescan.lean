/-
Cleaning scans a span once more.

A text or a selector is cut out of the sheet as it stands there, comments included, and
only then scanned again for its comments.  This second scan knows nothing of the sheet.
It begins with no parenthesis open, and it ends where the span ends, so that a slash at
the very end meets no second one.

It still takes away exactly what the scan of the sheet took for comments.  Where a span
begins no parenthesis is open in the sheet either, and a span begins and ends between
pieces, so it has on its own the pieces that it has in the sheet.  Both are true of every
place that can be reached, also behind blocks that were skipped.
-/
import FlatSheet.Proofs.Calls
import FlatSheet.Proofs.Flatten
import FlatSheet.Proofs.Guarded
import FlatSheet.Proofs.TextPlace

namespace FlatSheet

open Scan

/-! ### What a scan of the sheet meets -/

/-- What the scan of a sheet meets outside comments from one byte offset up to another. -/
def outside (source : String) (start stop : Nat) : List Char :=
  ((sheetMarks source).filter fun m => start ≤ m.2.offset && m.2.offset < stop).map Prod.fst

/-- The marks of a text are in front of its end. -/
theorem Scan.offset_lt_of_mem_marks {g : Grain} {l : Location} {ps : List Piece}
    {m : Char × Location} (h : m ∈ marks g l ps) : m.2.offset < (l.past g (written ps)).offset := by
  obtain ⟨before, after, hmarks⟩ := List.append_of_mem h
  obtain ⟨qs, rs, rfl, -, hplace, -⟩ := exists_of_marks_eq hmarks
  have hbehind := Location.offset_le_past g (m.2.step g m.1) (written rs)
  have hpos := g.bytes_pos m.1
  have hwritten : written (qs ++ .plain m.1 :: rs) = written qs ++ m.1 :: written rs := by
    simp [Piece.text]
  rw [hwritten, Location.past_append, ← hplace, Location.past_cons]
  rw [Location.step_offset] at hbehind
  omega

/-- Of three parts of a text the offsets tell the marks of the one in the middle. -/
theorem Scan.filter_marks_append (l : Location) (ps qs rs : List Piece) :
    (marks .char l (ps ++ (qs ++ rs))).filter (fun m =>
        (l.past .char (written ps)).offset ≤ m.2.offset &&
          m.2.offset < (l.past .char (written (ps ++ qs))).offset)
      = marks .char (l.past .char (written ps)) qs := by
  have hbehind : l.past .char (written (ps ++ qs))
      = (l.past .char (written ps)).past .char (written qs) := by
    simp
  rw [marks_append, marks_append, hbehind, List.filter_append, List.filter_append]
  have hfront : (marks .char l ps).filter (fun m =>
      (l.past .char (written ps)).offset ≤ m.2.offset &&
        m.2.offset < ((l.past .char (written ps)).past .char (written qs)).offset) = [] := by
    rw [List.filter_eq_nil_iff]
    intro m hm
    have hlt := offset_lt_of_mem_marks hm
    simp only [Bool.and_eq_true, decide_eq_true_eq]
    omega
  have hmiddle : (marks .char (l.past .char (written ps)) qs).filter (fun m =>
      (l.past .char (written ps)).offset ≤ m.2.offset &&
        m.2.offset < ((l.past .char (written ps)).past .char (written qs)).offset)
      = marks .char (l.past .char (written ps)) qs := by
    rw [List.filter_eq_self]
    intro m hm
    have hle := offset_le_of_mem_marks hm
    have hlt := offset_lt_of_mem_marks hm
    simp only [Bool.and_eq_true, decide_eq_true_eq]
    omega
  have hback : (marks .char ((l.past .char (written ps)).past .char (written qs)) rs).filter
      (fun m => (l.past .char (written ps)).offset ≤ m.2.offset &&
        m.2.offset < ((l.past .char (written ps)).past .char (written qs)).offset) = [] := by
    rw [List.filter_eq_nil_iff]
    intro m hm
    have hle := offset_le_of_mem_marks hm
    simp only [Bool.and_eq_true, decide_eq_true_eq]
    omega
  rw [hfront, hmiddle, hback, List.nil_append, List.append_nil]

section

variable {source : String} {start stop : Cursor .char} {ps qs : List Piece}

/-- What is outside comments between two places of a scan is what the pieces between them show. -/
theorem outside_of_reads (hstart : (Cursor.ofText source.toList).Reads ps start)
    (hstop : start.Reads qs stop) :
    outside source start.location.offset stop.location.offset = shown qs := by
  have hpieces : Scan.pieces 0 source.toList = ps ++ (qs ++ stop.pieces) := by
    rw [← hstop.pieces]
    exact hstart.pieces
  have hfilter := filter_marks_append .start ps qs stop.pieces
  rw [outside, sheetMarks, hpieces, (hstart.trans hstop).location, hstart.location]
  exact (congrArg (List.map Prod.fst) hfilter).trans (map_fst_marks .char _ qs)

end

namespace Events

/-! ### Spans -/

/-- A span, cut out of a sheet that is read from a cursor on: the place where a text or a selector begins,
the one in front of the boundary behind it, and the part of the sheet between the two. -/
structure Cut (source : String) (mode : ScanMode) (c start stop : Cursor .char) (raw : List Char) :
    Prop where
  scanned : ∃ ps, (Cursor.ofText source.toList).Reads ps start
  ahead : ∃ ps, c.Reads ps start
  begins : start.BeginsSpan
  ends : start.stretch mode.isBoundary = (raw, stop)
  slice : Guarded.slice? source.toList start.location.offset stop.location.offset = some raw

/-- An event is built from a span: a text at the place where the span begins, or an opening at the place
of the brace behind it. -/
inductive Built (start stop : Cursor .char) (raw : List Char) : Event → Prop where
  | text (h : Scan.clean raw ≠ []) :
      Built start stop raw (.text (String.ofList (Scan.clean raw)) start.location)
  | opened {behind : Cursor .char} (h : stop.next? = some (.plain '{', behind)) :
      Built start stop raw (.opened (String.ofList (Scan.clean raw)) stop.location)

section

variable {source : String} {mode : ScanMode} {c start stop : Cursor .char} {raw : List Char}

theorem cut_stretch (hscanned : ∃ ps, (Cursor.ofText source.toList).Reads ps c)
    (hc : c.BeginsSpan) (mode : ScanMode) :
    Cut source mode c c (c.stretch mode.isBoundary).2 (c.stretch mode.isBoundary).1 := by
  obtain ⟨ps, hps⟩ := hscanned
  obtain ⟨qs, hqs, hwritten, -⟩ := c.reads_stretch mode.isBoundary
  refine ⟨⟨ps, hps⟩, ⟨[], .refl c⟩, hc, rfl, ?_⟩
  rw [hwritten]
  exact Guarded.slice?_of_reads hps hqs

/-- **Both scans agree on a span.** -/
theorem Cut.stripComments_eq (h : Cut source mode c start stop raw) :
    Scan.stripComments raw = outside source start.location.offset stop.location.offset := by
  obtain ⟨ps, hps⟩ := h.scanned
  obtain ⟨qs, hqs, hwritten, -⟩ := start.reads_stretch mode.isBoundary
  simp only [h.ends] at hqs hwritten
  rw [outside_of_reads hps hqs, hwritten]
  rcases h.begins with hrest | ⟨hparens, -⟩
  · -- At the end of the sheet parentheses may be open, but nothing is read any more.
    have hempty := hqs.rest
    rw [hrest] at hempty
    have hnil : written qs = [] := (List.append_eq_nil_iff.mp hempty.symm).1
    have hshown : shown qs = [] := List.sublist_nil.mp (hnil ▸ shown_sublist_written qs)
    rw [hnil, hshown]
    exact Cursor.stripComments_of_ne_slash (by simp)
  · exact Cursor.stripComments_written hqs hparens

theorem built_of_textEvent? {event : Event}
    (h : textEvent? (Scan.clean raw) start.location = some event) : Built start stop raw event := by
  obtain ⟨hne, rfl⟩ := textEvent?_eq_some h
  exact .text hne

/-- What is read is a closing, or it is built from a span. -/
theorem exists_cut_of_read {event : Event} {e : Events}
    (hscanned : ∃ ps, (Cursor.ofText source.toList).Reads ps c) (hc : c.BeginsSpan)
    (h : read mode c = (some event, e)) :
    (∃ l, event = .closed l) ∨
      ∃ start stop raw, Cut source mode c start stop raw ∧ Built start stop raw event := by
  fun_induction read mode c with
  | case1 c s text hn =>
      have hcut := cut_stretch hscanned hc mode
      exact Or.inr ⟨c, _, _, hcut, built_of_textEvent? (Prod.mk.inj h).1⟩
  | case2 c s text c' hn =>
      obtain ⟨rfl, -⟩ := by simpa using h
      exact Or.inr ⟨c, _, _, cut_stretch hscanned hc mode, .opened hn⟩
  | case3 c s text c' hn close ev hev =>
      obtain ⟨rfl, -⟩ := by simpa using h
      exact Or.inr ⟨c, _, _, cut_stretch hscanned hc _, built_of_textEvent? hev⟩
  | case4 c s text c' hn close hno =>
      obtain ⟨rfl, -⟩ := by simpa using h
      exact Or.inl ⟨_, rfl⟩
  | case5 c s text p c' _ _ hn ev hev =>
      obtain ⟨rfl, -⟩ := by simpa using h
      exact Or.inr ⟨c, _, _, cut_stretch hscanned hc mode, built_of_textEvent? hev⟩
  | case6 c s text p c' _ _ hn hev ih =>
      -- The span was empty, and the next one begins further on.
      obtain ⟨ps, hps⟩ := hscanned
      obtain ⟨qs, hqs⟩ := reads_behind hn
      rcases ih ⟨_, hps.trans hqs⟩ (beginsSpan_behind hn) h with hclosed |
        ⟨start, stop, raw, hcut, hbuilt⟩
      · exact Or.inl hclosed
      · obtain ⟨rs, hrs⟩ := hcut.ahead
        exact Or.inr ⟨start, stop, raw, { hcut with ahead := ⟨_, hqs.trans hrs⟩ }, hbuilt⟩

end

/-- **Cleaning takes away what the scan took for comments.**  After any calls the events stand where a
span begins, with no parenthesis open, or at the end of the sheet.  Whatever event comes next is a
closing, or it is built from a span, and removing the comments of that part of the sheet leaves what
the scan of the sheet meets there outside comments. -/
theorem stripComments_eq_outside (source : String) (calls : List Call) :
    ((ofText source).after calls).cursor.BeginsSpan ∧
      ∀ mode event e', ((ofText source).after calls).next mode = (some event, e') →
        (∃ l, event = .closed l) ∨
          ∃ start stop raw,
            Cut source mode ((ofText source).after calls).cursor start stop raw ∧
              Built start stop raw event ∧
              Scan.stripComments raw
                = outside source start.location.offset stop.location.offset := by
  have hreached : Reached source ((ofText source).after calls) := reached_iff.mpr ⟨calls, rfl⟩
  refine ⟨hreached.beginsSpan, ?_⟩
  intro mode event e' hn
  rcases hq : ((ofText source).after calls).queued with _ | waiting
  · rw [next_of_not_queued hq] at hn
    rcases exists_cut_of_read hreached.within.reads hreached.beginsSpan hn with hclosed |
      ⟨start, stop, raw, hcut, hbuilt⟩
    · exact Or.inl hclosed
    · exact Or.inr ⟨start, stop, raw, hcut, hbuilt, hcut.stripComments_eq⟩
  · -- Only a closing waits.
    obtain ⟨l, rfl⟩ := hreached.within.queued waiting hq
    rw [next_of_queued hq] at hn
    obtain ⟨rfl, -⟩ := by simpa using hn
    exact Or.inl ⟨l, rfl⟩

/-- Behind a block that was skipped, a selector with slashes in parentheses, with a semicolon that closes
them, with a comment behind that one, and with a slash at its end. -/
theorem stripComments_eq_outside_skipped :
    (((ofText "p\x7bq\x7d/*;*/ a(//b;c//d\n /* \x7b */e/\x7b").after [.next .topLevel, .skip]).next
        .topLevel).1 = some (.opened "a(//b;c\n e/" ⟨2, 11, 31⟩) ∧
      ∃ start stop raw,
        Cut "p\x7bq\x7d/*;*/ a(//b;c//d\n /* \x7b */e/\x7b" .topLevel
            ((ofText "p\x7bq\x7d/*;*/ a(//b;c//d\n /* \x7b */e/\x7b").after
              [.next .topLevel, .skip]).cursor start stop raw ∧
          Scan.stripComments raw
            = outside "p\x7bq\x7d/*;*/ a(//b;c//d\n /* \x7b */e/\x7b" start.location.offset
                stop.location.offset := by
  have hevent : (((ofText "p\x7bq\x7d/*;*/ a(//b;c//d\n /* \x7b */e/\x7b").after
      [.next .topLevel, .skip]).next .topLevel).1
        = some (.opened "a(//b;c\n e/" ⟨2, 11, 31⟩) := by
    decide +kernel
  obtain ⟨-, hnext⟩ := stripComments_eq_outside
    "p\x7bq\x7d/*;*/ a(//b;c//d\n /* \x7b */e/\x7b" [.next .topLevel, .skip]
  rcases hnext .topLevel _ _ (Prod.ext hevent rfl) with ⟨l, hclosed⟩ |
    ⟨start, stop, raw, hcut, -, hstrip⟩
  · cases hclosed
  · exact ⟨hevent, start, stop, raw, hcut, hstrip⟩

end Events

end FlatSheet
