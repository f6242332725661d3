/-
No text is lost, and none comes twice.

The events of a sheet hold all of its text that is outside comments.  Blanks may be left
out, since texts and selectors come without those around them, and so are semicolons,
which only end declarations.  Everything else of the sheet is in one event, once, and in
its place.

This is a matter of single calls.  What is still to come of a sheet is a closing that
waits and the text ahead, and each event takes off it what the event holds
(`next_accounts`).  A call that answers no event leaves nothing to come.
-/
import FlatSheet.Proofs.WellFormed

namespace FlatSheet

open Scan

/-- A character that the events keep: neither a blank nor a semicolon. -/
def isKept (c : Char) : Bool := !(Text.isBlank c || c = ';')

/-- The part of a sheet that an event holds. -/
def Event.payload : Event → List Char
  | text t _ => t.toList
  | opened selector _ => selector.toList ++ ['{']
  | closed _ => ['}']

theorem filter_isKept_semicolon (cs : List Char) : (';' :: cs).filter isKept = cs.filter isKept :=
  List.filter_cons_of_neg (by decide)

theorem filter_isKept_of_blank {cs : List Char} (h : ∀ c ∈ cs, Text.isBlank c = true) :
    cs.filter isKept = [] := by
  rw [List.filter_eq_nil_iff]
  intro c hc
  simp [isKept, h c hc]

theorem filter_isKept_trim (cs : List Char) :
    (Text.trim cs).filter isKept = cs.filter isKept := by
  obtain ⟨before, behind, hsplit, hbefore, hbehind⟩ := Text.exists_trim cs
  conv_rhs => rw [hsplit]
  rw [List.filter_append, List.filter_append, filter_isKept_of_blank hbefore,
    filter_isKept_of_blank hbehind, List.nil_append, List.append_nil]

namespace Cursor

variable {c c' : Cursor .char}

theorem visible_of_reads {ps : List Piece} (h : c.Reads ps c') :
    c.visible = shown ps ++ c'.visible := by
  rw [visible_eq, visible_eq, h.pieces, shown_append]

theorem visible_of_plain {ch : Char} (h : c.next? = some (.plain ch, c')) :
    c.visible = ch :: c'.visible :=
  visible_of_reads (.of_next? h)

theorem visible_of_rest_eq_nil (h : c.rest = []) : c.visible = [] := by
  rw [visible_eq, pieces, h, pieces_nil, shown_nil]

/-- Trivia holds nothing that is kept. -/
theorem filter_visible_skipTrivia (c : Cursor .char) :
    c.skipTrivia.visible.filter isKept = c.visible.filter isKept := by
  obtain ⟨ps, hr, hs⟩ := c.reads_skipTrivia
  rw [visible_of_reads hr, List.filter_append,
    filter_isKept_of_blank fun ch hch => isBlank_of_isSpacing (hs ch hch), List.nil_append]

/-- What a span holds and what is behind it make up the text ahead. -/
theorem filter_visible_stretch (isBoundary : Char → Bool) (hc : c.parens = 0) :
    c.visible.filter isKept
      = (Scan.clean (c.stretch isBoundary).1 ++ (c.stretch isBoundary).2.visible).filter isKept := by
  obtain ⟨ps, hr, hw, -, -⟩ := c.reads_stretch isBoundary
  rw [visible_of_reads hr, hw, Scan.clean, stripComments_written hr hc, List.filter_append,
    List.filter_append, filter_isKept_trim]

theorem filter_visible_boundary {isBoundary : Char → Bool} {b : Char} (hc : c.parens = 0)
    (hn : (c.stretch isBoundary).2.next? = some (.plain b, c')) :
    c.visible.filter isKept
      = (Scan.clean (c.stretch isBoundary).1 ++ b :: c'.skipTrivia.visible).filter isKept := by
  rw [filter_visible_stretch isBoundary hc, visible_of_plain hn, List.filter_append,
    List.filter_append, List.filter_cons, List.filter_cons, filter_visible_skipTrivia]

/-- Only a boundary ends a span. -/
theorem exists_boundary_of_stretch {isBoundary : Char → Bool} {p : Piece}
    (hn : (c.stretch isBoundary).2.next? = some (p, c')) :
    ∃ b, p = .plain b ∧ isBoundary b = true := by
  obtain ⟨-, -, -, -, hend⟩ := c.reads_stretch isBoundary
  rcases hend with hnone | ⟨b, d, hsome, hb⟩
  · rw [hn] at hnone
    cases hnone
  · rw [hn] at hsome
    cases hsome
    exact ⟨b, rfl, hb⟩

end Cursor

namespace Events

/-- What is still to come of a sheet. -/
def remaining (e : Events) : List Char :=
  e.queued.toList.flatMap Event.payload ++ e.cursor.visible

/-- The events stand where a span begins with no parenthesis open, or at the end. -/
def AtSpan (e : Events) : Prop := e.cursor.parens = 0 ∨ e.cursor.rest = []

/-- The answer to a call and what is left then make up a text. -/
structure Accounts (cs : List Char) (r : Option Event × Events) : Prop where
  kept : cs.filter isKept = (r.1.toList.flatMap Event.payload ++ r.2.remaining).filter isKept
  atSpan : r.2.AtSpan
  finished : r.1 = none → r.2.remaining = []

@[simp] theorem payload_opened (selector : List Char) (l : Location) :
    (Event.opened (String.ofList selector) l).payload = selector ++ ['{'] := by
  simp [Event.payload]

@[simp] theorem payload_closed (l : Location) : (Event.closed l).payload = ['}'] := rfl

theorem payload_textEvent? (text : List Char) (l : Location) :
    (textEvent? text l).toList.flatMap Event.payload = text := by
  unfold textEvent?
  split
  · rename_i hempty
    exact (List.isEmpty_iff.mp hempty).symm
  · simp [Event.payload]

theorem payload_of_textEvent? {text : List Char} {l : Location} {event : Event}
    (h : textEvent? text l = some event) : event.payload = text := by
  have htext := payload_textEvent? text l
  rw [h] at htext
  simpa using htext

theorem eq_nil_of_textEvent? {text : List Char} {l : Location} (h : textEvent? text l = none) :
    text = [] := by
  have htext := payload_textEvent? text l
  rw [h] at htext
  exact htext.symm

section

variable {c c' : Cursor .char}

theorem atSpan_skipTrivia {b : Char} (hn : c.next? = some (.plain b, c'))
    (hb : b = '{' ∨ b = '}' ∨ b = ';') (queued : Option Event) : AtSpan ⟨c'.skipTrivia, queued⟩ := by
  have hparens := Cursor.parens_of_brace hn hb
  exact Or.inl ((Cursor.parens_skipTrivia c').trans hparens)

/-- A span that no brace ends is ended by a semicolon. -/
theorem semicolon_of_stretch {p : Piece}
    (hn : (c.stretch ScanMode.nested.isBoundary).2.next? = some (p, c'))
    (hopen : p ≠ .plain '{') (hclose : p ≠ .plain '}') : p = .plain ';' := by
  obtain ⟨b, rfl, hb⟩ := Cursor.exists_boundary_of_stretch hn
  have hbrace : (b = '{' ∨ b = '}') ∨ b = ';' := by simpa [ScanMode.isBoundary] using hb
  rcases hbrace with (rfl | rfl) | rfl
  · exact (hopen rfl).elim
  · exact (hclose rfl).elim
  · rfl

/-- Reading on accounts for the text ahead. -/
theorem read_accounts (hc : c.parens = 0) : Accounts c.visible (read .nested c) := by
  fun_induction read .nested c with
  | case1 c s text hn =>
      have hrest : s.2.rest = [] := Cursor.next?_eq_none_iff.mp hn
      have hremaining : remaining ⟨s.2, none⟩ = [] := Cursor.visible_of_rest_eq_nil hrest
      refine ⟨?_, Or.inr hrest, fun _ => hremaining⟩
      rw [Cursor.filter_visible_stretch ScanMode.nested.isBoundary hc, payload_textEvent?, hremaining,
        Cursor.visible_of_rest_eq_nil hrest]
  | case2 c s text c' hn =>
      refine ⟨?_, atSpan_skipTrivia hn (by simp) none, by simp⟩
      rw [Cursor.filter_visible_boundary hc hn]
      simp [remaining, text, s]
  | case3 c s text c' hn close ev hev =>
      have hpayload : ev.payload = text := payload_of_textEvent? hev
      refine ⟨?_, atSpan_skipTrivia hn (by simp) _, by simp⟩
      rw [Cursor.filter_visible_boundary hc hn]
      simp [remaining, hpayload, close, text, s]
  | case4 c s text c' hn close hno =>
      refine ⟨?_, atSpan_skipTrivia hn (by simp) none, by simp⟩
      have hnone : textEvent? text c.location = none := by
        rcases ht : textEvent? text c.location with _ | ev
        · rfl
        · exact (hno ev rfl ht).elim
      have htext : Scan.clean s.1 = [] := eq_nil_of_textEvent? hnone
      rw [Cursor.filter_visible_boundary hc hn, htext]
      simp [remaining, close]
  | case5 c s text p c' hopen hclose hn ev hev =>
      obtain rfl : p = .plain ';' := semicolon_of_stretch hn hopen hclose
      have hpayload : ev.payload = text := payload_of_textEvent? hev
      refine ⟨?_, atSpan_skipTrivia hn (by simp) none, by simp⟩
      rw [Cursor.filter_visible_boundary hc hn]
      simp [remaining, hpayload, text, s, filter_isKept_semicolon]
  | case6 c s text p c' hopen hclose hn hev ih =>
      obtain rfl : p = .plain ';' := semicolon_of_stretch hn hopen hclose
      have htext : Scan.clean s.1 = [] := eq_nil_of_textEvent? hev
      have hc' : c'.parens = 0 := Cursor.parens_of_brace hn (by simp)
      have hrest := ih ((Cursor.parens_skipTrivia c').trans hc')
      refine ⟨?_, hrest.atSpan, hrest.finished⟩
      rw [Cursor.filter_visible_boundary hc hn, htext, List.nil_append, filter_isKept_semicolon,
        hrest.kept]

end

/-- **Each call accounts for what is still to come.** -/
theorem next_accounts {e : Events} (h : e.AtSpan) : Accounts e.remaining (e.next .nested) := by
  rcases hqueued : e.queued with _ | event
  · rw [remaining, hqueued]
    rcases h with hparens | hrest
    · rw [next_of_not_queued hqueued]
      exact read_accounts hparens
    · have hremaining : e.cursor.visible = [] := Cursor.visible_of_rest_eq_nil hrest
      rw [next_of_rest_eq_nil hqueued hrest]
      refine ⟨?_, Or.inr hrest, ?_⟩
      · simp [remaining, hqueued]
      · simp [remaining, hqueued, hremaining]
  · rw [next_of_queued hqueued]
    refine ⟨?_, h, by simp⟩
    simp [remaining, hqueued]

/-- All events together hold what was to come, and then nothing is to come any more. -/
theorem filter_payload_drain {e : Events} (h : e.AtSpan) :
    ((drain .nested e).1.flatMap Event.payload).filter isKept = e.remaining.filter isKept := by
  have hstep := next_accounts h
  fun_induction drain .nested e with
  | case1 e event e' hn r ih =>
      rw [hn] at hstep
      have hrest := ih hstep.atSpan (next_accounts hstep.atSpan)
      rw [hstep.kept, List.flatMap_cons, List.filter_append, hrest]
      simp
  | case2 e e' hn =>
      rw [hn] at hstep
      rw [hstep.kept, hstep.finished rfl]
      rfl

theorem atSpan_ofText (text : String) : (ofText text).AtSpan :=
  Or.inl (Cursor.parens_skipTrivia (.ofText text.toList))

end Events

/-- **The events of a sheet hold the text outside its comments, each character once and in
its place**, when blanks and semicolons are left out of both. -/
theorem filter_payload_events (text : String) :
    ((Events.drain .nested (Events.ofText text)).1.flatMap Event.payload).filter isKept
      = (Scan.stripComments text.toList).filter isKept := by
  rw [Events.filter_payload_drain (Events.atSpan_ofText text)]
  exact Cursor.filter_visible_skipTrivia (.ofText text.toList)

end FlatSheet
