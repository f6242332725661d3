/-
Where a text begins.

A span of text begins behind blanks and comments, and the text that is read from it comes
without the blanks around it.  The two notions of a blank are not the same: in front of a
span only the five blanks are passed over that separate spans, and all twenty-five of the
Unicode standard are taken away from the text.

So the place of a text is that of its first character, unless a blank of the other twenty
stands in front of it.  Then it is the place of that blank.  Nothing but blanks and
comments is ever between the place of a text and the text.
-/
import FlatSheet.Proofs.Conservation
import FlatSheet.Proofs.Place

namespace FlatSheet

open Scan

namespace Cursor

variable {g : Grain}

/-- A cursor behind trivia is in front of a character that is no separating blank, or at the end. -/
theorem exists_of_next?_skipTrivia {c c' : Cursor g} {p : Piece}
    (h : c.skipTrivia.next? = some (p, c')) : ∃ ch, p = .plain ch ∧ isSpacing ch = false := by
  fun_induction skipTrivia c with
  | case1 c t c'' hn ih => exact ih h
  | case2 c ch c'' hn hs ih => exact ih h
  | case3 c ch c'' hn hs =>
      rw [hn] at h
      obtain ⟨rfl, rfl⟩ := by simpa using h
      exact ⟨ch, rfl, by simpa using hs⟩
  | case4 c hn =>
      rw [hn] at h
      cases h

/-- The search for a closing brace ends behind it, or at the end of the text. -/
theorem parens_closingBrace (c : Cursor g) (inner : Nat) :
    (c.closingBrace inner).2.parens = 0 ∨ (c.closingBrace inner).2.rest = [] := by
  fun_induction closingBrace c inner with
  | case1 c inner c' hn ih => exact ih
  | case2 c c' hn => exact Or.inl (parens_of_brace hn (by simp))
  | case3 c c' hn outer ih => exact ih
  | case4 c inner p c' hopen hclose hn ih => exact ih
  | case5 c inner hn => exact Or.inr (next?_eq_none_iff.mp hn)

/-- A span begins at a cursor: no parenthesis is open, and a character follows that is in no comment
and no separating blank.  At the end of the text nothing is left to begin. -/
def BeginsSpan (c : Cursor .char) : Prop :=
  c.rest = [] ∨
    c.parens = 0 ∧ ∃ ch c', c.next? = some (.plain ch, c') ∧ isSpacing ch = false

theorem beginsSpan_skipTrivia {c : Cursor .char} (h : c.parens = 0 ∨ c.rest = []) :
    c.skipTrivia.BeginsSpan := by
  rcases hn : c.skipTrivia.next? with _ | ⟨p, c'⟩
  · exact Or.inl (next?_eq_none_iff.mp hn)
  · obtain ⟨ch, rfl, hch⟩ := exists_of_next?_skipTrivia hn
    rcases h with hparens | hrest
    · exact Or.inr ⟨(parens_skipTrivia c).trans hparens, ch, c', hn, hch⟩
    · have hle := length_skipTrivia_le c
      rw [hrest, List.length_nil, Nat.le_zero, List.length_eq_zero_iff] at hle
      exact Or.inl hle

end Cursor

namespace Events

variable {c c' : Cursor .char} {mode : ScanMode}

theorem beginsSpan_behind {p : Piece}
    (h : (c.stretch mode.isBoundary).2.next? = some (p, c')) : c'.skipTrivia.BeginsSpan := by
  obtain ⟨b, rfl, hb⟩ := Cursor.exists_boundary_of_stretch h
  exact Cursor.beginsSpan_skipTrivia
    (Or.inl (Cursor.parens_of_brace h (Marked.boundary_cases hb)))

theorem beginsSpan_read (mode : ScanMode) (c : Cursor .char) :
    (read mode c).2.cursor.BeginsSpan := by
  fun_induction read mode c with
  | case1 c s text hn => exact Or.inl (Cursor.next?_eq_none_iff.mp hn)
  | case2 c s text c' hn => exact beginsSpan_behind hn
  | case3 c s text c' hn close ev hev => exact beginsSpan_behind hn
  | case4 c s text c' hn close => exact beginsSpan_behind hn
  | case5 c s text p c' _ _ hn ev hev => exact beginsSpan_behind hn
  | case6 c s text p c' _ _ hn hev ih => exact ih

/-- **After any calls the events stand where a span begins.** -/
theorem Reached.beginsSpan {source : String} {e : Events} (h : Reached source e) :
    e.cursor.BeginsSpan := by
  induction h with
  | start => exact Cursor.beginsSpan_skipTrivia (Or.inl rfl)
  | @next e mode _ ih =>
      rcases hq : e.queued with _ | event
      · rw [next_of_not_queued hq]
        exact beginsSpan_read mode e.cursor
      · rw [next_of_queued hq]
        exact ih
  | @skip e _ ih => exact Cursor.beginsSpan_skipTrivia (e.cursor.parens_closingBrace 0)

/-- A cursor is where a text that is read in some mode begins: what is ahead, up to the next boundary,
is that text without its comments and the blanks around it. -/
structure Begins (mode : ScanMode) (c : Cursor .char) (t : String) (l : Location) : Prop where
  span : c.BeginsSpan
  location : c.location = l
  text : t.toList = Scan.clean (c.stretch mode.isBoundary).1
  ne_nil : t.toList ≠ []

theorem begins_of_textEvent? {t : String} {l : Location} (hc : c.BeginsSpan)
    (h : textEvent? (Scan.clean (c.stretch mode.isBoundary).1) c.location = some (.text t l)) :
    Begins mode c t l := by
  obtain ⟨hne, heq⟩ := textEvent?_eq_some h
  obtain ⟨rfl, rfl⟩ := by simpa using heq
  exact ⟨hc, rfl, String.toList_ofList, by rwa [String.toList_ofList]⟩

/-- A text that is read begins where some span does. -/
theorem exists_begins_of_read {t : String} {l : Location} {e : Events} (hc : c.BeginsSpan)
    (h : read mode c = (some (.text t l), e)) : ∃ ps c₁, c.Reads ps c₁ ∧ Begins mode c₁ t l := by
  fun_induction read mode c with
  | case1 c s text hn => exact ⟨[], c, .refl c, begins_of_textEvent? hc (Prod.mk.inj h).1⟩
  | case2 c s text c' hn => simp at h
  | case3 c s text c' hn close ev hev =>
      obtain ⟨rfl, -⟩ := by simpa using h
      exact ⟨[], c, .refl c, begins_of_textEvent? hc hev⟩
  | case4 c s text c' hn close => simp [close] at h
  | case5 c s text p c' _ _ hn ev hev =>
      obtain ⟨rfl, -⟩ := by simpa using h
      exact ⟨[], c, .refl c, begins_of_textEvent? hc hev⟩
  | case6 c s text p c' _ _ hn hev ih =>
      obtain ⟨ps, hps⟩ := reads_behind hn
      obtain ⟨qs, c₁, hqs, hbegins⟩ := ih (beginsSpan_behind hn) h
      exact ⟨_, c₁, hps.trans hqs, hbegins⟩

theorem Reached.exists_begins {source t : String} {l : Location} {e e' : Events}
    (h : Reached source e) (hn : e.next mode = (some (.text t l), e')) :
    ∃ ps c, (Cursor.ofText source.toList).Reads ps c ∧ Begins mode c t l := by
  obtain ⟨qs, hqs⟩ := h.within.reads
  rcases hq : e.queued with _ | event
  · rw [next_of_not_queued hq] at hn
    obtain ⟨ps, c, hps, hbegins⟩ := exists_begins_of_read h.beginsSpan hn
    exact ⟨_, c, hqs.trans hps, hbegins⟩
  · -- Only a closing waits, and that is no text.
    obtain ⟨place, rfl⟩ := h.within.queued event hq
    rw [next_of_queued hq] at hn
    simp at hn

/-- Where a text begins, a character follows that is in no comment and no separating blank.  Without
comments, blanks follow and then the text. -/
theorem Begins.exists_blanks {t : String} {l : Location} (h : Begins mode c t l) :
    ∃ first after blanks more, c.rest = first :: after ∧ Cursor.isSpacing first = false ∧
      Scan.stripComments (first :: after) = blanks ++ (t.toList ++ more) ∧
      (∀ ch ∈ blanks, Text.isBlank ch = true) ∧
      (blanks ++ (t.toList ++ more)).head? = some first := by
  obtain ⟨hspan, -, htext, hne⟩ := h
  obtain ⟨ps, hps, hwritten, -, -⟩ := c.reads_stretch mode.isBoundary
  rcases hspan with hrest | ⟨hparens, first, c', hnext, hfirst⟩
  · -- At the end there would be no text.
    have hnone : (c.stretch mode.isBoundary).1 = [] := by
      have happend := c.stretch_append mode.isBoundary
      rw [hrest] at happend
      exact (List.append_eq_nil_iff.mp happend).1
    rw [hnone, Scan.clean, Cursor.stripComments_of_ne_slash (by simp)] at htext
    exact absurd htext hne
  · have hrest : c.rest = first :: c'.rest := (Cursor.text_append_of_next? hnext).symm
    have hvisible : Scan.stripComments c.rest = c.visible := by
      rw [Cursor.stripComments_eq_shown, Cursor.visible_eq, Cursor.pieces, hparens]
    obtain ⟨blanks, behind, hsplit, hblanks, -⟩ := Text.exists_trim (shown ps)
    rw [hwritten, Scan.clean, Cursor.stripComments_written hps hparens] at htext
    have hshown : c.visible
        = blanks ++ (t.toList ++ (behind ++ (c.stretch mode.isBoundary).2.visible)) := by
      rw [Cursor.visible_of_reads hps, hsplit, htext]
      simp only [List.append_assoc]
    refine ⟨first, c'.rest, blanks, behind ++ (c.stretch mode.isBoundary).2.visible, hrest, hfirst,
      ?_, hblanks, ?_⟩
    · rw [← hrest, hvisible, hshown]
    · rw [← hshown, Cursor.visible_of_plain hnext]
      rfl

end Events

open Events

/-- **A text is at the place of its first character, unless a blank stands there.**  The place of a text
is that of a character outside comments which is none of the blanks that separate spans.  Comments
left out, nothing but blanks is between this character and the text, so it is the first one of the
text exactly if it is not blank. -/
theorem text_place {source t : String} {l : Location} {mode : ScanMode} {e e' : Events}
    (h : Reached source e) (hn : e.next mode = (some (.text t l), e')) :
    ∃ first after blanks more, l = .ofOffset source l.offset ∧
      Scan.dropBytes? l.offset source.toList = some (first :: after) ∧
      Cursor.isSpacing first = false ∧
      Scan.stripComments (first :: after) = blanks ++ (t.toList ++ more) ∧
      (∀ c ∈ blanks, Text.isBlank c = true) ∧ t ≠ "" ∧
      (t.toList.head? = some first ↔ Text.isBlank first = false) := by
  obtain ⟨ps, c, hps, hbegins⟩ := h.exists_begins hn
  obtain ⟨first, after, blanks, more, hrest, hfirst, hstrip, hblanks, hhead⟩ :=
    hbegins.exists_blanks
  obtain ⟨-, rfl, htext, hne⟩ := hbegins
  refine ⟨first, after, blanks, more, Cursor.location_of_reads hps, ?_, hfirst, hstrip, hblanks,
    ?_, ?_⟩
  · have hoffset : c.location.offset = bytes (written ps) := by
      rw [hps.location, Location.offset_past]
      exact Nat.zero_add _
    have hsource : source.toList = written ps ++ c.rest := hps.rest
    rw [hoffset, hsource, dropBytes?_append, hrest]
  · rintro rfl
    exact hne rfl
  · constructor
    · intro hsame
      rw [htext] at hsame
      exact Text.isBlank_of_head?_trim hsame
    · intro hblank
      -- A blank in front of the text would be the first character.
      rcases blanks with _ | ⟨b, blanks⟩
      · rwa [List.nil_append, List.head?_append_of_ne_nil _ hne] at hhead
      · obtain rfl : b = first := by simpa using hhead
        rw [hblanks b (by simp)] at hblank
        cases hblank

/-- Behind a block that was skipped and a comment, a text with slashes in it begins at its first
character. -/
theorem text_place_skipped :
    (((ofText "p\x7bq\x7d/*;*/ é(//è)/*\x7d*/; r").next .topLevel).2.skipBlock.2.next .nested).1
        = some (.text "é(//è)" ⟨1, 11, 10⟩) ∧
      (∃ after, Scan.dropBytes? 10 "p\x7bq\x7d/*;*/ é(//è)/*\x7d*/; r".toList = some ('é' :: after)) ∧
      "é(//è)".toList.head? = some 'é' := by
  have hevent : (((ofText "p\x7bq\x7d/*;*/ é(//è)/*\x7d*/; r").next .topLevel).2.skipBlock.2.next
      .nested).1 = some (.text "é(//è)" ⟨1, 11, 10⟩) := by
    decide +kernel
  obtain ⟨first, after, -, -, -, hdrop, -, -, -, -, hiff⟩ :=
    text_place (.skip (.next .topLevel .start)) (Prod.ext hevent rfl)
  have hfirst : (Scan.dropBytes? 10 "p\x7bq\x7d/*;*/ é(//è)/*\x7d*/; r".toList).bind List.head?
      = some 'é' := by
    decide +kernel
  rw [hdrop] at hfirst
  obtain rfl : first = 'é' := Option.some.inj hfirst
  exact ⟨hevent, ⟨after, hdrop⟩, hiff.mpr (by decide)⟩

/-- A text behind a no-break space is at the place of that space, where its first character is not. -/
theorem text_place_of_blank :
    ∃ (source : String) (e : Events) (mode : ScanMode) (t : String) (l : Location) (e' : Events),
      Reached source e ∧ e.next mode = (some (.text t l), e') ∧
      (Scan.dropBytes? l.offset source.toList).bind List.head? ≠ t.toList.head? := by
  have hevent : ((ofText "\u00a0x").next .nested).1 = some (.text "x" ⟨1, 1, 0⟩) := by
    decide +kernel
  exact ⟨"\u00a0x", _, .nested, "x", ⟨1, 1, 0⟩, _, .start, Prod.ext hevent rfl, by decide +kernel⟩

end FlatSheet
