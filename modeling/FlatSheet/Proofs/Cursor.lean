/-
What a cursor sees.

A cursor stands in front of some pieces, and these settle everything it can meet: the
characters outside comments, each with its place, are the marked text ahead of it.  Each
walk of a cursor is described here by the pieces it reads and by what it does to the
marked text.  Skipping trivia drops blanks from it, a stretch is a cut of it, and the
search for a closing brace is the one of `Proofs/Marked.lean`.
-/
import FlatSheet.Scan.Visible
import FlatSheet.Proofs.Marked
import FlatSheet.Proofs.Pieces

namespace FlatSheet

namespace Scan

/-- The characters outside comments, each with its place. -/
def marks (g : Grain) (l : Location) : List Piece → List (Char × Location)
  | [] => []
  | p :: ps => p.visible.map (fun c => (c, l)) ++ marks g (l.past g p.text) ps

@[simp] theorem marks_append (g : Grain) (l : Location) (ps qs : List Piece) :
    marks g l (ps ++ qs) = marks g l ps ++ marks g (l.past g (written ps)) qs := by
  induction ps generalizing l with
  | nil => rfl
  | cons p ps ih => simp [marks, ih]

/-- Without their places they are the visible text. -/
@[simp] theorem map_fst_marks (g : Grain) (l : Location) (ps : List Piece) :
    (marks g l ps).map Prod.fst = shown ps := by
  induction ps generalizing l with
  | nil => rfl
  | cons p ps ih => simp [marks, ih, Function.comp_def]

theorem mem_shown_of_mem_marks {g : Grain} {l : Location} {ps : List Piece} {m : Char × Location}
    (h : m ∈ marks g l ps) : m.1 ∈ shown ps := by
  rw [← map_fst_marks g l ps]
  exact List.mem_map_of_mem h

/-- A character outside comments is a piece of its own. -/
theorem exists_of_marks_eq {g : Grain} {l m : Location} {ps : List Piece} {c : Char}
    {before after : List (Char × Location)} (h : marks g l ps = before ++ (c, m) :: after) :
    ∃ qs rs, ps = qs ++ .plain c :: rs ∧ marks g l qs = before ∧ m = l.past g (written qs) ∧
      marks g (m.step g c) rs = after := by
  induction ps generalizing l before with
  | nil => simp [marks] at h
  | cons p ps ih =>
      cases p with
      | comment t =>
          obtain ⟨qs, rs, rfl, hq, hm, hr⟩ := ih h
          exact ⟨.comment t :: qs, rs, rfl, hq, by simpa using hm, hr⟩
      | plain d =>
          rcases before with _ | ⟨b, before⟩
          · obtain ⟨⟨rfl, rfl⟩, hr⟩ := by simpa [marks, Piece.visible] using h
            exact ⟨[], ps, rfl, rfl, rfl, hr⟩
          · obtain ⟨rfl, hr⟩ := by simpa [marks, Piece.visible] using h
            obtain ⟨qs, rs, rfl, hq, hm, hr⟩ := ih hr
            refine ⟨.plain d :: qs, rs, rfl, ?_, by simpa using hm, hr⟩
            rw [← hq]
            rfl

/-- A text that is continued keeps its marks up to a closing brace. -/
theorem exists_marks_append {g : Grain} {l x : Location} {parens : Nat} {a : List Char}
    {before after : List (Char × Location)}
    (h : marks g l (pieces parens a) = before ++ ('}', x) :: after) (b : List Char) :
    ∃ more, marks g l (pieces parens (a ++ b)) = before ++ ('}', x) :: more := by
  obtain ⟨qs, rs, hpieces, rfl, rfl, -⟩ := exists_of_marks_eq h
  rw [pieces_append_closing hpieces, marks_append]
  exact ⟨_, rfl⟩

/-- Where a character is seen, a piece of its own stands. -/
theorem exists_of_shown_eq {ps : List Piece} {c : Char} {before after : List Char}
    (h : shown ps = before ++ c :: after) :
    ∃ qs rs, ps = qs ++ .plain c :: rs ∧ shown qs = before ∧ shown rs = after := by
  rw [← map_fst_marks .char .start ps] at h
  obtain ⟨front, back, hmarks, rfl, hback⟩ := List.map_eq_append_iff.mp h
  obtain ⟨⟨d, x⟩, behind, rfl, rfl, rfl⟩ := List.map_eq_cons_iff.mp hback
  obtain ⟨qs, rs, rfl, hq, -, hr⟩ := exists_of_marks_eq hmarks
  refine ⟨qs, rs, rfl, ?_, ?_⟩
  · rw [← hq, map_fst_marks]
  · rw [← hr, map_fst_marks]

end Scan

open Scan

namespace Cursor

variable {g : Grain}

/-- The pieces ahead of a cursor. -/
def pieces (c : Cursor g) : List Piece := Scan.pieces c.parens c.rest

/-- The marked text ahead of a cursor. -/
def marks (c : Cursor g) : List (Char × Location) := Scan.marks g c.location c.pieces

/-- A cursor reads some pieces and becomes another one. -/
structure Reads (c : Cursor g) (ps : List Piece) (c' : Cursor g) : Prop where
  pieces : c.pieces = ps ++ c'.pieces
  location : c'.location = c.location.past g (written ps)
  parens : c'.parens = (shown ps).foldl parensAfter c.parens

namespace Reads

variable {c c' c'' : Cursor g} {ps qs : List Piece} {p : Piece}

theorem refl (c : Cursor g) : c.Reads [] c := ⟨rfl, rfl, rfl⟩

theorem trans (h : c.Reads ps c') (h' : c'.Reads qs c'') : c.Reads (ps ++ qs) c'' := by
  refine ⟨?_, ?_, ?_⟩
  · rw [h.pieces, h'.pieces, List.append_assoc]
  · rw [h'.location, h.location, written_append, Location.past_append]
  · rw [h'.parens, h.parens, shown_append, List.foldl_append]

theorem of_next? (h : c.next? = some (p, c')) : c.Reads [p] c' := by
  obtain ⟨hp, hc'⟩ := next?_eq_some h
  refine ⟨?_, ?_, ?_⟩
  · show Scan.pieces c.parens c.rest = _
    rw [pieces_of_piece? hp, hc']
    rfl
  · rw [hc', written_cons, written_nil, List.append_nil]
    rfl
  · rw [hc', shown_cons, shown_nil, List.append_nil]
    rfl

theorem cons (h : c.next? = some (p, c')) (h' : c'.Reads ps c'') : c.Reads (p :: ps) c'' :=
  (of_next? h).trans h'

/-- The pieces that were read make up the text that was passed. -/
theorem rest (h : c.Reads ps c') : c.rest = written ps ++ c'.rest := by
  have hc := written_pieces c.parens c.rest
  have hc' := written_pieces c'.parens c'.rest
  rw [← hc, ← hc', ← written_append]
  exact congrArg written h.pieces

theorem length_le (h : c.Reads ps c') : c'.rest.length ≤ c.rest.length := by
  rw [h.rest, List.length_append]
  exact Nat.le_add_left _ _

theorem marks (h : c.Reads ps c') : c.marks = Scan.marks g c.location ps ++ c'.marks := by
  show Scan.marks g c.location c.pieces = _
  rw [h.pieces, Scan.marks_append, ← h.location]
  rfl

end Reads

theorem marks_of_comment {c c' : Cursor g} {t : List Char} (h : c.next? = some (.comment t, c')) :
    c.marks = c'.marks :=
  (Reads.of_next? h).marks

theorem marks_of_plain {c c' : Cursor g} {ch : Char} (h : c.next? = some (.plain ch, c')) :
    c.marks = (ch, c.location) :: c'.marks :=
  (Reads.of_next? h).marks

theorem marks_of_none {c : Cursor g} (h : c.next? = none) : c.marks = [] := by
  show Scan.marks g c.location (Scan.pieces c.parens c.rest) = []
  rw [next?_eq_none_iff.mp h, pieces_nil]
  rfl

/-- Removing comments leaves the visible text. -/
theorem visible_eq (c : Cursor g) : c.visible = shown c.pieces := by
  fun_induction visible c with
  | case1 c p c' h ih => rw [ih, (Reads.of_next? h).pieces, List.singleton_append, shown_cons]
  | case2 c h =>
      show [] = shown (Scan.pieces c.parens c.rest)
      rw [next?_eq_none_iff.mp h, pieces_nil]
      rfl

/-- The marked text of a part of a sheet is what is left of it without its comments. -/
theorem map_fst_marks_pieces (g : Grain) (l : Location) (cs : List Char) :
    (Scan.marks g l (Scan.pieces 0 cs)).map Prod.fst = Scan.stripComments cs := by
  rw [Scan.stripComments, visible_eq]
  exact map_fst_marks g l _

/-- What is left of a text without its comments is what its pieces show. -/
theorem stripComments_eq_shown (cs : List Char) :
    Scan.stripComments cs = shown (Scan.pieces 0 cs) :=
  visible_eq (.ofText cs)

/-- A text without a slash has no comment. -/
theorem stripComments_of_ne_slash {cs : List Char} (h : ∀ c ∈ cs, c ≠ '/') :
    Scan.stripComments cs = cs := by
  have hpieces := pieces_append_of_ne_slash h 0 []
  rw [List.append_nil, pieces_nil, List.append_nil] at hpieces
  rw [stripComments_eq_shown, hpieces, shown_map_plain]

/-! ### Trivia -/

theorem reads_skipTrivia (c : Cursor g) :
    ∃ ps, c.Reads ps c.skipTrivia ∧ ∀ ch ∈ shown ps, isSpacing ch = true := by
  fun_induction skipTrivia c with
  | case1 c t c' h ih =>
      obtain ⟨ps, hr, hs⟩ := ih
      exact ⟨.comment t :: ps, hr.cons h, hs⟩
  | case2 c ch c' h hsp ih =>
      obtain ⟨ps, hr, hs⟩ := ih
      exact ⟨.plain ch :: ps, hr.cons h, List.forall_mem_cons.mpr ⟨hsp, hs⟩⟩
  | case3 c ch c' h hsp => exact ⟨[], Reads.refl c, by simp⟩
  | case4 c h => exact ⟨[], Reads.refl c, by simp⟩

/-- Blanks leave the parentheses alone. -/
theorem foldl_parensAfter_of_spacing {cs : List Char} (h : ∀ ch ∈ cs, isSpacing ch = true)
    (parens : Nat) : cs.foldl parensAfter parens = parens := by
  induction cs with
  | nil => rfl
  | cons c cs ih =>
      have hc : parensAfter parens c = parens := by
        have := h c (by simp)
        simp only [isSpacing, Bool.or_eq_true, decide_eq_true_eq] at this
        rcases this with (((rfl | rfl) | rfl) | rfl) | rfl <;> rfl
      rw [List.foldl_cons, hc]
      exact ih fun ch hch => h ch (by simp [hch])

@[simp] theorem parens_skipTrivia (c : Cursor g) : c.skipTrivia.parens = c.parens := by
  obtain ⟨ps, hr, hs⟩ := reads_skipTrivia c
  rw [hr.parens]
  exact foldl_parensAfter_of_spacing hs c.parens

/-! ### Stretches -/

/-- A stretch reads up to a boundary, or to the end of the text. -/
theorem reads_stretch (isBoundary : Char → Bool) (c : Cursor g) :
    ∃ ps, c.Reads ps (c.stretch isBoundary).2 ∧ (c.stretch isBoundary).1 = written ps ∧
      (∀ ch ∈ shown ps, isBoundary ch = false) ∧
      ((c.stretch isBoundary).2.next? = none ∨
        ∃ ch c', (c.stretch isBoundary).2.next? = some (.plain ch, c') ∧ isBoundary ch = true) := by
  fun_induction stretch isBoundary c with
  | case1 c t c' h s ih =>
      obtain ⟨ps, hr, hw, hb, hend⟩ := ih
      exact ⟨.comment t :: ps, hr.cons h, by rw [hw]; rfl, hb, hend⟩
  | case2 c ch c' h hb => exact ⟨[], Reads.refl c, rfl, by simp, Or.inr ⟨ch, c', h, hb⟩⟩
  | case3 c ch c' h hb s ih =>
      obtain ⟨ps, hr, hw, hbs, hend⟩ := ih
      refine ⟨.plain ch :: ps, hr.cons h, by rw [hw]; rfl, ?_, hend⟩
      exact List.forall_mem_cons.mpr ⟨by simpa using hb, hbs⟩
  | case4 c h => exact ⟨[], Reads.refl c, rfl, by simp, Or.inl h⟩

/-- **Cleaning a span on its own removes exactly the comments that were read in it.** -/
theorem stripComments_written {c c' : Cursor g} {ps : List Piece} (h : c.Reads ps c')
    (hc : c.parens = 0) : Scan.stripComments (written ps) = shown ps := by
  have hps : Scan.pieces 0 c.rest = ps ++ c'.pieces := hc ▸ h.pieces
  rw [Scan.stripComments, visible_eq]
  exact congrArg shown (pieces_of_append hps)

/-! ### Closing braces -/

theorem parens_of_brace {c c' : Cursor g} {ch : Char} (h : c.next? = some (.plain ch, c'))
    (hch : ch = '{' ∨ ch = '}' ∨ ch = ';') : c'.parens = 0 := by
  rw [(Reads.of_next? h).parens]
  rcases hch with rfl | rfl | rfl <;> rfl

/-- The outcome of a search for a closing brace says what there is to find in marked text. -/
structure Finds (inner : Nat) (ms : List (Char × Location)) (r : Option Nat × Cursor g) : Prop where
  offset : r.1 = (Marked.closing? inner ms).map (·.place.offset)
  behind : ∀ d, Marked.closing? inner ms = some d → r.2.marks = d.after ∧ r.2.parens = 0

/-- What was read so far is in front of what the search finds, and changes nothing else. -/
theorem Finds.cons {inner k : Nat} {ms ns : List (Char × Location)} {m : Char × Location}
    {r : Option Nat × Cursor g} (h : Finds k ns r)
    (hc : Marked.closing? inner ms = (Marked.closing? k ns).map (.cons m)) : Finds inner ms r := by
  refine ⟨?_, ?_⟩
  · rw [hc, Option.map_map]
    exact h.offset
  · intro d hd
    rw [hc] at hd
    obtain ⟨e, he, rfl⟩ := Option.map_eq_some_iff.mp hd
    exact h.behind e he

/-- The search for a closing brace is the search in the marked text. -/
theorem closingBrace_eq (c : Cursor g) (inner : Nat) :
    Finds inner c.marks (c.closingBrace inner) := by
  fun_induction closingBrace c inner with
  | case1 c inner c' h ih =>
      have hc := congrArg (Marked.closing? inner) (marks_of_plain h)
      rw [Marked.closing?_cons_opening] at hc
      exact ih.cons hc
  | case2 c c' h =>
      rw [marks_of_plain h]
      refine ⟨rfl, ?_⟩
      intro d hd
      obtain rfl := by simpa using hd
      exact ⟨rfl, parens_of_brace h (by simp)⟩
  | case3 c c' h outer ih =>
      have hc := congrArg (Marked.closing? (outer + 1)) (marks_of_plain h)
      rw [Marked.closing?_succ_cons_closing] at hc
      exact ih.cons hc
  | case4 c inner p c' ho hc h ih =>
      cases p with
      | comment t =>
          rw [marks_of_comment h]
          exact ih
      | plain ch =>
          have hopen : ch ≠ '{' := by
            intro he
            exact ho (by rw [he])
          have hclose : ch ≠ '}' := by
            intro he
            exact hc (by rw [he])
          have hcs := congrArg (Marked.closing? inner) (marks_of_plain h)
          rw [Marked.closing?_cons_of_ne hopen hclose] at hcs
          exact ih.cons hcs
  | case5 c inner h =>
      rw [marks_of_none h]
      exact ⟨rfl, by simp [Marked.closing?]⟩

end Cursor

end FlatSheet
