/-
A cursor that moves over a text from piece to piece.

The cursor knows the text ahead of it, its own place, and how many parentheses are
open.  It never stands inside a comment: a step consumes a whole comment or one
character outside comments.  Three walks are built on the step, namely past blanks
and comments, up to the brace that closes a block, and up to the next boundary of a
stretch of text.
-/
import FlatSheet.Location
import FlatSheet.Scan.Comment

namespace FlatSheet

/-- A cursor over a text. -/
structure Cursor (g : Grain) where
  /-- The text ahead. -/
  rest : List Char
  location : Location
  /-- Open parentheses since the last brace or semicolon. -/
  parens : Nat
  deriving DecidableEq

namespace Cursor

variable {g : Grain}

/-- The cursor in front of a whole text. -/
def ofText (text : List Char) : Cursor .char := ⟨text, .start, 0⟩

/-- The cursor over the bytes of a text from one offset up to another.  Both may lie inside a
character, beyond the text or in reverse order. -/
def ofBytes (text : String) (start stop line column : Nat) : Cursor .byte :=
  let bytes := (text.toUTF8.toList.take stop).drop start
  ⟨bytes.map Char.ofUInt8, ⟨line, column, start⟩, 0⟩

/-- Nothing is left to read. -/
def atEnd (c : Cursor g) : Bool := c.rest.isEmpty

/-- Moves past a piece, given the text after it.  Comments leave the parentheses alone. -/
def past (c : Cursor g) (p : Piece) (rest : List Char) : Cursor g where
  rest
  location := c.location.past g p.text
  parens := p.visible.foldl Scan.parensAfter c.parens

/-- Reads the next piece. -/
def next? (c : Cursor g) : Option (Piece × Cursor g) :=
  (Scan.piece? c.parens c.rest).map fun (p, rest) => (p, c.past p rest)

theorem next?_eq_some {c c' : Cursor g} {p : Piece} (h : c.next? = some (p, c')) :
    Scan.piece? c.parens c.rest = some (p, c'.rest) ∧ c' = c.past p c'.rest := by
  unfold next? at h
  obtain ⟨⟨q, rest⟩, hq, he⟩ := Option.map_eq_some_iff.mp h
  obtain ⟨rfl, rfl⟩ := by simpa using he
  exact ⟨hq, rfl⟩

theorem length_lt_of_next? {c c' : Cursor g} {p : Piece} (h : c.next? = some (p, c')) :
    c'.rest.length < c.rest.length :=
  Scan.length_lt_of_piece? (next?_eq_some h).1

theorem text_append_of_next? {c c' : Cursor g} {p : Piece} (h : c.next? = some (p, c')) :
    p.text ++ c'.rest = c.rest :=
  Scan.text_append_of_piece? (next?_eq_some h).1

theorem next?_eq_none_iff {c : Cursor g} : c.next? = none ↔ c.rest = [] := by
  simp [next?, Scan.piece?_eq_none_iff]

/-- Moves past a comment, if one begins here. -/
def skipComment? (c : Cursor g) : Option (Cursor g) :=
  match c.next? with
  | some (.comment _, c') => some c'
  | _ => none

/-- The blanks that separate spans: the ASCII ones, without the vertical tab. -/
def isSpacing (c : Char) : Bool :=
  c = ' ' || c = '\t' || c = '\n' || c = '\x0c' || c = '\r'

/-- Moves past blanks and comments. -/
def skipTrivia (c : Cursor g) : Cursor g :=
  match _h : c.next? with
  | some (.comment _, c') => c'.skipTrivia
  | some (.plain ch, c') => if isSpacing ch then c'.skipTrivia else c
  | none => c
termination_by c.rest.length
decreasing_by all_goals exact length_lt_of_next? ‹_›

/-- Looks for the brace that closes the block the cursor is in, past `inner` further blocks that
are open inside it.  Answers the offset of that brace and the cursor after it, or no offset and the
cursor at the end of the text. -/
def closingBrace (c : Cursor g) (inner : Nat) : Option Nat × Cursor g :=
  match _h : c.next? with
  | some (.plain '{', c') => c'.closingBrace (inner + 1)
  | some (.plain '}', c') =>
    match inner with
    | 0 => (some c.location.offset, c')
    | outer + 1 => c'.closingBrace outer
  | some (_, c') => c'.closingBrace inner
  | none => (none, c)
termination_by c.rest.length
decreasing_by all_goals exact length_lt_of_next? ‹_›

/-- Reads up to the first character outside comments that is a boundary.  Answers what was read,
comments included, and the cursor in front of the boundary. -/
def stretch (isBoundary : Char → Bool) (c : Cursor g) : List Char × Cursor g :=
  match _h : c.next? with
  | some (.comment t, c') =>
    let s := c'.stretch isBoundary
    (t ++ s.1, s.2)
  | some (.plain ch, c') =>
    if isBoundary ch then ([], c)
    else
      let s := c'.stretch isBoundary
      (ch :: s.1, s.2)
  | none => ([], c)
termination_by c.rest.length
decreasing_by all_goals exact length_lt_of_next? ‹_›

/-! ### No walk moves back -/

theorem length_skipTrivia_le (c : Cursor g) : c.skipTrivia.rest.length ≤ c.rest.length := by
  fun_induction skipTrivia c with
  | case1 c t c' h ih => exact Nat.le_trans ih (Nat.le_of_lt (length_lt_of_next? h))
  | case2 c ch c' h hs ih => exact Nat.le_trans ih (Nat.le_of_lt (length_lt_of_next? h))
  | case3 => exact Nat.le_refl _
  | case4 => exact Nat.le_refl _

theorem length_stretch_le (isBoundary : Char → Bool) (c : Cursor g) :
    (c.stretch isBoundary).2.rest.length ≤ c.rest.length := by
  fun_induction stretch isBoundary c with
  | case1 c t c' h s ih => exact Nat.le_trans ih (Nat.le_of_lt (length_lt_of_next? h))
  | case2 => exact Nat.le_refl _
  | case3 c ch c' h hb s ih => exact Nat.le_trans ih (Nat.le_of_lt (length_lt_of_next? h))
  | case4 => exact Nat.le_refl _

theorem stretch_append (isBoundary : Char → Bool) (c : Cursor g) :
    (c.stretch isBoundary).1 ++ (c.stretch isBoundary).2.rest = c.rest := by
  fun_induction stretch isBoundary c with
  | case1 c t c' h s ih => rw [List.append_assoc, ih]; exact text_append_of_next? h
  | case2 => rfl
  | case3 c ch c' h hb s ih =>
    have h1 := text_append_of_next? h
    rw [← ih] at h1
    exact h1
  | case4 => rfl

theorem length_closingBrace_le (c : Cursor g) (inner : Nat) :
    (c.closingBrace inner).2.rest.length ≤ c.rest.length := by
  fun_induction closingBrace c inner with
  | case1 c inner c' h ih => exact Nat.le_trans ih (Nat.le_of_lt (length_lt_of_next? h))
  | case2 c c' h => exact Nat.le_of_lt (length_lt_of_next? h)
  | case3 c c' h outer ih => exact Nat.le_trans ih (Nat.le_of_lt (length_lt_of_next? h))
  | case4 c inner p c' _ _ h ih => exact Nat.le_trans ih (Nat.le_of_lt (length_lt_of_next? h))
  | case5 => exact Nat.le_refl _

end Cursor

end FlatSheet
