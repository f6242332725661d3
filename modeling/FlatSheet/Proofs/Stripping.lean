/-
Texts whose comments are removed twice.

Removing a comment joins what stood before it to what stood behind it.  Outside
parentheses the two can begin no comment together: a slash in front of a comment would
be followed by the slash that the comment begins with, and two slashes are a comment
already.  Inside parentheses two slashes are none, so that a slash may stand in front of
a block comment and a star behind it.  When the comment is removed, the slash and the
star begin a new one, and this is all that can happen.
-/
import FlatSheet.Proofs.Trivia

namespace FlatSheet

namespace Scan

/-- Inside parentheses a slash and a star stand outside comments, with nothing but comments between
them. -/
def JoinsMark (cs : List Char) : Prop :=
  ∃ before comments after,
    pieces 0 cs = before ++ .plain '/' :: (comments ++ .plain '*' :: after) ∧
      shown comments = [] ∧ (shown before).foldl parensAfter 0 ≠ 0

/-! ### Comments between two characters -/

/-- A slash that begins no comment is inside parentheses if only comments keep it apart from a star or
from another slash. -/
theorem parens_ne_zero_of_pieces {parens : Nat} {cs : List Char} {before comments after : List Piece}
    {d : Char} (hd : d = '/' ∨ d = '*')
    (h : pieces parens cs = before ++ .plain '/' :: (comments ++ .plain d :: after))
    (hcomments : shown comments = []) : (shown before).foldl parensAfter parens ≠ 0 := by
  intro hzero
  have hslash := pieces_written_of_append h
  rw [hzero] at hslash
  obtain ⟨hpiece, hbehind⟩ := piece?_of_pieces_eq_cons hslash
  rcases comments with _ | ⟨p, comments⟩
  · rcases hd with rfl | rfl
    · cases hpiece
    · cases hpiece
  · cases p with
    | plain c => cases hcomments
    | comment t =>
        -- The first of the comments begins with a slash of its own.
        obtain ⟨inside, rfl⟩ := exists_of_comment (piece?_of_pieces_eq_cons hbehind).1
        cases hpiece

/-- Joined to the text that is seen behind it, a character begins a comment only if a slash comes to
stand in front of a star. -/
theorem piece?_shown {parens : Nat} {c : Char} {cs rest : List Char}
    (hp : piece? parens cs = some (.plain c, rest))
    (h : ¬ ['/', '*'] <:+: c :: shown (pieces (parensAfter parens c) rest)) :
    piece? parens (c :: shown (pieces (parensAfter parens c) rest))
      = some (.plain c, shown (pieces (parensAfter parens c) rest)) := by
  by_cases hc : c = '/'
  · subst hc
    rcases hshown : shown (pieces (parensAfter parens '/') rest) with _ | ⟨d, ds⟩
    · rfl
    · rw [hshown] at h
      by_cases hstar : d = '*'
      · subst hstar
        exact absurd (List.prefix_append ['/', '*'] ds).isInfix h
      · by_cases hslash : d = '/'
        · subst hslash
          -- Two slashes are no comment inside parentheses, and that is where they are.
          obtain ⟨comments, after, hpieces, hcomments, -⟩ :=
            exists_of_shown_eq (hshown.trans (List.nil_append _).symm)
          have hwhole : pieces parens cs = [] ++ .plain '/' :: (comments ++ .plain '/' :: after) :=
            (pieces_of_piece? hp).trans (congrArg _ hpieces)
          have hparens : parens ≠ 0 := parens_ne_zero_of_pieces (Or.inl rfl) hwhole hcomments
          obtain ⟨n, rfl⟩ := Nat.exists_eq_succ_of_ne_zero hparens
          rfl
        · exact piece?_of_next hslash hstar parens ds
  · exact piece?_of_ne_slash hc _

/-- What is seen of a text has no comment in it, unless a slash has come to stand in front of a
star. -/
theorem pieces_shown {parens : Nat} {cs : List Char}
    (h : ¬ ['/', '*'] <:+: shown (pieces parens cs)) :
    pieces parens (shown (pieces parens cs)) = (shown (pieces parens cs)).map .plain := by
  fun_induction pieces parens cs with
  | case1 parens cs p rest hp ih =>
      cases p with
      | comment t => exact ih h
      | plain c =>
          have htail : ¬ ['/', '*'] <:+: shown (pieces (parensAfter parens c) rest) := by
            intro hmark
            exact h (hmark.trans (List.infix_cons List.infix_rfl))
          have hpieces := pieces_of_piece? (piece?_shown hp h)
          exact hpieces.trans (congrArg (Piece.plain c :: ·) (ih htail))
  | case2 parens cs hn => exact pieces_nil parens

/-- A text with a slash in front of a star is not read character by character. -/
theorem not_infix_of_pieces {parens : Nat} {cs : List Char}
    (h : pieces parens cs = cs.map .plain) : ¬ ['/', '*'] <:+: cs := by
  rintro ⟨before, after, rfl⟩
  rw [List.append_assoc, List.map_append] at h
  have hmark := (piece?_of_pieces_eq_cons (pieces_written_of_append h)).1
  cases hmark

/-- A slash comes to stand in front of a star just where only comments kept them apart. -/
theorem joinsMark_iff (cs : List Char) : JoinsMark cs ↔ ['/', '*'] <:+: stripComments cs := by
  rw [Cursor.stripComments_eq_shown]
  constructor
  · rintro ⟨before, comments, after, hpieces, hcomments, -⟩
    refine ⟨shown before, shown after, ?_⟩
    rw [hpieces, shown_append, shown_cons, shown_append, hcomments, List.append_assoc]
    rfl
  · rintro ⟨before, after, hmark⟩
    rw [List.append_assoc] at hmark
    obtain ⟨front, behind, hpieces, -, hbehind⟩ := exists_of_shown_eq hmark.symm
    obtain ⟨comments, back, rfl, hcomments, -⟩ :=
      exists_of_shown_eq (hbehind.trans (List.nil_append _).symm)
    exact ⟨front, comments, back, hpieces, hcomments,
      parens_ne_zero_of_pieces (Or.inr rfl) hpieces hcomments⟩

end Scan

/-- **Removing comments twice is removing them once, unless the first time makes a new one.**  It makes
one exactly if inside parentheses nothing but comments stands between a slash and a star, so that the
two begin a comment when these are gone. -/
theorem stripComments_stripComments_eq_iff (text : String) :
    (stripComments (stripComments text) = stripComments text ↔ ¬ Scan.JoinsMark text.toList) ∧
      (Scan.JoinsMark text.toList ↔ ['/', '*'] <:+: (stripComments text).toList) := by
  have hjoins := Scan.joinsMark_iff text.toList
  have hstripped : (stripComments text).toList = Scan.stripComments text.toList :=
    String.toList_ofList
  rw [Scan.stripComments_eq_self_iff, hstripped]
  refine ⟨?_, hjoins⟩
  rw [hjoins]
  constructor
  · exact Scan.not_infix_of_pieces
  · intro h
    rw [Cursor.stripComments_eq_shown] at h ⊢
    exact Scan.pieces_shown h

/-- The slash in an address begins a comment with the star behind one. -/
theorem stripComments_stripComments_ne :
    stripComments "url(//**/*x*/)" = "url(/*x*/)" ∧
      stripComments (stripComments "url(//**/*x*/)") = "url()" ∧
      stripComments (stripComments "url(//**/*x*/)") ≠ stripComments "url(//**/*x*/)" := by
  have honce : stripComments "url(//**/*x*/)" = "url(/*x*/)" := by decide +kernel
  have htwice : stripComments "url(/*x*/)" = "url()" := by decide +kernel
  rw [honce, htwice]
  decide

end FlatSheet
