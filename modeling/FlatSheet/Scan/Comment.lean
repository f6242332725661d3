/-
Where comments begin and end.

There are two kinds of comment.  A block comment runs from a slash and a star to the
next star and slash, or to the end of the text.  A line comment runs from two slashes
up to the end of the line, and begins only where no parenthesis is open, so that an
address written inside `url(...)` keeps its slashes.

What counts as an open parenthesis is decided outside comments: each opening one adds
one, each closing one takes one away if there is one, and a brace or a semicolon closes
them all.

A text is therefore a sequence of pieces, each a whole comment or a single character.
Every reader in this library moves from piece to piece.
-/
namespace FlatSheet

/-- A comment, or a character that is in none. -/
inductive Piece where
  | comment (text : List Char)
  | plain (c : Char)
  deriving DecidableEq

namespace Piece

/-- The characters of the text that a piece covers. -/
def text : Piece → List Char
  | comment t => t
  | plain c => [c]

/-- What is left of a piece when comments are removed. -/
def visible : Piece → List Char
  | comment _ => []
  | plain c => [c]

end Piece

namespace Scan

/-- The number of parentheses open after a character outside comments. -/
def parensAfter (parens : Nat) (c : Char) : Nat :=
  if c = '(' then parens + 1
  else if c = ')' then parens - 1
  else if c = '{' ∨ c = '}' ∨ c = ';' then 0
  else parens

/-- Cuts the inside of a block comment from the text after it.  The mark that ends the comment
belongs to the comment. -/
def splitBlock : List Char → List Char × List Char
  | [] => ([], [])
  | '*' :: '/' :: cs => (['*', '/'], cs)
  | c :: cs =>
    let s := splitBlock cs
    (c :: s.1, s.2)

/-- Cuts the inside of a line comment from the text after it, which begins with the line's end. -/
def splitLine : List Char → List Char × List Char
  | [] => ([], [])
  | c :: cs =>
    if c = '\n' then ([], c :: cs)
    else
      let s := splitLine cs
      (c :: s.1, s.2)

/-- The comment a text begins with, and the text after it. -/
def comment? (parens : Nat) : List Char → Option (List Char × List Char)
  | '/' :: '*' :: cs =>
    let s := splitBlock cs
    some ('/' :: '*' :: s.1, s.2)
  | '/' :: '/' :: cs =>
    if parens = 0 then
      let s := splitLine cs
      some ('/' :: '/' :: s.1, s.2)
    else none
  | _ => none

/-- The piece a text begins with, and the text after it. -/
def piece? (parens : Nat) (cs : List Char) : Option (Piece × List Char) :=
  match comment? parens cs with
  | some (t, rest) => some (.comment t, rest)
  | none =>
    match cs with
    | [] => none
    | c :: rest => some (.plain c, rest)

/-! ### A piece and what follows it make up the text -/

theorem splitBlock_append (cs : List Char) : (splitBlock cs).1 ++ (splitBlock cs).2 = cs := by
  fun_induction splitBlock cs with
  | case1 => rfl
  | case2 => rfl
  | case3 c cs _ s ih => simpa using ih

theorem splitLine_append (cs : List Char) : (splitLine cs).1 ++ (splitLine cs).2 = cs := by
  fun_induction splitLine cs with
  | case1 => rfl
  | case2 => rfl
  | case3 c cs _ s ih => simpa using ih

theorem append_of_comment? {parens : Nat} {cs t rest : List Char}
    (h : comment? parens cs = some (t, rest)) : t ++ rest = cs := by
  unfold comment? at h
  split at h
  · obtain ⟨rfl, rfl⟩ := by simpa using h
    simp [splitBlock_append]
  · split at h
    · obtain ⟨rfl, rfl⟩ := by simpa using h
      simp [splitLine_append]
    · simp at h
  · simp at h

theorem ne_nil_of_comment? {parens : Nat} {cs t rest : List Char}
    (h : comment? parens cs = some (t, rest)) : t ≠ [] := by
  unfold comment? at h
  split at h
  · obtain ⟨rfl, rfl⟩ := by simpa using h
    simp
  · split at h
    · obtain ⟨rfl, rfl⟩ := by simpa using h
      simp
    · simp at h
  · simp at h

theorem text_append_of_piece? {parens : Nat} {cs rest : List Char} {p : Piece}
    (h : piece? parens cs = some (p, rest)) : p.text ++ rest = cs := by
  unfold piece? at h
  split at h
  next t r hc =>
    obtain ⟨rfl, rfl⟩ := by simpa using h
    exact append_of_comment? hc
  next =>
    split at h
    · simp at h
    · obtain ⟨rfl, rfl⟩ := by simpa using h
      rfl

theorem text_ne_nil_of_piece? {parens : Nat} {cs rest : List Char} {p : Piece}
    (h : piece? parens cs = some (p, rest)) : p.text ≠ [] := by
  unfold piece? at h
  split at h
  next t r hc =>
    obtain ⟨rfl, rfl⟩ := by simpa using h
    exact ne_nil_of_comment? hc
  next =>
    split at h
    · simp at h
    · obtain ⟨rfl, rfl⟩ := by simpa using h
      simp [Piece.text]

theorem length_lt_of_piece? {parens : Nat} {cs rest : List Char} {p : Piece}
    (h : piece? parens cs = some (p, rest)) : rest.length < cs.length := by
  have h1 := text_append_of_piece? h
  have h2 := List.length_pos_iff.mpr (text_ne_nil_of_piece? h)
  rw [← h1, List.length_append]
  omega

theorem piece?_eq_none_iff {parens : Nat} {cs : List Char} :
    piece? parens cs = none ↔ cs = [] := by
  constructor
  · intro h
    unfold piece? at h
    split at h
    · simp at h
    · split at h
      · rfl
      · simp at h
  · rintro rfl
    rfl

end Scan

end FlatSheet
