/-
Where a text may be cut.

A text is read piece by piece, and a reader looks at most one character beyond the
place where it stands.  So the pieces of a text are hardly ever changed by what comes
after it: only the last piece of a text can be, when it is a slash that a following
slash or star turns into a comment, or a comment that the text leaves open.

Two facts follow, and everything that is said here about parts of texts rests on them.
A part that begins and ends between pieces has, read on its own, the pieces it has in
the whole (`pieces_of_append`).  And when a text is continued, all of its pieces but the
last stay what they are (`pieces_append`).
-/
import FlatSheet.Scan.Comment

namespace FlatSheet

namespace Scan

/-- All pieces of a text. -/
def pieces (parens : Nat) (cs : List Char) : List Piece :=
  match _h : piece? parens cs with
  | some (p, rest) => p :: pieces (p.visible.foldl parensAfter parens) rest
  | none => []
termination_by cs.length
decreasing_by exact length_lt_of_piece? ‹_›

/-- The text that some pieces cover. -/
def written (ps : List Piece) : List Char := ps.flatMap Piece.text

/-- What is left of some pieces when comments are removed. -/
def shown (ps : List Piece) : List Char := ps.flatMap Piece.visible

@[simp] theorem written_nil : written [] = [] := rfl

@[simp] theorem written_cons (p : Piece) (ps : List Piece) :
    written (p :: ps) = p.text ++ written ps := rfl

@[simp] theorem written_append (ps qs : List Piece) :
    written (ps ++ qs) = written ps ++ written qs := by
  simp [written]

@[simp] theorem shown_nil : shown [] = [] := rfl

@[simp] theorem shown_cons (p : Piece) (ps : List Piece) :
    shown (p :: ps) = p.visible ++ shown ps := rfl

@[simp] theorem shown_append (ps qs : List Piece) : shown (ps ++ qs) = shown ps ++ shown qs := by
  simp [shown]

/-- Removing comments keeps the order of what is left. -/
theorem shown_sublist_written (ps : List Piece) : (shown ps).Sublist (written ps) := by
  induction ps with
  | nil => exact List.Sublist.refl _
  | cons p ps ih =>
      cases p with
      | comment t => exact ih.trans (List.sublist_append_right t _)
      | plain c => exact ih.cons_cons c

/-! ### The pieces of a text, one at a time -/

theorem pieces_of_piece? {parens : Nat} {cs rest : List Char} {p : Piece}
    (h : piece? parens cs = some (p, rest)) :
    pieces parens cs = p :: pieces (p.visible.foldl parensAfter parens) rest := by
  rw [pieces]
  split
  · rename_i hq
    rw [h] at hq
    obtain ⟨rfl, rfl⟩ := by simpa using hq
    rfl
  · rename_i hn
    rw [h] at hn
    simp at hn

@[simp] theorem pieces_nil (parens : Nat) : pieces parens [] = [] := by
  rw [pieces]
  split
  · rename_i hp
    rw [piece?_eq_none_iff.mpr rfl] at hp
    simp at hp
  · rfl

/-- The pieces of a text make up the text. -/
@[simp] theorem written_pieces (parens : Nat) (cs : List Char) :
    written (pieces parens cs) = cs := by
  fun_induction pieces parens cs with
  | case1 parens cs p rest h ih =>
      rw [written_cons, ih]
      exact text_append_of_piece? h
  | case2 parens cs h => exact (piece?_eq_none_iff.mp h).symm

theorem piece?_of_pieces_eq_cons {parens : Nat} {cs : List Char} {p : Piece} {ps : List Piece}
    (h : pieces parens cs = p :: ps) :
    piece? parens cs = some (p, written ps) ∧
      pieces (p.visible.foldl parensAfter parens) (written ps) = ps := by
  rw [pieces] at h
  split at h
  · rename_i q rest hq
    obtain ⟨rfl, rfl⟩ := by simpa using h
    rw [written_pieces]
    exact ⟨hq, rfl⟩
  · simp at h

theorem comment?_of_piece? {parens : Nat} {cs t rest : List Char}
    (h : piece? parens cs = some (.comment t, rest)) : comment? parens cs = some (t, rest) := by
  unfold piece? at h
  rcases hc : comment? parens cs with _ | ⟨t', rest'⟩
  · rw [hc] at h
    dsimp only at h
    split at h
    · cases h
    · cases h
  · rw [hc] at h
    cases h
    rfl

theorem comment?_of_plain {parens : Nat} {c : Char} {cs rest : List Char}
    (h : piece? parens cs = some (.plain c, rest)) :
    comment? parens cs = none ∧ cs = c :: rest := by
  unfold piece? at h
  rcases hc : comment? parens cs with _ | ⟨t, rest'⟩
  · rw [hc] at h
    dsimp only at h
    split at h
    · cases h
    · cases h
      exact ⟨rfl, rfl⟩
  · rw [hc] at h
    cases h

theorem pieces_of_comment? {parens : Nat} {cs t rest : List Char}
    (h : comment? parens cs = some (t, rest)) :
    pieces parens cs = .comment t :: pieces parens rest := by
  refine pieces_of_piece? ?_
  unfold piece?
  rw [h]

theorem pieces_of_comment?_eq_none {parens : Nat} {c : Char} {cs : List Char}
    (h : comment? parens (c :: cs) = none) :
    pieces parens (c :: cs) = .plain c :: pieces (parensAfter parens c) cs := by
  refine pieces_of_piece? ?_
  unfold piece?
  rw [h]

/-! ### A piece and the text after it

What a piece needs of the text after it is only how that text begins.
-/

theorem eq_nil_of_splitBlock {cs : List Char} (h : (splitBlock cs).1 = []) : cs = [] := by
  unfold splitBlock at h
  split at h
  · rfl
  · simp at h
  · simp at h

/-- A block comment that is closed ends where it ends whatever comes after it. -/
theorem splitBlock_of_closed {cs : List Char} (h : (splitBlock cs).2 ≠ []) (b : List Char) :
    splitBlock ((splitBlock cs).1 ++ b) = ((splitBlock cs).1, b) := by
  fun_induction splitBlock cs with
  | case1 => simp at h
  | case2 => rfl
  | case3 c cs hne s ih =>
      rw [List.cons_append, splitBlock, ih h]
      -- What was not the closing mark is not one now: the character after it is the same.
      intro ds hc hds
      rcases hs : (splitBlock cs).1 with _ | ⟨d, ds'⟩
      · rw [show s = splitBlock cs from rfl, eq_nil_of_splitBlock hs] at h
        exact h rfl
      · have hcs := splitBlock_append cs
        rw [hs] at hcs
        rw [show s = splitBlock cs from rfl, hs] at hds
        obtain ⟨rfl, -⟩ := by simpa using hds
        exact hne _ hc hcs.symm

/-- A line comment ends at a line's end or at the end of the text. -/
theorem splitLine_of_head? {cs b : List Char} (hb : b = [] ∨ b.head? = (splitLine cs).2.head?) :
    splitLine ((splitLine cs).1 ++ b) = ((splitLine cs).1, b) := by
  fun_induction splitLine cs with
  | case1 =>
      have hnil : b = [] := by simpa using hb
      rw [hnil]
      rfl
  | case2 cs =>
      rcases b with _ | ⟨d, b⟩
      · rfl
      · obtain rfl : d = '\n' := by simpa using hb
        rfl
  | case3 c cs hc s ih =>
      have hs : splitLine (s.1 ++ b) = (s.1, b) := ih hb
      rw [List.cons_append, splitLine, if_neg hc, hs]

theorem comment?_eq_none_of_head? {parens : Nat} {c : Char} {a b : List Char}
    (h : comment? parens (c :: a) = none) (hb : b = [] ∨ b.head? = a.head?) :
    comment? parens (c :: b) = none := by
  rcases b with _ | ⟨d, b⟩
  · unfold comment?
    split <;> simp_all
  · rcases a with _ | ⟨e, a⟩
    · simp at hb
    · obtain rfl : d = e := by simpa using hb
      unfold comment? at h ⊢
      split at h <;> split <;> simp_all

theorem comment?_block (parens : Nat) (cs : List Char) :
    comment? parens ('/' :: '*' :: cs)
      = some ('/' :: '*' :: (splitBlock cs).1, (splitBlock cs).2) := rfl

theorem comment?_line (cs : List Char) :
    comment? 0 ('/' :: '/' :: cs) = some ('/' :: '/' :: (splitLine cs).1, (splitLine cs).2) := rfl

theorem comment?_of_head? {parens : Nat} {t a b : List Char}
    (h : comment? parens (t ++ a) = some (t, a)) (hb : b = [] ∨ b.head? = a.head?) :
    comment? parens (t ++ b) = some (t, b) := by
  unfold comment? at h
  split at h
  · rename_i cs _
    obtain ⟨rfl, rfl⟩ := by simpa using h
    rw [List.cons_append, List.cons_append, comment?_block]
    by_cases hc : (splitBlock cs).2 = []
    · have hnil : b = [] := by simpa [hc] using hb
      have hcs := splitBlock_append cs
      rw [hc, List.append_nil] at hcs
      rw [hnil, List.append_nil, hcs, hcs, hc]
    · rw [splitBlock_of_closed hc]
  · rename_i cs _
    split at h
    · rename_i hp
      obtain ⟨rfl, rfl⟩ := by simpa using h
      rw [List.cons_append, List.cons_append, hp, comment?_line, splitLine_of_head? hb]
    · simp at h
  · simp at h

/-- A piece is the same in front of two texts that begin alike, and at the end. -/
theorem piece?_of_head? {parens : Nat} {p : Piece} {a b : List Char}
    (h : piece? parens (p.text ++ a) = some (p, a)) (hb : b = [] ∨ b.head? = a.head?) :
    piece? parens (p.text ++ b) = some (p, b) := by
  unfold piece? at h
  split at h
  · rename_i t rest ht
    obtain ⟨rfl, rfl⟩ := by simpa using h
    unfold piece?
    rw [show (Piece.comment t).text = t from rfl] at ht ⊢
    rw [comment?_of_head? ht hb]
  · rename_i hn
    split at h
    · simp at h
    · rename_i c rest heq
      obtain ⟨rfl, rfl⟩ := by simpa using h
      unfold piece?
      rw [show (Piece.plain c).text ++ b = c :: b from rfl]
      rw [comment?_eq_none_of_head? hn hb]

/-- A character that is no slash begins no comment. -/
theorem piece?_of_ne_slash {parens : Nat} {c : Char} (h : c ≠ '/') (cs : List Char) :
    piece? parens (c :: cs) = some (.plain c, cs) := by
  have hn : comment? parens (c :: cs) = none := by
    unfold comment?
    split
    · rename_i heq
      exact absurd (List.cons.inj heq).1 h
    · rename_i heq
      exact absurd (List.cons.inj heq).1 h
    · rfl
  unfold piece?
  rw [hn]

/-- A comment begins with a slash. -/
theorem exists_of_comment {parens : Nat} {cs t rest : List Char}
    (h : piece? parens cs = some (.comment t, rest)) : ∃ inside, t = '/' :: inside := by
  have htext := text_append_of_piece? h
  obtain ⟨c, inside, rfl⟩ := List.exists_cons_of_ne_nil (text_ne_nil_of_piece? h : t ≠ [])
  by_cases hc : c = '/'
  · exact ⟨inside, by rw [hc]⟩
  · rw [← htext] at h
    simp [Piece.text, piece?_of_ne_slash hc] at h

theorem pieces_of_ne_slash {parens : Nat} {c : Char} (h : c ≠ '/') (cs : List Char) :
    pieces parens (c :: cs) = .plain c :: pieces (parensAfter parens c) cs :=
  pieces_of_piece? (piece?_of_ne_slash h cs)

theorem shown_map_plain (cs : List Char) : shown (cs.map Piece.plain) = cs := by
  induction cs with
  | nil => rfl
  | cons c cs ih => exact congrArg (c :: ·) ih

theorem written_map_plain (cs : List Char) : written (cs.map Piece.plain) = cs := by
  induction cs with
  | nil => rfl
  | cons c cs ih => exact congrArg (c :: ·) ih

/-- Text without a slash is read character by character, whatever comes after it. -/
theorem pieces_append_of_ne_slash {cs : List Char} (h : ∀ c ∈ cs, c ≠ '/') (parens : Nat)
    (rest : List Char) :
    pieces parens (cs ++ rest) = cs.map Piece.plain ++ pieces (cs.foldl parensAfter parens) rest := by
  induction cs generalizing parens with
  | nil => rfl
  | cons c cs ih =>
      obtain ⟨hc, hcs⟩ := List.forall_mem_cons.mp h
      rw [List.cons_append, pieces_of_ne_slash hc, ih hcs]
      rfl

/-! ### Parts of a text -/

theorem text_ne_nil_of_pieces {parens : Nat} {cs : List Char} {p : Piece} {ps : List Piece}
    (h : pieces parens cs = p :: ps) : p.text ≠ [] :=
  text_ne_nil_of_piece? (piece?_of_pieces_eq_cons h).1

/-- The text after some pieces is read on from the parentheses that they leave open. -/
theorem pieces_written_of_append {parens : Nat} {cs : List Char} {ps qs : List Piece}
    (h : pieces parens cs = ps ++ qs) :
    pieces ((shown ps).foldl parensAfter parens) (written qs) = qs := by
  induction ps generalizing parens cs with
  | nil =>
      rw [List.nil_append] at h
      rw [← h, written_pieces]
      rfl
  | cons p ps ih =>
      have hp := (piece?_of_pieces_eq_cons (List.cons_append .. ▸ h)).2
      rw [shown_cons, List.foldl_append]
      exact ih hp

/-- **A text cut between two pieces keeps the pieces in front of the cut.** -/
theorem pieces_of_append {parens : Nat} {cs : List Char} {ps qs : List Piece}
    (h : pieces parens cs = ps ++ qs) : pieces parens (written ps) = ps := by
  induction ps generalizing parens cs with
  | nil => exact pieces_nil parens
  | cons p ps ih =>
      obtain ⟨hp, hps⟩ := piece?_of_pieces_eq_cons (List.cons_append .. ▸ h)
      have htext := text_append_of_piece? hp
      rw [← htext] at hp
      have hhead : written ps = [] ∨ (written ps).head? = (written (ps ++ qs)).head? := by
        rw [written_append]
        rcases written ps with _ | ⟨c, cs⟩
        · exact Or.inl rfl
        · exact Or.inr rfl
      rw [written_cons, pieces_of_piece? (piece?_of_head? hp hhead), ih hps]

/-- **A text that is continued keeps its pieces in front of the last.** -/
theorem pieces_append {parens : Nat} {a : List Char} {ps qs : List Piece} {q : Piece}
    (h : pieces parens a = ps ++ q :: qs) (b : List Char) :
    pieces parens (a ++ b)
      = ps ++ pieces ((shown ps).foldl parensAfter parens) (written (q :: qs) ++ b) := by
  have hne : written (q :: qs) ≠ [] := by
    have := pieces_written_of_append h
    have hq := text_ne_nil_of_pieces this
    simp [hq]
  induction ps generalizing parens a with
  | nil =>
      rw [List.nil_append] at h
      rw [← h, written_pieces]
      rfl
  | cons p ps ih =>
      obtain ⟨hp, hps⟩ := piece?_of_pieces_eq_cons (List.cons_append .. ▸ h)
      have htext := text_append_of_piece? hp
      rw [← htext] at hp
      have hhead : (written (ps ++ q :: qs) ++ b).head? = (written (ps ++ q :: qs)).head? := by
        rcases hw : written (ps ++ q :: qs) with _ | ⟨c, cs⟩
        · rw [written_append] at hw
          exact absurd (List.append_eq_nil_iff.mp hw).2 hne
        · rfl
      rw [← htext, List.append_assoc, pieces_of_piece? (piece?_of_head? hp (Or.inr hhead)), ih hps,
        shown_cons, List.foldl_append]
      rfl

/-- A closing brace stays what it is whatever follows, and what follows is read as if it began there. -/
theorem pieces_append_closing {parens : Nat} {a : List Char} {ps qs : List Piece}
    (h : pieces parens a = ps ++ .plain '}' :: qs) (b : List Char) :
    pieces parens (a ++ b) = ps ++ .plain '}' :: pieces 0 (written qs ++ b) := by
  rw [pieces_append h, written_cons, Piece.text, List.append_assoc, List.singleton_append,
    pieces_of_ne_slash (by decide)]
  rfl

end Scan

end FlatSheet
