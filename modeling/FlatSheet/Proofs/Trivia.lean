/-
Texts between blanks and comments.

Between the parts of a sheet there may be blanks and block comments, which are read as
what they are whatever stands around them.  A selector or a declaration that has no
comment in it is read character by character, as long as the next character begins no
comment with its last one.
-/
import FlatSheet.Proofs.Event

namespace FlatSheet

namespace Scan

/-- Blanks and block comments that are closed. -/
inductive Trivia : List Char → Prop where
  | nil : Trivia []
  | blank {cs : List Char} (c : Char) (hc : Cursor.isSpacing c = true) (h : Trivia cs) :
      Trivia (c :: cs)
  | comment {cs : List Char} (text : List Char) (htext : ¬ ['*', '/'] <:+: text) (h : Trivia cs) :
      Trivia ('/' :: '*' :: (text ++ '*' :: '/' :: cs))

/-- What may stand behind a text: nothing, or trivia that begins with a blank.  A comment right
behind a text would be a part of it. -/
structure Gap (cs : List Char) : Prop where
  trivia : Trivia cs
  head : ∀ c ∈ cs.head?, Cursor.isSpacing c = true

/-- A selector or a declaration: not empty, without blanks around it, without a character that would
end it and without a comment. -/
structure Token (text : String) : Prop where
  nonempty : text ≠ ""
  trimmed : Text.trim text.toList = text.toList
  unbroken : ∀ c ∈ text.toList, ScanMode.nested.isBoundary c = false
  uncommented : FlatSheet.stripComments text = text

/-! ### The pieces of trivia -/

/-- A block comment ends at the first mark that can end it. -/
theorem splitBlock_append_mark {text : List Char} (h : ¬ ['*', '/'] <:+: text) (rest : List Char) :
    splitBlock (text ++ '*' :: '/' :: rest) = (text ++ ['*', '/'], rest) := by
  induction text with
  | nil => rfl
  | cons c text ih =>
      have htail : ¬ ['*', '/'] <:+: text := by
        intro ht
        exact h (ht.trans (List.infix_cons List.infix_rfl))
      rw [List.cons_append, splitBlock, ih htail]
      · rfl
      · intro ds hc hds
        rcases text with _ | ⟨d, text⟩
        · simp at hds
        · obtain ⟨rfl, -⟩ := List.cons.inj hds
          exact h ⟨[], text, by rw [hc]; rfl⟩

theorem piece?_of_comment {text : List Char} (h : ¬ ['*', '/'] <:+: text) (parens : Nat)
    (rest : List Char) :
    piece? parens ('/' :: '*' :: (text ++ '*' :: '/' :: rest))
      = some (.comment ('/' :: '*' :: (text ++ ['*', '/'])), rest) := by
  unfold piece?
  rw [comment?_block, splitBlock_append_mark h]

theorem parensAfter_of_isSpacing {c : Char} (h : Cursor.isSpacing c = true) (parens : Nat) :
    parensAfter parens c = parens :=
  Cursor.foldl_parensAfter_of_spacing (List.forall_mem_singleton.mpr h) parens

theorem ne_slash_of_isSpacing {c : Char} (h : Cursor.isSpacing c = true) : c ≠ '/' := by
  rintro rfl
  simp [Cursor.isSpacing] at h

/-- Trivia is read as blanks and comments, whatever comes after it. -/
theorem Trivia.pieces {cs : List Char} (h : Trivia cs) :
    ∃ ps, (∀ c ∈ shown ps, Cursor.isSpacing c = true) ∧
      ∀ parens rest, Scan.pieces parens (cs ++ rest) = ps ++ Scan.pieces parens rest := by
  induction h with
  | nil => exact ⟨[], by simp, fun _ _ => rfl⟩
  | blank c hc _ ih =>
      obtain ⟨ps, hps, hread⟩ := ih
      refine ⟨.plain c :: ps, List.forall_mem_cons.mpr ⟨hc, hps⟩, ?_⟩
      intro parens rest
      rw [List.cons_append, pieces_of_ne_slash (ne_slash_of_isSpacing hc),
        parensAfter_of_isSpacing hc, hread]
      rfl
  | @comment cs text htext _ ih =>
      obtain ⟨ps, hps, hread⟩ := ih
      refine ⟨.comment ('/' :: '*' :: (text ++ ['*', '/'])) :: ps, hps, ?_⟩
      intro parens rest
      have hpiece := piece?_of_comment htext parens (cs ++ rest)
      rw [List.cons_append, List.cons_append, List.append_assoc, List.cons_append,
        List.cons_append, pieces_of_piece? hpiece]
      exact congrArg (Piece.comment _ :: ·) (hread parens rest)

/-! ### The pieces of a token -/

/-- A text that loses nothing with its comments has none. -/
theorem pieces_eq_map_plain {parens : Nat} {cs : List Char} (h : shown (pieces parens cs) = cs) :
    pieces parens cs = cs.map Piece.plain := by
  fun_induction pieces parens cs with
  | case1 parens cs p rest hp ih =>
      have htext := text_append_of_piece? hp
      cases p with
      | comment t =>
          exfalso
          have hle := (shown_sublist_written (pieces parens rest)).length_le
          rw [written_pieces] at hle
          have hpos := List.length_pos_iff.mpr (text_ne_nil_of_piece? hp)
          have hlength := congrArg List.length (h.trans htext.symm)
          rw [List.length_append] at hlength
          change (shown (pieces parens rest)).length = _ at hlength
          omega
      | plain c =>
          rw [← htext] at h ⊢
          obtain hrest := (List.cons.inj h).2
          exact congrArg (Piece.plain c :: ·) (ih hrest)
  | case2 parens cs hn => rw [piece?_eq_none_iff.mp hn]; rfl

/-- A text is its own text without comments if it is read character by character. -/
theorem stripComments_eq_self_iff {text : String} :
    FlatSheet.stripComments text = text ↔ pieces 0 text.toList = text.toList.map Piece.plain := by
  rw [← String.toList_inj, FlatSheet.stripComments, String.toList_ofList,
    ← Cursor.map_fst_marks_pieces .char .start, map_fst_marks]
  constructor
  · exact pieces_eq_map_plain
  · intro h
    rw [h, shown_map_plain]

/-- A character that begins no comment with the one before it leaves that one alone. -/
theorem piece?_of_next {c d : Char} (hs : d ≠ '/') (hst : d ≠ '*') (parens : Nat)
    (rest : List Char) : piece? parens (c :: d :: rest) = some (.plain c, d :: rest) := by
  have hn : comment? parens (c :: d :: rest) = none := by
    unfold comment?
    split
    · rename_i heq
      exact absurd (List.cons.inj (List.cons.inj heq).2).1 hst
    · rename_i heq
      exact absurd (List.cons.inj (List.cons.inj heq).2).1 hs
    · rfl
  unfold piece?
  rw [hn]

/-- A text without comments is read character by character up to a character that begins none. -/
theorem pieces_append_of_plain {parens : Nat} {cs : List Char}
    (h : pieces parens cs = cs.map Piece.plain) {d : Char} (hs : d ≠ '/') (hst : d ≠ '*')
    (rest : List Char) :
    pieces parens (cs ++ d :: rest)
      = cs.map Piece.plain ++ pieces (cs.foldl parensAfter parens) (d :: rest) := by
  rcases List.eq_nil_or_concat cs with rfl | ⟨front, c, rfl⟩
  · rfl
  · rw [List.concat_eq_append] at h ⊢
    rw [List.map_append] at h
    rw [pieces_append h, shown_map_plain, List.foldl_append, List.map_append, List.append_assoc]
    show _ ++ pieces _ (c :: d :: rest) = _
    rw [pieces_of_piece? (piece?_of_next hs hst _ rest)]
    rfl

theorem Token.of_ne_slash {text : String} (nonempty : text ≠ "")
    (trimmed : Text.trim text.toList = text.toList)
    (hchars : text.toList.all (fun c => !ScanMode.nested.isBoundary c && c != '/') = true) :
    Token text := by
  simp only [List.all_eq_true, Bool.and_eq_true, Bool.not_eq_true', bne_iff_ne] at hchars
  refine ⟨nonempty, trimmed, fun c hc => (hchars c hc).1, ?_⟩
  rw [FlatSheet.stripComments, Cursor.stripComments_of_ne_slash fun c hc => (hchars c hc).2,
    String.ofList_toList]

theorem Token.pieces {text : String} (h : Token text) :
    Scan.pieces 0 text.toList = text.toList.map Piece.plain :=
  stripComments_eq_self_iff.mp h.uncommented

/-! ### A token between two gaps -/

theorem trim_append_of_blank_end {cs ds : List Char} (h : ∀ c ∈ ds, Text.isBlank c = true) :
    Text.trim (cs ++ ds) = Text.trim cs := by
  have hend : ∀ es : List Char, Text.trimEnd (es ++ ds) = Text.trimEnd es := by
    intro es
    have hreverse : ∀ c ∈ ds.reverse, Text.isBlank c = true := by
      intro c hc
      exact h c (List.mem_reverse.mp hc)
    unfold Text.trimEnd
    rw [List.reverse_append, List.dropWhile_append_of_pos hreverse]
  unfold Text.trim
  rw [List.dropWhile_append]
  split
  · rename_i hempty
    rw [List.isEmpty_iff.mp hempty, List.dropWhile_eq_nil_iff.mpr h]
  · exact hend _

/-- The blanks around a text that has none itself are dropped. -/
theorem trimmed_between {text : String} (h : Text.trim text.toList = text.toList)
    {before behind : List Char} (hbefore : ∀ c ∈ before, Text.isBlank c = true)
    (hbehind : ∀ c ∈ behind, Text.isBlank c = true) :
    trimmed (before ++ (text.toList ++ behind)) = text := by
  rw [trimmed, trim_append_of_blank hbefore, trim_append_of_blank_end hbehind, h,
    String.ofList_toList]

/-- A boundary is read as it stands, and closes all parentheses. -/
theorem pieces_of_boundary {b : Char} (hb : ScanMode.nested.isBoundary b = true) (parens : Nat)
    (rest : List Char) : pieces parens (b :: rest) = .plain b :: pieces 0 rest := by
  rcases Marked.nested_boundary hb with rfl | rfl | rfl
  · exact pieces_of_ne_slash (by decide) rest
  · exact pieces_of_ne_slash (by decide) rest
  · exact pieces_of_ne_slash (by decide) rest

/-- Behind a token there is a gap or a boundary, and neither begins a comment with it. -/
theorem Gap.next {behind : List Char} (h : Gap behind) {b : Char}
    (hb : ScanMode.nested.isBoundary b = true) (rest : List Char) :
    ∃ d more, behind ++ b :: rest = d :: more ∧ d ≠ '/' ∧ d ≠ '*' := by
  rcases behind with _ | ⟨d, behind⟩
  · refine ⟨b, rest, rfl, ?_⟩
    rcases Marked.nested_boundary hb with rfl | rfl | rfl <;> decide
  · refine ⟨d, behind ++ b :: rest, rfl, ?_⟩
    have hd := h.head d rfl
    constructor
    · exact ne_slash_of_isSpacing hd
    · rintro rfl
      simp [Cursor.isSpacing] at hd

/-- What is read of a token, from the gap in front of it up to the boundary behind it. -/
theorem exists_span {before behind : List Char} {text : String} (hbefore : Trivia before)
    (htext : Token text) (hbehind : Gap behind) {b : Char} (hb : ScanMode.nested.isBoundary b = true) :
    ∃ ps, trimmed (shown ps) = text ∧
      (∀ c ∈ shown ps, ScanMode.nested.isBoundary c = false) ∧
      ∀ rest, Scan.pieces 0 (before ++ (text.toList ++ (behind ++ b :: rest)))
        = ps ++ .plain b :: Scan.pieces 0 rest := by
  obtain ⟨ps, hps, hread⟩ := hbefore.pieces
  obtain ⟨qs, hqs, hread'⟩ := hbehind.trivia.pieces
  have hshown : shown (ps ++ (text.toList.map Piece.plain ++ qs))
      = shown ps ++ (text.toList ++ shown qs) := by
    rw [shown_append, shown_append, shown_map_plain]
  refine ⟨ps ++ (text.toList.map Piece.plain ++ qs), ?_, ?_, ?_⟩
  · rw [hshown]
    exact trimmed_between htext.trimmed (fun c hc => isBlank_of_isSpacing (hps c hc))
      (fun c hc => isBlank_of_isSpacing (hqs c hc))
  · intro c hc
    rw [hshown, List.mem_append, List.mem_append] at hc
    rcases hc with hc | hc | hc
    · exact isBoundary_of_isSpacing (hps c hc) .nested
    · exact htext.unbroken c hc
    · exact isBoundary_of_isSpacing (hqs c hc) .nested
  · intro rest
    obtain ⟨d, more, hmore, hs, hst⟩ := hbehind.next hb rest
    rw [hread, hmore, pieces_append_of_plain htext.pieces hs hst, ← hmore, hread',
      pieces_of_boundary hb, List.append_assoc, List.append_assoc]

end Scan

end FlatSheet
