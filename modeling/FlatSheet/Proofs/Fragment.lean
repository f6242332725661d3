/-
Loose declarations as the block of one class.

A fragment puts declarations between braces of its own.  Most of what they leave open at
their end the closing brace ends with them: a declaration without a semicolon, and
parentheses.  A comment it does not end.  The blanks around the declarations are dropped
first, with the end of a line among them, so that a line comment at their end goes on
and takes in the brace, as a block comment without its mark does.  The block is never
closed then, and nothing is left of it.

So a fragment is the one rule with its declarations (`rules_scopedFragment_of_closed`),
unless these end in such a comment (`rules_scopedFragment_of_open`).
-/
import FlatSheet.Proofs.Declaration
import FlatSheet.Proofs.Printing
import FlatSheet.Proofs.Settled
import FlatSheet.Proofs.WellFormed

namespace FlatSheet

open Marked

/-- A comment that text behind it would be a part of, as long as no line ends there: a line comment,
or a block comment without its mark. -/
def Piece.isOpen : Piece → Bool
  | comment ('/' :: '*' :: inside) => !List.isSuffixOf ['*', '/'] inside
  | comment _ => true
  | plain _ => false

namespace Scan

/-- The last piece of a text is a comment that goes on. -/
def endsInComment (cs : List Char) : Bool := (pieces 0 cs).getLast?.any Piece.isOpen

/-! ### Text behind a block comment -/

section

variable {cs behind : List Char} (h : (splitBlock cs).2 = [])
include h

theorem splitBlock_append_of_closed (hmark : ['*', '/'] <:+ cs) :
    splitBlock (cs ++ behind) = (cs, behind) := by
  fun_induction splitBlock cs with
  | case1 => simp at hmark
  | case2 cs =>
      obtain rfl : cs = [] := h
      rfl
  | case3 c cs hne s ih =>
      have hrest : ['*', '/'] <:+ cs := by
        rcases List.suffix_cons_iff.mp hmark with heq | hrest
        · obtain ⟨rfl, rfl⟩ := by simpa using heq.symm
          exact (hne [] rfl rfl).elim
        · exact hrest
      rw [List.cons_append, splitBlock, ih h hrest]
      -- The star in front is followed by the same character as before, which is no slash.
      rintro ds rfl hds
      rcases cs with _ | ⟨d, cs⟩
      · simp at hrest
      · obtain ⟨rfl, -⟩ := by simpa using hds
        exact hne cs rfl rfl

theorem splitBlock_append_of_open (hmark : ¬ ['*', '/'] <:+ cs) (hbehind : ∀ c ∈ behind, c ≠ '/') :
    splitBlock (cs ++ behind) = (cs ++ behind, []) := by
  fun_induction splitBlock cs with
  | case1 =>
      clear h hmark
      induction behind with
      | nil => rfl
      | cons c behind ih =>
          obtain ⟨hc, hrest⟩ := List.forall_mem_cons.mp hbehind
          have htail := ih hrest
          rw [List.nil_append] at htail ⊢
          rw [splitBlock, htail]
          rintro ds rfl rfl
          exact hrest '/' (by simp) rfl
  | case2 cs =>
      obtain rfl : cs = [] := h
      exact absurd List.suffix_rfl hmark
  | case3 c cs hne s ih =>
      have hrest : ¬ ['*', '/'] <:+ cs := fun hrest => hmark (hrest.trans (List.suffix_cons c cs))
      rw [List.cons_append, splitBlock, ih h hrest]
      -- A star at the end is followed by the text behind, which has no slash either.
      rintro ds rfl hds
      rcases cs with _ | ⟨d, cs⟩
      · obtain rfl : behind = '/' :: ds := hds
        exact hbehind '/' (by simp) rfl
      · obtain ⟨rfl, -⟩ := by simpa using hds
        exact hne cs rfl rfl

end

/-- A line comment goes on up to the end of its line. -/
theorem splitLine_append_of_open {cs behind : List Char} (h : (splitLine cs).2 = [])
    (hbehind : ∀ c ∈ behind, c ≠ '\n') : splitLine (cs ++ behind) = (cs ++ behind, []) := by
  fun_induction splitLine cs with
  | case1 =>
      clear h
      induction behind with
      | nil => rfl
      | cons c behind ih =>
          obtain ⟨hc, hrest⟩ := List.forall_mem_cons.mp hbehind
          have htail := ih hrest
          rw [List.nil_append] at htail ⊢
          rw [splitLine, if_neg hc, htail]
  | case2 cs => cases h
  | case3 c cs hc s ih => rw [List.cons_append, splitLine, if_neg hc, ih h]

/-! ### Text behind the last piece of another text -/

section

variable {parens : Nat} {q : Piece} (h : piece? parens q.text = some (q, []))
include h

theorem piece?_append_of_closed (hopen : q.isOpen = false) {d : Char} (hs : d ≠ '/') (hst : d ≠ '*')
    (rest : List Char) : piece? parens (q.text ++ d :: rest) = some (q, d :: rest) := by
  cases q with
  | plain c => exact piece?_of_next hs hst parens rest
  | comment t =>
      have hc : comment? parens t = some (t, []) := comment?_of_piece? h
      unfold comment? at hc
      split at hc
      · rename_i inside
        obtain ⟨-, hend⟩ := by simpa using hc
        have hmark : ['*', '/'] <:+ inside := by simpa [Piece.isOpen] using hopen
        show piece? parens ('/' :: '*' :: (inside ++ d :: rest)) = _
        unfold piece?
        rw [comment?_block, splitBlock_append_of_closed hend hmark]
      · cases hopen
      · cases hc

theorem piece?_append_of_open (hopen : q.isOpen = true) {behind : List Char}
    (hbehind : ∀ c ∈ behind, c ≠ '/' ∧ c ≠ '\n') :
    piece? parens (q.text ++ behind) = some (.comment (q.text ++ behind), []) := by
  cases q with
  | plain c => cases hopen
  | comment t =>
      have hc : comment? parens t = some (t, []) := comment?_of_piece? h
      unfold comment? at hc
      split at hc
      · rename_i inside
        obtain ⟨-, hend⟩ := by simpa using hc
        have hmark : ¬ ['*', '/'] <:+ inside := by
          intro hmark
          rw [Piece.isOpen, List.isSuffixOf_iff_suffix.mpr hmark] at hopen
          cases hopen
        show piece? parens ('/' :: '*' :: (inside ++ behind)) = _
        unfold piece?
        rw [comment?_block, splitBlock_append_of_open hend hmark fun c hc => (hbehind c hc).1]
        rfl
      · rename_i inside
        split at hc
        · rename_i hparens
          obtain ⟨-, hend⟩ := by simpa using hc
          subst hparens
          show piece? 0 ('/' :: '/' :: (inside ++ behind)) = _
          unfold piece?
          rw [comment?_line, splitLine_append_of_open hend fun c hc => (hbehind c hc).2]
          rfl
        · cases hc
      · cases hc

end

/-- A text is empty, or it has a last piece. -/
theorem exists_last (cs : List Char) :
    cs = [] ∨ ∃ ps q, pieces 0 cs = ps ++ [q] ∧ endsInComment cs = q.isOpen ∧
      piece? ((shown ps).foldl parensAfter 0) q.text = some (q, []) := by
  rcases List.eq_nil_or_concat (pieces 0 cs) with hnil | ⟨ps, q, hps⟩
  · refine Or.inl ?_
    rw [← written_pieces 0 cs, hnil, written_nil]
  · rw [List.concat_eq_append] at hps
    have hq := (piece?_of_pieces_eq_cons (pieces_written_of_append hps)).1
    rw [written_cons, written_nil, List.append_nil] at hq
    refine Or.inr ⟨ps, q, hps, ?_, hq⟩
    unfold endsInComment
    rw [hps, List.getLast?_concat]
    rfl

variable {cs : List Char}

/-- What stands behind a text that ends in no comment is read as it stands. -/
theorem stripComments_append_of_closed (h : endsInComment cs = false) {behind : List Char}
    (hbehind : ∀ c ∈ behind, c ≠ '/' ∧ c ≠ '*') :
    stripComments (cs ++ behind) = stripComments cs ++ behind := by
  have hplain : ∀ parens, pieces parens behind = behind.map Piece.plain := by
    intro parens
    have hpieces := pieces_append_of_ne_slash (fun c hc => (hbehind c hc).1) parens []
    simpa using hpieces
  rw [Cursor.stripComments_eq_shown, Cursor.stripComments_eq_shown]
  rcases exists_last cs with rfl | ⟨ps, q, hps, hends, hq⟩
  · rw [List.nil_append, hplain, shown_map_plain, pieces_nil]
    rfl
  · rcases behind with _ | ⟨d, behind⟩
    · rw [List.append_nil, List.append_nil]
    · obtain ⟨hs, hst⟩ := hbehind d (by simp)
      rw [pieces_append hps, hps, written_cons, written_nil, List.append_nil,
        pieces_of_piece? (piece?_append_of_closed hq (hends.symm.trans h) hs hst behind), hplain,
        shown_append, shown_append, shown_cons, shown_cons, shown_map_plain, shown_nil,
        List.append_nil, List.append_assoc]

/-- What stands on the line behind a text that ends in a comment is not seen. -/
theorem stripComments_append_of_open (h : endsInComment cs = true) {behind : List Char}
    (hbehind : ∀ c ∈ behind, c ≠ '/' ∧ c ≠ '\n') :
    stripComments (cs ++ behind) = stripComments cs := by
  rw [Cursor.stripComments_eq_shown, Cursor.stripComments_eq_shown]
  rcases exists_last cs with rfl | ⟨ps, q, hps, hends, hq⟩
  · rw [endsInComment, pieces_nil] at h
    cases h
  · have hopen := hends.symm.trans h
    rw [pieces_append hps, hps, written_cons, written_nil, List.append_nil,
      pieces_of_piece? (piece?_append_of_open hq hopen hbehind), pieces_nil, shown_append,
      shown_append]
    cases q with
    | plain c => cases hopen
    | comment t => rfl

/-- Whatever stands behind a text that ends in a comment, what was seen of the text is still seen. -/
theorem stripComments_prefix_of_open (h : endsInComment cs = true) (behind : List Char) :
    stripComments cs <+: stripComments (cs ++ behind) := by
  rw [Cursor.stripComments_eq_shown, Cursor.stripComments_eq_shown]
  rcases exists_last cs with rfl | ⟨ps, q, hps, hends, hq⟩
  · rw [pieces_nil]
    exact List.nil_prefix
  · have hopen := hends.symm.trans h
    rw [pieces_append hps, hps, shown_append, shown_append]
    cases q with
    | plain c => cases hopen
    | comment t =>
        show shown ps ++ [] <+: _
        rw [List.append_nil]
        exact List.prefix_append _ _

end Scan

/-! ### Blanks around declarations -/

/-- A blank is none of the characters that mean something to a reader. -/
theorem Text.ne_of_isBlank {c d : Char} (hc : isBlank c = true) (hd : isBlank d = false) :
    c ≠ d := by
  rintro rfl
  rw [hc] at hd
  cases hd

/-- Blanks begin no comment with what stands in front of them. -/
theorem plain_of_blank {behind : List Char} (h : ∀ c ∈ behind, Text.isBlank c = true) :
    ∀ c ∈ behind, c ≠ '/' ∧ c ≠ '*' := by
  intro c hc
  exact ⟨Text.ne_of_isBlank (h c hc) rfl, Text.ne_of_isBlank (h c hc) rfl⟩

theorem isBlank_of_mem_space : ∀ c ∈ [' '], Text.isBlank c = true :=
  List.forall_mem_singleton.mpr rfl

theorem isBoundary_of_isBlank {c : Char} (h : Text.isBlank c = true) :
    ScanMode.nested.isBoundary c = false := by
  have ho : c ≠ '{' := Text.ne_of_isBlank h rfl
  have hc : c ≠ '}' := Text.ne_of_isBlank h rfl
  have hs : c ≠ ';' := Text.ne_of_isBlank h rfl
  simp [ScanMode.isBoundary, ho, hc, hs]

/-- Blanks in front of a text are read as they stand. -/
theorem Scan.stripComments_blank_append {before : List Char}
    (h : ∀ c ∈ before, Text.isBlank c = true) (cs : List Char) :
    stripComments (before ++ cs) = before ++ stripComments cs := by
  have hparens : before.foldl parensAfter 0 = 0 := by
    induction before with
    | nil => rfl
    | cons c before ih =>
        obtain ⟨hc, hrest⟩ := List.forall_mem_cons.mp h
        have hopening : c ≠ '(' := Text.ne_of_isBlank hc rfl
        have hzero : parensAfter 0 c = 0 := by simp [parensAfter, hopening]
        rw [List.foldl_cons, hzero, ih hrest]
  have hslash : ∀ c ∈ before, c ≠ '/' := fun c hc => Text.ne_of_isBlank (h c hc) rfl
  rw [Cursor.stripComments_eq_shown, Cursor.stripComments_eq_shown,
    pieces_append_of_ne_slash hslash, hparens, shown_append, shown_map_plain]

namespace Content

variable {α : Type} {ms : List (Char × α)}

/-- Without braces there are no blocks inside. -/
theorem rules_read_of_forall (h : ∀ m ∈ ms, m.1 ≠ '{' ∧ m.1 ≠ '}') (selector : String) :
    (read ms).rules selector = [] := by
  induction ms using nested_induction with
  | plain ms hms =>
      rw [read_of_forall hms, rules_declared]
      rfl
  | semicolon pre x ms hpre ih =>
      rw [read_of_semicolon hpre, rules_declared]
      exact ih fun m hm => h m (by simp [hm])
  | stray pre x ms hpre ih => exact absurd rfl (h ('}', x) (by simp)).2
  | block pre x ms c hpre hc ih1 ih2 => exact absurd rfl (h ('{', x) (by simp)).1
  | unclosed pre x ms hpre hc => exact absurd rfl (h ('{', x) (by simp)).1

/-- Blanks in front of a content belong to no declaration. -/
theorem own_read_blank_append {before : List (Char × α)}
    (h : ∀ m ∈ before, Text.isBlank m.1 = true) (ms : List (Char × α)) :
    (read (before ++ ms)).own = (read ms).own := by
  have hplain : ∀ {pre : List (Char × α)}, (∀ m ∈ pre, ScanMode.nested.isBoundary m.1 = false) →
      ∀ m ∈ before ++ pre, ScanMode.nested.isBoundary m.1 = false := by
    intro pre hpre m hm
    rcases List.mem_append.mp hm with hm | hm
    · exact isBoundary_of_isBlank (h m hm)
    · exact hpre m hm
  have htrim : ∀ (pre : List (Char × α)) (rest : Content α),
      declared ((before ++ pre).map Prod.fst) rest = declared (pre.map Prod.fst) rest := by
    intro pre rest
    have hblank : ∀ c ∈ before.map Prod.fst, Text.isBlank c = true := by
      intro c hc
      obtain ⟨m, hm, rfl⟩ := List.mem_map.mp hc
      exact h m hm
    unfold declared trimmed
    rw [List.map_append, trim_append_of_blank hblank]
  rcases exists_boundary ScanMode.nested.isBoundary ms with hms | ⟨pre, c, x, rest, rfl, hpre, hc⟩
  · rw [read_of_forall (hplain hms), read_of_forall hms, htrim]
  · rw [← List.append_assoc]
    rcases nested_boundary hc with rfl | rfl | rfl
    · rcases hcl : closing? 0 rest with _ | d
      · rw [read_of_unclosed (hplain hpre) hcl, read_of_unclosed hpre hcl]
      · rw [read_of_block (hplain hpre) hcl, read_of_block hpre hcl]
        rfl
    · rw [read_of_stray (hplain hpre), read_of_stray hpre, htrim]
    · rw [read_of_semicolon (hplain hpre), read_of_semicolon hpre, htrim]

/-- Nor do blanks behind it, where there are no blocks. -/
theorem own_read_append_blank (hms : ∀ m ∈ ms, m.1 ≠ '{' ∧ m.1 ≠ '}') {behind : List (Char × α)}
    (h : ∀ m ∈ behind, Text.isBlank m.1 = true) : (read (ms ++ behind)).own = (read ms).own := by
  induction ms using nested_induction with
  | plain ms hplain =>
      have hall : ∀ m ∈ ms ++ behind, ScanMode.nested.isBoundary m.1 = false := by
        intro m hm
        rcases List.mem_append.mp hm with hm | hm
        · exact hplain m hm
        · exact isBoundary_of_isBlank (h m hm)
      have hblank : ∀ c ∈ behind.map Prod.fst, Text.isBlank c = true := by
        intro c hc
        obtain ⟨m, hm, rfl⟩ := List.mem_map.mp hc
        exact h m hm
      rw [read_of_forall hall, read_of_forall hplain]
      unfold declared trimmed
      rw [List.map_append, Scan.trim_append_of_blank_end hblank]
  | semicolon pre x ms hpre ih =>
      have hrest := ih fun m hm => hms m (by simp [hm])
      rw [List.append_assoc, List.cons_append, read_of_semicolon hpre, read_of_semicolon hpre,
        own_declared _ (read (ms ++ behind)), hrest, ← own_declared]
  | stray pre x ms hpre ih => exact absurd rfl (hms ('}', x) (by simp)).2
  | block pre x ms c hpre hc ih1 ih2 => exact absurd rfl (hms ('{', x) (by simp)).1
  | unclosed pre x ms hpre hc => exact absurd rfl (hms ('{', x) (by simp)).1

theorem own_unmarked_between {cs before behind : List Char} (hcs : ∀ c ∈ cs, c ≠ '{' ∧ c ≠ '}')
    (hbefore : ∀ c ∈ before, Text.isBlank c = true)
    (hbehind : ∀ c ∈ behind, Text.isBlank c = true) :
    (read (unmarked (before ++ (cs ++ behind)))).own = (read (unmarked cs)).own := by
  have hsplit : unmarked (before ++ (cs ++ behind))
      = unmarked before ++ (unmarked cs ++ unmarked behind) := by
    simp [unmarked]
  rw [hsplit, own_read_blank_append (forall_mem_unmarked hbefore),
    own_read_append_blank (forall_mem_unmarked hcs) (forall_mem_unmarked hbehind)]

end Content

/-! ### The fragment -/

theorem scopedFragment_eq (className declarations : String) :
    scopedFragment className declarations
      = "." ++ className ++ " \x7b " ++ String.ofList (Text.trim declarations.toList) ++ " \x7d" :=
  rfl

theorem emit_ofBlock (selector : String) (declarations : List String) :
    emit (Rule.ofBlock selector declarations) = emit [⟨selector, declarations⟩] := by
  cases declarations with
  | nil => rfl
  | cons d ds => rfl

/-- The rules of a sheet are those of its characters outside comments. -/
theorem rules_flatten_eq (source : String) :
    (flatten source).rules
      = (Outline.read (Content.unmarked (Scan.stripComments source.toList))).rules := by
  have hchars : (sheetMarks source).map Prod.fst
      = (Content.unmarked (Scan.stripComments source.toList)).map Prod.fst := by
    rw [map_fst_sheetMarks, Content.map_fst_unmarked]
  have hrules := congrArg Outline.rules (Outline.read_of_chars hchars ())
  rw [Outline.rules_map, Outline.rules_map] at hrules
  rw [flatten_eq_outline]
  exact hrules

/-- And so are the declarations of a text. -/
theorem extractDeclarations_eq (content : String) :
    extractDeclarations content
      = (Content.read (Content.unmarked (Scan.stripComments content.toList))).own :=
  extractDeclarations_eq_own (Content.map_fst_unmarked _)

section

variable {className : String}
  (hclass : ∀ c ∈ className.toList, Text.isBlank c = false ∧ c ≠ '/' ∧ c ≠ '{' ∧ c ≠ '}')
include hclass

/-- The characters of a fragment's selector mean nothing to a reader. -/
theorem plain_of_mem_selector {c : Char} (hc : c ∈ ("." ++ className).toList) :
    Text.isBlank c = false ∧ c ≠ '/' ∧ c ≠ '{' ∧ c ≠ '}' := by
  rw [String.toList_append] at hc
  rcases List.mem_append.mp hc with hdot | hc
  · obtain rfl := List.mem_singleton.mp hdot
    decide
  · exact hclass c hc

/-- The class and the opening brace are read as they stand, and the declarations behind them as if
they stood alone. -/
theorem stripComments_scopedFragment (declarations : String) :
    Scan.stripComments (scopedFragment className declarations).toList
      = (("." ++ className).toList ++ [' '])
        ++ '{' :: ' ' :: Scan.stripComments (Text.trim declarations.toList ++ [' ', '}']) := by
  have hfront : ∀ c ∈ ("." ++ className).toList ++ [' ', '{', ' '], c ≠ '/' := by
    intro c hc
    rcases List.mem_append.mp hc with hc | hc
    · exact (plain_of_mem_selector hclass hc).2.1
    · rintro rfl
      simp at hc
  have hparens : (("." ++ className).toList ++ [' ', '{', ' ']).foldl Scan.parensAfter 0 = 0 := by
    rw [List.foldl_append]
    rfl
  have htext : (scopedFragment className declarations).toList
      = (("." ++ className).toList ++ [' ', '{', ' '])
        ++ (Text.trim declarations.toList ++ [' ', '}']) := by
    rw [scopedFragment_eq]
    simp
  rw [htext, Cursor.stripComments_eq_shown, Scan.pieces_append_of_ne_slash hfront, hparens,
    Scan.shown_append, Scan.shown_map_plain, ← Cursor.stripComments_eq_shown]
  simp

theorem trimmed_selector : trimmed (("." ++ className).toList ++ [' ']) = "." ++ className := by
  have hself : Text.trim ("." ++ className).toList = ("." ++ className).toList := by
    refine Text.trim_eq_self_iff.mpr ⟨fun c hc => ?_, fun c hc => ?_⟩
    · exact (plain_of_mem_selector hclass (List.mem_of_mem_head? hc)).1
    · exact (plain_of_mem_selector hclass (List.mem_of_mem_getLast? hc)).1
  have hbetween := Scan.trimmed_between hself (List.forall_mem_nil _) isBlank_of_mem_space
  rwa [List.nil_append] at hbetween

theorem topLevel_selector :
    ∀ m ∈ Content.unmarked (("." ++ className).toList ++ [' ']),
      ScanMode.topLevel.isBoundary m.1 = false := by
  refine Content.forall_unmarked ?_
  intro c hc
  rcases List.mem_append.mp hc with hc | hc
  · obtain ⟨-, -, ho, hc⟩ := plain_of_mem_selector hclass hc
    simp [ScanMode.isBoundary, ho, hc]
  · rw [List.mem_singleton.mp hc]
    rfl

end

section

variable {declarations : String}
  (hbraces : ∀ c ∈ Scan.stripComments declarations.toList, c ≠ '{' ∧ c ≠ '}')
include hbraces

/-- No braces are seen of the declarations without the blanks around them either. -/
theorem ne_brace_of_mem_trim :
    ∀ c ∈ Scan.stripComments (Text.trim declarations.toList), c ≠ '{' ∧ c ≠ '}' := by
  obtain ⟨before, behind, hsplit, hbefore, hbehind⟩ := Text.exists_trim declarations.toList
  intro c hc
  refine hbraces c ?_
  rw [hsplit, Scan.stripComments_blank_append hbefore]
  refine List.mem_append_right before ?_
  rcases hends : Scan.endsInComment (Text.trim declarations.toList) with _ | _
  · rw [Scan.stripComments_append_of_closed hends (plain_of_blank hbehind)]
    exact List.mem_append_left behind hc
  · exact (Scan.stripComments_prefix_of_open hends behind).subset hc

/-- Between the blanks of a fragment stand the same declarations as between their own. -/
theorem own_fragment (hends : Scan.endsInComment (Text.trim declarations.toList) = false) :
    (Content.read (Content.unmarked
        ([' '] ++ (Scan.stripComments (Text.trim declarations.toList) ++ [' '])))).own
      = extractDeclarations declarations := by
  obtain ⟨before, behind, hsplit, hbefore, hbehind⟩ := Text.exists_trim declarations.toList
  have hstrip : Scan.stripComments declarations.toList
      = before ++ (Scan.stripComments (Text.trim declarations.toList) ++ behind) := by
    rw [← Scan.stripComments_append_of_closed hends (plain_of_blank hbehind),
      ← Scan.stripComments_blank_append hbefore, ← hsplit]
  have hplain := ne_brace_of_mem_trim hbraces
  rw [extractDeclarations_eq, hstrip, Content.own_unmarked_between hplain hbefore hbehind,
    Content.own_unmarked_between hplain isBlank_of_mem_space isBlank_of_mem_space]

end

section

variable {className declarations : String}
  (hclass : ∀ c ∈ className.toList, Text.isBlank c = false ∧ c ≠ '/' ∧ c ≠ '{' ∧ c ≠ '}')
  (hbraces : ∀ c ∈ Scan.stripComments declarations.toList, c ≠ '{' ∧ c ≠ '}')
include hclass hbraces

/-- Behind declarations that end in no comment the closing brace is seen. -/
theorem rules_scopedFragment_of_closed
    (hends : Scan.endsInComment (Text.trim declarations.toList) = false) :
    (flatten (scopedFragment className declarations)).rules
      = Rule.ofBlock ("." ++ className) (extractDeclarations declarations) := by
  have hinside : ∀ c ∈ [' '] ++ (Scan.stripComments (Text.trim declarations.toList) ++ [' ']),
      c ≠ '{' ∧ c ≠ '}' := by
    intro c hc
    simp only [List.mem_append, List.mem_singleton] at hc
    rcases hc with rfl | hc | rfl
    · decide
    · exact ne_brace_of_mem_trim hbraces c hc
    · decide
  have hshown : Content.unmarked
        (' ' :: Scan.stripComments (Text.trim declarations.toList ++ [' ', '}']))
      = Content.unmarked ([' '] ++ (Scan.stripComments (Text.trim declarations.toList) ++ [' ']))
        ++ [('}', ())] := by
    rw [Scan.stripComments_append_of_closed hends (by simp)]
    simp [Content.unmarked]
  have hclosing := closing?_append_of_forall (Content.forall_mem_unmarked hinside) 0 [('}', ())]
  rw [closing?_zero_cons_closing, Option.map_some, List.append_nil] at hclosing
  have hdot : ("." ++ className).toList = '.' :: className.toList := by simp
  rw [rules_flatten_eq, stripComments_scopedFragment hclass, Content.unmarked_append_cons, hshown,
    Outline.read_of_block (topLevel_selector hclass) hclosing, Content.map_fst_unmarked,
    trimmed_selector hclass, Outline.rules_cons, Item.rules_of_selector,
    own_fragment hbraces hends,
    Content.rules_read_of_forall (Content.forall_mem_unmarked hinside), List.append_nil,
    Outline.read_of_forall (by simp), Outline.rules_nil, List.append_nil]
  · intro hempty
    rw [hempty] at hdot
    cases hdot
  · intro afterSign hat
    rw [hat] at hdot
    exact absurd (List.cons.inj hdot).1 (by decide)

/-- A comment at the end of the declarations takes in the closing brace, and no other is seen. -/
theorem rules_scopedFragment_of_open
    (hends : Scan.endsInComment (Text.trim declarations.toList) = true) :
    (flatten (scopedFragment className declarations)).rules = [] := by
  have hrest : ∀ c ∈ ' ' :: Scan.stripComments (Text.trim declarations.toList),
      c ≠ '{' ∧ c ≠ '}' :=
    List.forall_mem_cons.mpr ⟨by decide, ne_brace_of_mem_trim hbraces⟩
  have hnone := closing?_eq_none_of_forall (Content.forall_mem_unmarked hrest) 0
  rw [rules_flatten_eq, stripComments_scopedFragment hclass, Content.unmarked_append_cons,
    Scan.stripComments_append_of_open hends (by simp),
    Outline.read_of_unclosed (topLevel_selector hclass) hnone]
  rfl

end

/-- **A fragment is the one rule with its declarations, or nothing.**  It is nothing if the
declarations end in a comment that takes in the closing brace, and otherwise no declaration is
lost. -/
theorem process_scopedFragment {className declarations : String}
    (hclass : ∀ c ∈ className.toList, Text.isBlank c = false ∧ c ≠ '/' ∧ c ≠ '{' ∧ c ≠ '}')
    (hbraces : ∀ c ∈ Scan.stripComments declarations.toList, c ≠ '{' ∧ c ≠ '}') :
    process (scopedFragment className declarations)
      = if Scan.endsInComment (Text.trim declarations.toList) then ""
        else emit [⟨"." ++ className, extractDeclarations declarations⟩] := by
  unfold process
  rcases hends : Scan.endsInComment (Text.trim declarations.toList) with _ | _
  · rw [rules_scopedFragment_of_closed hclass hbraces hends, if_neg Bool.false_ne_true]
    exact emit_ofBlock _ _
  · rw [rules_scopedFragment_of_open hclass hbraces hends, if_pos rfl]
    rfl

/-- A comment with a brace in it, parentheses that stay open and no semicolon at the end. -/
theorem process_scopedFragment_unfinished :
    process (scopedFragment "btn-save" " a: 1; /*\x7d*/ b: url(//x ")
      = ".btn-save \x7b a: 1; b: url(//x; \x7d" := by
  have hclass : "btn-save".toList.all
      (fun c => !Text.isBlank c && (c != '/' && (c != '{' && c != '}'))) = true := by
    decide +kernel
  have hbraces : (Scan.stripComments " a: 1; /*\x7d*/ b: url(//x ".toList).all
      (fun c => c != '{' && c != '}') = true := by
    decide +kernel
  simp only [List.all_eq_true, Bool.and_eq_true, Bool.not_eq_true', bne_iff_ne] at hclass hbraces
  refine (process_scopedFragment hclass hbraces).trans ?_
  decide +kernel

/-- A comment at the end of a line takes in the closing brace, and the declaration in front of it is
lost. -/
theorem process_scopedFragment_ne :
    (∀ c ∈ Scan.stripComments "x: 1; // note\n".toList, c ≠ '{' ∧ c ≠ '}') ∧
      process (scopedFragment "a" "x: 1; // note\n") = "" ∧
      emit [⟨"." ++ "a", extractDeclarations "x: 1; // note\n"⟩] = ".a \x7b x: 1; \x7d" ∧
      process (scopedFragment "a" "x: 1; // note\n")
        ≠ emit [⟨"." ++ "a", extractDeclarations "x: 1; // note\n"⟩] := by
  have hbraces : (Scan.stripComments "x: 1; // note\n".toList).all
      (fun c => c != '{' && c != '}') = true := by
    decide +kernel
  have hlost : process (scopedFragment "a" "x: 1; // note\n") = "" := by decide +kernel
  have hkept : emit [⟨"." ++ "a", extractDeclarations "x: 1; // note\n"⟩]
      = ".a \x7b x: 1; \x7d" := by
    decide +kernel
  simp only [List.all_eq_true, Bool.and_eq_true, bne_iff_ne] at hbraces
  refine ⟨hbraces, hlost, hkept, ?_⟩
  rw [hlost, hkept]
  decide

end FlatSheet
