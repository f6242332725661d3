/-
Sheets that are flat already.

An emitted sheet is a row of lines, one for each rule, and each line is a block with nothing
but declarations in it.  Its characters give back the rules it was made of: no text of a
well-formed rule holds a character that would end it early, and the blanks around the texts
are dropped.

Only two things come between.  A comment may begin where the sheet is written, and hide
what follows; and a selector with an at sign in front is taken for an at-rule.  Where the
texts have no comment, the whole sheet has none: every text stands behind a blank or at a
line's beginning, with no parenthesis open, and a blank or a semicolon is behind it.
-/
import FlatSheet.Proofs.Printing
import FlatSheet.Proofs.WellFormed

namespace FlatSheet

open Marked Scan

namespace Rule

/-- A rule that is taken for an at-rule when it is read again. -/
def isAtRule (r : Rule) : Bool := r.selector.toList.head? = some '@'

/-- No text of the rule has a comment. -/
structure Uncommented (r : Rule) : Prop where
  selector : stripComments r.selector = r.selector
  declarations : ∀ d ∈ r.declarations, stripComments d = d

/-- What a rule's line has between its braces. -/
def inside : List String → List Char
  | [] => [' ']
  | d :: ds => ' ' :: (d.toList ++ ';' :: inside ds)

/-- A rule's line, as characters. -/
def line (r : Rule) : List Char :=
  r.selector.toList ++ ' ' :: '{' :: (inside r.declarations ++ ['}'])

end Rule

/-! ### The lines of a sheet -/

theorem toList_joinDeclarations {ds : List String} (h : ds ≠ []) :
    ' ' :: ((joinDeclarations ds).toList ++ [';', ' ']) = Rule.inside ds := by
  induction ds with
  | nil => exact absurd rfl h
  | cons d ds ih =>
      cases ds with
      | nil => simp [joinDeclarations, Rule.inside]
      | cons d' ds =>
          rw [Rule.inside, ← ih (List.cons_ne_nil d' ds), joinDeclarations, joinDeclarations,
            String.intercalate_cons_cons, String.toList_append, String.toList_append]
          simp

theorem Rule.toList_toString {r : Rule} (h : r.declarations ≠ []) :
    (Rule.toString r).toList = r.line := by
  have hinside := toList_joinDeclarations h
  rw [Rule.line, ← hinside]
  show (r.selector ++ " \x7b " ++ r.declarationText ++ "; \x7d").toList = _
  simp [Rule.declarationText]

theorem Rule.isShown_of_ne_nil {r : Rule} (h : r.declarations ≠ []) : r.isShown = true := by
  simpa [Rule.isShown] using h

/-- A sheet is its first rule's line and the others below it. -/
theorem toList_emit_cons {r : Rule} {rs : List Rule} (h : ∀ q ∈ r :: rs, q.declarations ≠ []) :
    (emit (r :: rs)).toList = r.line ++ rs.flatMap fun q => '\n' :: q.line := by
  have hall : (r :: rs).filter Rule.isShown = r :: rs :=
    List.filter_eq_self.mpr fun q hq => Rule.isShown_of_ne_nil (h q hq)
  unfold emit
  rw [hall]
  clear hall
  induction rs generalizing r with
  | nil =>
      have hr := Rule.toList_toString (h r (by simp))
      simpa using hr
  | cons q rs ih =>
      have hr := Rule.toList_toString (h r (by simp))
      have hrest := ih fun p hp => h p (List.mem_cons_of_mem r hp)
      rw [List.map_cons] at hrest
      rw [List.map_cons, List.map_cons, String.intercalate_cons_cons, String.toList_append,
        String.toList_append, hr, hrest]
      simp

/-! ### Reading a line -/

namespace Content

variable {α : Type}

/-- A block with nothing but these declarations in it. -/
def ofDeclarations (ds : List String) : Content α := ds.foldr .declaration .done

@[simp] theorem own_ofDeclarations (ds : List String) :
    (ofDeclarations ds : Content α).own = ds := by
  induction ds with
  | nil => rfl
  | cons d ds ih => exact congrArg (d :: ·) ih

@[simp] theorem rules_ofDeclarations (selector : String) (ds : List String) :
    (ofDeclarations ds : Content α).rules selector = [] := by
  induction ds with
  | nil => rfl
  | cons d ds ih => exact ih

@[simp] theorem reports_ofDeclarations (ds : List String) :
    (ofDeclarations ds).reports = [] := by
  induction ds with
  | nil => rfl
  | cons d ds ih => exact ih

@[simp] theorem map_ofDeclarations {β : Type} (f : α → β) (ds : List String) :
    (ofDeclarations ds).map f = ofDeclarations ds := by
  induction ds with
  | nil => rfl
  | cons d ds ih => exact congrArg (declaration d) ih

end Content

namespace Rule

open Content

theorem ne_brace_of_mem_inside {ds : List String} (h : ∀ d ∈ ds, Span .nested d) :
    ∀ c ∈ inside ds, c ≠ '{' ∧ c ≠ '}' := by
  induction ds with
  | nil => simp [inside]
  | cons d ds ih =>
      obtain ⟨hd, hds⟩ := List.forall_mem_cons.mp h
      intro c hc
      simp only [inside, List.mem_cons, List.mem_append] at hc
      rcases hc with rfl | hc | rfl | hc
      · decide
      · exact ne_brace (hd.unbroken c hc)
      · decide
      · exact ih hds c hc

/-- The declarations are read back from between the braces. -/
theorem read_inside {ds : List String} (h : ∀ d ∈ ds, Span .nested d) :
    Content.read (unmarked (inside ds)) = .ofDeclarations ds := by
  induction ds with
  | nil =>
      have hblank : ∀ m ∈ unmarked [' '], ScanMode.nested.isBoundary m.1 = false :=
        List.forall_mem_singleton.mpr rfl
      exact (read_of_forall hblank).trans (declared_of_blank rfl _)
  | cons d ds ih =>
      obtain ⟨hd, hds⟩ := List.forall_mem_cons.mp h
      have hpre : ∀ m ∈ unmarked (' ' :: d.toList), ScanMode.nested.isBoundary m.1 = false :=
        forall_unmarked (List.forall_mem_cons.mpr ⟨rfl, hd.unbroken⟩)
      have htext : FlatSheet.trimmed ([' '] ++ (d.toList ++ [])) = d :=
        trimmed_between hd.trimmed (List.forall_mem_singleton.mpr rfl) (by simp)
      rw [List.append_nil] at htext
      rw [inside, ← List.cons_append, unmarked_append_cons, read_of_semicolon hpre, ih hds,
        map_fst_unmarked]
      exact declared_of_trimmed hd.nonempty htext _

/-- The block of a rule, as it stands outside all others. -/
def item {α : Type} (x : α) (r : Rule) : Item α :=
  .block r.selector x (.ofDeclarations r.declarations)

/-- **A line is read back as its rule**, blanks in front of it or not, and what comes after it is read
on. -/
theorem read_line {r : Rule} (h : r.WellFormed) {gap : List Char}
    (hgap : ∀ c ∈ gap, Cursor.isSpacing c = true) (more : List Char) :
    Outline.read (unmarked (gap ++ (r.line ++ more))) = r.item () :: Outline.read (unmarked more) := by
  have hpre : ∀ c ∈ gap ++ (r.selector.toList ++ [' ']), ScanMode.topLevel.isBoundary c = false := by
    intro c hc
    rw [List.mem_append, List.mem_append] at hc
    rcases hc with hc | hc | hc
    · exact isBoundary_of_isSpacing (hgap c hc) .topLevel
    · exact h.selector.unbroken c hc
    · obtain rfl := List.mem_singleton.mp hc
      rfl
  have hclosing : closing? 0 (unmarked (inside r.declarations) ++ ('}', ()) :: unmarked more)
      = some ⟨unmarked (inside r.declarations), (), unmarked more⟩ := by
    have hinside : ∀ m ∈ unmarked (inside r.declarations), m.1 ≠ '{' ∧ m.1 ≠ '}' := by
      intro m hm
      obtain ⟨c, hc, rfl⟩ := List.mem_map.mp hm
      exact ne_brace_of_mem_inside h.declarations c hc
    rw [closing?_append_of_forall hinside, closing?_zero_cons_closing]
    simp
  have hline : gap ++ (r.line ++ more)
      = (gap ++ (r.selector.toList ++ [' '])) ++ '{' :: (inside r.declarations ++ '}' :: more) := by
    simp [line]
  have htext : FlatSheet.trimmed (gap ++ (r.selector.toList ++ [' '])) = r.selector :=
    trimmed_between h.selector.trimmed (fun c hc => isBlank_of_isSpacing (hgap c hc))
      (List.forall_mem_singleton.mpr rfl)
  rw [hline, unmarked_append_cons, unmarked_append_cons,
    Outline.read_of_block (forall_unmarked hpre) hclosing, map_fst_unmarked, htext,
    read_inside h.declarations]
  rfl

end Rule

/-- **An emitted sheet is read back as the rules it was made of.** -/
theorem read_emit {rules : List Rule} (h : ∀ r ∈ rules, r.WellFormed) :
    Outline.read (Content.unmarked (emit rules).toList) = rules.map (Rule.item ()) := by
  have hlines : ∀ rs : List Rule, (∀ r ∈ rs, r.WellFormed) →
      Outline.read (Content.unmarked (rs.flatMap fun r => '\n' :: r.line))
        = rs.map (Rule.item ()) := by
    intro rs hrs
    induction rs with
    | nil => exact Outline.read_of_forall (by simp [Content.unmarked])
    | cons r rs ih =>
        obtain ⟨hr, hrs⟩ := List.forall_mem_cons.mp hrs
        rw [List.flatMap_cons, List.map_cons, ← ih hrs]
        have hgap : ∀ c ∈ ['\n'], Cursor.isSpacing c = true := List.forall_mem_singleton.mpr rfl
        exact r.read_line hr hgap _
  cases rules with
  | nil => exact hlines [] h
  | cons r rs =>
      obtain ⟨hr, hrs⟩ := List.forall_mem_cons.mp h
      rw [toList_emit_cons fun q hq => (h q hq).shown, List.map_cons, ← hlines rs hrs]
      have hgap : ∀ c ∈ [], Cursor.isSpacing c = true := by simp
      exact r.read_line hr hgap _

/-! ### Comments in an emitted sheet -/

namespace Rule

theorem pieces_inside {ds : List String} (h : ∀ d ∈ ds, stripComments d = d) (more : List Char) :
    pieces 0 (inside ds ++ '}' :: more) = (inside ds ++ ['}']).map Piece.plain ++ pieces 0 more := by
  induction ds with
  | nil =>
      show pieces 0 (' ' :: '}' :: more) = _
      rw [pieces_of_ne_slash (by decide), pieces_of_boundary rfl]
      rfl
  | cons d ds ih =>
      obtain ⟨hd, hds⟩ := List.forall_mem_cons.mp h
      show pieces 0 (' ' :: ((d.toList ++ ';' :: inside ds) ++ '}' :: more)) = _
      rw [pieces_of_ne_slash (by decide), parensAfter_of_isSpacing (by decide), List.append_assoc,
        List.cons_append, pieces_append_of_plain (stripComments_eq_self_iff.mp hd) (by decide) (by decide),
        pieces_of_boundary rfl, ih hds]
      simp [inside]

/-- A line whose texts have no comment is read character by character, with no parenthesis left
open. -/
theorem Uncommented.pieces_line {r : Rule} (h : r.Uncommented) (more : List Char) :
    pieces 0 (r.line ++ more) = r.line.map Piece.plain ++ pieces 0 more := by
  have hline : r.line ++ more
      = r.selector.toList ++ ' ' :: '{' :: (inside r.declarations ++ '}' :: more) := by
    simp [line]
  rw [hline, pieces_append_of_plain (stripComments_eq_self_iff.mp h.selector) (by decide) (by decide),
    pieces_of_ne_slash (by decide), pieces_of_boundary rfl, pieces_inside h.declarations]
  simp [line]

end Rule

/-- **Texts without comments make up a sheet without comments.** -/
theorem stripComments_emit {rules : List Rule} (hdeclared : ∀ r ∈ rules, r.declarations ≠ [])
    (h : ∀ r ∈ rules, r.Uncommented) : stripComments (emit rules) = emit rules := by
  have hlines : ∀ rs : List Rule, (∀ r ∈ rs, r.Uncommented) →
      pieces 0 (rs.flatMap fun r => '\n' :: r.line)
        = (rs.flatMap fun r => '\n' :: r.line).map Piece.plain := by
    intro rs hrs
    induction rs with
    | nil => exact pieces_nil 0
    | cons r rs ih =>
        obtain ⟨hr, hrs⟩ := List.forall_mem_cons.mp hrs
        rw [List.flatMap_cons, List.map_append, ← ih hrs, List.cons_append,
          pieces_of_ne_slash (by decide), parensAfter_of_isSpacing (by decide), hr.pieces_line]
        rfl
  rw [stripComments_eq_self_iff]
  cases rules with
  | nil => exact pieces_nil 0
  | cons r rs =>
      obtain ⟨hr, hrs⟩ := List.forall_mem_cons.mp h
      rw [toList_emit_cons hdeclared, hr.pieces_line, hlines rs hrs, List.map_append]

/-! ### Flattening an emitted sheet -/

namespace Rule

theorem ne_at_of_isAtRule {r : Rule} (h : r.isAtRule = false) :
    ∀ afterSign, r.selector.toList ≠ '@' :: afterSign := by
  intro afterSign heq
  simp [isAtRule, heq] at h

theorem rules_item {α : Type} (x : α) {r : Rule} (h : r.WellFormed) :
    (r.item x).rules = if r.isAtRule then [] else [r] := by
  cases hat : r.isAtRule with
  | true =>
      obtain ⟨afterSign, hselector⟩ := List.head?_eq_some_iff.mp (of_decide_eq_true hat)
      simp [item, Item.rules, hselector]
  | false =>
      rw [item, Item.rules_of_selector h.selector.nonempty (ne_at_of_isAtRule hat),
        Content.own_ofDeclarations, Content.rules_ofDeclarations, List.append_nil]
      exact if_neg h.shown

theorem reports_item (x : Location) {r : Rule} (h : r.WellFormed) (hat : r.isAtRule = false) :
    (r.item x).reports = [] := by
  rw [item, Item.reports_of_selector h.selector.nonempty (ne_at_of_isAtRule hat),
    Content.reports_ofDeclarations]

theorem filter_isAtRule_eq_self_iff {rules : List Rule} :
    (rules.filter fun r => !r.isAtRule) = rules ↔ ∀ r ∈ rules, r.isAtRule = false := by
  simp [List.filter_eq_self]

end Rule

section

variable {rules : List Rule} (h : ∀ r ∈ rules, r.WellFormed)
include h

theorem rules_map_item {α : Type} (x : α) :
    Outline.rules (rules.map (Rule.item x)) = rules.filter fun r => !r.isAtRule := by
  induction rules with
  | nil => rfl
  | cons r rs ih =>
      obtain ⟨hr, hrs⟩ := List.forall_mem_cons.mp h
      rw [List.map_cons, Outline.rules_cons, ih hrs, Rule.rules_item x hr, List.filter_cons]
      cases r.isAtRule <;> rfl

theorem reports_map_item (x : Location) (hat : ∀ r ∈ rules, r.isAtRule = false) :
    Outline.reports (rules.map (Rule.item x)) = [] := by
  induction rules with
  | nil => rfl
  | cons r rs ih =>
      obtain ⟨hr, hrs⟩ := List.forall_mem_cons.mp h
      obtain ⟨hat, hats⟩ := List.forall_mem_cons.mp hat
      rw [List.map_cons, Outline.reports_cons, ih hrs hats, Rule.reports_item x hr hat]
      rfl

variable (hstrip : stripComments (emit rules) = emit rules)
include hstrip

/-- Up to the places, the outline of an emitted sheet without comments has a block for each rule. -/
theorem outline_emit :
    (Outline.read (sheetMarks (emit rules))).map (Item.map fun _ => Location.start)
      = rules.map (Rule.item .start) := by
  have hchars : (sheetMarks (emit rules)).map Prod.fst
      = (Content.unmarked (emit rules).toList).map Prod.fst := by
    have := congrArg String.toList hstrip
    rw [stripComments, String.toList_ofList] at this
    rw [map_fst_sheetMarks, Content.map_fst_unmarked, this]
  have hmap : ∀ r : Rule, (r.item ()).map (fun _ => Location.start) = r.item .start := by
    intro r
    simp [Rule.item, Item.map]
  rw [Outline.read_of_chars hchars, read_emit h, List.map_map]
  exact List.map_congr_left fun r _ => hmap r

/-- An emitted sheet without comments has the rules it was made of, but for at-rules. -/
theorem rules_flatten_emit :
    (flatten (emit rules)).rules = rules.filter fun r => !r.isAtRule := by
  rw [flatten_eq_outline, ← rules_map_item h Location.start, ← outline_emit h hstrip]
  exact (Outline.rules_map _ _).symm

theorem diagnostics_flatten_emit (hat : ∀ r ∈ rules, r.isAtRule = false) :
    (flatten (emit rules)).diagnostics = [] := by
  have hreports := reports_map_item h .start hat
  rw [← outline_emit h hstrip, Outline.reports_map, List.map_eq_nil_iff] at hreports
  rw [flatten_eq_outline]
  exact hreports

end

/-- **Flattening undoes emitting.**  Rules whose texts can be read give themselves back from the sheet
they make up, in their order and with all repetitions, and nothing is reported. -/
theorem flatten_emit {rules : List Rule} (h : ∀ r ∈ rules, r.WellFormed)
    (huncommented : ∀ r ∈ rules, r.Uncommented) (hat : ∀ r ∈ rules, r.isAtRule = false) :
    flatten (emit rules) = ⟨rules, []⟩ := by
  have hstrip := stripComments_emit (fun r hr => (h r hr).shown) huncommented
  have hrules := rules_flatten_emit h hstrip
  have hdiagnostics := diagnostics_flatten_emit h hstrip hat
  rw [Rule.filter_isAtRule_eq_self_iff.mpr hat] at hrules
  show (⟨(flatten (emit rules)).rules, (flatten (emit rules)).diagnostics⟩ : Flattened) = _
  rw [hrules, hdiagnostics]

/-- A semicolon, an open parenthesis and a slash at the end of a selector, the like in declarations,
and a rule that stands there twice. -/
theorem flatten_emit_punctuation :
    flatten (emit [⟨".a;(/", ["x: url(//b", "y: /"]⟩, ⟨"*", ["/"]⟩, ⟨"*", ["/"]⟩])
      = ⟨[⟨".a;(/", ["x: url(//b", "y: /"]⟩, ⟨"*", ["/"]⟩, ⟨"*", ["/"]⟩], []⟩ := by
  have hslash : Span .nested "/" := .of_all (by decide) (by decide) (by decide)
  have hurl : Span .nested "x: url(//b" := .of_all (by decide) (by decide) (by decide)
  have hend : Span .nested "y: /" := .of_all (by decide) (by decide) (by decide)
  have hstar : Rule.WellFormed ⟨"*", ["/"]⟩ :=
    ⟨.of_all (by decide) (by decide) (by decide), by decide, by simpa using hslash⟩
  have hfirst : Rule.WellFormed ⟨".a;(/", ["x: url(//b", "y: /"]⟩ :=
    ⟨.of_all (by decide) (by decide) (by decide), by decide, by simpa using ⟨hurl, hend⟩⟩
  have hstar' : Rule.Uncommented ⟨"*", ["/"]⟩ := ⟨by decide +kernel, by decide +kernel⟩
  have hfirst' : Rule.Uncommented ⟨".a;(/", ["x: url(//b", "y: /"]⟩ :=
    ⟨by decide +kernel, by decide +kernel⟩
  refine flatten_emit ?_ ?_ (by decide)
  · simp [hfirst, hstar]
  · simp [hfirst', hstar']

end FlatSheet
