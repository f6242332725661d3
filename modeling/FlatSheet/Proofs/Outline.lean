/-
The outline of a sheet.

Outside all blocks a sheet holds three things: closing braces that close nothing, blocks,
and at most one opening brace whose block never closes, after which nothing follows.
Inside a block there are declarations and further blocks.  An outline says which of them
there are, in their order, and is read off the marked text of the sheet in one go.

The rules of a sheet and the reports about it are then functions of its outline, by
recursion on it.  That reading a sheet event by event yields the same rules and reports
is the subject of `Proofs/Flatten.lean`; everything else can be said of outlines.
-/
import FlatSheet.Flatten
import FlatSheet.Proofs.Marked

namespace FlatSheet

open Marked

/-- What stands between the braces of a block, in its order. -/
inductive Content (α : Type) where
  | done
  | declaration (text : String) (rest : Content α)
  /-- A block with its selector as written, and the mark of its opening brace. -/
  | block (selector : String) (place : α) (inner rest : Content α)

/-- What stands outside all blocks. -/
inductive Item (α : Type) where
  /-- A brace that closes nothing. -/
  | stray (place : α)
  | block (selector : String) (place : α) (content : Content α)
  /-- A block that never closes. -/
  | unclosed (place : α)

variable {α β γ : Type}

/-- The same report about another place. -/
def Diagnostic.moved (f : Location → Location) : Diagnostic → Diagnostic
  | unbalancedBraces l => unbalancedBraces (f l)
  | atRuleDiscarded name l => atRuleDiscarded name (f l)
  | emptySelector l => emptySelector (f l)
  | degenerateNestedSelector l => degenerateNestedSelector (f l)
  | strayClosingBrace l => strayClosingBrace (f l)

/-- Text without its blanks, as a string. -/
def trimmed (text : List Char) : String := String.ofList (Text.trim text)

/-- The rule of a block, if it has declarations. -/
def Rule.ofBlock (selector : String) (declarations : List String) : List Rule :=
  if declarations = [] then [] else [⟨selector, declarations⟩]

namespace Content

/-- A text in front of something else in a block: a declaration unless it is blank. -/
def declared (text : List Char) (rest : Content α) : Content α :=
  if (Text.trim text).isEmpty then rest else .declaration (trimmed text) rest

/-- The content of a block.  In text that is no whole block, a brace that closes nothing ends a
declaration, and a block that never closes hides the rest. -/
def read (ms : List (Char × α)) : Content α :=
  match _h : cut ScanMode.nested.isBoundary ms with
  | (text, []) => declared text .done
  | (text, ('{', x) :: rest) =>
    match _hc : closing? 0 rest with
    | some c => .block (trimmed text) x (read c.inside) (read c.after)
    | none => .done
  | (text, _ :: rest) => declared text (read rest)
termination_by ms.length
decreasing_by
  all_goals
    have hcut := cut_length_le ScanMode.nested.isBoundary ms
    rw [_h] at hcut
    simp only [List.length_cons] at hcut
  · have := inside_length_lt _hc
    omega
  · have := after_length_lt _hc
    omega
  · omega

/-- The declarations that stand directly in the block. -/
def own : Content α → List String
  | done => []
  | declaration text rest => text :: rest.own
  | block _ _ _ rest => rest.own

/-- The rules of the blocks inside, for a block whose full selector is given. -/
def rules (selector : String) : Content α → List Rule
  | done => []
  | declaration _ rest => rest.rules selector
  | block nested _ inner rest =>
    (if nested = "" then []
      else
        let full := Selector.resolve selector nested
        Rule.ofBlock full inner.own ++ inner.rules full) ++ rest.rules selector

/-- The reports about the blocks inside. -/
def reports : Content Location → List Diagnostic
  | done => []
  | declaration _ rest => rest.reports
  | block nested place inner rest =>
    (if nested = "" then [.degenerateNestedSelector place] else inner.reports) ++ rest.reports

/-- The blocks inside, flattened. -/
def flattened (selector : String) (content : Content Location) : Flattened :=
  ⟨content.rules selector, content.reports⟩

/-- The same content with other marks. -/
def map (f : α → β) : Content α → Content β
  | done => .done
  | declaration text rest => .declaration text (rest.map f)
  | block selector place inner rest => .block selector (f place) (inner.map f) (rest.map f)

/-! ### A text in front of something else -/

theorem declared_of_blank {text : List Char} (h : Text.trim text = []) (rest : Content α) :
    declared text rest = rest := by
  unfold declared
  rw [if_pos (by simpa using h)]

theorem declared_of_text {text : List Char} (h : Text.trim text ≠ []) (rest : Content α) :
    declared text rest = .declaration (trimmed text) rest := by
  unfold declared
  rw [if_neg (by simpa using h)]

/-- A text that leaves something when its blanks are dropped is a declaration. -/
theorem declared_of_trimmed {text : List Char} {declaration : String} (hne : declaration ≠ "")
    (h : trimmed text = declaration) (rest : Content α) :
    declared text rest = .declaration declaration rest := by
  have ht : Text.trim text ≠ [] := by
    intro hnil
    rw [trimmed, hnil] at h
    exact hne h.symm
  rw [declared_of_text ht, h]

theorem own_declared (text : List Char) (rest : Content α) :
    (declared text rest).own = (declared text (.done : Content α)).own ++ rest.own := by
  unfold declared
  split <;> rfl

@[simp] theorem rules_declared (selector : String) (text : List Char) (rest : Content α) :
    (declared text rest).rules selector = rest.rules selector := by
  unfold declared
  split <;> rfl

@[simp] theorem reports_declared (text : List Char) (rest : Content Location) :
    (declared text rest).reports = rest.reports := by
  unfold declared
  split <;> rfl

/-! ### Reading a content, by its first boundary -/

private theorem read_eq (ms : List (Char × α)) :
    read ms = match cut ScanMode.nested.isBoundary ms with
      | (text, []) => declared text .done
      | (text, ('{', x) :: rest) =>
        match closing? 0 rest with
        | some c => .block (trimmed text) x (read c.inside) (read c.after)
        | none => .done
      | (text, _ :: rest) => declared text (read rest) := by
  rw [read]
  split
  · rename_i h
    rw [h]
  · rename_i h
    rw [h]
    split
    · rename_i hc
      simp only [hc]
    · rename_i hc
      simp only [hc]
  · rename_i hne h
    rw [h]
    split
    · rename_i heq
      simp at heq
    · rename_i x _ heq
      obtain ⟨-, ⟨rfl, -⟩, -⟩ := by simpa using heq
      exact (hne x rfl).elim
    · rename_i heq
      obtain ⟨rfl, -, rfl⟩ := by simpa using heq
      rfl

section

variable {pre ms : List (Char × α)} {x : α}
  (hpre : ∀ m ∈ pre, ScanMode.nested.isBoundary m.1 = false)
include hpre

theorem read_of_forall : read pre = declared (pre.map Prod.fst) .done := by
  rw [read_eq, cut_of_forall hpre]

theorem read_of_semicolon :
    read (pre ++ (';', x) :: ms) = declared (pre.map Prod.fst) (read ms) := by
  rw [read_eq, cut_append_cons hpre rfl]
  rfl

theorem read_of_stray :
    read (pre ++ ('}', x) :: ms) = declared (pre.map Prod.fst) (read ms) := by
  rw [read_eq, cut_append_cons hpre rfl]
  rfl

theorem read_of_block {c : Closing α} (hc : closing? 0 ms = some c) :
    read (pre ++ ('{', x) :: ms)
      = .block (trimmed (pre.map Prod.fst)) x (read c.inside) (read c.after) := by
  rw [read_eq, cut_append_cons hpre rfl]
  simp only [hc]

theorem read_of_unclosed (hc : closing? 0 ms = none) : read (pre ++ ('{', x) :: ms) = .done := by
  rw [read_eq, cut_append_cons hpre rfl]
  simp only [hc]

end

@[simp] theorem map_declared (f : α → β) (text : List Char) (rest : Content α) :
    (declared text rest).map f = declared text (rest.map f) := by
  unfold declared
  split <;> rfl

/-- Marks are only carried along. -/
theorem read_map (f : α → β) (ms : List (Char × α)) :
    read (ms.map (Prod.map id f)) = (read ms).map f := by
  induction ms using nested_induction with
  | plain ms h =>
      rw [read_of_forall (forall_map f h), read_of_forall h, map_fst_map, map_declared]
      rfl
  | semicolon pre x ms hpre ih =>
      rw [List.map_append, List.map_cons, Prod.map_apply, id_eq,
        read_of_semicolon (forall_map f hpre), read_of_semicolon hpre, ih, map_fst_map, map_declared]
  | stray pre x ms hpre ih =>
      rw [List.map_append, List.map_cons, Prod.map_apply, id_eq,
        read_of_stray (forall_map f hpre), read_of_stray hpre, ih, map_fst_map, map_declared]
  | block pre x ms c hpre hc ih1 ih2 =>
      have hc' := closing?_map 0 f ms
      rw [hc] at hc'
      rw [List.map_append, List.map_cons, Prod.map_apply, id_eq,
        read_of_block (forall_map f hpre) hc', read_of_block hpre hc, ih1, ih2, map_fst_map]
      rfl
  | unclosed pre x ms hpre hc =>
      have hc' := closing?_map 0 f ms
      rw [hc] at hc'
      rw [List.map_append, List.map_cons, Prod.map_apply, id_eq,
        read_of_unclosed (forall_map f hpre) hc', read_of_unclosed hpre hc]
      rfl

@[simp] theorem own_map (f : α → β) (content : Content α) : (content.map f).own = content.own := by
  induction content with
  | done => rfl
  | declaration text rest ih => simp [map, own, ih]
  | block selector place inner rest _ ih => simpa [map, own] using ih

@[simp] theorem rules_map (f : α → β) (selector : String) (content : Content α) :
    (content.map f).rules selector = content.rules selector := by
  induction content generalizing selector with
  | done => rfl
  | declaration text rest ih => simpa [map, rules] using ih selector
  | block nested place inner rest ih1 ih2 => simp [map, rules, ih1, ih2]

@[simp] theorem reports_map (f : Location → Location) (content : Content Location) :
    (content.map f).reports = content.reports.map (Diagnostic.moved f) := by
  induction content with
  | done => rfl
  | declaration text rest ih => exact ih
  | block nested place inner rest ih1 ih2 =>
      rw [map, reports, reports, ih1, ih2, List.map_append]
      split <;> rfl

/-- The declarations of a content depend on its characters only. -/
theorem own_read_of_chars {ms : List (Char × α)} {ns : List (Char × β)}
    (h : ms.map Prod.fst = ns.map Prod.fst) : (read ms).own = (read ns).own := by
  rw [← own_map (fun _ => ()) (read ms), ← own_map (fun _ => ()) (read ns), ← read_map, ← read_map,
    map_const, map_const, h]

end Content

/-- The things outside all blocks, in their order. -/
abbrev Outline (α : Type) := List (Item α)

namespace Item

/-- The rules of a thing outside all blocks.  A block without a selector and an at-rule have none. -/
def rules : Item α → List Rule
  | stray _ | unclosed _ => []
  | block selector _ content =>
    match selector.toList with
    | [] | '@' :: _ => []
    | _ => Rule.ofBlock selector content.own ++ content.rules selector

/-- The reports about a thing outside all blocks. -/
def reports : Item Location → List Diagnostic
  | stray place => [.strayClosingBrace place]
  | unclosed place => [.unbalancedBraces place]
  | block selector place content =>
    match selector.toList with
    | [] => [.emptySelector place]
    | '@' :: afterSign => [.atRuleDiscarded (Flattening.atRuleName afterSign) place]
    | _ => content.reports

/-- A block that has a selector and is no at-rule is read. -/
theorem rules_of_selector {selector : String} (hne : selector ≠ "")
    (hat : ∀ afterSign, selector.toList ≠ '@' :: afterSign) (x : α) (content : Content α) :
    rules (.block selector x content)
      = Rule.ofBlock selector content.own ++ content.rules selector := by
  simp only [rules]
  split
  · exact absurd (String.toList_eq_nil_iff.mp ‹_›) hne
  · exact absurd ‹_› (hat _)
  · rfl

/-- What stands outside all blocks has no rules, or is a block with a selector that has its own rule
and those of the blocks inside. -/
theorem rules_cases (selector : String) (x : α) (content : Content α) :
    rules (.block selector x content) = [] ∨
      selector ≠ "" ∧ rules (.block selector x content)
        = Rule.ofBlock selector content.own ++ content.rules selector := by
  simp only [rules]
  split
  · exact Or.inl rfl
  · exact Or.inl rfl
  · rename_i hne _
    exact Or.inr ⟨fun hempty => hne (String.toList_eq_nil_iff.mpr hempty), rfl⟩

theorem reports_of_selector {selector : String} (hne : selector ≠ "")
    (hat : ∀ afterSign, selector.toList ≠ '@' :: afterSign) (x : Location)
    (content : Content Location) : reports (.block selector x content) = content.reports := by
  simp only [reports]
  split
  · exact absurd (String.toList_eq_nil_iff.mp ‹_›) hne
  · exact absurd ‹_› (hat _)
  · rfl

/-- The same thing with other marks. -/
def map (f : α → β) : Item α → Item β
  | stray place => .stray (f place)
  | unclosed place => .unclosed (f place)
  | block selector place content => .block selector (f place) (content.map f)

@[simp] theorem rules_map (f : α → β) (item : Item α) : (item.map f).rules = item.rules := by
  cases item with
  | stray place => rfl
  | unclosed place => rfl
  | block selector place content => simp [map, rules]

@[simp] theorem reports_map (f : Location → Location) (item : Item Location) :
    (item.map f).reports = item.reports.map (Diagnostic.moved f) := by
  cases item with
  | stray place => rfl
  | unclosed place => rfl
  | block selector place content =>
      simp only [map, reports, Content.reports_map]
      split <;> rfl

end Item

namespace Outline

/-- The outline of marked text. -/
def read (ms : List (Char × α)) : Outline α :=
  match _h : cut ScanMode.topLevel.isBoundary ms with
  | (_, []) => []
  | (text, ('{', x) :: rest) =>
    match _hc : closing? 0 rest with
    | some c => .block (trimmed text) x (.read c.inside) :: read c.after
    | none => [.unclosed x]
  | (_, (_, x) :: rest) => .stray x :: read rest
termination_by ms.length
decreasing_by
  all_goals
    have hcut := cut_length_le ScanMode.topLevel.isBoundary ms
    rw [_h] at hcut
    simp only [List.length_cons] at hcut
  · have := after_length_lt _hc
    omega
  · omega

/-- The rules of a sheet. -/
def rules (o : Outline α) : List Rule := o.flatMap Item.rules

/-- The reports about a sheet. -/
def reports (o : Outline Location) : List Diagnostic := o.flatMap Item.reports

/-- A sheet, flattened. -/
def flattened (o : Outline Location) : Flattened := ⟨o.rules, o.reports⟩

@[simp] theorem rules_nil : rules ([] : Outline α) = [] := rfl

@[simp] theorem rules_cons (item : Item α) (o : Outline α) :
    rules (item :: o) = item.rules ++ rules o := rfl

@[simp] theorem rules_append (o o' : Outline α) : rules (o ++ o') = rules o ++ rules o' :=
  List.flatMap_append

@[simp] theorem reports_nil : reports [] = [] := rfl

@[simp] theorem reports_cons (item : Item Location) (o : Outline Location) :
    reports (item :: o) = item.reports ++ reports o := rfl

@[simp] theorem reports_append (o o' : Outline Location) :
    reports (o ++ o') = reports o ++ reports o' :=
  List.flatMap_append

/-! ### Reading an outline, by its first brace -/

private theorem read_eq (ms : List (Char × α)) :
    read ms = match cut ScanMode.topLevel.isBoundary ms with
      | (_, []) => []
      | (text, ('{', x) :: rest) =>
        match closing? 0 rest with
        | some c => .block (trimmed text) x (.read c.inside) :: read c.after
        | none => [.unclosed x]
      | (_, (_, x) :: rest) => .stray x :: read rest := by
  rw [read]
  split
  · rename_i h
    rw [h]
  · rename_i h
    rw [h]
    split
    · rename_i hc
      simp only [hc]
    · rename_i hc
      simp only [hc]
  · rename_i hne h
    rw [h]
    split
    · rename_i heq
      simp at heq
    · rename_i heq
      obtain ⟨-, ⟨rfl, -⟩, -⟩ := by simpa using heq
      exact (hne rfl).elim
    · rename_i heq
      obtain ⟨-, ⟨-, rfl⟩, rfl⟩ := by simpa using heq
      rfl

section

variable {pre ms : List (Char × α)} {x : α}
  (hpre : ∀ m ∈ pre, ScanMode.topLevel.isBoundary m.1 = false)
include hpre

theorem read_of_forall : read pre = [] := by
  rw [read_eq, cut_of_forall hpre]

theorem read_of_stray : read (pre ++ ('}', x) :: ms) = .stray x :: read ms := by
  rw [read_eq, cut_append_cons hpre rfl]
  rfl

theorem read_of_block {c : Closing α} (hc : closing? 0 ms = some c) :
    read (pre ++ ('{', x) :: ms)
      = .block (trimmed (pre.map Prod.fst)) x (.read c.inside) :: read c.after := by
  rw [read_eq, cut_append_cons hpre rfl]
  simp only [hc]

theorem read_of_unclosed (hc : closing? 0 ms = none) :
    read (pre ++ ('{', x) :: ms) = [.unclosed x] := by
  rw [read_eq, cut_append_cons hpre rfl]
  simp only [hc]

end

/-- Marks are only carried along. -/
theorem read_map (f : α → β) (ms : List (Char × α)) :
    read (ms.map (Prod.map id f)) = (read ms).map (Item.map f) := by
  induction ms using topLevel_induction with
  | plain ms h =>
      rw [read_of_forall (forall_map f h), read_of_forall h]
      rfl
  | stray pre x ms hpre ih =>
      rw [List.map_append, List.map_cons, Prod.map_apply, id_eq,
        read_of_stray (forall_map f hpre), read_of_stray hpre, ih]
      rfl
  | block pre x ms c hpre hc ih =>
      have hc' := closing?_map 0 f ms
      rw [hc] at hc'
      rw [List.map_append, List.map_cons, Prod.map_apply, id_eq,
        read_of_block (forall_map f hpre) hc', read_of_block hpre hc, ih, map_fst_map,
        Content.read_map]
      rfl
  | unclosed pre x ms hpre hc =>
      have hc' := closing?_map 0 f ms
      rw [hc] at hc'
      rw [List.map_append, List.map_cons, Prod.map_apply, id_eq,
        read_of_unclosed (forall_map f hpre) hc', read_of_unclosed hpre hc]
      rfl

@[simp] theorem rules_map (f : α → β) (o : Outline α) :
    rules (o.map (Item.map f)) = rules o := by
  induction o with
  | nil => rfl
  | cons item o ih => rw [List.map_cons, rules_cons, rules_cons, Item.rules_map, ih]

@[simp] theorem reports_map (f : Location → Location) (o : Outline Location) :
    reports (o.map (Item.map f)) = (reports o).map (Diagnostic.moved f) := by
  induction o with
  | nil => rfl
  | cons item o ih =>
      rw [List.map_cons, reports_cons, reports_cons, Item.reports_map, ih, List.map_append]

/-- Up to its marks, an outline depends on the characters only. -/
theorem read_of_chars {ms : List (Char × α)} {ns : List (Char × β)}
    (h : ms.map Prod.fst = ns.map Prod.fst) (x : γ) :
    (read ms).map (Item.map fun _ => x) = (read ns).map (Item.map fun _ => x) := by
  rw [← read_map, ← read_map, map_const, map_const, h]

end Outline

end FlatSheet
