/-
Sheets that are written down from a tree.

A tree of blocks and declarations can be written in many ways: there may be blanks and
comments around everything, and the last declaration of a block needs no semicolon.  All of them are read
alike.  No report is made, and the rules are the blocks of the tree that have declarations,
outer ones first, each under the selectors on the way down to it.
-/
import FlatSheet.Proofs.Settled
import FlatSheet.Proofs.Trivia

namespace FlatSheet

open Marked Scan

/-- A sheet as a tree: the blocks outside all others, each a selector and what stands in it. -/
abbrev Tree := List (String × Content Unit)

namespace Content

/-- The blocks inside, outer ones first, each as the selectors on the way down to it and the
declarations that stand directly in it. -/
def paths (way : List String) : Content Unit → List (List String × List String)
  | done => []
  | declaration _ rest => rest.paths way
  | block selector _ inner rest =>
    (way ++ [selector], inner.own) :: (inner.paths (way ++ [selector]) ++ rest.paths way)

/-- Everything in a block can be written down. -/
def Printable {α : Type} : Content α → Prop
  | done => True
  | declaration text rest => Token text ∧ rest.Printable
  | block selector _ inner rest => Token selector ∧ inner.Printable ∧ rest.Printable

/-- A block's inside, written down in one of the possible ways. -/
inductive Prints : Content Unit → List Char → Prop where
  | done {gap : List Char} (h : Trivia gap) : Prints .done gap
  | declaration {before behind out : List Char} {text : String} {rest : Content Unit}
      (hbefore : Trivia before) (hbehind : Gap behind) (h : Prints rest out) :
      Prints (.declaration text rest) (before ++ (text.toList ++ (behind ++ ';' :: out)))
  | lastDeclaration {before behind : List Char} {text : String} (hbefore : Trivia before)
      (hbehind : Gap behind) :
      Prints (.declaration text .done) (before ++ (text.toList ++ behind))
  | block {before behind inside out : List Char} {selector : String} {inner rest : Content Unit}
      (hbefore : Trivia before) (hbehind : Gap behind) (hinner : Prints inner inside)
      (hrest : Prints rest out) :
      Prints (.block selector () inner rest)
        (before ++ (selector.toList ++ (behind ++ '{' :: (inside ++ '}' :: out))))

end Content

namespace Tree

/-- All blocks, outer ones first, each as the selectors on the way down to it and the declarations
that stand directly in it. -/
def paths (tree : Tree) : List (List String × List String) :=
  tree.flatMap fun b => ([b.1], b.2.own) :: b.2.paths [b.1]

/-- The full selector at the end of a way: each selector resolved against those before it. -/
def fullSelector : List String → String
  | [] => ""
  | outermost :: inner => inner.foldl Selector.resolve outermost

/-- Blocks that have declarations, as rules. -/
def rulesOfPaths (paths : List (List String × List String)) : List Rule :=
  (paths.filter fun b => !b.2.isEmpty).map fun b => ⟨fullSelector b.1, b.2⟩

/-- The rules of a tree: its blocks that have declarations. -/
def rules (tree : Tree) : List Rule := rulesOfPaths tree.paths

/-- Everything in a sheet can be written down, and no block outside all others is an at-rule. -/
def Printable (tree : Tree) : Prop :=
  ∀ b ∈ tree, Token b.1 ∧ (∀ afterSign, b.1.toList ≠ '@' :: afterSign) ∧ b.2.Printable

/-- A sheet, written down in one of the possible ways. -/
inductive Prints : Tree → List Char → Prop where
  | nil {gap : List Char} (h : Trivia gap) : Prints [] gap
  | cons {before behind inside out : List Char} {selector : String} {content : Content Unit}
      {rest : Tree} (hbefore : Trivia before) (hbehind : Gap behind)
      (hcontent : content.Prints inside) (hrest : Prints rest out) :
      Prints ((selector, content) :: rest)
        (before ++ (selector.toList ++ (behind ++ '{' :: (inside ++ '}' :: out))))

end Tree

/-! ### The rules of a tree -/

namespace Tree

theorem fullSelector_append {way : List String} (h : way ≠ []) (selector : String) :
    fullSelector (way ++ [selector]) = Selector.resolve (fullSelector way) selector := by
  obtain ⟨outermost, inner, rfl⟩ := List.exists_cons_of_ne_nil h
  simp [fullSelector]

theorem rulesOfPaths_append (ps qs : List (List String × List String)) :
    rulesOfPaths (ps ++ qs) = rulesOfPaths ps ++ rulesOfPaths qs := by
  simp [rulesOfPaths]

theorem rulesOfPaths_cons (way declarations : List String)
    (ps : List (List String × List String)) :
    rulesOfPaths ((way, declarations) :: ps)
      = Rule.ofBlock (fullSelector way) declarations ++ rulesOfPaths ps := by
  cases declarations with
  | nil => rfl
  | cons d ds => rfl

end Tree

namespace Content

/-- Resolving selectors on the way down is the same as resolving each way from its beginning. -/
theorem rules_eq_paths {content : Content Unit} (h : content.Printable) {way : List String}
    (hway : way ≠ []) :
    content.rules (Tree.fullSelector way) = Tree.rulesOfPaths (content.paths way) := by
  induction content generalizing way with
  | done => rfl
  | declaration text rest ih => exact ih h.2 hway
  | block nested place inner rest ih1 ih2 =>
      obtain ⟨htoken, hinner, hrest⟩ := h
      rw [rules, if_neg htoken.nonempty, paths, Tree.rulesOfPaths_cons, Tree.rulesOfPaths_append,
        Tree.fullSelector_append hway, ← ih1 hinner (by simp), ← ih2 hrest hway,
        Tree.fullSelector_append hway, List.append_assoc]

/-- A block's inside that can be written down gives no reason for a report. -/
theorem reports_of_printable {content : Content Location} (h : content.Printable) :
    content.reports = [] := by
  induction content with
  | done => rfl
  | declaration text rest ih => exact ih h.2
  | block nested place inner rest ih1 ih2 =>
      obtain ⟨htoken, hinner, hrest⟩ := h
      rw [reports, if_neg htoken.nonempty, ih1 hinner, ih2 hrest]
      rfl

theorem printable_map {α β : Type} (f : α → β) (content : Content α) :
    (content.map f).Printable ↔ content.Printable := by
  induction content with
  | done => exact Iff.rfl
  | declaration text rest ih => exact and_congr_right fun _ => ih
  | block nested place inner rest ih1 ih2 =>
      exact and_congr_right fun _ => and_congr ih1 ih2

end Content

/-- The rules of a tree begin with those of its first block. -/
theorem Tree.rules_cons (selector : String) {content : Content Unit} (h : content.Printable)
    (rest : Tree) :
    Tree.rules ((selector, content) :: rest)
      = Rule.ofBlock selector content.own ++ content.rules selector ++ Tree.rules rest := by
  have hcontent := content.rules_eq_paths h (List.cons_ne_nil selector [])
  show rulesOfPaths ((([selector], content.own) :: content.paths [selector]) ++ paths rest) = _
  rw [rulesOfPaths_append, rulesOfPaths_cons, ← hcontent]
  rfl

/-! ### Reading what was written -/

namespace Content

/-- Characters without places. -/
def unmarked (cs : List Char) : List (Char × Unit) := cs.map fun c => (c, ())

@[simp] theorem map_fst_unmarked (cs : List Char) : (unmarked cs).map Prod.fst = cs := by
  simp [unmarked, Function.comp_def]

theorem unmarked_append_cons (cs ds : List Char) (c : Char) :
    unmarked (cs ++ c :: ds) = unmarked cs ++ (c, ()) :: unmarked ds :=
  List.map_append

theorem unmarked_plain (ps qs : List Piece) (c : Char) :
    unmarked (shown (ps ++ .plain c :: qs))
      = unmarked (shown ps) ++ (c, ()) :: unmarked (shown qs) := by
  rw [shown_append]
  exact unmarked_append_cons _ _ c

theorem forall_mem_unmarked {p : Char → Prop} {cs : List Char} (h : ∀ c ∈ cs, p c) :
    ∀ m ∈ unmarked cs, p m.1 := by
  intro m hm
  obtain ⟨c, hc, rfl⟩ := List.mem_map.mp hm
  exact h c hc

theorem forall_unmarked {isBoundary : Char → Bool} {cs : List Char}
    (h : ∀ c ∈ cs, isBoundary c = false) : ∀ m ∈ unmarked cs, isBoundary m.1 = false :=
  forall_mem_unmarked h

/-- Some pieces are read as a block's inside: up to the closing brace, and as this content. -/
structure ReadAs (ps : List Piece) (content : Content Unit) : Prop where
  content : read (unmarked (shown ps)) = content
  closing : ∀ rest, closing? 0 (unmarked (shown ps) ++ ('}', ()) :: rest)
    = some ⟨unmarked (shown ps), (), rest⟩

section

variable {ps qs : List Piece} {text : String} {rest inner : Content Unit}
  (hps : ∀ c ∈ shown ps, ScanMode.nested.isBoundary c = false)
include hps

theorem closing?_plain (more : List (Char × Unit)) :
    closing? 0 (unmarked (shown ps) ++ more) = (closing? 0 more).map fun c =>
      { c with inside := unmarked (shown ps) ++ c.inside } :=
  closing?_append_of_forall (fun m hm => ne_brace_of_nested (forall_unmarked hps m hm)) 0 more

theorem ReadAs.plain {content : Content Unit} (h : declared (shown ps) .done = content) :
    ReadAs ps content := by
  refine ⟨?_, ?_⟩
  · rw [read_of_forall (forall_unmarked hps), map_fst_unmarked, h]
  · intro more
    rw [closing?_plain hps]
    simp

theorem ReadAs.declaration (htext : declared (shown ps) rest = .declaration text rest)
    (h : ReadAs qs rest) : ReadAs (ps ++ .plain ';' :: qs) (.declaration text rest) := by
  refine ⟨?_, ?_⟩
  · rw [unmarked_plain, read_of_semicolon (forall_unmarked hps), map_fst_unmarked, h.content,
      htext]
  · intro more
    rw [unmarked_plain, List.append_assoc, closing?_plain hps, List.cons_append,
      closing?_cons_of_ne (by decide) (by decide), h.closing]
    rfl

theorem ReadAs.block (htext : trimmed (shown ps) = text) {rs : List Piece} (hinner : ReadAs qs inner)
    (hrest : ReadAs rs rest) :
    ReadAs (ps ++ .plain '{' :: (qs ++ .plain '}' :: rs)) (.block text () inner rest) := by
  refine ⟨?_, ?_⟩
  · rw [unmarked_plain, unmarked_plain, read_of_block (forall_unmarked hps) (hinner.closing _),
      map_fst_unmarked, htext, hinner.content, hrest.content]
  · intro more
    rw [unmarked_plain, unmarked_plain, List.append_assoc, closing?_plain hps, List.cons_append,
      closing?_cons_opening, closing?_succ, List.append_assoc, List.cons_append, hinner.closing,
      Option.bind_some, hrest.closing]
    rfl

end

/-- **A block's inside is read back from every way to write it down**, up to the brace behind it. -/
theorem Prints.readAs {content : Content Unit} {out : List Char} (h : content.Prints out)
    (hp : content.Printable) :
    ∃ ps, ReadAs ps content ∧
      ∀ rest, Scan.pieces 0 (out ++ '}' :: rest) = ps ++ .plain '}' :: Scan.pieces 0 rest := by
  induction h with
  | done hgap =>
      obtain ⟨ps, hps, hread⟩ := hgap.pieces
      have hblank : Text.trim (shown ps) = [] := by
        have := trim_append_of_blank (fun c hc => isBlank_of_isSpacing (hps c hc)) []
        rwa [List.append_nil] at this
      refine ⟨ps, .plain (fun c hc => isBoundary_of_isSpacing (hps c hc) .nested)
        (declared_of_blank hblank _), ?_⟩
      intro more
      rw [hread, pieces_of_boundary rfl]
  | declaration hbefore hbehind _ ih =>
      obtain ⟨ps, htext, hps, hread⟩ := exists_span hbefore hp.1 hbehind (b := ';') rfl
      obtain ⟨qs, hqs, hread'⟩ := ih hp.2
      refine ⟨_, hqs.declaration hps (declared_of_trimmed hp.1.nonempty htext _), ?_⟩
      intro more
      simp only [List.append_assoc, List.cons_append]
      rw [hread, hread']
  | lastDeclaration hbefore hbehind =>
      obtain ⟨ps, htext, hps, hread⟩ := exists_span hbefore hp.1 hbehind (b := '}') rfl
      refine ⟨ps, .plain hps (declared_of_trimmed hp.1.nonempty htext _), ?_⟩
      intro more
      rw [List.append_assoc, List.append_assoc, hread]
  | block hbefore hbehind _ _ ih1 ih2 =>
      obtain ⟨htoken, hinner, hrest⟩ := hp
      obtain ⟨ps, htext, hps, hread⟩ := exists_span hbefore htoken hbehind (b := '{') rfl
      obtain ⟨qs, hqs, hread1⟩ := ih1 hinner
      obtain ⟨rs, hrs, hread2⟩ := ih2 hrest
      refine ⟨_, hqs.block hps htext hrs, ?_⟩
      intro more
      simp only [List.append_assoc, List.cons_append]
      rw [hread, hread1, hread2]

end Content

namespace Tree

open Content

/-- **A sheet is read back from every way to write it down.** -/
theorem Prints.read {tree : Tree} {out : List Char} (h : tree.Prints out) (hp : tree.Printable) :
    Outline.read (unmarked (shown (Scan.pieces 0 out)))
      = tree.map fun b => .block b.1 () b.2 := by
  induction h with
  | nil hgap =>
      obtain ⟨ps, hps, hread⟩ := hgap.pieces
      have hout := hread 0 []
      rw [List.append_nil, pieces_nil, List.append_nil] at hout
      rw [hout]
      exact Outline.read_of_forall
        (forall_unmarked fun c hc => isBoundary_of_isSpacing (hps c hc) .topLevel)
  | @cons _ _ _ out selector content rest hbefore hbehind hcontent _ ih =>
      obtain ⟨⟨htoken, -, hcontent'⟩, hrest'⟩ := List.forall_mem_cons.mp hp
      obtain ⟨ps, htext, hps, hread⟩ := exists_span hbefore htoken hbehind (b := '{') rfl
      obtain ⟨qs, hqs, hread'⟩ := hcontent.readAs hcontent'
      rw [hread, hread', unmarked_plain, unmarked_plain, Outline.read_of_block
        (forall_unmarked fun c hc => topLevel_of_nested (hps c hc)) (hqs.closing _),
        map_fst_unmarked, htext, hqs.content, ih hrest']
      rfl

/-- A tree that was read gives its own rules and no report. -/
theorem flattened_of_map {tree : Tree} (hp : tree.Printable) {o : Outline Location}
    (h : o.map (Item.map fun _ => ()) = tree.map fun b => .block b.1 () b.2) :
    o.flattened = ⟨tree.rules, []⟩ := by
  induction tree generalizing o with
  | nil =>
      obtain rfl := List.map_eq_nil_iff.mp h
      rfl
  | cons b rest ih =>
      obtain ⟨⟨htoken, hat, hcontent⟩, hrest⟩ := List.forall_mem_cons.mp hp
      obtain ⟨item, o, rfl, hitem, ho⟩ := List.map_eq_cons_iff.mp h
      cases item with
      | stray place => cases hitem
      | unclosed place => cases hitem
      | block selector place content =>
          obtain ⟨selector', content'⟩ := b
          obtain ⟨rfl, -, rfl⟩ := Item.block.inj hitem
          obtain ⟨hrules, hreports⟩ := Flattened.mk.inj (ih hrest ho)
          have hne := htoken.nonempty
          rw [Outline.flattened, Outline.rules_cons, Outline.reports_cons,
            Item.rules_of_selector hne hat, Item.reports_of_selector hne hat, hrules, hreports,
            reports_of_printable ((printable_map _ content).mp hcontent),
            Tree.rules_cons selector hcontent, own_map, rules_map]
          rfl

end Tree

/-- **However a tree is written down, flattening the sheet yields the rules of the tree**, and
nothing is reported. -/
theorem flatten_of_prints {tree : Tree} {source : String} (hp : tree.Printable)
    (h : tree.Prints source.toList) : flatten source = ⟨tree.rules, []⟩ := by
  rw [flatten_eq_outline]
  refine Tree.flattened_of_map hp ?_
  rw [← Outline.read_map, ← h.read hp]
  refine congrArg Outline.read ?_
  rw [Content.unmarked, ← map_fst_marks .char .start, List.map_map]
  rfl

/-- A comment with a brace in it, a declaration behind a block, and last ones without a semicolon:
nothing of this changes the rules. -/
theorem flatten_of_prints_nested :
    flatten ".a \x7b /*\x7d*/ x: 1; b \x7b y: 2 \x7d z: 3 \x7d"
      = ⟨[⟨".a", ["x: 1", "z: 3"]⟩, ⟨".a b", ["y: 2"]⟩], []⟩ := by
  have ha : Token ".a" := .of_ne_slash (by decide) (by decide) (by decide)
  have hb : Token "b" := .of_ne_slash (by decide) (by decide) (by decide)
  have hx : Token "x: 1" := .of_ne_slash (by decide) (by decide) (by decide)
  have hy : Token "y: 2" := .of_ne_slash (by decide) (by decide) (by decide)
  have hz : Token "z: 3" := .of_ne_slash (by decide) (by decide) (by decide)
  have htree : Tree.Printable [(".a", .declaration "x: 1"
      (.block "b" () (.declaration "y: 2" .done) (.declaration "z: 3" .done)))] :=
    List.forall_mem_singleton.mpr ⟨ha, by simp, hx, hb, ⟨hy, trivial⟩, hz, trivial⟩
  have hblank : Gap [' '] := ⟨.blank ' ' (by decide) .nil, by simp [Cursor.isSpacing]⟩
  have hnone : Gap [] := ⟨.nil, by simp⟩
  have hcomment : Trivia [' ', '/', '*', '}', '*', '/', ' '] :=
    .blank ' ' (by decide) (.comment ['}'] (by decide) hblank.trivia)
  have hinner : Content.Prints (.declaration "y: 2" .done) _ :=
    .lastDeclaration hblank.trivia hblank
  have hlast : Content.Prints (.declaration "z: 3" .done) _ :=
    .lastDeclaration hblank.trivia hblank
  have hblock : Content.Prints (.block "b" () _ _) _ :=
    .block hblank.trivia hblank hinner hlast
  have hcontent : Content.Prints (.declaration "x: 1" _) _ := .declaration hcomment hnone hblock
  have hsheet : Tree.Prints [(".a", _)] _ := .cons .nil hblank hcontent (.nil .nil)
  exact flatten_of_prints htree hsheet

end FlatSheet
