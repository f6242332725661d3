/-
The declarations of a block, by cutting its blocks out.

One way to find the declarations of a block is to take its text outside comments, to cut
out every block in it along with the selector in front, and to split what is left.  A
selector reaches back to the last semicolon or closing brace, or to the beginning; a
block that never closes reaches to the end.  No opening brace is left then, so that every
closing brace that is left closes nothing, and the text is split there and at semicolons.

The text with its blocks cut out is never built when declarations are read.  The two
agree because both go along the text in the same steps: a boundary outside all blocks
ends a declaration for the one and a part for the other (`declarations_append_cons`), and
a block is passed over by both.
-/
import FlatSheet.Proofs.Declaration
import FlatSheet.Proofs.Printing
import Mathlib.Data.List.DropRight

namespace FlatSheet

open Marked

namespace Excision

/-- A character that ends a declaration when it stands outside all blocks. -/
def isEnd (c : Char) : Bool := c = ';' || c = '}'

/-- What stands behind the block that is open at the beginning of a text, if that block closes. -/
def behindBlock? (cs : List Char) : Option (List Char) :=
  (closing? 0 (Content.unmarked cs)).map fun c => c.after.map Prod.fst

/-- A text without the selector at its end. -/
def dropSelector (cs : List Char) : List Char := cs.rdropWhile fun c => !isEnd c

theorem length_behindBlock?_lt {cs after : List Char} (h : behindBlock? cs = some after) :
    after.length < cs.length := by
  obtain ⟨c, hc, rfl⟩ := Option.map_eq_some_iff.mp h
  have hlt := after_length_lt hc
  rw [Content.unmarked, List.length_map] at hlt
  rwa [List.length_map]

/-- A text without its outermost blocks and their selectors. -/
def excise (cs : List Char) : List Char :=
  match _h : cs.dropWhile (· != '{') with
  | [] => cs
  | _ :: inside =>
    dropSelector (cs.takeWhile (· != '{')) ++
      match _hb : behindBlock? inside with
      | some after => excise after
      | none => []
termination_by cs.length
decreasing_by
  have hlt := length_behindBlock?_lt _hb
  have hle := (List.dropWhile_sublist (l := cs) (· != '{')).length_le
  rw [_h, List.length_cons] at hle
  omega

/-- The parts of a text that are more than blanks, without the blanks around them. -/
def declarations (cs : List Char) : List String :=
  (((cs.splitOnP isEnd).map Text.trim).filter (· ≠ [])).map String.ofList

/-! ### Cutting the blocks out, one at a time -/

section

variable {pre rest : List Char}

theorem excise_of_forall (hpre : ∀ c ∈ pre, c ≠ '{') : excise pre = pre := by
  have hnone : pre.dropWhile (· != '{') = [] := by
    rw [List.dropWhile_eq_nil_iff]
    intro c hc
    simpa using hpre c hc
  rw [excise]
  split <;> rename_i heq <;> rw [hnone] at heq
  cases heq

theorem excise_append_cons (hpre : ∀ c ∈ pre, c ≠ '{') :
    excise (pre ++ '{' :: rest)
      = dropSelector pre ++ match behindBlock? rest with
        | some after => excise after
        | none => [] := by
  have hall : ∀ c ∈ pre, (c != '{') = true := by
    intro c hc
    simpa using hpre c hc
  have hdrop : (pre ++ '{' :: rest).dropWhile (· != '{') = '{' :: rest := by
    rw [List.dropWhile_append_of_pos hall]
    rfl
  have htake : (pre ++ '{' :: rest).takeWhile (· != '{') = pre := by
    rw [List.takeWhile_append_of_pos hall]
    exact List.append_nil pre
  rw [excise]
  split <;> rename_i heq <;> rw [hdrop] at heq
  · cases heq
  · obtain ⟨-, rfl⟩ := List.cons.inj heq
    rw [htake]
    split
    · rename_i hb
      rw [hb]
    · rename_i hb
      rw [hb]

theorem dropSelector_of_forall (hpre : ∀ c ∈ pre, isEnd c = false) : dropSelector pre = [] := by
  rw [dropSelector, List.rdropWhile_eq_nil_iff]
  intro c hc
  simp [hpre c hc]

/-- A selector does not reach back over the end of a declaration. -/
theorem dropSelector_append_cons {c : Char} (hc : isEnd c = true) :
    dropSelector (pre ++ c :: rest) = pre ++ c :: dropSelector rest := by
  unfold dropSelector List.rdropWhile
  rw [List.reverse_append, List.reverse_cons, List.append_assoc, List.dropWhile_append]
  split
  · rename_i hempty
    rw [List.isEmpty_iff.mp hempty]
    simp [hc]
  · simp

/-- No block reaches back over the end of a declaration either. -/
theorem excise_append_end {c : Char} (hpre : ∀ c ∈ pre, c ≠ '{') (hc : isEnd c = true) :
    excise (pre ++ c :: rest) = pre ++ c :: excise rest := by
  have hno : c ≠ '{' := by
    rintro rfl
    cases hc
  have hfront : ∀ front : List Char, '{' ∉ front → ∀ d ∈ pre ++ c :: front, d ≠ '{' := by
    intro front hfront d hd
    rcases List.mem_append.mp hd with hd | hd
    · exact hpre d hd
    · rcases List.mem_cons.mp hd with rfl | hd
      · exact hno
      · exact ne_of_mem_of_not_mem hd hfront
  by_cases hbrace : '{' ∈ rest
  · obtain ⟨front, inside, rfl, hnot⟩ := List.eq_append_cons_of_mem hbrace
    rw [← List.cons_append, ← List.append_assoc, excise_append_cons (hfront front hnot),
      excise_append_cons fun d hd => ne_of_mem_of_not_mem hd hnot, dropSelector_append_cons hc,
      List.append_assoc, List.cons_append]
  · rw [excise_of_forall (hfront rest hbrace),
      excise_of_forall fun d hd => ne_of_mem_of_not_mem hd hbrace]

/-- No opening brace is left when all blocks are cut out. -/
theorem ne_brace_of_mem_excise {cs : List Char} {c : Char} (h : c ∈ excise cs) : c ≠ '{' := by
  have hfront : ∀ {cs : List Char}, c ∈ dropSelector (cs.takeWhile (· != '{')) → c ≠ '{' := by
    intro cs hc
    have hmem := (List.rdropWhile_prefix _ _).subset hc
    simpa using List.mem_takeWhile_imp hmem
  fun_induction excise cs with
  | case1 cs hnone => simpa using List.dropWhile_eq_nil_iff.mp hnone c h
  | case2 cs brace inside hcut ih =>
      rcases List.mem_append.mp h with h | h
      · exact hfront h
      · split at h
        · rename_i after hb
          exact ih after hb h
        · cases h

/-- What is left behind a block that closes is what stands behind it, and nothing else. -/
theorem behindBlock?_map_fst {α : Type} (ms : List (Char × α)) :
    behindBlock? (ms.map Prod.fst) = (closing? 0 ms).map fun c => c.after.map Prod.fst := by
  have hunmarked : Content.unmarked (ms.map Prod.fst) = ms.map (Prod.map id fun _ => ()) :=
    (map_const () ms).symm
  rw [behindBlock?, hunmarked, closing?_map, Option.map_map]
  simp [Function.comp_def]

/-! ### Splitting what is left -/

@[simp] theorem declarations_nil : declarations [] = [] := rfl

/-- Everything that is said of parts comes from this: they can be taken one by one. -/
theorem declarations_append_cons {c : Char} (hc : isEnd c = true) (cs ds : List Char) :
    declarations (cs ++ c :: ds) = declarations cs ++ declarations ds := by
  unfold declarations
  rw [List.splitOnP_append_cons cs ds hc, List.map_append, List.filter_append, List.map_append]

/-- A text without boundaries is a declaration unless it is blank. -/
theorem declarations_of_forall {α : Type} (hpre : ∀ c ∈ pre, isEnd c = false) :
    declarations pre = (Content.declared pre (.done : Content α)).own := by
  unfold declarations
  rw [List.splitOnP_eq_singleton hpre]
  by_cases ht : Text.trim pre = []
  · rw [Content.declared_of_blank ht]
    simp [ht, Content.own]
  · rw [Content.declared_of_text ht]
    simp [ht, Content.own, trimmed]

end

theorem isEnd_of_boundary {c : Char} (h : ScanMode.nested.isBoundary c = false) :
    c ≠ '{' ∧ isEnd c = false := by
  simp only [ScanMode.isBoundary, Bool.or_eq_false_iff, decide_eq_false_iff_not] at h
  exact ⟨h.1.1, by simp [isEnd, h.1.2, h.2]⟩

/-- **Reading a content and cutting its blocks out leave the same declarations.** -/
theorem own_read {α : Type} (ms : List (Char × α)) :
    (Content.read ms).own = declarations (excise (ms.map Prod.fst)) := by
  have hplain : ∀ {pre : List (Char × α)},
      (∀ m ∈ pre, ScanMode.nested.isBoundary m.1 = false) →
        (∀ c ∈ pre.map Prod.fst, c ≠ '{') ∧ ∀ c ∈ pre.map Prod.fst, isEnd c = false := by
    intro pre hpre
    have hchars := forall_map_fst hpre
    exact ⟨fun c hc => (isEnd_of_boundary (hchars c hc)).1,
      fun c hc => (isEnd_of_boundary (hchars c hc)).2⟩
  induction ms using nested_induction with
  | plain ms hms =>
      obtain ⟨hbrace, hend⟩ := hplain hms
      rw [Content.read_of_forall hms, excise_of_forall hbrace, declarations_of_forall hend]
  | semicolon pre x ms hpre ih =>
      obtain ⟨hbrace, hend⟩ := hplain hpre
      rw [Content.read_of_semicolon hpre, Content.own_declared, ih, List.map_append, List.map_cons,
        excise_append_end hbrace rfl, declarations_append_cons rfl, declarations_of_forall hend]
  | stray pre x ms hpre ih =>
      obtain ⟨hbrace, hend⟩ := hplain hpre
      rw [Content.read_of_stray hpre, Content.own_declared, ih, List.map_append, List.map_cons,
        excise_append_end hbrace rfl, declarations_append_cons rfl, declarations_of_forall hend]
  | block pre x ms c hpre hc _ ih =>
      obtain ⟨hbrace, hend⟩ := hplain hpre
      rw [Content.read_of_block hpre hc, List.map_append, List.map_cons,
        excise_append_cons hbrace, dropSelector_of_forall hend, behindBlock?_map_fst, hc]
      exact ih
  | unclosed pre x ms hpre hc =>
      obtain ⟨hbrace, hend⟩ := hplain hpre
      rw [Content.read_of_unclosed hpre hc, List.map_append, List.map_cons,
        excise_append_cons hbrace, dropSelector_of_forall hend, behindBlock?_map_fst, hc]
      rfl

end Excision

/-- **The declarations of a block are what is left of it without its blocks.**  The outermost blocks
are cut out of the text outside comments, each with the selector in front of it.  No block is left
then, and the rest is split where a semicolon stands, or a brace that closes nothing. -/
theorem extractDeclarations_eq_excision (content : String) :
    extractDeclarations content
        = Excision.declarations (Excision.excise (Scan.stripComments content.toList)) ∧
      '{' ∉ Excision.excise (Scan.stripComments content.toList) := by
  constructor
  · rw [extractDeclarations_eq_own (Content.map_fst_unmarked _), Excision.own_read,
      Content.map_fst_unmarked]
  · intro hbrace
    exact Excision.ne_brace_of_mem_excise hbrace rfl

/-- A brace that closes nothing, a block in a block, a semicolon in a comment, and a block that never
closes. -/
example : extractDeclarations "a \x7d b \x7b c \x7b d; \x7d e \x7d f /*;*/ g; h \x7b i; j"
    = ["a", "f  g"] := by
  decide +kernel

end FlatSheet
