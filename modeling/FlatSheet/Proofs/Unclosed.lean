/-
Sheets that end inside a block.

Whether a sheet is read to its end can be told by counting: each opening brace outside
comments adds one, each closing one takes one away if there is one.  The sheet is read to
its end exactly if the count ends at zero.

If it does not, everything from the last brace that was read at zero is lost, and only
that.  The sheet is flattened as if it had been cut off in front of this brace, and one
fatal report about it comes last.
-/
import FlatSheet.Proofs.Settled

namespace FlatSheet

open Marked

/-- How many blocks are open after a character. -/
def depthAfter (depth : Nat) (c : Char) : Nat :=
  if c = '{' then depth + 1 else if c = '}' then depth - 1 else depth

/-- How many blocks are open at the end of a sheet. -/
def depth (source : String) : Nat := (Scan.stripComments source.toList).foldl depthAfter 0

/-- The count of open blocks, and the offset at which the last block outside all others opened. -/
structure Nesting where
  depth : Nat
  outermost : Option Nat

namespace Nesting

/-- The count after a character outside comments. -/
def after (n : Nesting) (m : Char × Location) : Nesting where
  depth := depthAfter n.depth m.1
  outermost := if m.1 = '{' ∧ n.depth = 0 then some m.2.offset else n.outermost

/-- The count at the end of a sheet. -/
def ofSheet (source : String) : Nesting := (sheetMarks source).foldl after ⟨0, none⟩

theorem depth_foldl (ms : List (Char × Location)) (n : Nesting) :
    (ms.foldl after n).depth = (ms.map Prod.fst).foldl depthAfter n.depth := by
  induction ms generalizing n with
  | nil => rfl
  | cons m ms ih => exact ih (n.after m)

theorem depth_ofSheet (source : String) : (ofSheet source).depth = FlatSheet.depth source := by
  rw [ofSheet, depth_foldl, map_fst_sheetMarks]
  rfl

section

variable (x : Location) (d : Nat) (o : Option Nat)

@[simp] theorem after_opening_zero : after ⟨0, o⟩ ('{', x) = ⟨1, some x.offset⟩ := rfl

@[simp] theorem after_closing : after ⟨d, o⟩ ('}', x) = ⟨d - 1, o⟩ := rfl

theorem after_of_ne {c : Char} (ho : c ≠ '{') (hc : c ≠ '}') (n : Nesting) : after n (c, x) = n := by
  unfold after depthAfter
  simp [ho, hc]

end

/-- Text without braces does not count. -/
theorem foldl_of_forall {ms : List (Char × Location)}
    (h : ∀ m ∈ ms, ScanMode.topLevel.isBoundary m.1 = false) (n : Nesting) :
    ms.foldl after n = n := by
  induction ms with
  | nil => rfl
  | cons m ms ih =>
      obtain ⟨ho, hc⟩ := ne_brace_of_topLevel (h m (by simp))
      rw [List.foldl_cons, after_of_ne m.2 ho hc]
      exact ih fun m hm => h m (by simp [hm])

/-- Behind a block that closes the count is what it was in front of it. -/
theorem foldl_of_closing {inner : Nat} {ms : List (Char × Location)} {c : Closing Location}
    (h : closing? inner ms = some c) (o : Option Nat) :
    (c.inside ++ [('}', c.place)]).foldl after ⟨inner + 1, o⟩ = ⟨0, o⟩ := by
  induction ms generalizing inner c with
  | nil => simp [closing?] at h
  | cons m ms ih =>
      obtain ⟨ch, x⟩ := m
      by_cases ho : ch = '{'
      · subst ho
        obtain ⟨d, hd, rfl⟩ := Option.map_eq_some_iff.mp h
        show (d.inside ++ [('}', d.place)]).foldl after ⟨inner + 2, o⟩ = _
        exact ih hd
      · by_cases hc : ch = '}'
        · subst hc
          rcases inner with _ | outer
          · obtain rfl := by simpa using h
            rfl
          · obtain ⟨d, hd, rfl⟩ := Option.map_eq_some_iff.mp h
            show (d.inside ++ [('}', d.place)]).foldl after ⟨outer + 1, o⟩ = _
            exact ih hd
        · rw [closing?_cons_of_ne ho hc] at h
          obtain ⟨d, hd, rfl⟩ := Option.map_eq_some_iff.mp h
          show (d.inside ++ [('}', d.place)]).foldl after (after ⟨inner + 1, o⟩ (ch, x)) = _
          rw [after_of_ne x ho hc]
          exact ih hd

/-- In a block that never closes the count never comes back to zero. -/
theorem foldl_of_unclosed {inner : Nat} {ms : List (Char × Location)}
    (h : closing? inner ms = none) (o : Option Nat) :
    ∃ d, ms.foldl after ⟨inner + 1, o⟩ = ⟨d + 1, o⟩ := by
  induction ms generalizing inner with
  | nil => exact ⟨inner, rfl⟩
  | cons m ms ih =>
      obtain ⟨ch, x⟩ := m
      by_cases ho : ch = '{'
      · subst ho
        rw [closing?_cons_opening, Option.map_eq_none_iff] at h
        exact ih h
      · by_cases hc : ch = '}'
        · subst hc
          rcases inner with _ | outer
          · simp at h
          · rw [closing?_succ_cons_closing, Option.map_eq_none_iff] at h
            exact ih h
        · rw [closing?_cons_of_ne ho hc, Option.map_eq_none_iff] at h
          rw [List.foldl_cons, after_of_ne x ho hc]
          exact ih h

/-- Behind a settled part the count is zero. -/
theorem foldl_of_settled {ms : List (Char × Location)} {outline : Outline Location}
    (h : Settled ms outline) (o : Option Nat) : ∃ o', ms.foldl after ⟨0, o⟩ = ⟨0, o'⟩ := by
  induction h generalizing o with
  | nil => exact ⟨o, rfl⟩
  | stray x hpre _ ih =>
      rw [List.foldl_append, foldl_of_forall hpre, List.foldl_cons, after_closing]
      exact ih o
  | @block pre inside ms _ x y hpre hc _ ih =>
      have hblock := foldl_of_closing hc (some x.offset)
      rw [List.foldl_append, foldl_of_forall hpre, List.foldl_cons, after_opening_zero,
        show inside ++ ('}', y) :: ms = (inside ++ [('}', y)]) ++ ms by simp, List.foldl_append,
        hblock]
      exact ih _

end Nesting

/-- **A sheet is read to its end exactly if the count of open blocks ends at zero.**  If it does not,
the sheet is flattened as if it ended in front of the last brace that opened a block outside all
others, and one fatal report about this brace is added. -/
theorem flatten_of_depth (source : String) :
    ((flatten source).isComplete = true ↔ depth source = 0) ∧
      (depth source ≠ 0 → ∃ before after : String,
        source = before ++ "\x7b" ++ after ∧
        (Nesting.ofSheet source).outermost = some before.utf8ByteSize ∧
        (flatten before).isComplete = true ∧
        (flatten source).rules = (flatten before).rules ∧
        (flatten source).diagnostics = (flatten before).diagnostics
          ++ [.unbalancedBraces (.ofOffset source before.utf8ByteSize)] ∧
        (flatten source).diagnostics.filter Diagnostic.isFatal
          = [.unbalancedBraces (.ofOffset source before.utf8ByteSize)]) := by
  obtain ⟨settled, outline, rest, hmarks, hsettled, hrest⟩ := exists_settled (sheetMarks source)
  obtain ⟨o, hcount⟩ := Nesting.foldl_of_settled hsettled none
  have hdepth := Nesting.depth_ofSheet source
  have hnesting : Nesting.ofSheet source = rest.foldl Nesting.after ⟨0, o⟩ := by
    rw [Nesting.ofSheet, hmarks, List.foldl_append, hcount]
  rcases hrest with hplain | ⟨pre, x, inside, rfl, hpre, hc⟩
  · rw [hnesting, Nesting.foldl_of_forall hplain] at hdepth
    have hcomplete : (flatten source).isComplete = true := by
      rw [isComplete_iff, flatten_of_settled_plain hmarks hsettled hplain]
      exact hsettled.filter_reports
    exact ⟨⟨fun _ => hdepth.symm, fun _ => hcomplete⟩, fun hne => absurd hdepth.symm hne⟩
  · obtain ⟨d, hinside⟩ := Nesting.foldl_of_unclosed hc (some x.offset)
    rw [List.foldl_append, Nesting.foldl_of_forall hpre, List.foldl_cons,
      Nesting.after_opening_zero, hinside] at hnesting
    have hflatten := flatten_of_settled_unclosed hmarks hsettled hpre hc
    have hfatal : (flatten source).diagnostics.filter Diagnostic.isFatal
        = [.unbalancedBraces x] := by
      rw [hflatten, List.filter_append, hsettled.filter_reports]
      rfl
    -- The sheet cut off in front of the brace has the same settled part, and no brace after it.
    rw [← List.append_assoc] at hmarks
    obtain ⟨cs, ds, hsource, hcut, rfl⟩ := exists_of_sheetMarks_eq hmarks
    have hbefore := flatten_of_settled_plain hcut hsettled hpre
    refine ⟨⟨?_, ?_⟩, ?_⟩
    · intro hcomplete
      rw [isComplete_iff, hfatal] at hcomplete
      simp at hcomplete
    · intro hzero
      rw [hnesting, hzero] at hdepth
      simp at hdepth
    · intro _
      refine ⟨String.ofList cs, String.ofList ds, ?_, ?_, ?_, ?_, ?_, hfatal⟩
      · rw [hsource, ← String.toList_inj]
        simp
      · rw [hnesting]
        rfl
      · rw [isComplete_iff, hbefore]
        exact hsettled.filter_reports
      · rw [hflatten, hbefore]
      · rw [hflatten, hbefore]
        rfl

/-- A block that closes is kept, and the one that does not is lost with the block in it. -/
theorem flatten_of_depth_two :
    depth "a \x7b x \x7d b \x7b y; c \x7b" = 2 ∧
      (flatten "a \x7b x \x7d b \x7b y; c \x7b").isComplete = false ∧
      ∃ before after : String, "a \x7b x \x7d b \x7b y; c \x7b" = before ++ "\x7b" ++ after ∧
        (flatten "a \x7b x \x7d b \x7b y; c \x7b").rules = (flatten before).rules := by
  have hdepth : depth "a \x7b x \x7d b \x7b y; c \x7b" = 2 := by
    unfold depth
    rw [Cursor.stripComments_of_ne_slash (by simp)]
    rfl
  obtain ⟨hcomplete, hunclosed⟩ := flatten_of_depth "a \x7b x \x7d b \x7b y; c \x7b"
  obtain ⟨before, after, hsource, -, -, hrules, -⟩ := hunclosed (by rw [hdepth]; decide)
  refine ⟨hdepth, ?_, before, after, hsource, hrules⟩
  rw [← Bool.not_eq_true, hcomplete, hdepth]
  decide

end FlatSheet
