/-
Sheets one behind the other.

A sheet that is read to its end and ends with a closing brace leaves nothing behind for
what follows it: no open block or parenthesis, no text of a selector, nothing that could be
taken back.  What follows is flattened as if it stood alone, only its places are counted
from the beginning of the whole.

The parentheses are closed by the brace itself, so the pieces of what follows are those it
has alone.  That no block is open is a fact about the outline: all of such a sheet is
settled.
-/
import FlatSheet.Proofs.Settled

namespace FlatSheet

open Marked Scan

/-! ### Places seen from further ahead -/

attribute [ext] Location

namespace Location

/-- A place in what follows a text, counted from the beginning of that text. -/
def behind (front : String) (l : Location) : Location where
  line := l.line + front.toList.count '\n'
  column :=
    if l.line = 1 then l.column + ((ofOffset front front.utf8ByteSize).column - 1) else l.column
  offset := l.offset + front.utf8ByteSize

theorem line_step (g : Grain) (l : Location) (c : Char) :
    (l.step g c).line = l.line + if c = '\n' then 1 else 0 := by
  unfold step
  split <;> rfl

theorem line_past (l : Location) (cs : List Char) :
    (l.past .char cs).line = l.line + cs.count '\n' := by
  induction cs generalizing l with
  | nil => simp
  | cons c cs ih =>
      rw [past_cons, ih, line_step, List.count_cons]
      simp only [beq_iff_eq]
      omega

/-- Columns are counted from one. -/
theorem column_past_pos {l : Location} (h : 0 < l.column) (g : Grain) (cs : List Char) :
    0 < (l.past g cs).column := by
  induction cs generalizing l with
  | nil => exact h
  | cons c cs ih =>
      refine ih ?_
      unfold step
      split
      · exact Nat.one_pos
      · exact Nat.lt_of_lt_of_le h (Nat.le_add_right _ _)

/-- The place where a text ends. -/
theorem ofOffset_end (text : String) :
    ofOffset text text.utf8ByteSize = start.past .char text.toList := by
  have h := ofOffset_append text.toList []
  rwa [List.append_nil, bytes, String.ofList_toList] at h

/-- The beginning of what follows a text is the end of that text. -/
theorem behind_start (front : String) : start.behind front = start.past .char front.toList := by
  have hplace := ofOffset_end front
  have hline := line_past start front.toList
  have hcolumn : 0 < (start.past .char front.toList).column := column_past_pos Nat.one_pos _ _
  have hoffset := offset_past start front.toList
  rw [bytes, String.ofList_toList] at hoffset
  ext
  · exact hline.symm
  · show (if 1 = 1 then 1 + ((ofOffset front front.utf8ByteSize).column - 1) else 1) = _
    rw [if_pos rfl, hplace]
    omega
  · exact hoffset.symm

/-- Each character moves both places alike. -/
theorem step_behind (front : String) {l : Location} (h : 0 < l.line) (c : Char) :
    (l.behind front).step .char c = (l.step .char c).behind front := by
  unfold step behind
  by_cases hc : c = '\n'
  · -- Behind a line's end no column depends on the text in front.
    have hline : l.line + 1 ≠ 1 := by omega
    rw [if_pos hc, if_pos hc]
    ext
    · exact Nat.add_right_comm _ _ _
    · exact (if_neg hline).symm
    · exact Nat.add_right_comm _ _ _
  · rw [if_neg hc, if_neg hc]
    ext
    · rfl
    · show (if l.line = 1 then _ else _) + 1 = if l.line = 1 then l.column + 1 + _ else l.column + 1
      by_cases hline : l.line = 1
      · rw [if_pos hline, if_pos hline]
        exact Nat.add_right_comm _ _ _
      · rw [if_neg hline, if_neg hline]
    · exact Nat.add_right_comm _ _ _

theorem past_behind (front : String) {l : Location} (h : 0 < l.line) (cs : List Char) :
    (l.behind front).past .char cs = (l.past .char cs).behind front := by
  induction cs generalizing l with
  | nil => rfl
  | cons c cs ih =>
      rw [past_cons, past_cons, step_behind front h]
      refine ih ?_
      rw [line_step]
      omega

end Location

/-! ### Marks behind a closing brace -/

/-- A text ends with a closing brace outside all comments. -/
def endsWithBrace (s : String) : Bool := (pieces 0 s.toList).getLast? = some (.plain '}')

/-- The same pieces further behind have the same marks further behind. -/
theorem Scan.marks_behind (front : String) {l : Location} (h : 0 < l.line) (ps : List Piece) :
    marks .char (l.behind front) ps = (marks .char l ps).map (Prod.map id (·.behind front)) := by
  induction ps generalizing l with
  | nil => rfl
  | cons p ps ih =>
      have hline : 0 < (l.past .char p.text).line := by
        rw [Location.line_past]
        omega
      rw [marks, marks, Location.past_behind front h, ih hline, List.map_append]
      simp

theorem exists_of_endsWithBrace {s : String} (h : endsWithBrace s = true) :
    ∃ ps, pieces 0 s.toList = ps ++ [.plain '}'] := by
  simp only [endsWithBrace, decide_eq_true_eq] at h
  obtain ⟨ps, hps⟩ := List.getLast?_eq_some_iff.mp h
  exact ⟨ps, hps⟩

/-- Behind a closing brace a text has the marks that it has alone. -/
theorem sheetMarks_append_of_brace {s : String} (h : endsWithBrace s = true) (t : String) :
    sheetMarks (s ++ t)
      = sheetMarks s ++ (sheetMarks t).map (Prod.map id (·.behind s)) := by
  obtain ⟨ps, hps⟩ := exists_of_endsWithBrace h
  have hpieces : pieces 0 (s ++ t).toList = pieces 0 s.toList ++ pieces 0 t.toList := by
    rw [String.toList_append, pieces_append_closing hps, hps, List.append_assoc]
    rfl
  rw [sheetMarks, hpieces, marks_append, written_pieces, ← Location.behind_start,
    marks_behind s Nat.one_pos]
  rfl

/-- A sheet is settled as a whole if it is read to its end and ends with a closing brace. -/
theorem settled_of_isComplete {s : String} (hcomplete : (flatten s).isComplete = true)
    (hend : endsWithBrace s = true) : ∃ o, Settled (sheetMarks s) o := by
  obtain ⟨before, o, rest, hmarks, hsettled, hrest⟩ := exists_settled (sheetMarks s)
  rcases hrest with hplain | ⟨pre, x, inside, rfl, hpre, hc⟩
  · -- The last mark is a brace, so there is no rest without one.
    obtain ⟨ps, hps⟩ := exists_of_endsWithBrace hend
    have hlast : ∃ front y, sheetMarks s = front ++ [('}', y)] := by
      rw [sheetMarks, hps, marks_append]
      exact ⟨_, _, rfl⟩
    obtain ⟨front, y, hfront⟩ := hlast
    rcases List.eq_nil_or_concat rest with rfl | ⟨between, m, rfl⟩
    · rw [List.append_nil] at hmarks
      exact ⟨o, hmarks ▸ hsettled⟩
    · exfalso
      rw [hfront, List.concat_eq_append, ← List.append_assoc] at hmarks
      obtain rfl : m = ('}', y) := by
        simpa using (List.append_inj_right' hmarks rfl).symm
      have := hplain ('}', y) (by simp)
      simp [ScanMode.isBoundary] at this
  · rw [isComplete_iff, flatten_of_settled_unclosed hmarks hsettled hpre hc, List.filter_append,
      hsettled.filter_reports] at hcomplete
    simp [Diagnostic.isFatal] at hcomplete

/-- **Sheets one behind the other are flattened one after the other.**  Behind a sheet that is read to
its end and ends with a closing brace, any other has the rules and the reports that it has alone, and
only the places move: by the bytes and the lines in front, and on its first line by the columns of the
last line in front. -/
theorem flatten_append_of_endsWithBrace {s : String} (hcomplete : (flatten s).isComplete = true)
    (hend : endsWithBrace s = true) (t : String) :
    (flatten (s ++ t)).rules = (flatten s).rules ++ (flatten t).rules ∧
      (flatten (s ++ t)).diagnostics
        = (flatten s).diagnostics ++ (flatten t).diagnostics.map (.moved (·.behind s)) := by
  obtain ⟨o, hsettled⟩ := settled_of_isComplete hcomplete hend
  have hs := flatten_of_settled_plain (List.append_nil _).symm hsettled (by simp)
  have hst := flatten_of_settled (sheetMarks_append_of_brace hend t) hsettled
  rw [Outline.read_map, Outline.rules_map, Outline.reports_map] at hst
  rw [hst, hs, flatten_eq_outline t]
  exact ⟨rfl, rfl⟩

/-- Behind an at-rule with an open parenthesis and a stray brace, a sheet that does not close: its
stray brace is on the last line in front, and its block opens on a line of its own. -/
theorem flatten_append_of_endsWithBrace_unclosed :
    (flatten "@m (p \x7b\x7d\na /*é*/ \x7b b; \x7d \x7d").isComplete = true ∧
      endsWithBrace "@m (p \x7b\x7d\na /*é*/ \x7b b; \x7d \x7d" = true ∧
      (flatten ("@m (p \x7b\x7d\na /*é*/ \x7b b; \x7d \x7d" ++ " \x7d // c\n d \x7b e; ")).diagnostics
        = [.atRuleDiscarded "m" ⟨1, 7, 6⟩, .strayClosingBrace ⟨2, 16, 25⟩,
          .strayClosingBrace ⟨2, 18, 27⟩, .unbalancedBraces ⟨3, 4, 37⟩] := by
  have hcomplete : (flatten "@m (p \x7b\x7d\na /*é*/ \x7b b; \x7d \x7d").isComplete = true := by
    decide +kernel
  have hend : endsWithBrace "@m (p \x7b\x7d\na /*é*/ \x7b b; \x7d \x7d" = true := by decide +kernel
  have hboth := (flatten_append_of_endsWithBrace hcomplete hend " \x7d // c\n d \x7b e; ").2
  refine ⟨hcomplete, hend, hboth.trans ?_⟩
  decide +kernel

end FlatSheet
