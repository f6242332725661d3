/-
The part of a sheet that nothing after it can change.

Outside all blocks a sheet is a row of blocks that close and of braces that close nothing.
The row goes on up to a place from which there is no brace any more, or only a block that
never closes.  What is in front of this place is settled: it has its part of the outline
whatever comes after it.

The text of a sheet is cut along with its marks.  Two cuts are needed: in front of a
brace, where the sheet is made shorter, and behind a brace, where it is made longer.
-/
import FlatSheet.Proofs.Flatten
import FlatSheet.Proofs.Offset

namespace FlatSheet

open Marked

variable {α : Type}

/-- A row of blocks that close and of braces that close nothing, with its outline. -/
inductive Settled : List (Char × α) → Outline α → Prop where
  | nil : Settled [] []
  | stray {pre ms : List (Char × α)} {o : Outline α} (x : α)
      (hpre : ∀ m ∈ pre, ScanMode.topLevel.isBoundary m.1 = false) (h : Settled ms o) :
      Settled (pre ++ ('}', x) :: ms) (.stray x :: o)
  | block {pre inside ms : List (Char × α)} {o : Outline α} (x y : α)
      (hpre : ∀ m ∈ pre, ScanMode.topLevel.isBoundary m.1 = false)
      (hc : closing? 0 (inside ++ ('}', y) :: ms) = some ⟨inside, y, ms⟩) (h : Settled ms o) :
      Settled (pre ++ ('{', x) :: (inside ++ ('}', y) :: ms))
        (.block (trimmed (pre.map Prod.fst)) x (.read inside) :: o)

/-- Text without a brace, or up to a block that never closes. -/
def Unsettled (ms : List (Char × α)) : Prop :=
  (∀ m ∈ ms, ScanMode.topLevel.isBoundary m.1 = false) ∨
    ∃ pre x rest, ms = pre ++ ('{', x) :: rest ∧
      (∀ m ∈ pre, ScanMode.topLevel.isBoundary m.1 = false) ∧ closing? 0 rest = none

theorem Content.isFatal_of_mem_reports {content : Content Location} {d : Diagnostic}
    (h : d ∈ content.reports) : d.isFatal = false := by
  induction content with
  | done => simp [reports] at h
  | declaration text rest ih => exact ih h
  | block nested place inner rest ih1 ih2 =>
      rcases List.mem_append.mp h with h | h
      · split at h
        · obtain rfl := by simpa using h
          rfl
        · exact ih1 h
      · exact ih2 h

theorem Item.isFatal_of_mem_reports {selector : String} {x : Location} {content : Content Location}
    {d : Diagnostic} (h : d ∈ (Item.block selector x content).reports) : d.isFatal = false := by
  simp only [reports] at h
  split at h
  · obtain rfl := by simpa using h
    rfl
  · obtain rfl := by simpa using h
    rfl
  · exact Content.isFatal_of_mem_reports h

namespace Settled

variable {ms : List (Char × α)} {o : Outline α}

/-- **A settled part has its part of the outline whatever comes after it.** -/
theorem read_append (h : Settled ms o) (more : List (Char × α)) :
    Outline.read (ms ++ more) = o ++ Outline.read more := by
  induction h with
  | nil => rfl
  | stray x hpre _ ih =>
      rw [List.append_assoc, List.cons_append, Outline.read_of_stray hpre, ih, List.cons_append]
  | block x y hpre hc _ ih =>
      rw [List.append_assoc, List.cons_append, List.append_assoc, List.cons_append,
        Outline.read_of_block hpre (closing?_inside hc _), ih, List.cons_append]

/-- A settled part that is not empty ends with a closing brace. -/
theorem eq_nil_or_brace (h : Settled ms o) : ms = [] ∨ ∃ before x, ms = before ++ [('}', x)] := by
  induction h with
  | nil => exact Or.inl rfl
  | @stray pre ms _ x _ _ ih =>
      rcases ih with rfl | ⟨before, y, rfl⟩
      · exact Or.inr ⟨pre, x, rfl⟩
      · exact Or.inr ⟨pre ++ ('}', x) :: before, y, by simp⟩
  | @block pre inside ms _ x y _ _ _ ih =>
      rcases ih with rfl | ⟨before, z, rfl⟩
      · exact Or.inr ⟨pre ++ ('{', x) :: inside, y, by simp⟩
      · exact Or.inr ⟨pre ++ ('{', x) :: (inside ++ ('}', y) :: before), z, by simp⟩

theorem isFatal_of_mem_reports {ms : List (Char × Location)} {o : Outline Location}
    (h : Settled ms o) {d : Diagnostic} (hd : d ∈ o.reports) : d.isFatal = false := by
  induction h with
  | nil => simp at hd
  | stray x _ _ ih =>
      rcases List.mem_append.mp hd with hd | hd
      · obtain rfl := by simpa [Item.reports] using hd
        rfl
      · exact ih hd
  | block x y _ _ _ ih =>
      rcases List.mem_append.mp hd with hd | hd
      · exact Item.isFatal_of_mem_reports hd
      · exact ih hd

/-- No report about a settled part is fatal. -/
theorem filter_reports {ms : List (Char × Location)} {o : Outline Location} (h : Settled ms o) :
    o.reports.filter Diagnostic.isFatal = [] :=
  List.filter_eq_nil_iff.mpr fun d hd => by simp [h.isFatal_of_mem_reports hd]

end Settled

/-- **Every sheet is a settled part and a rest.** -/
theorem exists_settled (ms : List (Char × α)) :
    ∃ before o rest, ms = before ++ rest ∧ Settled before o ∧ Unsettled rest := by
  induction ms using topLevel_induction with
  | plain ms hms => exact ⟨[], [], ms, rfl, .nil, Or.inl hms⟩
  | stray pre x ms hpre ih =>
      obtain ⟨before, o, rest, rfl, hsettled, hrest⟩ := ih
      exact ⟨pre ++ ('}', x) :: before, _, rest, by simp, hsettled.stray x hpre, hrest⟩
  | block pre x ms c hpre hc ih =>
      obtain ⟨before, o, rest, hafter, hsettled, hrest⟩ := ih
      refine ⟨pre ++ ('{', x) :: (c.inside ++ ('}', c.place) :: before), _, rest, ?_,
        hsettled.block x c.place hpre (closing?_inside hc before), hrest⟩
      rw [closing?_eq_some hc, hafter]
      simp
  | unclosed pre x ms hpre hc =>
      exact ⟨[], [], _, rfl, .nil, Or.inr ⟨pre, x, ms, rfl, hpre, hc⟩⟩

/-- A sheet has the rules and reports of its settled part, and then those of the rest. -/
theorem flatten_of_settled {source : String} {before rest : List (Char × Location)}
    {o : Outline Location} (h : sheetMarks source = before ++ rest) (hsettled : Settled before o) :
    flatten source
      = ⟨o.rules ++ (Outline.read rest).rules, o.reports ++ (Outline.read rest).reports⟩ := by
  rw [flatten_eq_outline, h, hsettled.read_append, Outline.flattened, Outline.rules_append,
    Outline.reports_append]

theorem flatten_of_settled_plain {source : String} {before rest : List (Char × Location)}
    {o : Outline Location} (h : sheetMarks source = before ++ rest) (hsettled : Settled before o)
    (hrest : ∀ m ∈ rest, ScanMode.topLevel.isBoundary m.1 = false) :
    flatten source = ⟨o.rules, o.reports⟩ := by
  rw [flatten_of_settled h hsettled, Outline.read_of_forall hrest, Outline.rules_nil,
    Outline.reports_nil, List.append_nil, List.append_nil]

theorem flatten_of_settled_unclosed {source : String}
    {before pre inside : List (Char × Location)} {x : Location} {o : Outline Location}
    (h : sheetMarks source = before ++ (pre ++ ('{', x) :: inside)) (hsettled : Settled before o)
    (hpre : ∀ m ∈ pre, ScanMode.topLevel.isBoundary m.1 = false) (hc : closing? 0 inside = none) :
    flatten source = ⟨o.rules, o.reports ++ [.unbalancedBraces x]⟩ := by
  rw [flatten_of_settled h hsettled, Outline.read_of_unclosed hpre hc]
  simp [Item.rules, Item.reports]

theorem isComplete_iff {f : Flattened} :
    f.isComplete = true ↔ f.diagnostics.filter Diagnostic.isFatal = [] := by
  simp [Flattened.isComplete, List.filter_eq_nil_iff]

/-! ### Cutting the text of a sheet -/

open Scan

theorem map_fst_sheetMarks (source : String) :
    (sheetMarks source).map Prod.fst = Scan.stripComments source.toList :=
  Cursor.map_fst_marks_pieces .char .start source.toList

/-- A sheet that is cut off in front of a character outside comments keeps its marks. -/
theorem exists_of_sheetMarks_eq {source : String} {before after : List (Char × Location)} {c : Char}
    {x : Location} (h : sheetMarks source = before ++ (c, x) :: after) :
    ∃ cs ds, source = String.ofList (cs ++ c :: ds) ∧ sheetMarks (String.ofList cs) = before ∧
      x = .ofOffset source (bytes cs) := by
  obtain ⟨qs, rs, hps, hbefore, hx, -⟩ := exists_of_marks_eq h
  have hwritten := written_pieces 0 source.toList
  rw [hps, written_append, written_cons] at hwritten
  have hsource : source = String.ofList (written qs ++ c :: written rs) := by
    rw [← String.toList_inj, String.toList_ofList]
    exact hwritten.symm
  refine ⟨written qs, written rs, hsource, ?_, ?_⟩
  · rw [sheetMarks, String.toList_ofList, pieces_of_append hps, hbefore]
  · rw [hx, hsource, Location.ofOffset_append]

/-- A sheet that is continued keeps its marks up to a closing brace. -/
theorem sheetMarks_append {s : String} {before rest : List (Char × Location)}
    (h : sheetMarks s = before ++ rest)
    (hbefore : before = [] ∨ ∃ front x, before = front ++ [('}', x)]) (t : String) :
    ∃ more, sheetMarks (s ++ t) = before ++ more := by
  rcases hbefore with rfl | ⟨front, x, rfl⟩
  · exact ⟨_, rfl⟩
  · rw [List.append_assoc, List.singleton_append] at h
    obtain ⟨more, hmore⟩ := exists_marks_append h t.toList
    rw [sheetMarks, String.toList_append, hmore]
    exact ⟨more, by rw [List.append_assoc]; rfl⟩

end FlatSheet
