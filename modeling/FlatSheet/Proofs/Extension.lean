/-
Sheets that are continued.

What a sheet says in front of the place where it stops stays said when it goes on.  The
place may be anywhere, also inside a comment or a block: all rules come from the settled
part of the sheet, and the only report that is not about this part is the fatal one.
-/
import FlatSheet.Proofs.Settled

namespace FlatSheet

open Marked

/-- More strings to put together make a longer string. -/
theorem intercalate_prefix (separator : String) {l m : List String} (h : l <+: m) :
    (separator.intercalate l).toList <+: (separator.intercalate m).toList := by
  obtain ⟨k, rfl⟩ := h
  by_cases hl : l = []
  · rw [hl, String.intercalate_nil]
    exact List.nil_prefix
  by_cases hk : k = []
  · simp [hk]
  · rw [String.intercalate_append_of_ne_nil hl hk, String.toList_append, String.toList_append,
      List.append_assoc]
    exact List.prefix_append _ _

/-- More rules make a longer sheet. -/
theorem emit_prefix {rs ss : List Rule} (h : rs <+: ss) : (emit rs).toList <+: (emit ss).toList :=
  intercalate_prefix "\n" ((h.filter _).map _)

/-- Nothing in the rest of a sheet adds to its rules, or to its reports but for a fatal one. -/
theorem Unsettled.rules_eq {ms : List (Char × Location)} (h : Unsettled ms) :
    (Outline.read ms).rules = [] ∧
      (Outline.read ms).reports.filter (fun d => !d.isFatal) = [] := by
  rcases h with h | ⟨pre, x, rest, rfl, hpre, hc⟩
  · rw [Outline.read_of_forall h]
    exact ⟨rfl, rfl⟩
  · rw [Outline.read_of_unclosed hpre hc]
    exact ⟨rfl, rfl⟩

/-- **What is read of a sheet stays when the sheet goes on**, wherever it was cut: its rules come
first, its reports come first except for a fatal one, and so does the flat sheet. -/
theorem flatten_append (s t : String) :
    (flatten s).rules <+: (flatten (s ++ t)).rules ∧
      (flatten s).diagnostics.filter (fun d => !d.isFatal) <+: (flatten (s ++ t)).diagnostics ∧
      (process s).toList <+: (process (s ++ t)).toList := by
  obtain ⟨before, o, rest, hmarks, hsettled, hrest⟩ := exists_settled (sheetMarks s)
  obtain ⟨more, hmore⟩ := sheetMarks_append hmarks hsettled.eq_nil_or_brace t
  have hs := flatten_of_settled hmarks hsettled
  have hst := flatten_of_settled hmore hsettled
  obtain ⟨hrules, hreports⟩ := hrest.rules_eq
  rw [hrules, List.append_nil] at hs
  have hfirst : (flatten s).rules <+: (flatten (s ++ t)).rules := by
    rw [hs, hst]
    exact List.prefix_append _ _
  refine ⟨hfirst, ?_, emit_prefix hfirst⟩
  have hkept : o.reports.filter (fun d => !d.isFatal) = o.reports :=
    List.filter_eq_self.mpr fun d hd => by simp [hsettled.isFatal_of_mem_reports hd]
  rw [hs, hst, List.filter_append, hkept, hreports, List.append_nil]
  exact List.prefix_append _ _

end FlatSheet
