/-
Sheets that are the same but for their comments.

All that flattening says of a sheet, places apart, it says of the text that is left when
the comments are removed.  Two sheets with the same text of this kind have the same rules,
and reports of the same kinds in the same order.

A sheet and its own text without comments are such a pair, unless removing the comments
has brought together a slash and a star that begin another one.
-/
import FlatSheet.Proofs.Settled

namespace FlatSheet

namespace Diagnostic

variable (f : Location → Location) (d : Diagnostic)

@[simp] theorem kind_moved : (d.moved f).kind = d.kind := by
  cases d <;> rfl

@[simp] theorem name?_moved : (d.moved f).name? = d.name? := by
  cases d <;> rfl

@[simp] theorem isFatal_moved : (d.moved f).isFatal = d.isFatal := by
  cases d <;> rfl

end Diagnostic

/-- What is said of a sheet is settled by its text without comments, up to the places. -/
theorem flatten_of_stripComments {s t : String} (h : stripComments s = stripComments t) :
    (flatten s).rules = (flatten t).rules ∧
      (flatten s).diagnostics.map (Diagnostic.moved fun _ => .start)
        = (flatten t).diagnostics.map (Diagnostic.moved fun _ => .start) := by
  have hchars : (sheetMarks s).map Prod.fst = (sheetMarks t).map Prod.fst := by
    rw [map_fst_sheetMarks, map_fst_sheetMarks]
    exact String.ofList_injective h
  have houtline := Outline.read_of_chars hchars Location.start
  have hrules := congrArg Outline.rules houtline
  have hreports := congrArg Outline.reports houtline
  rw [Outline.rules_map, Outline.rules_map] at hrules
  rw [Outline.reports_map, Outline.reports_map] at hreports
  rw [flatten_eq_outline, flatten_eq_outline]
  exact ⟨hrules, hreports⟩

/-- **Comments are invisible.**  If no comment is left when the comments of a sheet are removed, the
sheet says the same without them: it has the same rules, it is read to its end or not, and there are
the same kinds of reports, with the same names, in the same order. -/
theorem flatten_stripComments {source : String}
    (h : stripComments (stripComments source) = stripComments source) :
    (flatten source).rules = (flatten (stripComments source)).rules ∧
      (flatten source).isComplete = (flatten (stripComments source)).isComplete ∧
      (flatten source).diagnostics.map (fun d => (d.kind, d.name?))
        = (flatten (stripComments source)).diagnostics.map fun d => (d.kind, d.name?) := by
  obtain ⟨hrules, hreports⟩ := flatten_of_stripComments h.symm
  refine ⟨hrules, ?_, ?_⟩
  · have hfatal := congrArg (List.any · Diagnostic.isFatal) hreports
    simp only [List.any_map, Function.comp_def, Diagnostic.isFatal_moved] at hfatal
    unfold Flattened.isComplete
    rw [hfatal]
  · have hkinds := congrArg (List.map fun d : Diagnostic => (d.kind, d.name?)) hreports
    simpa [Function.comp_def] using hkinds

/-- Comments with a brace, a semicolon or a parenthesis, in a selector, in a declaration, in front of
an at-rule's block and at the end. -/
theorem flatten_stripComments_braces :
    stripComments ".a/*\x7b*/ \x7b x: 1/*;*/; // \x7d\n \x7d @m /*(*/ n \x7b\x7d /*\x7d"
        = ".a \x7b x: 1; \n \x7d @m  n \x7b\x7d " ∧
      (flatten ".a/*\x7b*/ \x7b x: 1/*;*/; // \x7d\n \x7d @m /*(*/ n \x7b\x7d /*\x7d").rules
        = (flatten ".a \x7b x: 1; \n \x7d @m  n \x7b\x7d ").rules := by
  have hstrip : stripComments ".a/*\x7b*/ \x7b x: 1/*;*/; // \x7d\n \x7d @m /*(*/ n \x7b\x7d /*\x7d"
      = ".a \x7b x: 1; \n \x7d @m  n \x7b\x7d " := by decide +kernel
  refine ⟨hstrip, ?_⟩
  rw [← hstrip]
  exact (flatten_stripComments (by decide +kernel)).1

end FlatSheet
