/-
What the rules of a sheet are made of.

Every selector and every declaration that is read is a span of text: it is not empty, has
no blanks around it, and holds none of the characters that would have ended it.  Filling a
selector into another keeps this, since what stands at either end of the result stood at an
end before.  So all rules of a sheet are well formed, whatever the sheet is.
-/
import FlatSheet.Proofs.Flatten
import Mathlib.Data.List.DropRight

namespace FlatSheet

open Marked

namespace Text

/-! ### Blanks at the ends of a text -/

theorem trim_eq_rdropWhile (cs : List Char) :
    trim cs = (cs.dropWhile isBlank).rdropWhile isBlank := rfl

theorem trim_prefix_dropWhile (cs : List Char) : trim cs <+: cs.dropWhile isBlank :=
  List.rdropWhile_prefix _ _

/-- A text is what is left of it without the blanks around it, and those blanks. -/
theorem exists_trim (cs : List Char) :
    ∃ before behind, cs = before ++ (trim cs ++ behind) ∧ (∀ c ∈ before, isBlank c = true) ∧
      ∀ c ∈ behind, isBlank c = true := by
  refine ⟨cs.takeWhile isBlank, ((cs.dropWhile isBlank).reverse.takeWhile isBlank).reverse,
    ?_, ?_, ?_⟩
  · rw [trim, trimEnd, ← List.reverse_append, List.takeWhile_append_dropWhile, List.reverse_reverse,
      List.takeWhile_append_dropWhile]
  · intro c hc
    exact List.mem_takeWhile_imp hc
  · intro c hc
    exact List.mem_takeWhile_imp (List.mem_reverse.mp hc)

theorem trim_sublist (cs : List Char) : (trim cs).Sublist cs :=
  (trim_prefix_dropWhile cs).sublist.trans (List.dropWhile_sublist _)

theorem isBlank_of_head?_trim {cs : List Char} {c : Char} (h : c ∈ (trim cs).head?) :
    isBlank c = false := by
  have hhead := List.head?_dropWhile_not isBlank cs
  obtain ⟨after, hafter⟩ := trim_prefix_dropWhile cs
  rcases ht : trim cs with _ | ⟨d, ds⟩
  · simp [ht] at h
  · obtain rfl : d = c := by simpa [ht] using h
    rw [← hafter, ht] at hhead
    simpa using hhead

theorem isBlank_of_getLast?_trim {cs : List Char} {c : Char} (h : c ∈ (trim cs).getLast?) :
    isBlank c = false := by
  obtain ⟨hne, rfl⟩ := List.mem_getLast?_eq_getLast h
  have hlast := List.rdropWhile_last_not isBlank (cs.dropWhile isBlank) hne
  exact Bool.eq_false_iff.mpr hlast

/-- A text has no blanks around it if none is its first character or its last. -/
theorem trim_eq_self_iff {cs : List Char} :
    trim cs = cs ↔
      (∀ c ∈ cs.head?, isBlank c = false) ∧ ∀ c ∈ cs.getLast?, isBlank c = false := by
  constructor
  · intro h
    refine ⟨?_, ?_⟩
    · intro c hc
      rw [← h] at hc
      exact isBlank_of_head?_trim hc
    · intro c hc
      rw [← h] at hc
      exact isBlank_of_getLast?_trim hc
  · rintro ⟨hhead, hlast⟩
    have hdrop : cs.dropWhile isBlank = cs := by
      rcases cs with _ | ⟨c, cs⟩
      · rfl
      · rw [List.dropWhile_cons_of_neg]
        simpa using hhead c rfl
    rw [trim_eq_rdropWhile, hdrop, List.rdropWhile_eq_self_iff]
    intro hne
    simpa using hlast _ (List.getLast?_eq_some_getLast hne)

@[simp] theorem trim_trim (cs : List Char) : trim (trim cs) = trim cs :=
  trim_eq_self_iff.mpr ⟨fun _ => isBlank_of_head?_trim, fun _ => isBlank_of_getLast?_trim⟩

theorem trim_singleton {c : Char} (h : isBlank c = false) : trim [c] = [c] := by
  rw [trim_eq_self_iff]
  simpa using h

/-- What stands between two texts without blanks around them may be anything. -/
theorem trim_append_append {as bs : List Char} (ha : trim as = as) (hb : trim bs = bs)
    (hane : as ≠ []) (hbne : bs ≠ []) (between : List Char) :
    trim (as ++ (between ++ bs)) = as ++ (between ++ bs) := by
  rw [trim_eq_self_iff] at ha hb ⊢
  refine ⟨?_, ?_⟩
  · intro c hc
    rw [List.head?_append_of_ne_nil _ hane] at hc
    exact ha.1 c hc
  · intro c hc
    rw [← List.append_assoc, List.getLast?_append_of_ne_nil _ hbne] at hc
    exact hb.2 c hc

end Text

/-! ### Spans of text -/

/-- A text as it is read in a mode: not empty, without blanks around it and without a character that
ends it. -/
structure Span (mode : ScanMode) (text : String) : Prop where
  nonempty : text ≠ ""
  trimmed : Text.trim text.toList = text.toList
  unbroken : ∀ c ∈ text.toList, mode.isBoundary c = false

namespace Span

variable {mode : ScanMode} {text parent nested : String}

theorem toList_ne_nil (h : Span mode text) : text.toList ≠ [] := by
  intro hnil
  exact h.nonempty (String.toList_eq_nil_iff.mp hnil)

theorem of_all (nonempty : text ≠ "") (trimmed : Text.trim text.toList = text.toList)
    (hchars : text.toList.all (fun c => !mode.isBoundary c) = true) : Span mode text := by
  simp only [List.all_eq_true, Bool.not_eq_true'] at hchars
  exact ⟨nonempty, trimmed, hchars⟩

theorem of_trim {cs : List Char} (h : ∀ c ∈ cs, mode.isBoundary c = false)
    (ht : FlatSheet.trimmed cs ≠ "") : Span mode (FlatSheet.trimmed cs) := by
  refine ⟨ht, ?_, ?_⟩
  · rw [FlatSheet.trimmed, String.toList_ofList, Text.trim_trim]
  · intro c hc
    rw [FlatSheet.trimmed, String.toList_ofList] at hc
    exact h c ((Text.trim_sublist cs).mem hc)

/-- What a character of a nested selector becomes has no blanks around it if the character is none. -/
theorem trim_filled (hp : Span .topLevel parent) {c : Char} (hc : Text.isBlank c = false) :
    Text.trim (if c = '&' then parent.toList else [c]) = if c = '&' then parent.toList else [c] := by
  by_cases h : c = '&'
  · rw [if_pos h]
    exact hp.trimmed
  · rw [if_neg h]
    exact Text.trim_singleton hc

theorem filled_ne_nil (hp : Span .topLevel parent) (c : Char) :
    (if c = '&' then parent.toList else [c]) ≠ [] := by
  by_cases h : c = '&'
  · rw [if_pos h]
    exact hp.toList_ne_nil
  · rw [if_neg h]
    simp

/-- The ends of a nested selector stay its ends when it is filled in, or become the parent's. -/
theorem trim_fillIn (hp : Span .topLevel parent) (hn : Span .nested nested) :
    Text.trim (Selector.fillIn parent.toList nested.toList)
      = Selector.fillIn parent.toList nested.toList := by
  have hends := Text.trim_eq_self_iff.mp hn.trimmed
  obtain ⟨c, cs, hcs⟩ := List.exists_cons_of_ne_nil hn.toList_ne_nil
  rw [hcs] at hends ⊢
  have hc := trim_filled hp (hends.1 c rfl)
  rcases List.eq_nil_or_concat cs with rfl | ⟨between, d, rfl⟩
  · simpa [Selector.fillIn] using hc
  · rw [List.concat_eq_append, ← List.cons_append, List.getLast?_concat] at hends
    have hd := trim_filled hp (hends.2 d rfl)
    have := Text.trim_append_append hc hd (filled_ne_nil hp c) (filled_ne_nil hp d)
      (Selector.fillIn parent.toList between)
    simpa [Selector.fillIn] using this

theorem fillIn_ne_nil (hp : Span .topLevel parent) (hn : Span .nested nested) :
    Selector.fillIn parent.toList nested.toList ≠ [] := by
  obtain ⟨c, cs, hcs⟩ := List.exists_cons_of_ne_nil hn.toList_ne_nil
  have hc := filled_ne_nil hp c
  rw [hcs]
  intro hnil
  exact hc (List.append_eq_nil_iff.mp hnil).1

theorem unbroken_fillIn (hp : Span .topLevel parent) (hn : Span .nested nested) :
    ∀ c ∈ Selector.fillIn parent.toList nested.toList, ScanMode.topLevel.isBoundary c = false := by
  intro c hc
  obtain ⟨d, hd, hc⟩ := List.mem_flatMap.mp hc
  by_cases h : d = '&'
  · rw [if_pos h] at hc
    exact hp.unbroken c hc
  · rw [if_neg h] at hc
    obtain rfl := List.mem_singleton.mp hc
    exact topLevel_of_nested (hn.unbroken c hd)

/-- **A full selector is a span** if the selectors it is made of are. -/
theorem resolve (hp : Span .topLevel parent) (hn : Span .nested nested) :
    Span .topLevel (Selector.resolve parent nested) := by
  unfold Selector.resolve
  by_cases h : '&' ∈ nested.toList
  · rw [if_pos h]
    refine ⟨?_, ?_, ?_⟩
    · intro hempty
      refine fillIn_ne_nil hp hn ?_
      rw [← String.toList_ofList (l := Selector.fillIn _ _), hempty]
      rfl
    · rw [String.toList_ofList]
      exact trim_fillIn hp hn
    · rw [String.toList_ofList]
      exact unbroken_fillIn hp hn
  · rw [if_neg h]
    refine ⟨?_, ?_, ?_⟩
    · intro hempty
      have := congrArg String.toList hempty
      simp at this
    · rw [String.toList_append, String.toList_append, List.append_assoc]
      exact Text.trim_append_append hp.trimmed hn.trimmed hp.toList_ne_nil hn.toList_ne_nil _
    · intro c hc
      rw [String.toList_append, String.toList_append, List.mem_append, List.mem_append] at hc
      rcases hc with (hc | hc) | hc
      · exact hp.unbroken c hc
      · obtain rfl := List.mem_singleton.mp hc
        rfl
      · exact topLevel_of_nested (hn.unbroken c hc)

end Span

/-! ### Well-formed rules -/

/-- A rule as a sheet can have it. -/
structure Rule.WellFormed (r : Rule) : Prop where
  selector : Span .topLevel r.selector
  shown : r.declarations ≠ []
  declarations : ∀ d ∈ r.declarations, Span .nested d

namespace Content

variable {α : Type}

/-- All texts in a block are spans, but the selectors of blocks may be missing. -/
def WellFormed : Content α → Prop
  | done => True
  | declaration text rest => Span .nested text ∧ rest.WellFormed
  | block selector _ inner rest =>
    (selector ≠ "" → Span .nested selector) ∧ inner.WellFormed ∧ rest.WellFormed

theorem wellFormed_declared {text : List Char} (h : ∀ c ∈ text, ScanMode.nested.isBoundary c = false)
    {rest : Content α} (hrest : rest.WellFormed) : (declared text rest).WellFormed := by
  by_cases ht : Text.trim text = []
  · rw [declared_of_blank ht]
    exact hrest
  · rw [declared_of_text ht]
    refine ⟨.of_trim h ?_, hrest⟩
    intro hempty
    rw [trimmed, String.ofList_eq_empty_iff] at hempty
    exact ht hempty

theorem wellFormed_read (ms : List (Char × α)) : (read ms).WellFormed := by
  induction ms using nested_induction with
  | plain ms h =>
      rw [read_of_forall h]
      exact wellFormed_declared (forall_map_fst h) trivial
  | semicolon pre x ms hpre ih =>
      rw [read_of_semicolon hpre]
      exact wellFormed_declared (forall_map_fst hpre) ih
  | stray pre x ms hpre ih =>
      rw [read_of_stray hpre]
      exact wellFormed_declared (forall_map_fst hpre) ih
  | block pre x ms c hpre hc ih1 ih2 =>
      rw [read_of_block hpre hc]
      exact ⟨.of_trim (forall_map_fst hpre), ih1, ih2⟩
  | unclosed pre x ms hpre hc =>
      rw [read_of_unclosed hpre hc]
      trivial

theorem span_of_mem_own {content : Content α} (h : content.WellFormed) {d : String}
    (hd : d ∈ content.own) : Span .nested d := by
  induction content with
  | done => simp [own] at hd
  | declaration text rest ih =>
      rcases List.mem_cons.mp hd with rfl | hd
      · exact h.1
      · exact ih h.2 hd
  | block nested place inner rest _ ih => exact ih h.2.2 hd

end Content

/-- The rule of a block is well formed if the block is. -/
theorem Rule.wellFormed_of_mem_ofBlock {α : Type} {selector : String} {content : Content α}
    (hselector : Span .topLevel selector) (hcontent : content.WellFormed) {r : Rule}
    (h : r ∈ Rule.ofBlock selector content.own) : r.WellFormed := by
  unfold Rule.ofBlock at h
  by_cases hown : content.own = []
  · rw [if_pos hown] at h
    simp at h
  · rw [if_neg hown] at h
    obtain rfl := List.mem_singleton.mp h
    exact ⟨hselector, hown, fun d hd => Content.span_of_mem_own hcontent hd⟩

theorem Content.wellFormed_of_mem_rules {α : Type} {content : Content α} (h : content.WellFormed)
    {selector : String} (hselector : Span .topLevel selector) {r : Rule}
    (hr : r ∈ content.rules selector) : r.WellFormed := by
  induction content generalizing selector with
  | done => simp [rules] at hr
  | declaration text rest ih => exact ih h.2 hselector hr
  | block nested place inner rest ih1 ih2 =>
      obtain ⟨hnested, hinner, hrest⟩ := h
      rcases List.mem_append.mp hr with hr | hr
      · by_cases hempty : nested = ""
        · rw [if_pos hempty] at hr
          simp at hr
        · rw [if_neg hempty] at hr
          have hfull := hselector.resolve (hnested hempty)
          rcases List.mem_append.mp hr with hr | hr
          · exact Rule.wellFormed_of_mem_ofBlock hfull hinner hr
          · exact ih1 hinner hfull hr
      · exact ih2 hrest hselector hr

theorem Outline.wellFormed_of_mem_rules {α : Type} (ms : List (Char × α)) {r : Rule}
    (h : r ∈ (Outline.read ms).rules) : r.WellFormed := by
  induction ms using topLevel_induction with
  | plain ms hms =>
      rw [read_of_forall hms] at h
      simp at h
  | stray pre x ms hpre ih =>
      rw [read_of_stray hpre] at h
      exact ih h
  | block pre x ms c hpre hc ih =>
      rw [read_of_block hpre hc, rules_cons] at h
      rcases List.mem_append.mp h with h | h
      · have hcontent := Content.wellFormed_read c.inside
        rcases Item.rules_cases (trimmed (pre.map Prod.fst)) x (Content.read c.inside) with
          hnil | ⟨hne, hrules⟩
        · rw [hnil] at h
          simp at h
        · have hselector := Span.of_trim (forall_map_fst hpre) hne
          rw [hrules] at h
          rcases List.mem_append.mp h with h | h
          · exact Rule.wellFormed_of_mem_ofBlock hselector hcontent h
          · exact Content.wellFormed_of_mem_rules hcontent hselector h
      · exact ih h
  | unclosed pre x ms hpre hc =>
      rw [read_of_unclosed hpre hc] at h
      simp [Item.rules] at h

/-- **All rules of a sheet are well formed.** -/
theorem wellFormed_of_mem_flatten {source : String} {r : Rule} (h : r ∈ (flatten source).rules) :
    r.WellFormed := by
  rw [flatten_eq_outline] at h
  exact Outline.wellFormed_of_mem_rules _ h

/-! ### What no rule holds -/

/-- A text with something in it, with no blank at either end, and without some characters. -/
structure Text.Bare (barred : List Char) (text : String) : Prop where
  nonempty : text ≠ ""
  head : ∀ c ∈ text.toList.head?, Text.isBlank c = false
  last : ∀ c ∈ text.toList.getLast?, Text.isBlank c = false
  unbarred : ∀ c ∈ barred, c ∉ text.toList

/-- A span holds none of its own boundaries. -/
theorem Span.bare {mode : ScanMode} {text : String} (h : Span mode text) {barred : List Char}
    (hbarred : ∀ c ∈ barred, mode.isBoundary c = true) : Text.Bare barred text := by
  obtain ⟨hhead, hlast⟩ := Text.trim_eq_self_iff.mp h.trimmed
  refine ⟨h.nonempty, hhead, hlast, ?_⟩
  intro c hc hmem
  have hno := h.unbroken c hmem
  rw [hbarred c hc] at hno
  contradiction

/-- **No rule of a sheet is empty or untidy.**  A rule has a declaration.  Neither its selector nor a
declaration is empty or begins or ends with a blank, a selector holds no brace, and a declaration
holds neither a brace nor a semicolon. -/
theorem bare_of_mem_flatten (source : String) {r : Rule} (h : r ∈ (flatten source).rules) :
    r.declarations ≠ [] ∧ (∀ d ∈ r.declarations, Text.Bare [';', '{', '}'] d) ∧
      Text.Bare ['{', '}'] r.selector := by
  obtain ⟨hselector, hshown, hdeclarations⟩ := wellFormed_of_mem_flatten h
  refine ⟨hshown, ?_, ?_⟩
  · intro d hd
    exact (hdeclarations d hd).bare (by simp [ScanMode.isBoundary])
  · exact hselector.bare (by simp [ScanMode.isBoundary])

/-- Between a stray brace and a block that never closes, a selector with a semicolon in it is filled
in twice. -/
theorem bare_of_mem_flatten_malformed :
    (⟨".a ; b:hover > .a ; b", ["y : 2"]⟩ : Rule) ∈
        (flatten ("\x7d @x \x7b \x7d .a /*\x7b*/; b \x7b x: 1; "
          ++ "&:hover > & \x7b ; y : 2 /*;*/ \x7d \x7b z \x7d \x7d c \x7b d")).rules ∧
      Text.Bare ['{', '}'] ".a ; b:hover > .a ; b" := by
  have hmem : (⟨".a ; b:hover > .a ; b", ["y : 2"]⟩ : Rule) ∈
      (flatten ("\x7d @x \x7b \x7d .a /*\x7b*/; b \x7b x: 1; "
        ++ "&:hover > & \x7b ; y : 2 /*;*/ \x7d \x7b z \x7d \x7d c \x7b d")).rules := by
    decide +kernel
  exact ⟨hmem, (bare_of_mem_flatten _ hmem).2.2⟩

end FlatSheet
