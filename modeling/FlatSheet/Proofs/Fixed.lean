/-
Sheets that flattening gives back as they are.

An emitted sheet is given back if no comment begins in it and no selector in it has an at
sign in front.  Otherwise it is not, and both can happen: a selector that is filled into
another one may come behind an at sign or behind a slash.

That a comment is always noticed is an argument about two counts.  Every rule of a sheet
comes from a block that closes, so it takes two braces outside comments, and an emitted
sheet has no more than two for each of its rules.  If the rules come back, then, all braces
are outside comments, one pair after the other, and no block is inside another.  In such a
sheet every text is used once at most, so that its rules have no more slashes than there
are outside comments.  A comment begins with a slash, which the rules would lack.
-/
import FlatSheet.Proofs.Flat

namespace FlatSheet

open Marked Scan

/-! ### A comment takes a slash away -/

namespace Scan

theorem slash_mem_of_comment {parens : Nat} {cs t rest : List Char}
    (h : piece? parens cs = some (.comment t, rest)) : '/' ∈ t := by
  obtain ⟨inside, rfl⟩ := exists_of_comment h
  exact List.mem_cons_self

/-- A text that keeps its slashes when comments are removed has none. -/
theorem shown_of_count_le {parens : Nat} {cs : List Char}
    (h : cs.count '/' ≤ (shown (pieces parens cs)).count '/') : shown (pieces parens cs) = cs := by
  fun_induction pieces parens cs with
  | case1 parens cs p rest hp ih =>
      rw [← text_append_of_piece? hp] at h ⊢
      cases p with
      | comment t =>
          exfalso
          have hle := (shown_sublist_written (pieces parens rest)).count_le '/'
          have hpos := List.count_pos_iff.mpr (slash_mem_of_comment hp)
          rw [written_pieces] at hle
          change _ ≤ (shown (pieces parens rest)).count '/' at h
          rw [List.count_append] at h
          change t.count '/' + _ ≤ _ at h
          omega
      | plain c =>
          change (c :: rest).count '/' ≤ (c :: shown (pieces _ rest)).count '/' at h
          rw [List.count_cons, List.count_cons] at h
          exact congrArg (c :: ·) (ih (by omega))
  | case2 parens cs hn => exact (piece?_eq_none_iff.mp hn).symm

end Scan

/-! ### Two braces for each rule -/

/-- The braces of a text. -/
def braces (cs : List Char) : List Char := cs.filter ScanMode.topLevel.isBoundary

/-- The braces of blocks that stand one behind the other. -/
def pairs : Nat → List Char
  | 0 => []
  | n + 1 => '{' :: '}' :: pairs n

@[simp] theorem length_pairs (n : Nat) : (pairs n).length = 2 * n := by
  induction n with
  | zero => rfl
  | succ n ih =>
      rw [pairs, List.length_cons, List.length_cons, ih]
      omega

theorem braces_append (cs ds : List Char) : braces (cs ++ ds) = braces cs ++ braces ds :=
  List.filter_append cs ds

@[simp] theorem braces_opening (cs : List Char) : braces ('{' :: cs) = '{' :: braces cs := rfl

@[simp] theorem braces_closing (cs : List Char) : braces ('}' :: cs) = '}' :: braces cs := rfl

theorem braces_of_forall {cs : List Char} (h : ∀ c ∈ cs, ScanMode.topLevel.isBoundary c = false) :
    braces cs = [] := by
  refine List.filter_eq_nil_iff.mpr ?_
  intro c hc
  simp [h c hc]

section

variable {α : Type}

/-- A text is cut at the first of its braces. -/
theorem exists_of_braces {ms : List (Char × α)} {c : Char} {cs : List Char}
    (h : braces (ms.map Prod.fst) = c :: cs) :
    ∃ pre x rest, ms = pre ++ (c, x) :: rest ∧
      (∀ m ∈ pre, ScanMode.topLevel.isBoundary m.1 = false) ∧ braces (rest.map Prod.fst) = cs := by
  rcases exists_boundary ScanMode.topLevel.isBoundary ms with hms | ⟨pre, d, x, rest, rfl, hpre, hd⟩
  · rw [braces_of_forall (forall_map_fst hms)] at h
    simp at h
  · rw [List.map_append, braces_append, braces_of_forall (forall_map_fst hpre)] at h
    have hcons : braces (d :: rest.map Prod.fst) = d :: braces (rest.map Prod.fst) :=
      List.filter_cons_of_pos hd
    obtain ⟨rfl, hrest⟩ := List.cons.inj (hcons.symm.trans h)
    exact ⟨pre, x, rest, rfl, hpre, hrest⟩

/-- What stands in front of a mark, and the mark, take no braces away. -/
theorem length_braces_append_cons (pre ms : List (Char × α)) (m : Char × α) :
    (braces (ms.map Prod.fst)).length ≤ (braces ((pre ++ m :: ms).map Prod.fst)).length := by
  have hsublist : ms.Sublist (pre ++ m :: ms) :=
    (List.sublist_cons_self m ms).trans (List.sublist_append_right pre _)
  exact ((hsublist.map Prod.fst).filter _).length_le

/-- A block has its own two braces besides those inside it and those behind it. -/
theorem length_braces_block (pre : List (Char × α)) (x : α) {ms : List (Char × α)} {c : Closing α}
    (hc : closing? 0 ms = some c) :
    (braces (c.inside.map Prod.fst)).length + (braces (c.after.map Prod.fst)).length + 2
      ≤ (braces ((pre ++ ('{', x) :: ms).map Prod.fst)).length := by
  rw [closing?_eq_some hc, List.map_append, List.map_cons, List.map_append, List.map_cons,
    braces_append, braces_opening, braces_append, braces_closing]
  simp only [List.length_append, List.length_cons]
  omega

theorem Rule.length_ofBlock_le (selector : String) (declarations : List String) :
    (Rule.ofBlock selector declarations).length ≤ 1 := by
  unfold Rule.ofBlock
  split <;> simp

/-- Each rule of a block's inside takes two braces. -/
theorem Content.length_rules_le (ms : List (Char × α)) (selector : String) :
    2 * ((read ms).rules selector).length ≤ (braces (ms.map Prod.fst)).length := by
  induction ms using nested_induction generalizing selector with
  | plain ms h =>
      rw [read_of_forall h, rules_declared]
      exact Nat.zero_le _
  | semicolon pre x ms hpre ih =>
      rw [read_of_semicolon hpre, rules_declared]
      exact (ih selector).trans (length_braces_append_cons pre ms _)
  | stray pre x ms hpre ih =>
      rw [read_of_stray hpre, rules_declared]
      exact (ih selector).trans (length_braces_append_cons pre ms _)
  | block pre x ms c hpre hc ih1 ih2 =>
      have hbraces := length_braces_block pre x hc
      have hrest := ih2 selector
      rw [read_of_block hpre hc, rules, List.length_append]
      split
      · rw [List.length_nil]
        omega
      · have hinner := ih1 (Selector.resolve selector (trimmed (pre.map Prod.fst)))
        have hown := Rule.length_ofBlock_le
          (Selector.resolve selector (trimmed (pre.map Prod.fst))) (read c.inside).own
        rw [List.length_append]
        omega
  | unclosed pre x ms hpre hc =>
      rw [read_of_unclosed hpre hc]
      exact Nat.zero_le _

/-- Each rule of a sheet takes two braces. -/
theorem Outline.length_rules_le (ms : List (Char × α)) :
    2 * (Outline.read ms).rules.length ≤ (braces (ms.map Prod.fst)).length := by
  induction ms using topLevel_induction with
  | plain ms h =>
      rw [read_of_forall h]
      exact Nat.zero_le _
  | stray pre x ms hpre ih =>
      rw [read_of_stray hpre]
      exact ih.trans (length_braces_append_cons pre ms _)
  | block pre x ms c hpre hc ih =>
      have hbraces := length_braces_block pre x hc
      rw [read_of_block hpre hc, rules_cons, List.length_append]
      rcases Item.rules_cases (trimmed (pre.map Prod.fst)) x (Content.read c.inside) with
        hnil | ⟨-, hrules⟩
      · rw [hnil, List.length_nil]
        omega
      · have hinner := Content.length_rules_le c.inside (trimmed (pre.map Prod.fst))
        have hown := Rule.length_ofBlock_le (trimmed (pre.map Prod.fst)) (Content.read c.inside).own
        rw [hrules, List.length_append]
        omega
  | unclosed pre x ms hpre hc =>
      rw [read_of_unclosed hpre hc]
      exact Nat.zero_le _

/-! ### The slashes of flat blocks -/

/-- The texts of a rule, one behind the other. -/
def Rule.text (r : Rule) : List Char :=
  r.selector.toList ++ r.declarations.flatMap String.toList

theorem count_trimmed_le (cs : List Char) : (trimmed cs).toList.count '/' ≤ cs.count '/' := by
  rw [trimmed, String.toList_ofList]
  exact (Text.trim_sublist cs).count_le '/'

theorem Content.slashes_declared_le (text : List Char) (rest : Content α) :
    ((declared text rest).own.flatMap String.toList).count '/'
      ≤ text.count '/' + (rest.own.flatMap String.toList).count '/' := by
  by_cases ht : Text.trim text = []
  · rw [declared_of_blank ht]
    exact Nat.le_add_left _ _
  · rw [declared_of_text ht, own, List.flatMap_cons, List.count_append]
    exact Nat.add_le_add_right (count_trimmed_le text) _

/-- The declarations of a block have no more slashes than its text. -/
theorem Content.slashes_own_le (ms : List (Char × α)) :
    ((read ms).own.flatMap String.toList).count '/' ≤ (ms.map Prod.fst).count '/' := by
  induction ms using nested_induction with
  | plain ms h =>
      rw [read_of_forall h]
      exact slashes_declared_le _ _
  | semicolon pre x ms hpre ih =>
      have htext := slashes_declared_le (pre.map Prod.fst) (read ms)
      rw [read_of_semicolon hpre, List.map_append, List.map_cons, List.count_append, List.count_cons]
      omega
  | stray pre x ms hpre ih =>
      have htext := slashes_declared_le (pre.map Prod.fst) (read ms)
      rw [read_of_stray hpre, List.map_append, List.map_cons, List.count_append, List.count_cons]
      omega
  | block pre x ms c hpre hc ih1 ih2 =>
      rw [read_of_block hpre hc, own, closing?_eq_some hc]
      simp only [List.map_append, List.map_cons, List.count_append, List.count_cons]
      omega
  | unclosed pre x ms hpre hc =>
      rw [read_of_unclosed hpre hc]
      exact Nat.zero_le _

/-- A block without blocks in it has a rule with no more slashes than its text. -/
theorem Item.slashes_le (pre : List (Char × α)) (x : α) {inside : List (Char × α)}
    (h : braces (inside.map Prod.fst) = []) :
    ((Item.block (trimmed (pre.map Prod.fst)) x (.read inside)).rules.flatMap Rule.text).count '/'
      ≤ (pre.map Prod.fst).count '/' + (inside.map Prod.fst).count '/' := by
  have hselector := count_trimmed_le (pre.map Prod.fst)
  have hown := Content.slashes_own_le inside
  have hnone : (Content.read inside).rules (trimmed (pre.map Prod.fst)) = [] := by
    have hle := Content.length_rules_le inside (trimmed (pre.map Prod.fst))
    rw [h, List.length_nil] at hle
    exact List.length_eq_zero_iff.mp (by omega)
  rcases Item.rules_cases (trimmed (pre.map Prod.fst)) x (Content.read inside) with
    hnil | ⟨-, hrules⟩
  · rw [hnil]
    exact Nat.zero_le _
  · rw [hrules, hnone, List.append_nil, Rule.ofBlock]
    split
    · exact Nat.zero_le _
    · rw [List.flatMap_singleton, Rule.text, List.count_append]
      exact Nat.add_le_add hselector hown

/-- **Without blocks inside others, no slash is used twice.** -/
theorem Outline.slashes_le {n : Nat} {ms : List (Char × α)} (h : braces (ms.map Prod.fst) = pairs n) :
    ((Outline.read ms).rules.flatMap Rule.text).count '/' ≤ (ms.map Prod.fst).count '/' := by
  induction n generalizing ms with
  | zero =>
      have hms : ∀ m ∈ ms, ScanMode.topLevel.isBoundary m.1 = false := by
        intro m hm
        have := List.filter_eq_nil_iff.mp h m.1 (List.mem_map_of_mem hm)
        simpa using this
      rw [read_of_forall hms]
      exact Nat.zero_le _
  | succ n ih =>
      obtain ⟨pre, x, rest, rfl, hpre, hrest⟩ := exists_of_braces h
      obtain ⟨inside, y, after, rfl, hinside, hafter⟩ := exists_of_braces hrest
      have hclosing : closing? 0 (inside ++ ('}', y) :: after) = some ⟨inside, y, after⟩ := by
        rw [closing?_append_of_forall fun m hm => ne_brace_of_topLevel (hinside m hm)]
        simp
      have hitem := Item.slashes_le pre x (braces_of_forall (forall_map_fst hinside))
      have hrules := ih hafter
      rw [read_of_block hpre hclosing, rules_cons, List.flatMap_append,
        List.count_append]
      simp only [List.map_append, List.map_cons, List.count_append, List.count_cons]
      omega

end

/-! ### The two counts of an emitted sheet -/

/-- A part of the characters of a sheet is that part of the characters of its lines. -/
theorem filter_emit {rules : List Rule} (h : ∀ r ∈ rules, r.declarations ≠ []) {p : Char → Bool}
    (hp : p '\n' = false) :
    (emit rules).toList.filter p = rules.flatMap fun r => r.line.filter p := by
  cases rules with
  | nil => rfl
  | cons r rs =>
      rw [toList_emit_cons h, List.filter_append, List.filter_flatMap, List.flatMap_cons]
      simp [hp]

theorem Rule.WellFormed.braces_line {r : Rule} (h : r.WellFormed) : braces r.line = ['{', '}'] := by
  have hinside : braces (inside r.declarations) = [] := by
    refine braces_of_forall ?_
    intro c hc
    simpa [ScanMode.isBoundary] using ne_brace_of_mem_inside h.declarations c hc
  have hblank : braces (' ' :: '{' :: (inside r.declarations ++ ['}']))
      = '{' :: braces (inside r.declarations ++ ['}']) := rfl
  rw [line, braces_append, braces_of_forall h.selector.unbroken, hblank, braces_append, hinside]
  rfl

theorem braces_emit {rules : List Rule} (h : ∀ r ∈ rules, r.WellFormed) :
    braces (emit rules).toList = pairs rules.length := by
  have hlines : braces (emit rules).toList = rules.flatMap fun r => braces r.line :=
    filter_emit (fun r hr => (h r hr).shown) rfl
  rw [hlines]
  clear hlines
  induction rules with
  | nil => rfl
  | cons r rs ih =>
      obtain ⟨hr, hrs⟩ := List.forall_mem_cons.mp h
      rw [List.flatMap_cons, ih hrs, hr.braces_line]
      rfl

theorem Rule.filter_inside (ds : List String) :
    (inside ds).filter (· == '/') = (ds.flatMap String.toList).filter (· == '/') := by
  induction ds with
  | nil => rfl
  | cons d ds ih => simp [inside, ih]

theorem Rule.filter_line (r : Rule) : r.line.filter (· == '/') = r.text.filter (· == '/') := by
  simp [line, text, filter_inside]

theorem count_emit {rules : List Rule} (h : ∀ r ∈ rules, r.declarations ≠ []) :
    (emit rules).toList.count '/' = (rules.flatMap Rule.text).count '/' := by
  rw [List.count_eq_length_filter, List.count_eq_length_filter, filter_emit h rfl,
    List.filter_flatMap]
  simp only [Rule.filter_line]

/-! ### What comes back -/

section

variable {rules : List Rule} (h : ∀ r ∈ rules, r.WellFormed)
include h

/-- Sheets that are emitted alike are made of the same rules. -/
theorem emit_injective {rules' : List Rule} (h' : ∀ r ∈ rules', r.WellFormed)
    (heq : emit rules = emit rules') : rules = rules' := by
  have hitems : rules.map (Rule.item ()) = rules'.map (Rule.item ()) := by
    rw [← read_emit h, ← read_emit h', heq]
  refine List.map_injective_iff.mpr ?_ hitems
  intro r q hrq
  obtain ⟨hselector, -, hcontent⟩ := Item.block.inj hrq
  have hdeclarations := congrArg Content.own hcontent
  rw [Content.own_ofDeclarations, Content.own_ofDeclarations] at hdeclarations
  cases r
  cases q
  exact congrArg₂ Rule.mk hselector hdeclarations

/-- **A sheet that gives its rules back has no comment.** -/
theorem stripComments_of_rules_eq (hrules : (flatten (emit rules)).rules = rules) :
    stripComments (emit rules) = emit rules := by
  rw [flatten_eq_outline] at hrules
  change (Outline.read (sheetMarks (emit rules))).rules = rules at hrules
  have hshown : (sheetMarks (emit rules)).map Prod.fst = shown (pieces 0 (emit rules).toList) :=
    map_fst_marks .char .start _
  have hsublist := shown_sublist_written (pieces 0 (emit rules).toList)
  rw [written_pieces] at hsublist
  -- The rules take all braces of the sheet, so none of them is in a comment.
  have hbraces : braces (shown (pieces 0 (emit rules).toList)) = pairs rules.length := by
    have hrequired := Outline.length_rules_le (sheetMarks (emit rules))
    rw [hrules, hshown] at hrequired
    have hpresent := braces_emit h
    rw [← hpresent]
    refine (hsublist.filter _).eq_of_length_le ?_
    change (braces (emit rules).toList).length ≤ _
    rw [hpresent, length_pairs]
    exact hrequired
  -- They come in pairs as before, and then the rules have no slash that is in a comment.
  have hslashes := Outline.slashes_le (hshown ▸ hbraces)
  rw [hrules, hshown, ← count_emit fun r hr => (h r hr).shown] at hslashes
  exact stripComments_eq_self_iff.mpr (pieces_eq_map_plain (shown_of_count_le hslashes))

/-- An emitted sheet is left as it is if no comment begins in it and no rule is taken for an at-rule,
and only then. -/
theorem process_emit_eq_iff :
    process (emit rules) = emit rules ↔
      stripComments (emit rules) = emit rules ∧ ∀ r ∈ rules, r.isAtRule = false := by
  constructor
  · intro heq
    have hrules := emit_injective (fun r hr => wellFormed_of_mem_flatten hr) h heq
    have hstrip := stripComments_of_rules_eq h hrules
    rw [rules_flatten_emit h hstrip] at hrules
    exact ⟨hstrip, Rule.filter_isAtRule_eq_self_iff.mp hrules⟩
  · rintro ⟨hstrip, hat⟩
    rw [process, rules_flatten_emit h hstrip, Rule.filter_isAtRule_eq_self_iff.mpr hat]

end

/-- **Processing a second time changes nothing exactly if** the first output has no comment in it and
no selector that begins with an at sign. -/
theorem process_process_eq_iff (source : String) :
    process (process source) = process source ↔
      stripComments (process source) = process source ∧
        ∀ r ∈ (flatten source).rules, r.isAtRule = false :=
  process_emit_eq_iff fun _ hr => wellFormed_of_mem_flatten hr

/-- Neither condition can be left out: a parent may be filled in behind an at sign or behind a
slash. -/
theorem process_process_ne :
    process (process ".a \x7b @media & \x7b x: 1; \x7d \x7d")
        ≠ process ".a \x7b @media & \x7b x: 1; \x7d \x7d" ∧
      process (process "* \x7b /& \x7b x: 1; \x7d \x7d")
        ≠ process "* \x7b /& \x7b x: 1; \x7d \x7d" := by
  decide +kernel

end FlatSheet
