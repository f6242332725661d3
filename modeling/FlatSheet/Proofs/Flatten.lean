/-
A sheet yields the rules and reports of its outline.

Two invariants carry the proof.  A block that closes adds to the rules and reports
exactly what its content says, whatever stands around it (`leads_content`).  In a block
that never closes nothing that happens matters: it is enough that all open blocks came
after the checkpoint, for the run then ends by taking back everything since
(`ends_of_unfinished`).
-/
import FlatSheet.Proofs.Flattening

namespace FlatSheet

open Marked

/-! ### Reserved places -/

/-- A block's place among the rules, as its declarations fill it. -/
def Rule.reserved (selector : String) (declarations : List String) : Rule :=
  ⟨if declarations = [] then "" else selector, declarations⟩

@[simp] theorem addDeclaration_reserved (selector text : String) (declarations : List String) :
    Flattening.addDeclaration selector text (.reserved selector declarations)
      = .reserved selector (declarations ++ [text]) := by
  cases declarations with
  | nil => rfl
  | cons d ds => rfl

theorem filter_reserved (selector : String) (declarations : List String) :
    [Rule.reserved selector declarations].filter Rule.isShown
      = Rule.ofBlock selector declarations := by
  cases declarations with
  | nil => rfl
  | cons d ds => rfl

theorem modify_append {α : Type} (g : α → α) (before after : List α) (i : Nat) :
    (before ++ after).modify (before.length + i) g = before ++ after.modify i g := by
  exact List.modifyTailIdx_add _ i before after

namespace Content

variable {α : Type}

/-- The places that the blocks inside reserve, as they are filled in the end. -/
def slots (selector : String) : Content α → List Rule
  | done => []
  | declaration _ rest => rest.slots selector
  | block nested _ inner rest =>
    (if nested = "" then []
      else
        let full := Selector.resolve selector nested
        .reserved full inner.own :: inner.slots full) ++ rest.slots selector

/-- The places that are filled are the rules. -/
theorem filter_slots (selector : String) (content : Content α) :
    (content.slots selector).filter Rule.isShown = content.rules selector := by
  induction content generalizing selector with
  | done => rfl
  | declaration text rest ih => exact ih selector
  | block nested place inner rest ih1 ih2 =>
      unfold slots rules
      rw [List.filter_append, ih2]
      by_cases h : nested = ""
      · rw [if_pos h, if_pos h]
        rfl
      · rw [if_neg h, if_neg h]
        show ([_] ++ slots _ inner).filter Rule.isShown ++ _ = _
        rw [List.filter_append, ih1, filter_reserved]

@[simp] theorem slots_declared (selector : String) (text : List Char) (rest : Content α) :
    (declared text rest).slots selector = rest.slots selector := by
  unfold declared
  split <;> rfl

end Content

namespace Flattening

/-! ### A block that closes -/

section

variable {ms : List (Char × Location)} {f : Frame} {outer : List Frame}
  {checkpoint : Option Checkpoint} {before after : List Rule} {diagnostics : List Diagnostic}
  {selector : String} {declarations : List String}

/-- The frame of the innermost block after a text: a declaration needs the full selector. -/
def declaredFrame (text : List Char) (outer : List Frame) (f : Frame) : Frame :=
  if Text.trim text = [] then f else { f with resolved := some (resolveInnermost (f :: outer)) }

@[simp] theorem slot_declaredFrame (text : List Char) :
    (declaredFrame text outer f).slot = f.slot := by
  unfold declaredFrame
  split <;> rfl

@[simp] theorem resolveInnermost_declaredFrame (text : List Char) :
    resolveInnermost (declaredFrame text outer f :: outer) = resolveInnermost (f :: outer) := by
  unfold declaredFrame
  split <;> rfl

/-- A text goes to the place of the innermost block. -/
theorem declare_reserved (text : List Char) (hslot : f.slot = before.length)
    (hsel : resolveInnermost (f :: outer) = selector) :
    View.declare text
        ⟨ms, f :: outer, checkpoint, before ++ .reserved selector declarations :: after, diagnostics⟩
      = ⟨ms, declaredFrame text outer f :: outer, checkpoint,
          before ++ .reserved selector
            (declarations ++ (Content.declared text (.done : Content Location)).own) :: after,
          diagnostics⟩ := by
  unfold View.declare Content.declared declaredFrame
  by_cases ht : Text.trim text = []
  · rw [if_pos ht, if_pos ht, if_pos (by simpa using ht)]
    simp [Content.own]
  · rw [if_neg ht, if_neg ht, if_neg (by simpa using ht)]
    have hmodify := modify_append (addDeclaration selector (trimmed text)) before
      (.reserved selector declarations :: after) 0
    rw [Nat.add_zero, List.modify_zero_cons, addDeclaration_reserved] at hmodify
    simp only [hsel, hslot, hmodify]
    rfl

theorem discards_degenerate {text : List Char} (ht : trimmed text = "") (x : Location)
    (s : Flattening) (hs : s.frames = f :: outer) :
    s.mode = .nested ∧ s.openBlock (trimmed text) x = s.discard (.degenerateNestedSelector x) := by
  rw [ht]
  exact ⟨mode_of_frames hs, openBlock_inside_empty hs⟩

/-- **A block that closes adds what its content says.**  Its declarations fill the place it reserved,
and the blocks inside it follow all rules that were there. -/
theorem leads_content {c : Closing Location} (hc : closing? 0 ms = some c)
    (hslot : f.slot = before.length) (hsel : resolveInnermost (f :: outer) = selector) :
    Leads
      ⟨ms, f :: outer, checkpoint, before ++ .reserved selector declarations :: after, diagnostics⟩
      ⟨c.after, outer, if outer.isEmpty then none else checkpoint,
        before ++ .reserved selector (declarations ++ (Content.read c.inside).own)
          :: (after ++ (Content.read c.inside).slots selector),
        diagnostics ++ (Content.read c.inside).reports⟩ := by
  induction ms, c, hc using closing_induction generalizing f outer checkpoint before after diagnostics
    selector declarations with
  | close pre x rest _ hpre =>
      refine (leads_close hpre).trans ?_
      rw [declare_reserved _ hslot hsel, Content.read_of_forall hpre, Content.slots_declared,
        Content.reports_declared]
      simpa [View.close, Content.slots, Content.reports] using Leads.refl _
  | semicolon pre x ms c hc _ hpre ih =>
      refine (leads_semicolon hpre).trans ?_
      rw [declare_reserved _ hslot hsel, Content.read_of_semicolon hpre,
        Content.own_declared _ (Content.read c.inside), Content.slots_declared,
        Content.reports_declared, ← List.append_assoc]
      exact ih ((slot_declaredFrame _).trans hslot) ((resolveInnermost_declaredFrame _).trans hsel)
  | block pre x ms c d hc hd _ hpre ih1 ih2 =>
      rw [Content.read_of_block hpre (closing?_inside hc d.inside)]
      unfold Content.own Content.slots Content.reports
      by_cases ht : trimmed (pre.map Prod.fst) = ""
      · rw [if_pos ht, if_pos ht, List.nil_append, ← List.append_assoc]
        exact (leads_discard (discards_degenerate ht x) hpre hc).trans (ih2 hslot hsel)
      · rw [if_neg ht, if_neg ht]
        -- The block inside takes the place behind all rules so far.
        have hinner : Leads
            ⟨ms, ⟨trimmed (pre.map Prod.fst), none, _⟩ :: f :: outer, checkpoint,
              (before ++ .reserved selector declarations :: after)
                ++ .reserved (Selector.resolve selector (trimmed (pre.map Prod.fst))) [] :: [],
              diagnostics⟩ _ :=
          ih1 rfl (congrArg (fun s => Selector.resolve s (trimmed (pre.map Prod.fst))) hsel)
        have hrest : Leads
            ⟨c.after, f :: outer, checkpoint,
              before ++ .reserved selector declarations :: (after
                ++ .reserved (Selector.resolve selector (trimmed (pre.map Prod.fst)))
                    (Content.read c.inside).own
                  :: (Content.read c.inside).slots
                    (Selector.resolve selector (trimmed (pre.map Prod.fst)))),
              diagnostics ++ (Content.read c.inside).reports⟩ _ :=
          ih2 hslot hsel
        refine (leads_open hpre ht).trans (hinner.trans ?_)
        simpa using hrest

end

/-! ### A block that never closes -/

/-- An outermost block never closes, and all that came since it opened is behind the given rules and
diagnostics. -/
structure View.Unfinished (v : View) (l : Location) (rules : List Rule)
    (diagnostics : List Diagnostic) : Prop where
  frames : v.frames ≠ []
  closing : closing? (v.frames.length - 1) v.ahead = none
  checkpoint : v.checkpoint = some ⟨l, rules.length, diagnostics.length⟩
  slots : ∀ f ∈ v.frames, rules.length ≤ f.slot
  rules : rules <+: v.rules
  diagnostics : diagnostics <+: v.diagnostics

namespace View.Unfinished

variable {v : View} {l : Location} {rules : List Rule} {diagnostics : List Diagnostic}

/-- To halt takes back all of it. -/
theorem halted (h : v.Unfinished l rules diagnostics) (at_ : Location) :
    v.halted at_ = ⟨rules.filter Rule.isShown, diagnostics ++ [.unbalancedBraces l]⟩ := by
  unfold View.halted
  rw [h.checkpoint]
  simp only
  rw [← List.prefix_iff_eq_take.mp h.rules, ← List.prefix_iff_eq_take.mp h.diagnostics]

theorem declare (h : v.Unfinished l rules diagnostics) (text : List Char) :
    (v.declare text).Unfinished l rules diagnostics := by
  unfold View.declare
  by_cases ht : Text.trim text = []
  · rw [if_pos ht]
    exact h
  · rw [if_neg ht]
    obtain ⟨ahead, frames, checkpoint, rs, ds⟩ := v
    rcases frames with _ | ⟨f, outer⟩
    · exact h
    · refine ⟨by simp, h.closing, h.checkpoint, ?_, ?_, h.diagnostics⟩
      · exact List.forall_mem_cons.mpr (List.forall_mem_cons.mp h.slots)
      · obtain ⟨later, rfl⟩ := h.rules
        have hslot := h.slots f (by simp)
        obtain ⟨i, hi⟩ := Nat.exists_eq_add_of_le hslot
        show rules <+: (rules ++ later).modify f.slot _
        rw [hi, modify_append]
        exact List.prefix_append rules _

theorem close (h : v.Unfinished l rules diagnostics) (hf : 2 ≤ v.frames.length)
    (hclosing : closing? (v.frames.length - 2) v.ahead = none) :
    v.close.Unfinished l rules diagnostics := by
  obtain ⟨ahead, frames, checkpoint, rs, ds⟩ := v
  rcases frames with _ | ⟨f, _ | ⟨f', outer⟩⟩
  · simp at hf
  · simp at hf
  · refine ⟨by simp [View.close], hclosing, h.checkpoint, ?_, h.rules, h.diagnostics⟩
    intro g hg
    exact h.slots g (List.mem_cons_of_mem f hg)

end View.Unfinished

/-- **A block that never closes leaves nothing behind but its report.** -/
theorem ends_of_unfinished {v : View} {l : Location} {rules : List Rule}
    {diagnostics : List Diagnostic} (h : v.Unfinished l rules diagnostics) :
    Ends v ⟨rules.filter Rule.isShown, diagnostics ++ [.unbalancedBraces l]⟩ := by
  induction hn : v.ahead.length using Nat.strong_induction_on generalizing v with
  | _ n ih =>
      obtain ⟨ahead, frames, checkpoint, rs, ds⟩ := v
      rcases frames with _ | ⟨f, outer⟩
      · exact absurd rfl h.frames
      obtain rfl : checkpoint = _ := h.checkpoint
      have hclosing : closing? outer.length ahead = none := h.closing
      rcases exists_boundary ScanMode.nested.isBoundary ahead with
        hms | ⟨pre, ch, x, rest, rfl, hpre, hch⟩
      · rw [← (h.declare (ahead.map Prod.fst)).halted l]
        exact ends_inside hms
      · have hlt : rest.length < n := by
          rw [← hn, List.length_append, List.length_cons]
          omega
        rw [closing?_append_of_forall (fun m hm => ne_brace_of_nested (hpre m hm)),
          Option.map_eq_none_iff] at hclosing
        rcases nested_boundary hch with rfl | rfl | rfl
        · rw [closing?_cons_opening, Option.map_eq_none_iff] at hclosing
          by_cases ht : trimmed (pre.map Prod.fst) = ""
          · rcases hc : closing? 0 rest with _ | c
            · rw [← h.halted x]
              exact ends_discard (discards_degenerate ht x) hpre hc
            · rw [closing?_succ, hc, Option.bind_some, Option.map_eq_none_iff] at hclosing
              have hlt := Nat.lt_trans (after_length_lt hc) hlt
              refine (leads_discard (discards_degenerate ht x) hpre hc).ends (ih _ hlt ?_ rfl)
              exact ⟨h.frames, hclosing, rfl, h.slots, h.rules,
                h.diagnostics.trans (List.prefix_append _ _)⟩
          · refine (leads_open hpre ht).ends (ih _ hlt ?_ rfl)
            exact ⟨by simp, hclosing, rfl, List.forall_mem_cons.mpr ⟨h.rules.length_le, h.slots⟩,
              h.rules.trans (List.prefix_append _ _), h.diagnostics⟩
        · rcases outer with _ | ⟨f', outer⟩
          · simp at hclosing
          · rw [List.length_cons, closing?_succ_cons_closing, Option.map_eq_none_iff] at hclosing
            have hdeeper : closing? (outer.length + 1) rest = none := by
              rw [← Nat.add_zero (outer.length + 1), closing?_add_succ, hclosing]
              rfl
            have hrest : View.Unfinished ⟨rest, f :: f' :: outer, _, rs, ds⟩ l rules diagnostics :=
              ⟨h.frames, hdeeper, rfl, h.slots, h.rules, h.diagnostics⟩
            refine (leads_close hpre).ends (ih _ ?_ ?_ rfl)
            · simpa [View.close] using hlt
            · refine (hrest.declare _).close (by simp) ?_
              simpa using hclosing
        · rw [closing?_cons_of_ne (by decide) (by decide), Option.map_eq_none_iff] at hclosing
          refine (leads_semicolon hpre).ends (ih _ (by simpa using hlt) ?_ rfl)
          refine View.Unfinished.declare ?_ _
          exact ⟨h.frames, hclosing, rfl, h.slots, h.rules, h.diagnostics⟩

/-! ### A whole sheet -/

/-- A block outside all others is left out with a report of its own, or it is read. -/
theorem outermost_cases (selector : String) (x : Location) :
    (∃ d : Diagnostic, d.location = x ∧
      (∀ s : Flattening, s.frames = [] →
        s.mode = .topLevel ∧ s.openBlock selector x = s.discard d) ∧
      ∀ content, Item.rules (.block selector x content) = [] ∧
        Item.reports (.block selector x content) = [d]) ∨
    (selector ≠ "" ∧ ∀ afterSign, selector.toList ≠ '@' :: afterSign) := by
  rcases hsel : selector.toList with _ | ⟨ch, cs⟩
  · obtain rfl := String.toList_eq_nil_iff.mp hsel
    refine Or.inl ⟨.emptySelector x, rfl, fun s hs => ⟨mode_of_no_frames hs, ?_⟩, ?_⟩
    · exact openBlock_outside_empty hs
    · simp [Item.rules, Item.reports]
  · by_cases hat : ch = '@'
    · subst hat
      refine Or.inl ⟨.atRuleDiscarded (atRuleName cs) x, rfl,
        fun s hs => ⟨mode_of_no_frames hs, ?_⟩, ?_⟩
      · exact openBlock_atRule hs hsel
      · simp [Item.rules, Item.reports, hsel]
    · refine Or.inr ⟨?_, ?_⟩
      · rintro rfl
        simp at hsel
      · rintro afterSign h
        exact hat (List.cons.inj h).1

/-- Outside all blocks, the run adds what the outline of the text ahead says. -/
theorem ends_outline (ms : List (Char × Location)) (rules : List Rule)
    (diagnostics : List Diagnostic) :
    Ends ⟨ms, [], none, rules, diagnostics⟩
      ⟨rules.filter Rule.isShown ++ (Outline.read ms).rules,
        diagnostics ++ (Outline.read ms).reports⟩ := by
  induction ms using topLevel_induction generalizing rules diagnostics with
  | plain ms hms =>
      rw [Outline.read_of_forall hms]
      simpa using ends_outside hms
  | stray pre x ms hpre ih =>
      rw [Outline.read_of_stray hpre, Outline.rules_cons, Outline.reports_cons]
      show Ends _ ⟨_ ++ ([] ++ _), _ ++ ([.strayClosingBrace x] ++ _)⟩
      rw [List.nil_append, ← List.append_assoc]
      exact (leads_stray hpre).ends (ih rules _)
  | block pre x ms c hpre hc ih =>
      rw [Outline.read_of_block hpre hc, Outline.rules_cons, Outline.reports_cons,
        ← List.append_assoc, ← List.append_assoc]
      rcases outermost_cases (trimmed (pre.map Prod.fst)) x with
        ⟨d, -, hopen, hitem⟩ | ⟨ht, hat⟩
      · rw [(hitem _).1, (hitem _).2, List.append_nil]
        exact (leads_discard hopen hpre hc).ends (ih rules _)
      · rw [Item.rules_of_selector ht hat, Item.reports_of_selector ht hat]
        refine (leads_open_outside hpre ht hat).ends ?_
        have hcontent : Leads
            ⟨ms, [⟨trimmed (pre.map Prod.fst), some (trimmed (pre.map Prod.fst)), _⟩],
              some ⟨x, rules.length, diagnostics.length⟩,
              rules ++ .reserved (trimmed (pre.map Prod.fst)) [] :: [], diagnostics⟩ _ :=
          leads_content hc rfl rfl
        refine hcontent.ends ?_
        have hrest := ih (rules ++ .reserved (trimmed (pre.map Prod.fst)) (Content.read c.inside).own
          :: (Content.read c.inside).slots (trimmed (pre.map Prod.fst)))
          (diagnostics ++ (Content.read c.inside).reports)
        rw [← List.singleton_append, List.filter_append, List.filter_append, filter_reserved,
          Content.filter_slots] at hrest
        exact hrest
  | unclosed pre x ms hpre hc =>
      rw [Outline.read_of_unclosed hpre hc, Outline.rules_cons, Outline.reports_cons]
      simp only [Item.rules, Item.reports, Outline.rules_nil, Outline.reports_nil, List.append_nil]
      rcases outermost_cases (trimmed (pre.map Prod.fst)) x with
        ⟨d, rfl, hopen, -⟩ | ⟨ht, hat⟩
      · exact ends_discard hopen hpre hc
      · refine (leads_open_outside hpre ht hat).ends (ends_of_unfinished ?_)
        exact ⟨by simp, hc, rfl, by simp, List.prefix_append _ _, List.prefix_rfl⟩

end Flattening

/-- The marked text of a sheet: its characters outside comments, each with its place. -/
def sheetMarks (source : String) : List (Char × Location) :=
  Scan.marks .char .start (Scan.pieces 0 source.toList)

/-- **Flattening a sheet yields the rules and the reports of its outline.** -/
theorem flatten_eq_outline (source : String) :
    flatten source = Outline.flattened (.read (sheetMarks source)) := by
  refine Flattening.ends_outline (sheetMarks source) [] [] (.ofText source) ?_
  exact ⟨Events.ahead_ofText source, rfl, rfl, rfl, rfl⟩

end FlatSheet
