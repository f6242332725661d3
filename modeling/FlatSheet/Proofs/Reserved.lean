/-
Every declaration goes to the rule of its own block.

A block reserves its place among the rules when it opens, and its declarations come later,
with other blocks in between.  Four things are kept in step for that, each changed by
other events: the stack of frames, the places, the full selectors that frames remember, and
the checkpoint.  If they came apart, a declaration would be dropped or filed under another
block, and nothing would be said about it.

What ought to happen is told here by the events alone.  A `Block` is what was read of a
block that was not skipped: the selectors on the way down to it and the texts that stood
directly in it.  The text of an event belongs to the block that is open and opened last.

Frames and blocks are linked (`Linked`): the frames are those of the open blocks, and the
place of a frame is the number of blocks that opened before its own.  Each event keeps
that, and all that is said of frames, places and selectors follows from it.
-/
import Mathlib.Data.List.DropRight
import FlatSheet.Proofs.Printing
import FlatSheet.Proofs.Running

namespace FlatSheet

namespace Flattening

/-! ### The blocks that were read -/

/-- What was read of a block that was not skipped. -/
structure Block where
  /-- The selectors on the way down to it, as they are written. -/
  path : List String
  /-- The texts that stood directly in it. -/
  texts : List String
  isOpen : Bool

namespace Block

/-- One more text stands in a block. -/
def declare (b : Block) (text : String) : Block := { b with texts := b.texts ++ [text] }

/-- A block closes. -/
def close (b : Block) : Block := { b with isOpen := false }

/-- The rule at a block's place. -/
def rule (b : Block) : Rule := .reserved (Tree.fullSelector b.path) b.texts

@[simp] theorem rule_declare (b : Block) (text : String) :
    (b.declare text).rule = addDeclaration (Tree.fullSelector b.path) text b.rule :=
  (addDeclaration_reserved _ text b.texts).symm

/-- A declaration leaves the full selector at its block's place. -/
theorem addDeclaration_rule (b : Block) (text : String) :
    addDeclaration (Tree.fullSelector b.path) text b.rule
      = ⟨Tree.fullSelector b.path, b.rule.declarations ++ [text]⟩ := by
  rw [rule, addDeclaration_reserved]
  simp [Rule.reserved]

end Block

/-- The selectors on the way down to the block that is open and opened last.  The block that opened
last comes first.  There are none when no block is open. -/
def way : List Block → List String
  | [] => []
  | b :: bs => if b.isOpen then b.path else way bs

/-- Changes the block that is open and opened last, if one is open. -/
def change (g : Block → Block) : List Block → List Block
  | [] => []
  | b :: bs => if b.isOpen then g b :: bs else b :: change g bs

/-- A block is skipped: without a selector, or as an at-rule outside all blocks. -/
def skips (way : List String) (selector : String) : Bool :=
  selector = "" || (way.isEmpty && selector.toList.head? = some '@')

/-- The blocks that opened before the outermost one that is open. -/
def settled (bs : List Block) : List Block := bs.rtakeWhile (!·.isOpen)

/-- The blocks after one more event. -/
def record (bs : List Block) : Event → List Block
  | .text text _ => change (·.declare text) bs
  | .closed _ => change Block.close bs
  | .opened selector _ =>
    if skips (way bs) selector then bs else ⟨way bs ++ [selector], [], true⟩ :: bs

/-- The states that flattening a sheet goes through, each with the blocks that were read by then. -/
inductive Traced (source : String) : Flattening → List Block → Prop where
  | start : Traced source (.ofText source) []
  | step {s s' : Flattening} {bs : List Block} {event : Event} (h : Traced source s bs)
      (hevent : (s.events.next s.mode).1 = some event) (hstep : s.step = .more s') :
      Traced source s' (record bs event)

section

variable {bs above below : List Block} {b : Block}

theorem way_append (h : ∀ a ∈ above, a.isOpen = false) (bs : List Block) :
    way (above ++ bs) = way bs := by
  induction above with
  | nil => rfl
  | cons a above ih =>
      obtain ⟨ha, habove⟩ := List.forall_mem_cons.mp h
      simp [way, ha, ih habove]

theorem way_of_closed (h : ∀ b ∈ bs, b.isOpen = false) : way bs = [] := by
  have happend := way_append h []
  rwa [List.append_nil] at happend

theorem change_append (h : ∀ a ∈ above, a.isOpen = false) (g : Block → Block) (bs : List Block) :
    change g (above ++ bs) = above ++ change g bs := by
  induction above with
  | nil => rfl
  | cons a above ih =>
      obtain ⟨ha, habove⟩ := List.forall_mem_cons.mp h
      simp [change, ha, ih habove]

theorem change_of_closed (h : ∀ b ∈ bs, b.isOpen = false) (g : Block → Block) :
    change g bs = bs := by
  have happend := change_append h g []
  rwa [List.append_nil, change, List.append_nil] at happend

theorem way_of_open (habove : ∀ a ∈ above, a.isOpen = false) (hb : b.isOpen = true) :
    way (above ++ b :: below) = b.path := by
  simp [way_append habove, way, hb]

theorem change_of_open (habove : ∀ a ∈ above, a.isOpen = false) (hb : b.isOpen = true)
    (g : Block → Block) : change g (above ++ b :: below) = above ++ g b :: below := by
  simp [change_append habove, change, hb]

theorem settled_of_closed (h : ∀ b ∈ bs, b.isOpen = false) : settled bs = bs :=
  List.rtakeWhile_eq_self_iff.mpr (by simpa using h)

theorem closed_of_mem_settled (h : b ∈ settled bs) : b.isOpen = false := by
  simpa using List.mem_rtakeWhile_imp h

theorem settled_of_open (above below : List Block) (hb : b.isOpen = true) :
    settled (above ++ b :: below) = settled below := by
  unfold settled
  induction below using List.reverseRecOn with
  | nil =>
      rw [List.rtakeWhile_concat_neg _ above b (by simp [hb])]
      rfl
  | append_singleton below c ih =>
      rw [← List.cons_append, ← List.append_assoc, List.rtakeWhile_concat, List.rtakeWhile_concat,
        ih]

end

/-! ### Frames and blocks -/

/-- A frame is that of a block, given the blocks that opened before it. -/
structure Keeps (f : Frame) (b : Block) (below : List Block) : Prop where
  isOpen : b.isOpen = true
  slot : f.slot = below.length
  path : b.path = way below ++ [f.selector]
  /-- What the frame remembers is the full selector. -/
  resolved : ∀ r ∈ f.resolved, r = Tree.fullSelector b.path
  /-- A block outside all others has its full selector from the beginning. -/
  outermost : way below = [] → f.resolved.isSome = true

/-- The frames are those of the blocks that are open. -/
inductive Linked : List Frame → List Block → Prop where
  | nil {bs : List Block} (h : ∀ b ∈ bs, b.isOpen = false) : Linked [] bs
  | cons {f : Frame} {outer : List Frame} {above below : List Block} {b : Block}
      (habove : ∀ a ∈ above, a.isOpen = false) (hb : Keeps f b below) (h : Linked outer below) :
      Linked (f :: outer) (above ++ b :: below)

section

variable {frames outer : List Frame} {f : Frame} {bs above : List Block}

namespace Linked

theorem append_closed (h : Linked frames bs) (hab : ∀ a ∈ above, a.isOpen = false) :
    Linked frames (above ++ bs) := by
  cases h with
  | nil h => exact .nil (List.forall_mem_append.mpr ⟨hab, h⟩)
  | cons habove hb h =>
      rw [← List.append_assoc]
      exact .cons (List.forall_mem_append.mpr ⟨hab, habove⟩) hb h

/-- The way to the innermost block is what is written in the frames. -/
theorem way_eq (h : Linked frames bs) : way bs = (frames.map Frame.selector).reverse := by
  induction h with
  | nil h => exact way_of_closed h
  | cons habove hb h ih =>
      rw [way_of_open habove hb.isOpen, hb.path, ih]
      simp

theorem way_eq_nil_iff (h : Linked frames bs) : way bs = [] ↔ frames = [] := by
  rw [h.way_eq]
  simp

/-- Where no block is open nothing changes. -/
theorem change_eq (h : Linked [] bs) (g : Block → Block) : change g bs = bs := by
  cases h with
  | nil h => exact change_of_closed h g

theorem settled_eq (h : Linked [] bs) : settled bs = bs := by
  cases h with
  | nil h => exact settled_of_closed h

/-- **The full selector of the innermost block** is what its selectors add up to. -/
theorem resolveInnermost_eq (h : Linked frames bs) :
    resolveInnermost frames = Tree.fullSelector (way bs) := by
  induction h with
  | nil h =>
      rw [way_of_closed h]
      rfl
  | @cons f outer above below b habove hb h ih =>
      rw [way_of_open habove hb.isOpen, resolveInnermost]
      rcases hr : f.resolved with _ | r
      · -- A frame that remembers nothing is inside another one.
        have hway : way below ≠ [] := by
          intro hway
          have hsome := hb.outermost hway
          rw [hr] at hsome
          cases hsome
        rw [hb.path, Tree.fullSelector_append hway, ← ih]
      · exact hb.resolved r hr

theorem resolved_eq (h : Linked (f :: outer) bs) : ∀ r ∈ f.resolved, r = Tree.fullSelector (way bs) := by
  cases h with
  | cons habove hb h =>
      rw [way_of_open habove hb.isOpen]
      exact hb.resolved

theorem isSome_resolved (h : Linked frames bs) (hf : frames.getLast? = some f) :
    f.resolved.isSome = true := by
  induction h with
  | nil => cases hf
  | @cons g outer above below b habove hb h ih =>
      rcases outer with _ | ⟨g', outer⟩
      · obtain rfl : g = f := by simpa using hf
        exact hb.outermost (h.way_eq_nil_iff.mpr rfl)
      · exact ih (by simpa using hf)

/-- A frame further out is that of a block that opened before. -/
theorem of_suffix (h : Linked frames bs) (hsuffix : outer <:+ frames) :
    ∃ below, below <:+ bs ∧ Linked outer below := by
  induction h with
  | nil h =>
      obtain rfl := List.suffix_nil.mp hsuffix
      exact ⟨_, List.suffix_rfl, .nil h⟩
  | @cons f frames above below b habove hb h ih =>
      rcases List.suffix_cons_iff.mp hsuffix with rfl | hsuffix
      · exact ⟨_, List.suffix_rfl, .cons habove hb h⟩
      · obtain ⟨bs, hbs, hlinked⟩ := ih hsuffix
        exact ⟨bs, hbs.trans ((List.suffix_cons b below).trans (List.suffix_append above _)), hlinked⟩

theorem slot_lt (h : Linked frames bs) : ∀ f ∈ frames, f.slot < bs.length := by
  induction h with
  | nil h => simp
  | @cons f outer above below b habove hb h ih =>
      have hle : below.length < (above ++ b :: below).length := by
        rw [List.length_append, List.length_cons]
        omega
      refine List.forall_mem_cons.mpr ⟨hb.slot ▸ hle, ?_⟩
      intro g hg
      exact Nat.lt_trans (ih g hg) hle

theorem pairwise_slots (h : Linked frames bs) :
    frames.Pairwise fun inner outer => outer.slot < inner.slot := by
  induction h with
  | nil => exact .nil
  | cons habove hb h ih =>
      refine .cons ?_ ih
      intro g hg
      rw [hb.slot]
      exact h.slot_lt g hg

/-- The place of a frame is that of its block. -/
theorem exists_block (h : Linked (f :: outer) bs) :
    ∃ b, bs.reverse[f.slot]? = some b ∧ b.isOpen = true ∧ b.path = way bs := by
  cases h with
  | @cons _ _ above below b habove hb h =>
      refine ⟨b, ?_, hb.isOpen, (way_of_open habove hb.isOpen).symm⟩
      rw [hb.slot]
      simp

/-- The place of the outermost block is behind those of all blocks before it. -/
theorem getLast?_slots (h : Linked frames bs) {slot : Nat}
    (hslot : slot ∈ (frames.map Frame.slot).getLast?) :
    slot = (settled bs).length := by
  induction h with
  | nil => cases hslot
  | @cons f outer above below b habove hb h ih =>
      rw [settled_of_open above below hb.isOpen]
      cases h with
      | nil h =>
          obtain rfl : f.slot = slot := by simpa using hslot
          rw [hb.slot, settled_of_closed h]
      | cons habove' hb' h' => exact ih (by simpa using hslot)

/-! ### Each event keeps frames and blocks linked -/

theorem declare (h : Linked (f :: outer) bs) (text : String) :
    Linked ({ f with resolved := some (resolveInnermost (f :: outer)) } :: outer)
      (change (·.declare text) bs) := by
  rw [h.resolveInnermost_eq]
  cases h with
  | cons habove hb h =>
      rw [change_of_open habove hb.isOpen, way_of_open habove hb.isOpen]
      refine .cons habove ⟨hb.isOpen, hb.slot, hb.path, ?_, fun _ => rfl⟩ h
      rintro r ⟨⟩
      rfl

theorem close (h : Linked (f :: outer) bs) : Linked outer (change Block.close bs) := by
  cases h with
  | @cons _ _ above below b habove hb h =>
      rw [change_of_open habove hb.isOpen]
      rw [List.append_cons]
      refine h.append_closed (List.forall_mem_append.mpr ⟨habove, ?_⟩)
      simp [Block.close]

theorem push (h : Linked frames bs) (selector : String) {resolved : Option String}
    (hresolved : ∀ r ∈ resolved, r = Tree.fullSelector (way bs ++ [selector]))
    (hsome : frames = [] → resolved.isSome = true) :
    Linked (⟨selector, resolved, bs.length⟩ :: frames) (⟨way bs ++ [selector], [], true⟩ :: bs) := by
  refine @Linked.cons _ _ [] _ _ (by simp) ⟨rfl, rfl, rfl, hresolved, ?_⟩ h
  intro hway
  exact hsome (h.way_eq_nil_iff.mp hway)

/-- **A declaration is filed under its own block.** -/
theorem modify_rules (h : Linked (f :: outer) bs) (text : String) :
    (bs.map Block.rule).reverse.modify f.slot
        (addDeclaration (resolveInnermost (f :: outer)) text)
      = ((change (·.declare text) bs).map Block.rule).reverse := by
  rw [h.resolveInnermost_eq]
  cases h with
  | @cons _ _ above below b habove hb h =>
      have hmodify := modify_append (addDeclaration (Tree.fullSelector b.path) text)
        (below.map Block.rule).reverse (b.rule :: (above.map Block.rule).reverse) 0
      rw [Nat.add_zero, List.length_reverse, List.length_map, List.modify_zero_cons] at hmodify
      rw [change_of_open habove hb.isOpen, way_of_open habove hb.isOpen, hb.slot]
      simpa using hmodify

end Linked

theorem map_rule_close (bs : List Block) :
    (change Block.close bs).map Block.rule = bs.map Block.rule := by
  induction bs with
  | nil => rfl
  | cons b bs ih =>
      rw [change]
      split
      · rfl
      · rw [List.map_cons, ih, List.map_cons]

end

/-! ### What holds after any number of events -/

/-- Frames, rules and the checkpoint, as far as the blocks that were read tell them. -/
structure Tells (bs : List Block) (s : Flattening) : Prop where
  frames : Linked s.frames bs
  rules : s.rules.toList = (bs.map Block.rule).reverse
  /-- The checkpoint is the place of the outermost block. -/
  checkpoint : s.checkpoint.map Checkpoint.rules = (s.frames.map Frame.slot).getLast?
  diagnostics : ∀ c ∈ s.checkpoint, c.diagnostics ≤ s.diagnostics.size

section

variable {s s' : Flattening} {bs : List Block} {selector : String} {l : Location}

theorem tells_ofText (source : String) : Tells [] (.ofText source) :=
  ⟨.nil (by simp), rfl, rfl, by simp [ofText]⟩

theorem Tells.size_rules (h : Tells bs s) : s.rules.size = bs.length := by
  rw [← Array.length_toList, h.rules]
  simp

theorem Tells.with_events (h : Tells bs s) (e : Events) : Tells bs { s with events := e } :=
  ⟨h.frames, h.rules, h.checkpoint, h.diagnostics⟩

theorem addText_inside {f : Frame} {outer : List Frame} (hf : s.frames = f :: outer)
    (text : String) (l : Location) :
    s.addText text l
      = { s with
          frames := { f with resolved := some (resolveInnermost (f :: outer)) } :: outer
          rules := s.rules.modify f.slot
            (addDeclaration (resolveInnermost (f :: outer)) text) } := by
  unfold addText
  rw [hf]

theorem Tells.addText (h : Tells bs s) (text : String) (l : Location) :
    Tells (change (·.declare text) bs) (s.addText text l) := by
  obtain ⟨hframes, hrules, hcheckpoint, hdiagnostics⟩ := h
  rcases hf : s.frames with _ | ⟨f, outer⟩
  · obtain ⟨records, houtside⟩ := addText_outside hf text l
    rw [houtside, (hf ▸ hframes : Linked [] bs).change_eq]
    exact ⟨hframes, hrules, hcheckpoint, hdiagnostics⟩
  · rw [hf] at hframes hcheckpoint
    rw [addText_inside hf]
    refine ⟨hframes.declare text, ?_, hcheckpoint, hdiagnostics⟩
    rw [← hframes.modify_rules, ← hrules]
    exact Array.toList_modify

theorem Tells.report (h : Tells bs s) (d : Diagnostic) : Tells bs (s.report d) := by
  refine ⟨?_, ?_, ?_, ?_⟩
  · rw [frames_report]
    exact h.frames
  · rw [rules_report]
    exact h.rules
  · rw [frames_report, checkpoint_report]
    exact h.checkpoint
  · rw [checkpoint_report, diagnostics_report, Array.size_push]
    intro c hc
    exact Nat.le_succ_of_le (h.diagnostics c hc)

theorem Tells.closeBlock (h : Tells bs s) (l : Location) :
    Tells (change Block.close bs) (s.closeBlock l) := by
  unfold Flattening.closeBlock
  rcases hf : s.frames with _ | ⟨f, outer⟩
  · rw [(hf ▸ h.frames : Linked [] bs).change_eq]
    exact h.report _
  · obtain ⟨hframes, hrules, hcheckpoint, hdiagnostics⟩ := h
    rw [hf] at hframes hcheckpoint
    refine ⟨hframes.close, ?_, ?_, ?_⟩
    · show (s.announceRule f.slot).rules.toList = _
      rw [rules_announceRule, map_rule_close, hrules]
    · -- The checkpoint goes with the outermost block.
      rcases outer with _ | ⟨g, outer⟩
      · rfl
      · exact hcheckpoint
    · show ∀ c ∈ if outer.isEmpty then none else s.checkpoint,
        c.diagnostics ≤ (s.announceRule f.slot).diagnostics.size
      rw [diagnostics_announceRule]
      split
      · simp
      · exact hdiagnostics

/-- The place that is reserved for a block is empty. -/
theorem Tells.rules_push (h : Tells bs s) (path : List String) :
    (s.rules.push ⟨"", []⟩).toList = ((⟨path, [], true⟩ :: bs).map Block.rule).reverse := by
  rw [Array.toList_push, h.rules, List.map_cons, List.reverse_cons]
  rfl

/-- A block outside all others opens, and sets the checkpoint. -/
theorem Tells.openOutside (h : Tells bs s) (hf : s.frames = []) (selector : String) (l : Location) :
    Tells (⟨way bs ++ [selector], [], true⟩ :: bs)
      (({ s with checkpoint := some ⟨l, s.rules.size, s.diagnostics.size⟩ } : Flattening).pushFrame
        selector (some selector)) := by
  have hway : way bs = [] := h.frames.way_eq_nil_iff.mpr hf
  refine ⟨?_, h.rules_push _, ?_, ?_⟩
  · show Linked (⟨selector, some selector, s.rules.size⟩ :: s.frames) _
    rw [h.size_rules]
    refine h.frames.push selector ?_ (fun _ => rfl)
    rintro r ⟨⟩
    rw [hway]
    rfl
  · show some s.rules.size = ((⟨selector, some selector, s.rules.size⟩ :: s.frames).map
      Frame.slot).getLast?
    rw [hf]
    rfl
  · rintro c ⟨⟩
    exact Nat.le_refl _

/-- A block inside another opens. -/
theorem Tells.openInside (h : Tells bs s) (hf : s.frames ≠ []) (selector : String) :
    Tells (⟨way bs ++ [selector], [], true⟩ :: bs) (s.pushFrame selector none) := by
  refine ⟨?_, h.rules_push _, ?_, h.diagnostics⟩
  · show Linked (⟨selector, none, s.rules.size⟩ :: s.frames) _
    rw [h.size_rules]
    exact h.frames.push selector (by simp) (fun hnone => absurd hnone hf)
  · show s.checkpoint.map Checkpoint.rules
      = ((⟨selector, none, s.rules.size⟩ :: s.frames).map Frame.slot).getLast?
    obtain ⟨f, outer, hcons⟩ := List.exists_cons_of_ne_nil hf
    rw [h.checkpoint, hcons]
    rfl

/-- What is to be skipped is discarded when it opens. -/
theorem openBlock_of_skips {path : List String} (hpath : path = [] ↔ s.frames = [])
    (h : skips path selector = true) : ∃ d, s.openBlock selector l = s.discard d := by
  rcases hf : s.frames with _ | ⟨f, outer⟩
  · by_cases hempty : selector = ""
    · subst hempty
      exact ⟨_, openBlock_outside_empty hf⟩
    · have hsign : selector.toList.head? = some '@' := by
        simpa [skips, hempty, hpath.mpr hf] using h
      obtain ⟨afterSign, hselector⟩ := List.head?_eq_some_iff.mp hsign
      exact ⟨_, openBlock_atRule hf hselector⟩
  · have hne : path ≠ [] := by
      intro hnil
      rw [hpath.mp hnil] at hf
      cases hf
    obtain rfl : selector = "" := by simpa [skips, hne] using h
    exact ⟨_, openBlock_inside_empty hf⟩

theorem Tells.openBlock (h : Tells bs s) (hopen : s.openBlock selector l = .more s') :
    Tells (record bs (.opened selector l)) s' := by
  have hpath := h.frames.way_eq_nil_iff
  rw [record]
  by_cases hskips : skips (way bs) selector = true
  · obtain ⟨d, hdiscard⟩ := openBlock_of_skips (l := l) hpath hskips
    rw [hdiscard] at hopen
    obtain rfl := discard_eq_more hopen
    rw [if_pos hskips]
    exact (h.with_events s.events.skipBlock.2).report d
  · rw [if_neg hskips]
    have hne : selector ≠ "" := by
      rintro rfl
      simp [skips] at hskips
    by_cases hf : s.frames = []
    · have hsign : ∀ afterSign, selector.toList ≠ '@' :: afterSign := by
        intro afterSign hselector
        simp [skips, hpath.mpr hf, hselector] at hskips
      rw [openBlock_outside hf hne hsign] at hopen
      obtain rfl := Progress.more.inj hopen
      exact h.openOutside hf selector l
    · obtain ⟨f, outer, hcons⟩ := List.exists_cons_of_ne_nil hf
      rw [openBlock_inside hcons hne] at hopen
      obtain rfl := Progress.more.inj hopen
      exact h.openInside hf selector

/-- **Each event changes the blocks as it changes the state.** -/
theorem Tells.step {event : Event} (h : Tells bs s)
    (hevent : (s.events.next s.mode).1 = some event) (hstep : s.step = .more s') :
    Tells (record bs event) s' := by
  obtain ⟨event', e, hn, hcases⟩ := step_eq_more hstep
  rw [hn] at hevent
  obtain rfl : event' = event := Option.some.inj hevent
  have htells := h.with_events e
  rcases hcases with ⟨text, l, rfl, rfl⟩ | ⟨l, rfl, rfl⟩ | ⟨selector, l, rfl, hopen⟩
  · exact htells.addText text l
  · exact htells.closeBlock l
  · exact htells.openBlock hopen

theorem Traced.tells {source : String} (h : Traced source s bs) : Tells bs s := by
  induction h with
  | start => exact tells_ofText source
  | step _ hevent hstep ih => exact ih.step hevent hstep

/-- Whatever state flattening goes through, some blocks were read by then. -/
theorem Running.exists_traced {source : String} (h : Running source s) :
    ∃ bs, Traced source s bs := by
  induction h with
  | start => exact ⟨[], .start⟩
  | step _ hstep ih =>
      obtain ⟨bs, htraced⟩ := ih
      obtain ⟨event, e, hn, -⟩ := step_eq_more hstep
      exact ⟨record bs event, .step htraced (congrArg Prod.fst hn) hstep⟩

/-! ### The end of a run -/

@[simp] theorem frames_stop (s : Flattening) (l : Location) : (s.stop l).frames = [] := by
  unfold stop
  rw [frames_report]
  rfl

@[simp] theorem checkpoint_stop (s : Flattening) (l : Location) :
    (s.stop l).checkpoint = s.checkpoint := by
  unfold stop
  rw [checkpoint_report]
  rfl

@[simp] theorem rules_stop (s : Flattening) (l : Location) : (s.stop l).rules = s.rules := by
  unfold stop
  rw [rules_report]
  rfl

/-- Without a checkpoint no block is open, and none is to be taken back. -/
theorem Tells.of_no_checkpoint (h : Tells bs s) (hc : s.checkpoint = none) :
    s.frames = [] ∧ Tells (settled bs) s := by
  have hslots := h.checkpoint
  rw [hc] at hslots
  have hf : s.frames = [] := by simpa using hslots.symm
  rw [(hf ▸ h.frames : Linked [] bs).settled_eq]
  exact ⟨hf, h⟩

theorem tells_stop (hc : s.checkpoint = none)
    (hrules : s.rules.toList = ((settled bs).map Block.rule).reverse) (l : Location) :
    Tells (settled bs) (s.stop l) := by
  refine ⟨?_, ?_, ?_, ?_⟩
  · rw [frames_stop]
    exact .nil fun b => closed_of_mem_settled
  · rw [rules_stop]
    exact hrules
  · rw [checkpoint_stop, frames_stop, hc]
    rfl
  · rw [checkpoint_stop, hc]
    simp

/-- **To halt takes back the outermost block and all that opened after it**, and nothing else. -/
theorem Tells.halt (h : Tells bs s) (l : Location) :
    (s.halt l).frames = [] ∧ Tells (settled bs) (s.halt l) := by
  unfold Flattening.halt
  rcases hc : s.checkpoint with _ | c
  · exact ⟨frames_stop s l, tells_stop hc (h.of_no_checkpoint hc).2.rules l⟩
  · refine ⟨frames_stop _ _, tells_stop rfl ?_ _⟩
    have hplace : c.rules = (settled bs).length := by
      refine h.frames.getLast?_slots ?_
      rw [← h.checkpoint, hc]
      rfl
    have hblocks : (bs.map Block.rule).reverse
        = ((settled bs).map Block.rule).reverse
          ++ ((bs.rdropWhile (!·.isOpen)).map Block.rule).reverse := by
      rw [← List.reverse_append, ← List.map_append, settled, List.rdropWhile_append_rtakeWhile]
    have htake : (s.rules.take c.rules).toList = s.rules.toList.take c.rules := by simp
    refine htake.trans ?_
    rw [h.rules, hplace, hblocks]
    exact List.take_left' (by simp)

theorem Tells.of_finished (h : Tells bs s) (hstep : s.step = .finished s') :
    s'.frames = [] ∧ Tells (settled bs) s' := by
  obtain ⟨e, ⟨l, rfl⟩ | ⟨hc, rfl⟩⟩ := step_eq_finished hstep
  · exact (h.with_events e).halt l
  · exact (h.with_events e).of_no_checkpoint hc

/-! ### What follows -/

/-- The selectors that are written in some frames, outermost first. -/
def writtenWay (frames : List Frame) : List String := (frames.map Frame.selector).reverse

/-- **Frames, places, full selectors and the checkpoint belong together**, and the places hold what was
read of the blocks. -/
structure Sound (s : Flattening) (bs : List Block) : Prop where
  checkpoint : s.checkpoint.isSome = true ↔ s.frames ≠ []
  /-- The places grow from the outermost frame to the innermost one, which comes first. -/
  slots : s.frames.Pairwise fun inner outer => outer.slot < inner.slot
  bounds : ∀ f ∈ s.frames, f.slot < s.rules.size
  /-- The checkpoint is the place of the outermost block. -/
  rewinds : ∀ c ∈ s.checkpoint, c.diagnostics ≤ s.diagnostics.size ∧
    ∃ f, s.frames.getLast? = some f ∧ c.rules = f.slot
  outermost : ∀ f ∈ s.frames.getLast?, f.resolved.isSome = true
  /-- What frames remember, and what is resolved from them, is the full selector. -/
  resolved : ∀ f outer, f :: outer <:+ s.frames →
    (∀ r ∈ f.resolved, r = Tree.fullSelector (writtenWay (f :: outer))) ∧
      resolveInnermost (f :: outer) = Tree.fullSelector (writtenWay (f :: outer))
  /-- The place of a frame is that of its block. -/
  places : ∀ f outer, f :: outer <:+ s.frames →
    ∃ b, bs.reverse[f.slot]? = some b ∧ b.isOpen = true ∧ b.path = writtenWay (f :: outer)
  /-- Each place holds the declarations of its block, under the full selector if there are any. -/
  rules : s.rules.toList = (bs.map Block.rule).reverse
  /-- A text is added at the place of the innermost block and nowhere else. -/
  filed : ∀ f outer text l, s.frames = f :: outer → ∃ r, s.rules[f.slot]? = some r ∧
    (s.addText text l).rules.toList = s.rules.toList.set f.slot
      ⟨Tree.fullSelector (writtenWay (f :: outer)), r.declarations ++ [text]⟩

theorem Tells.sound (h : Tells bs s) : Sound s bs where
  checkpoint := by
    have hslots := congrArg Option.isSome h.checkpoint
    rw [Option.isSome_map, List.getLast?_map, Option.isSome_map] at hslots
    rw [hslots]
    simp
  slots := h.frames.pairwise_slots
  bounds := by
    rw [h.size_rules]
    exact h.frames.slot_lt
  rewinds := by
    intro c hc
    refine ⟨h.diagnostics c hc, ?_⟩
    have hslots := h.checkpoint
    rw [Option.mem_def.mp hc, List.getLast?_map] at hslots
    obtain ⟨f, hf, hslot⟩ := Option.map_eq_some_iff.mp hslots.symm
    exact ⟨f, hf, hslot.symm⟩
  outermost := by
    intro f hf
    exact h.frames.isSome_resolved hf
  resolved := by
    intro f outer hsuffix
    obtain ⟨below, -, hlinked⟩ := h.frames.of_suffix hsuffix
    rw [writtenWay, ← hlinked.way_eq]
    exact ⟨hlinked.resolved_eq, hlinked.resolveInnermost_eq⟩
  places := by
    intro f outer hsuffix
    obtain ⟨below, ⟨above, rfl⟩, hlinked⟩ := h.frames.of_suffix hsuffix
    obtain ⟨b, hb, hopen, hpath⟩ := hlinked.exists_block
    refine ⟨b, ?_, hopen, hpath.trans hlinked.way_eq⟩
    rw [List.reverse_append, List.getElem?_append_left, hb]
    rw [List.length_reverse]
    exact hlinked.slot_lt f List.mem_cons_self
  rules := h.rules
  filed := by
    intro f outer text l hf
    have hlinked : Linked (f :: outer) bs := hf ▸ h.frames
    obtain ⟨b, hb, -, hpath⟩ := hlinked.exists_block
    have hrule : s.rules.toList[f.slot]? = some b.rule := by
      rw [h.rules, ← List.map_reverse, List.getElem?_map, hb]
      rfl
    refine ⟨b.rule, by rw [← Array.getElem?_toList, hrule], ?_⟩
    rw [addText_inside hf, Array.toList_modify, hlinked.resolveInnermost_eq, ← hpath,
      List.modify_eq_set_getElem?, hrule]
    show s.rules.toList.set f.slot (addDeclaration (Tree.fullSelector b.path) text b.rule) = _
    rw [b.addDeclaration_rule, hpath, hlinked.way_eq]
    rfl

end

/-- **No declaration is dropped or filed under another block.**  In each state that flattening goes
through, frames, places, full selectors and the checkpoint belong together, and the places hold what
was read of the blocks by then.  So it is behind the last step, which leaves the places of the blocks
that opened before the outermost one that is still open. -/
theorem Running.exists_sound {source : String} {s : Flattening} (h : Running source s) :
    ∃ bs, Traced source s bs ∧ Sound s bs ∧
      ∀ s', s.step = .finished s' → s'.frames = [] ∧ Sound s' (settled bs) := by
  obtain ⟨bs, htraced⟩ := h.exists_traced
  refine ⟨bs, htraced, htraced.tells.sound, ?_⟩
  intro s' hstep
  obtain ⟨hframes, htells⟩ := htraced.tells.of_finished hstep
  exact ⟨hframes, htells.sound⟩

/-- In a block inside another, when the outer one has a declaration and a selector with an ampersand is
not resolved yet. -/
theorem Running.exists_sound_nested :
    ∃ s, Running "\x7d.a\x7bx: 1; &:b\x7by: 2" s ∧
      (s.frames.map fun f => (f.selector, f.resolved, f.slot))
        = [("&:b", none, 1), (".a", some ".a", 0)] ∧
      s.rules.toList = [⟨".a", ["x: 1"]⟩, ⟨"", []⟩] ∧
      ∃ bs, Traced "\x7d.a\x7bx: 1; &:b\x7by: 2" s bs ∧ Sound s bs := by
  have hafter : (after? "\x7d.a\x7bx: 1; &:b\x7by: 2" 4).any (fun s =>
      (s.frames.map fun f => (f.selector, f.resolved, f.slot))
          = [("&:b", none, 1), (".a", some ".a", 0)] &&
        s.rules.toList = [⟨".a", ["x: 1"]⟩, ⟨"", []⟩]) = true := by
    decide +kernel
  obtain ⟨s, hs, hstate⟩ := (Option.any_eq_true _ _).mp hafter
  obtain ⟨hframes, hrules⟩ := by simpa using hstate
  have hrunning := running_of_after? hs
  obtain ⟨bs, htraced, hsound, -⟩ := hrunning.exists_sound
  exact ⟨s, hrunning, hframes, hrules, bs, htraced, hsound⟩

end Flattening

/-- **The rules of a sheet are its blocks that have declarations**, in the order in which they open, each
under its full selector and with the texts that stood directly in it.  Left out are the blocks that
were skipped, and from a block outside all others on that never closes all that follow. -/
theorem rules_flatten (source : String) :
    ∃ s bs, Flattening.Traced source s bs ∧ (∃ s', s.step = .finished s') ∧
      (flatten source).rules
        = (((Flattening.settled bs).filter fun b => !b.texts.isEmpty).map
            Flattening.Block.rule).reverse := by
  have hstart : Flattening.Running source (.ofText source) := .start
  obtain ⟨s, hrunning, hstep⟩ := hstart.exists_finished
  obtain ⟨bs, htraced⟩ := hrunning.exists_traced
  have hrules := (htraced.tells.of_finished hstep).2.rules
  refine ⟨s, bs, htraced, ⟨_, hstep⟩, ?_⟩
  show ((Flattening.ofText source).run.rules.filter Rule.isShown).toList = _
  rw [Array.toList_filter, hrules, List.filter_reverse, List.filter_map]
  rfl

end FlatSheet
