/-
Ampersands that are left in full selectors.

In a nested selector an ampersand stands for the parent's selector, and putting that in
its place leaves an ampersand exactly if the parent's selector has one itself.  Outside
all blocks there is no parent, so an ampersand there stays as it is written.  Along a
chain of blocks nothing else can bring one in or take one away, whichever of the
selectors on the way name their parent and however often they do.
-/
import FlatSheet.Proofs.Flatten

namespace FlatSheet

open Marked

variable {α : Type}

/-! ### One block inside another -/

/-- A full selector has an ampersand exactly if the selector of the parent has. -/
theorem Selector.ampersand_mem_resolve (parent nested : String) :
    '&' ∈ (resolve parent nested).toList ↔ '&' ∈ parent.toList := by
  unfold resolve
  by_cases h : '&' ∈ nested.toList
  · rw [if_pos h, String.toList_ofList, fillIn, List.mem_flatMap]
    constructor
    · rintro ⟨c, -, hc⟩
      by_cases hamp : c = '&'
      · rwa [if_pos hamp] at hc
      · rw [if_neg hamp] at hc
        exact absurd (List.mem_singleton.mp hc).symm hamp
    · intro hp
      exact ⟨'&', h, by rwa [if_pos rfl]⟩
  · rw [if_neg h, String.toList_append, String.toList_append, List.mem_append, List.mem_append]
    simp [h]

theorem Rule.selector_of_mem_ofBlock {selector : String} {declarations : List String} {r : Rule}
    (h : r ∈ Rule.ofBlock selector declarations) : r.selector = selector := by
  unfold Rule.ofBlock at h
  split at h
  · simp at h
  · rw [List.mem_singleton.mp h]

/-- At any depth inside a block, ampersands are left exactly if the block's full selector has one. -/
theorem Content.ampersand_mem_of_mem_rules {selector : String} {content : Content α} {r : Rule}
    (h : r ∈ content.rules selector) :
    '&' ∈ r.selector.toList ↔ '&' ∈ selector.toList := by
  induction content generalizing selector with
  | done => simp [rules] at h
  | declaration text rest ih => exact ih h
  | block nested place inner rest ih1 ih2 =>
      rcases List.mem_append.mp h with hinner | hrest
      · split at hinner
        · simp at hinner
        · rcases List.mem_append.mp hinner with hown | hdeeper
          · rw [Rule.selector_of_mem_ofBlock hown]
            exact Selector.ampersand_mem_resolve selector nested
          · exact (ih1 hdeeper).trans (Selector.ampersand_mem_resolve selector nested)
      · exact ih2 hrest

/-! ### The blocks outside all others -/

/-- A block outside all others: its selector as it is written, and the rules it yields. -/
structure OutermostBlock where
  selector : String
  rules : List Rule
  deriving DecidableEq

/-- A thing outside all blocks, if it is a block that closes. -/
def Item.block? : Item α → Option OutermostBlock
  | stray _ | unclosed _ => none
  | block selector place content => some ⟨selector, rules (.block selector place content)⟩

/-- The blocks outside all others, in their order. -/
def Outline.blocks (o : Outline α) : List OutermostBlock := o.filterMap Item.block?

/-- The blocks of a sheet that stand outside all others. -/
def outermostBlocks (source : String) : List OutermostBlock :=
  (Outline.read (sheetMarks source)).blocks

theorem Item.ampersand_mem_of_block? {item : Item α} {b : OutermostBlock}
    (hb : item.block? = some b) {r : Rule} (hr : r ∈ b.rules) :
    '&' ∈ r.selector.toList ↔ '&' ∈ b.selector.toList := by
  cases item with
  | stray place => simp [block?] at hb
  | unclosed place => simp [block?] at hb
  | block selector place content =>
      obtain rfl := Option.some.inj hb
      rcases rules_cases selector place content with hnone | ⟨-, hrules⟩
      · rw [hnone] at hr
        simp at hr
      · rw [hrules] at hr
        rcases List.mem_append.mp hr with hown | hinner
        · rw [Rule.selector_of_mem_ofBlock hown]
        · exact Content.ampersand_mem_of_mem_rules hinner

/-- Only blocks that close have rules, so the rules of a sheet are theirs. -/
theorem Outline.rules_eq_flatMap_blocks (o : Outline α) :
    o.rules = o.blocks.flatMap OutermostBlock.rules := by
  induction o with
  | nil => rfl
  | cons item o ih =>
      rw [rules_cons, ih]
      cases item with
      | stray place => rfl
      | unclosed place => rfl
      | block selector place content => rfl

namespace Events

/-- The selectors of the blocks outside all others, as the events show them: a block is skipped as
soon as it opens, and after one that never closes nothing follows. -/
def outermost (e : Events) : List String :=
  match _h : e.next .topLevel with
  | (some (.opened selector _), e') =>
    if e'.skipBlock.1 then selector :: outermost e'.skipBlock.2 else []
  | (some _, e') => outermost e'
  | (none, _) => []
termination_by e.size
decreasing_by
  · exact Nat.lt_of_le_of_lt (size_skipBlock_le _) (size_next_lt ‹_›)
  · exact size_next_lt ‹_›

section

variable {e e' : Events}

theorem outermost_of_none (h : e.next .topLevel = (none, e')) : e.outermost = [] := by
  rw [outermost]
  split <;> rename_i hs <;> rw [h] at hs
  · simp at hs
  · simp at hs

theorem outermost_of_open {selector : String} {x : Location}
    (h : e.next .topLevel = (some (.opened selector x), e')) :
    e.outermost = if e'.skipBlock.1 then selector :: e'.skipBlock.2.outermost else [] := by
  rw [outermost]
  split <;> rename_i hs <;> rw [h] at hs
  · obtain ⟨⟨rfl, -⟩, rfl⟩ := by simpa using hs
    rfl
  · rename_i hne
    obtain ⟨rfl, -⟩ := by simpa using hs
    exact (hne selector x rfl).elim
  · simp at hs

/-- A text or a stray brace outside all blocks is passed over. -/
theorem outermost_of_other {event : Event} (h : e.next .topLevel = (some event, e'))
    (hevent : ∀ selector x, event ≠ .opened selector x) : e.outermost = e'.outermost := by
  rw [outermost]
  split <;> rename_i hs <;> rw [h] at hs
  · obtain ⟨rfl, -⟩ := by simpa using hs
    exact (hevent _ _ rfl).elim
  · obtain ⟨-, rfl⟩ := by simpa using hs
    rfl
  · simp at hs

end

/-- The events show the same outermost blocks as the outline of the text ahead. -/
theorem outermost_of_ahead {e : Events} {ms : List (Char × Location)} (h : e.Ahead ms) :
    e.outermost = (Outline.read ms).blocks.map OutermostBlock.selector := by
  induction ms using topLevel_induction generalizing e with
  | plain ms hms =>
      rw [Outline.read_of_forall hms]
      obtain ⟨l, e', hnext, hqueued, hrest⟩ := next_of_forall h hms
      rcases ht : textEvent? (Text.trim (ms.map Prod.fst)) l with _ | event
      · rw [ht] at hnext
        exact outermost_of_none hnext
      · rw [ht] at hnext
        obtain ⟨-, rfl⟩ := textEvent?_eq_some ht
        rw [outermost_of_other hnext (by simp),
          outermost_of_none (next_of_rest_eq_nil hqueued hrest .topLevel)]
        rfl
  | stray pre x ms hpre ih =>
      obtain ⟨e', hnext, hahead⟩ := next_of_stray h hpre
      rw [Outline.read_of_stray hpre, outermost_of_other hnext (by simp), ih hahead]
      rfl
  | block pre x ms c hpre hc ih =>
      obtain ⟨e', hnext, hahead⟩ := next_of_open h hpre
      obtain ⟨e'', hskip, hafter⟩ := skipBlock_of_closing hahead hc
      rw [Outline.read_of_block hpre hc, outermost_of_open hnext, hskip, if_pos rfl, ih hafter]
      rfl
  | unclosed pre x ms hpre hc =>
      obtain ⟨e', hnext, hahead⟩ := next_of_open h hpre
      have hskip : ¬ e'.skipBlock.1 = true := by
        rw [skipBlock_of_none hahead hc]
        exact Bool.false_ne_true
      rw [Outline.read_of_unclosed hpre hc, outermost_of_open hnext, if_neg hskip]
      rfl

end Events

/-! ### Whole sheets -/

/-- **Parent references are resolved completely.**  The rules of a sheet are those of its outermost
blocks, which are the blocks that the events show there, and the selector of a rule has an ampersand
exactly if the selector of its outermost block is written with one.  So where no outermost selector
has an ampersand, none is left at all. -/
theorem ampersand_mem_selector_iff (source : String) :
    (outermostBlocks source).map OutermostBlock.selector = (Events.ofText source).outermost ∧
    (flatten source).rules = (outermostBlocks source).flatMap OutermostBlock.rules ∧
    (∀ b ∈ outermostBlocks source, ∀ r ∈ b.rules,
      ('&' ∈ r.selector.toList ↔ '&' ∈ b.selector.toList)) ∧
    ((∀ selector ∈ (Events.ofText source).outermost, '&' ∉ selector.toList) →
      ∀ r ∈ (flatten source).rules, '&' ∉ r.selector.toList) := by
  have hselectors : (outermostBlocks source).map OutermostBlock.selector
      = (Events.ofText source).outermost :=
    (Events.outermost_of_ahead (Events.ahead_ofText source)).symm
  have hrules : (flatten source).rules
      = (outermostBlocks source).flatMap OutermostBlock.rules := by
    rw [flatten_eq_outline]
    exact Outline.rules_eq_flatMap_blocks _
  have hiff : ∀ b ∈ outermostBlocks source, ∀ r ∈ b.rules,
      ('&' ∈ r.selector.toList ↔ '&' ∈ b.selector.toList) := by
    intro b hb r hr
    obtain ⟨item, -, hitem⟩ := List.mem_filterMap.mp hb
    exact Item.ampersand_mem_of_block? hitem hr
  refine ⟨hselectors, hrules, hiff, ?_⟩
  intro hnone r hr hamp
  rw [hrules] at hr
  obtain ⟨b, hb, hrb⟩ := List.mem_flatMap.mp hr
  refine hnone b.selector ?_ ((hiff b hb r hrb).mp hamp)
  rw [← hselectors]
  exact List.mem_map_of_mem hb

/-- Several ampersands, one and none along a chain of blocks leave none. -/
theorem ampersand_mem_selector_iff_chain :
    (flatten "a \x7b &&b \x7b x: 1; c \x7b & > & \x7b y: 2; \x7d \x7d \x7d \x7d").rules
        = [⟨"aab", ["x: 1"]⟩, ⟨"aab c > aab c", ["y: 2"]⟩] ∧
      ∀ r ∈ (flatten "a \x7b &&b \x7b x: 1; c \x7b & > & \x7b y: 2; \x7d \x7d \x7d \x7d").rules,
        '&' ∉ r.selector.toList :=
  ⟨by decide +kernel, (ampersand_mem_selector_iff _).2.2.2 (by decide +kernel)⟩

end FlatSheet
