/-
The declarations of a block are those of its content.

Collecting them means to read the events of the block's text and to count how many
blocks are open.  While that count is above zero the events are passed over, up to the
one that closes the block at which the count began to rise.  At any count, what is
collected of a text is what remains of it behind the blocks that are open.
-/
import FlatSheet.Proofs.Event

namespace FlatSheet

open Marked Scan

namespace Declaration

section

variable {e e' : Events} {d : Nat}

theorem collect_of_event {event : Event} (h : e.next .nested = (some event, e')) :
    collect d e = (own? d event).toList ++ collect (depthAfter d event) e' := by
  rw [collect]
  split <;> rename_i hn <;> rw [h] at hn
  · obtain ⟨rfl, rfl⟩ := by simpa using hn
    rfl
  · simp at hn

theorem collect_of_none (h : e.next .nested = (none, e')) : collect d e = [] := by
  rw [collect]
  split <;> rename_i hn <;> rw [h] at hn
  · simp at hn

theorem collect_congr (h : e.next .nested = e'.next .nested) : collect d e = collect d e' := by
  rcases hn : e'.next .nested with ⟨_ | event, e''⟩
  · rw [collect_of_none hn, collect_of_none (h.trans hn)]
  · rw [collect_of_event hn, collect_of_event (h.trans hn)]

end

/-- The declarations in marked text behind the end of the `d` blocks that are open at its beginning. -/
def remaining : Nat → List (Char × Location) → List String
  | 0, ms => (Content.read ms).own
  | d + 1, ms =>
    match closing? d ms with
    | some c => (Content.read c.after).own
    | none => []

/-- The declaration that a text makes, if no block is open. -/
def ownText (d : Nat) (text : List Char) : List String :=
  if d = 0 then (Content.declared text (.done : Content Location)).own else []

theorem ownText_of_blank {text : List Char} (h : Text.trim text = []) (d : Nat) :
    ownText d text = [] := by
  unfold ownText
  rw [Content.declared_of_blank h]
  split <;> rfl

theorem ownText_of_text {text : List Char} (h : Text.trim text ≠ []) (d : Nat) (l : Location) :
    ownText d text = (own? d (.text (trimmed text) l)).toList := by
  unfold ownText own?
  rw [Content.declared_of_text h]
  split <;> rfl

/-! ### What remains, by the first boundary -/

section

variable {pre ms : List (Char × Location)} {x : Location}
  (hpre : ∀ m ∈ pre, ScanMode.nested.isBoundary m.1 = false)
include hpre

/-- In a block that is open a text says nothing. -/
theorem remaining_succ_append (d : Nat) : remaining (d + 1) (pre ++ ms) = remaining (d + 1) ms := by
  rw [remaining, remaining, closing?_append_of_forall fun m hm => ne_brace_of_nested (hpre m hm)]
  cases closing? d ms <;> rfl

theorem remaining_of_forall (d : Nat) : remaining d pre = ownText d (pre.map Prod.fst) := by
  cases d with
  | zero =>
      rw [remaining, Content.read_of_forall hpre]
      rfl
  | succ d =>
      rw [remaining, closing?_eq_none_of_forall fun m hm => ne_brace_of_nested (hpre m hm)]
      rfl

theorem remaining_of_opening (d : Nat) :
    remaining d (pre ++ ('{', x) :: ms) = remaining (d + 1) ms := by
  cases d with
  | zero =>
      rw [remaining, remaining]
      rcases hc : closing? 0 ms with _ | c
      · rw [Content.read_of_unclosed hpre hc]
        rfl
      · rw [Content.read_of_block hpre hc]
        rfl
  | succ d =>
      rw [remaining_succ_append hpre, remaining, remaining, closing?_cons_opening]
      cases closing? (d + 1) ms <;> rfl

theorem remaining_of_closing (d : Nat) :
    remaining d (pre ++ ('}', x) :: ms)
      = ownText d (pre.map Prod.fst) ++ remaining (d - 1) ms := by
  rcases d with _ | _ | d
  · rw [remaining, Content.read_of_stray hpre, Content.own_declared]
    rfl
  · rw [remaining_succ_append hpre]
    rfl
  · rw [remaining_succ_append hpre, remaining, closing?_succ_cons_closing]
    show _ = remaining (d + 1) ms
    rw [remaining]
    cases closing? d ms <;> rfl

theorem remaining_of_semicolon (d : Nat) :
    remaining d (pre ++ (';', x) :: ms) = ownText d (pre.map Prod.fst) ++ remaining d ms := by
  cases d with
  | zero =>
      rw [remaining, Content.read_of_semicolon hpre, Content.own_declared]
      rfl
  | succ d =>
      rw [remaining_succ_append hpre, remaining, closing?_cons_of_ne (by decide) (by decide)]
      show _ = remaining (d + 1) ms
      rw [remaining]
      cases closing? d ms <;> rfl

end

/-- **Collecting reads the content, and passes over the blocks that are open.** -/
theorem collect_eq {ms : List (Char × Location)} {e : Events} (h : e.Ahead ms) (d : Nat) :
    collect d e = remaining d ms := by
  induction hn : ms.length using Nat.strong_induction_on generalizing ms e d with
  | _ n ih =>
      rcases exists_boundary ScanMode.nested.isBoundary ms with
        hms | ⟨pre, ch, x, rest, rfl, hpre, hch⟩
      · obtain ⟨l, e', hnext, hqueued, hrest⟩ := Events.next_of_forall h hms
        have hend : ∀ d, collect d e' = [] := by
          intro d
          exact collect_of_none (Events.next_of_rest_eq_nil hqueued hrest .nested)
        rw [remaining_of_forall hms]
        by_cases ht : Text.trim (ms.map Prod.fst) = []
        · rw [ht] at hnext
          rw [ownText_of_blank ht]
          exact collect_of_none hnext
        · rw [Events.textEvent?_of_ne_nil ht] at hnext
          rw [collect_of_event hnext, hend, List.append_nil]
          exact (ownText_of_text ht d l).symm
      · have hlt : rest.length < n := by
          rw [← hn, List.length_append, List.length_cons]
          omega
        rcases nested_boundary hch with rfl | rfl | rfl
        · obtain ⟨e', hnext, he⟩ := Events.next_of_open h hpre
          rw [collect_of_event hnext, remaining_of_opening hpre]
          exact ih _ hlt he (d + 1) rfl
        · rw [remaining_of_closing hpre]
          by_cases ht : Text.trim (pre.map Prod.fst) = []
          · obtain ⟨e', hnext, he⟩ := Events.next_of_blank_close h hpre ht
            rw [collect_of_event hnext, ownText_of_blank ht]
            exact ih _ hlt he (d - 1) rfl
          · -- The text comes first, and the closing that waits behind it with the next event.
            obtain ⟨l, c, hnext, he⟩ := Events.next_of_text_close h hpre ht
            have hwaits : Events.next ⟨c, some (.closed x)⟩ .nested = (some (.closed x), ⟨c, none⟩) :=
              rfl
            rw [collect_of_event hnext, collect_of_event hwaits, ownText_of_text ht d l]
            exact congrArg _ (ih _ hlt he (d - 1) rfl)
        · rw [remaining_of_semicolon hpre]
          by_cases ht : Text.trim (pre.map Prod.fst) = []
          · obtain ⟨e', hnext, he⟩ := Events.next_of_blank_semicolon h hpre ht
            rw [collect_congr hnext, ownText_of_blank ht]
            exact ih _ hlt he d rfl
          · obtain ⟨l, e', hnext, he⟩ := Events.next_of_text_semicolon h hpre ht
            rw [collect_of_event hnext, ownText_of_text ht d l]
            exact congrArg _ (ih _ hlt he d rfl)

end Declaration

/-- The declarations of a block are those that stand directly in its content. -/
theorem extractDeclarations_eq_own {α : Type} {content : String} {ms : List (Char × α)}
    (h : ms.map Prod.fst = Scan.stripComments content.toList) :
    extractDeclarations content = (Content.read ms).own := by
  rw [extractDeclarations, Declaration.collect_eq (Events.ahead_ofText content)]
  refine Content.own_read_of_chars ?_
  rw [h]
  exact Cursor.map_fst_marks_pieces .char .start content.toList

end FlatSheet
