/-
Three ways to the end of a block.

When a block opens, its end can be looked for in the whole text from the offset of its
opening brace, it can be skipped while the events are read, or the events can be read on
with a count of the blocks that are open.  These are three loops of their own, and the
third stops at semicolons, holds closings back and depends on the mode of each call.

They agree because each walk of a cursor passes over the text that the others pass over.
Skipping trivia and reading a stretch change nothing about the brace that a search for
the end will find, so the search can be put off to behind them (`closingBrace_skipTrivia`,
`closingBrace_stretch`).  Along the events, reading on then does what the search does,
whatever the modes are (`follow_meets`).  That the search begins where the one in the
whole text does is an invariant of the events, kept by every call (`Reached.within`).
-/
import FlatSheet.Proofs.Event
import FlatSheet.Proofs.Offset

namespace FlatSheet

open Scan

namespace Cursor

variable {g : Grain} {c c' : Cursor g} {inner : Nat}

/-! ### The search for a closing brace, one piece at a time -/

theorem closingBrace_of_opening (h : c.next? = some (.plain '{', c')) :
    c.closingBrace inner = c'.closingBrace (inner + 1) := by
  rw [closingBrace]
  split <;> rename_i hn <;> rw [h] at hn
  · obtain rfl := by simpa using hn
    rfl
  · simp at hn
  · rename_i hne _
    obtain ⟨rfl, -⟩ := by simpa using hn
    exact (hne rfl).elim
  · simp at hn

theorem closingBrace_of_closing (h : c.next? = some (.plain '}', c')) :
    c.closingBrace inner = match inner with
      | 0 => (some c.location.offset, c')
      | outer + 1 => c'.closingBrace outer := by
  rw [closingBrace]
  split <;> rename_i hn <;> rw [h] at hn
  · simp at hn
  · obtain rfl := by simpa using hn
    rfl
  · rename_i hne
    obtain ⟨rfl, -⟩ := by simpa using hn
    exact (hne rfl).elim
  · simp at hn

theorem closingBrace_of_other {p : Piece} (h : c.next? = some (p, c')) (ho : p ≠ .plain '{')
    (hc : p ≠ .plain '}') : c.closingBrace inner = c'.closingBrace inner := by
  rw [closingBrace]
  split <;> rename_i hn <;> rw [h] at hn
  · obtain ⟨rfl, -⟩ := by simpa using hn
    exact (ho rfl).elim
  · obtain ⟨rfl, -⟩ := by simpa using hn
    exact (hc rfl).elim
  · obtain ⟨-, rfl⟩ := by simpa using hn
    rfl
  · simp at hn

theorem closingBrace_of_none (h : c.next? = none) : c.closingBrace inner = (none, c) := by
  rw [closingBrace]
  split <;> rename_i hn <;> rw [h] at hn
  · simp at hn
  · simp at hn
  · simp at hn

/-! ### Walks that the search does not notice -/

theorem closingBrace_skipTrivia (c : Cursor g) (inner : Nat) :
    c.skipTrivia.closingBrace inner = c.closingBrace inner := by
  fun_induction skipTrivia c with
  | case1 c t c' h ih => rw [ih, closingBrace_of_other h (by simp) (by simp)]
  | case2 c ch c' h hs ih =>
      obtain ⟨ho, hc⟩ := Marked.ne_brace (isBoundary_of_isSpacing hs .topLevel)
      rw [ih, closingBrace_of_other h (by simpa using ho) (by simpa using hc)]
  | case3 => rfl
  | case4 => rfl

theorem closingBrace_stretch (mode : ScanMode) (c : Cursor g) (inner : Nat) :
    (c.stretch mode.isBoundary).2.closingBrace inner = c.closingBrace inner := by
  fun_induction stretch mode.isBoundary c with
  | case1 c t c' h s ih => rw [ih, closingBrace_of_other h (by simp) (by simp)]
  | case2 => rfl
  | case3 c ch c' h hb s ih =>
      have hother : mode.isBoundary ch = false := by simpa using hb
      obtain ⟨ho, hc⟩ := Marked.ne_brace hother
      rw [ih, closingBrace_of_other h (by simpa using ho) (by simpa using hc)]
  | case4 => rfl

/-- The search reads up to and past the brace that it finds. -/
theorem reads_closingBrace (c : Cursor g) (inner : Nat) :
    ∃ ps, c.Reads ps (c.closingBrace inner).2 := by
  fun_induction closingBrace c inner with
  | case1 c inner c' h ih =>
      obtain ⟨ps, hr⟩ := ih
      exact ⟨_, hr.cons h⟩
  | case2 c c' h => exact ⟨_, .of_next? h⟩
  | case3 c c' h outer ih =>
      obtain ⟨ps, hr⟩ := ih
      exact ⟨_, hr.cons h⟩
  | case4 c inner p c' _ _ h ih =>
      obtain ⟨ps, hr⟩ := ih
      exact ⟨_, hr.cons h⟩
  | case5 c inner h => exact ⟨[], .refl c⟩

end Cursor

namespace Events

/-! ### Reading on with a count -/

/-- How it ends to read on inside a block. -/
inductive Outcome where
  /-- With this event no block is open any more. -/
  | closed (event : Event) (after : Events)
  /-- There is no further event, and so many blocks are open. -/
  | ended (depth : Nat)

/-- Reads on until the count of open blocks comes to zero.  The modes are those of the calls, one
after the other. -/
def follow (modes : Nat → ScanMode) (depth : Nat) (e : Events) : Outcome :=
  match _h : e.next (modes 0) with
  | (some event, e') =>
    if Declaration.depthAfter depth event = 0 then .closed event e'
    else follow (fun n => modes (n + 1)) (Declaration.depthAfter depth event) e'
  | (none, _) => .ended depth
termination_by e.size
decreasing_by exact size_next_lt ‹_›

section

variable {modes : Nat → ScanMode} {d : Nat} {e e' : Events}

theorem follow_of_event {event : Event} (h : e.next (modes 0) = (some event, e')) :
    e.follow modes d =
      if Declaration.depthAfter d event = 0 then .closed event e'
      else e'.follow (fun n => modes (n + 1)) (Declaration.depthAfter d event) := by
  rw [follow]
  split <;> rename_i hn <;> rw [h] at hn
  · obtain ⟨rfl, rfl⟩ := by simpa using hn
    rfl
  · simp at hn

theorem follow_of_none (h : e.next (modes 0) = (none, e')) : e.follow modes d = .ended d := by
  rw [follow]
  split <;> rename_i hn <;> rw [h] at hn
  · simp at hn

theorem follow_congr (h : e.next (modes 0) = e'.next (modes 0)) :
    e.follow modes d = e'.follow modes d := by
  rcases hn : e'.next (modes 0) with ⟨_ | event, e''⟩
  · rw [follow_of_none hn, follow_of_none (h.trans hn)]
  · rw [follow_of_event hn, follow_of_event (h.trans hn)]

end

/-! ### Reading on, by the boundary that a stretch ends at -/

section

variable {modes : Nat → ScanMode} {d : Nat} {c c' : Cursor .char}

theorem follow_of_end (h : (c.stretch (modes 0).isBoundary).2.next? = none) :
    follow modes (d + 1) ⟨c, none⟩ = .ended (d + 1) := by
  have hrest := Cursor.next?_eq_none_iff.mp h
  have hread : next ⟨c, none⟩ (modes 0) = _ := read_of_end hrest
  rcases ht : textEvent? (Scan.clean (c.stretch (modes 0).isBoundary).1) c.location with
    _ | event
  · rw [ht] at hread
    exact follow_of_none hread
  · -- A last text is read, and then there is nothing.
    obtain ⟨-, rfl⟩ := textEvent?_eq_some ht
    rw [ht] at hread
    have hend := next_of_rest_eq_nil (e := ⟨(c.stretch (modes 0).isBoundary).2, none⟩) rfl hrest
      (modes 1)
    rw [follow_of_event hread, if_neg (by simp [Declaration.depthAfter])]
    exact follow_of_none hend

theorem follow_of_opening
    (h : (c.stretch (modes 0).isBoundary).2.next? = some (.plain '{', c')) :
    follow modes (d + 1) ⟨c, none⟩
      = follow (fun n => modes (n + 1)) (d + 2) ⟨c'.skipTrivia, none⟩ := by
  have hread : next ⟨c, none⟩ (modes 0) = _ := read_of_open h
  rw [follow_of_event hread, if_neg (by simp [Declaration.depthAfter])]
  rfl

theorem exists_follow_of_semicolon
    (h : (c.stretch (modes 0).isBoundary).2.next? = some (.plain ';', c')) :
    ∃ modes', follow modes (d + 1) ⟨c, none⟩
      = follow modes' (d + 1) ⟨c'.skipTrivia, none⟩ := by
  have hread : next ⟨c, none⟩ (modes 0) = _ := read_of_semicolon h
  rcases ht : textEvent? (Scan.clean (c.stretch (modes 0).isBoundary).1) c.location with
    _ | event
  · rw [ht] at hread
    exact ⟨modes, follow_congr hread⟩
  · obtain ⟨-, rfl⟩ := textEvent?_eq_some ht
    rw [ht] at hread
    refine ⟨fun n => modes (n + 1), ?_⟩
    rw [follow_of_event hread, if_neg (by simp [Declaration.depthAfter])]
    rfl

/-- What a closing makes of the count of open blocks, with the events that come after it. -/
def closeOne (modes : Nat → ScanMode) (place : Location) (after : Events) : Nat → Outcome
  | 0 => .closed (.closed place) after
  | outer + 1 => after.follow modes (outer + 1)

theorem follow_of_closed {e after : Events} {place : Location}
    (h : e.next (modes 0) = (some (.closed place), after)) :
    e.follow modes (d + 1) = closeOne (fun n => modes (n + 1)) place after d := by
  rw [follow_of_event h]
  cases d with
  | zero => rfl
  | succ outer => rw [if_neg (by simp [Declaration.depthAfter])]; rfl

theorem exists_follow_of_closing
    (h : (c.stretch (modes 0).isBoundary).2.next? = some (.plain '}', c')) :
    ∃ modes', follow modes (d + 1) ⟨c, none⟩
      = closeOne modes' (c.stretch (modes 0).isBoundary).2.location ⟨c'.skipTrivia, none⟩ d := by
  by_cases hnone : modes 0 = .topLevel ∨
      textEvent? (Scan.clean (c.stretch (modes 0).isBoundary).1) c.location = none
  · exact ⟨_, follow_of_closed (read_of_close h hnone)⟩
  · -- The text in front of the brace comes first, and the closing waits for the next call.
    obtain ⟨hmode, htext⟩ := not_or.mp hnone
    obtain ⟨event, ht⟩ := Option.ne_none_iff_exists'.mp htext
    obtain hnested : modes 0 = .nested := by
      cases hm : modes 0 with
      | topLevel => exact absurd hm hmode
      | nested => rfl
    rw [hnested] at h ht ⊢
    have hread : next ⟨c, none⟩ (modes 0) = _ :=
      (congrArg (read · c) hnested).trans (read_of_close_of_some h ht)
    obtain ⟨-, rfl⟩ := textEvent?_eq_some ht
    refine ⟨fun n => modes (n + 2), ?_⟩
    rw [follow_of_event hread, if_neg (by simp [Declaration.depthAfter])]
    exact follow_of_closed rfl

end

/-- Reading on ends as a search for the closing brace does: at the same brace and with the same text
ahead, or without one. -/
def Meets (o : Outcome) (r : Option Nat × Cursor .char) : Prop :=
  (∃ place, r.1 = some place.offset ∧ o = .closed (.closed place) ⟨r.2.skipTrivia, none⟩) ∨
    (r.1 = none ∧ ∃ depth, o = .ended (depth + 1))

/-- **Reading on comes to the brace that a search from the same place finds**, in any modes. -/
theorem follow_meets (modes : Nat → ScanMode) (inner : Nat) (c : Cursor .char) :
    Meets (follow modes (inner + 1) ⟨c, none⟩) (c.closingBrace inner) := by
  induction hn : c.rest.length using Nat.strong_induction_on generalizing modes inner c with
  | _ n ih =>
      rw [← c.closingBrace_stretch (modes 0) inner]
      obtain ⟨ps, -, -, -, hend⟩ := c.reads_stretch (modes 0).isBoundary
      rcases hend with hnone | ⟨b, c', hnext, hb⟩
      · rw [Cursor.closingBrace_of_none hnone, follow_of_end hnone]
        exact Or.inr ⟨rfl, inner, rfl⟩
      · -- The search goes on behind the boundary, and may begin behind the trivia there.
        have hrest : ∀ modes' k,
            Meets (follow modes' (k + 1) ⟨c'.skipTrivia, none⟩) (c'.closingBrace k) := by
          intro modes' k
          have h1 := c'.length_skipTrivia_le
          have h2 := Cursor.length_lt_of_next? hnext
          have h3 := c.length_stretch_le (modes 0).isBoundary
          rw [← c'.closingBrace_skipTrivia k]
          exact ih _ (by omega) modes' k c'.skipTrivia rfl
        rcases Marked.boundary_cases hb with rfl | rfl | rfl
        · rw [Cursor.closingBrace_of_opening hnext, follow_of_opening hnext]
          exact hrest _ (inner + 1)
        · obtain ⟨modes', hfollow⟩ := exists_follow_of_closing (d := inner) hnext
          rw [Cursor.closingBrace_of_closing hnext, hfollow]
          cases inner with
          | zero => exact Or.inl ⟨_, rfl, rfl⟩
          | succ outer => exact hrest modes' outer
        · obtain ⟨modes', hfollow⟩ := exists_follow_of_semicolon (d := inner) hnext
          rw [Cursor.closingBrace_of_other hnext (by simp) (by simp), hfollow]
          exact hrest modes' inner

/-! ### Where the events stand in the text -/

/-- The events of a text after any calls: the next event in either mode, or the rest of a block
skipped. -/
inductive Reached (text : String) : Events → Prop where
  | start : Reached text (.ofText text)
  | next {e : Events} (mode : ScanMode) (h : Reached text e) : Reached text (e.next mode).2
  | skip {e : Events} (h : Reached text e) : Reached text e.skipBlock.2

/-- The events stand in a text, and only a closing waits. -/
structure Within (text : String) (e : Events) : Prop where
  reads : ∃ ps, (Cursor.ofText text.toList).Reads ps e.cursor
  queued : ∀ event, e.queued = some event → ∃ place, event = .closed place

/-- A stretch, what ends it and the trivia behind that are read one after the other. -/
theorem reads_behind {mode : ScanMode} {c c' : Cursor .char} {p : Piece}
    (h : (c.stretch mode.isBoundary).2.next? = some (p, c')) :
    ∃ ps, c.Reads ps c'.skipTrivia := by
  obtain ⟨ps, hps, -⟩ := c.reads_stretch mode.isBoundary
  obtain ⟨qs, hqs, -⟩ := c'.reads_skipTrivia
  exact ⟨_, hps.trans (hqs.cons h)⟩

theorem reads_read (mode : ScanMode) (c : Cursor .char) :
    (∃ ps, c.Reads ps (read mode c).2.cursor) ∧
      ∀ event, (read mode c).2.queued = some event → ∃ place, event = .closed place := by
  fun_induction read mode c with
  | case1 c s text hn =>
      obtain ⟨ps, hps, -⟩ := c.reads_stretch mode.isBoundary
      exact ⟨⟨ps, hps⟩, by simp⟩
  | case2 c s text c' hn => exact ⟨reads_behind hn, by simp⟩
  | case3 c s text c' hn close ev hev => exact ⟨reads_behind hn, by simp [close]⟩
  | case4 c s text c' hn close => exact ⟨reads_behind hn, by simp⟩
  | case5 c s text p c' _ _ hn ev hev => exact ⟨reads_behind hn, by simp⟩
  | case6 c s text p c' _ _ hn hev ih =>
      obtain ⟨ps, hps⟩ := reads_behind hn
      obtain ⟨⟨qs, hqs⟩, hqueued⟩ := ih
      exact ⟨⟨_, hps.trans hqs⟩, hqueued⟩

namespace Within

variable {text : String} {e : Events}

theorem ofText (text : String) : (Events.ofText text).Within text := by
  obtain ⟨ps, hps, -⟩ := (Cursor.ofText text.toList).reads_skipTrivia
  exact ⟨⟨ps, hps⟩, by simp [Events.ofText]⟩

theorem next (h : e.Within text) (mode : ScanMode) : (e.next mode).2.Within text := by
  obtain ⟨⟨ps, hps⟩, -⟩ := h
  rcases hq : e.queued with _ | event
  · obtain ⟨⟨qs, hqs⟩, hqueued⟩ := reads_read mode e.cursor
    rw [next_of_not_queued hq]
    exact ⟨⟨_, hps.trans hqs⟩, hqueued⟩
  · rw [next_of_queued hq]
    exact ⟨⟨ps, hps⟩, by simp⟩

theorem skipBlock (h : e.Within text) : e.skipBlock.2.Within text := by
  obtain ⟨⟨ps, hps⟩, hqueued⟩ := h
  obtain ⟨qs, hqs⟩ := e.cursor.reads_closingBrace 0
  obtain ⟨rs, hrs, -⟩ := (e.cursor.closingBrace 0).2.reads_skipTrivia
  exact ⟨⟨_, (hps.trans hqs).trans hrs⟩, hqueued⟩

end Within

/-- **After any calls the events stand in their text.** -/
theorem Reached.within {text : String} {e : Events} (h : Reached text e) : e.Within text := by
  induction h with
  | start => exact .ofText text
  | next mode _ ih => exact ih.next mode
  | skip _ ih => exact ih.skipBlock

/-- A block that opens was read up to its brace. -/
theorem read_eq_opened {mode : ScanMode} {c : Cursor .char} {selector : String} {x : Location}
    {e : Events} (h : read mode c = (some (.opened selector x), e)) :
    ∃ ps c₁ c', c.Reads ps c₁ ∧ c₁.next? = some (.plain '{', c') ∧ c₁.location = x ∧
      e = ⟨c'.skipTrivia, none⟩ := by
  fun_induction read mode c with
  | case1 c s text hn =>
      obtain ⟨-, ht⟩ := textEvent?_eq_some (Prod.mk.inj h).1
      simp at ht
  | case2 c s text c' hn =>
      obtain ⟨⟨-, rfl⟩, rfl⟩ := by simpa using h
      obtain ⟨ps, hps, -⟩ := c.reads_stretch mode.isBoundary
      exact ⟨ps, _, c', hps, hn, rfl, rfl⟩
  | case3 c s text c' hn close ev hev =>
      obtain ⟨-, rfl⟩ := textEvent?_eq_some hev
      simp at h
  | case4 c s text c' hn close => simp [close] at h
  | case5 c s text p c' _ _ hn ev hev =>
      obtain ⟨-, rfl⟩ := textEvent?_eq_some hev
      simp at h
  | case6 c s text p c' _ _ hn hev ih =>
      obtain ⟨ps, hps⟩ := reads_behind hn
      obtain ⟨qs, c₁, c'', hqs, hnext, hx, he⟩ := ih h
      exact ⟨_, c₁, c'', hps.trans hqs, hnext, hx, he⟩

/-- The search in the whole text begins right behind the brace of a block that opens. -/
theorem Within.matchingBrace?_eq {text : String} {e₀ e : Events} {mode : ScanMode}
    {selector : String} {x : Location} (h : e₀.Within text)
    (hopen : e₀.next mode = (some (.opened selector x), e)) :
    e.queued = none ∧ matchingBrace? text x.offset = (e.cursor.closingBrace 0).1 := by
  have hread : read mode e₀.cursor = (some (.opened selector x), e) := by
    rcases hq : e₀.queued with _ | event
    · rwa [next_of_not_queued hq] at hopen
    · obtain ⟨place, rfl⟩ := h.queued event hq
      rw [next_of_queued hq] at hopen
      simp at hopen
  obtain ⟨ps, c₁, c', hps, hnext, rfl, rfl⟩ := read_eq_opened hread
  obtain ⟨qs, hqs⟩ := h.reads
  have hfront := hqs.trans hps
  have hbehind := hfront.trans (.of_next? hnext)
  -- The text is cut at the brace.
  have htext : text = String.ofList (written (qs ++ ps) ++ '{' :: c'.rest) := by
    have hbrace := Cursor.text_append_of_next? hnext
    rw [← String.toList_inj, String.toList_ofList]
    exact hfront.rest.trans (congrArg _ hbrace.symm)
  have hoffset : c₁.location.offset = bytes (written (qs ++ ps)) := by
    rw [hfront.location, Location.offset_past]
    exact Nat.zero_add _
  have hcursor : c' = ⟨c'.rest, .past .char .start (written (qs ++ ps) ++ ['{']), 0⟩ := by
    have hplace := hbehind.location
    rw [written_append] at hplace
    have hparens := Cursor.parens_of_brace hnext (Or.inl rfl)
    rw [← hparens]
    exact congrArg (fun l => (⟨c'.rest, l, c'.parens⟩ : Cursor .char)) hplace
  refine ⟨rfl, ?_⟩
  rw [Cursor.closingBrace_skipTrivia, hoffset, hcursor, htext, matchingBrace?_eq_closingBrace]

end Events

open Events

/-- **The three ways to the end of a block agree.**  When a block has just opened, after any calls on
the events of a text, either it closes for all three or for none.  If it closes, the search in the
text finds the brace with which the count of open blocks comes to zero, and the block is skipped up
to where the events stand after that brace, in whatever modes they are read on. -/
theorem blockEnd_agrees {text : String} {e₀ e : Events} {mode : ScanMode} {selector : String}
    {x : Location} (h : Reached text e₀)
    (hopen : e₀.next mode = (some (.opened selector x), e)) :
    (∃ offset after, matchingBrace? text x.offset = some offset ∧
        e.skipBlock = (true, after) ∧ after.queued = none ∧
        ∀ modes, ∃ place, place.offset = offset ∧ e.follow modes 1 = .closed (.closed place) after) ∨
      (matchingBrace? text x.offset = none ∧ e.skipBlock.1 = false ∧
        ∀ modes, ∃ depth, e.follow modes 1 = .ended (depth + 1)) := by
  obtain ⟨hqueued, hsearch⟩ := h.within.matchingBrace?_eq hopen
  obtain ⟨c, queued⟩ := e
  obtain rfl : queued = none := hqueued
  have hmeets := fun modes => follow_meets modes 0 c
  have hskip : Events.skipBlock ⟨c, none⟩
      = ((c.closingBrace 0).1.isSome, ⟨(c.closingBrace 0).2.skipTrivia, none⟩) := rfl
  rw [hsearch, hskip]
  rcases hr : c.closingBrace 0 with ⟨_ | offset, after⟩
  · refine Or.inr ⟨rfl, rfl, ?_⟩
    intro modes
    rcases hmeets modes with ⟨place, hplace, -⟩ | ⟨-, hended⟩
    · simp [hr] at hplace
    · exact hended
  · refine Or.inl ⟨offset, ⟨after.skipTrivia, none⟩, rfl, rfl, rfl, ?_⟩
    intro modes
    rcases hmeets modes with ⟨place, hplace, hclosed⟩ | ⟨hnone, -⟩
    · rw [hr] at hplace hclosed
      exact ⟨place, (Option.some.inj hplace).symm, hclosed⟩
    · simp [hr] at hnone

/-- Behind a block that was skipped another one opens, with a brace in a comment and a block in it: it
is skipped whole, and reading on comes to the brace that the search finds. -/
theorem blockEnd_agrees_skipped :
    ((ofText "p\x7bq\x7da\x7bb\x7bc;d\x7d/*\x7d*/e\x7d").next .topLevel).2.skipBlock.2.next .topLevel
        = (some (.opened "a" ⟨1, 6, 5⟩), ⟨⟨"b\x7bc;d\x7d/*\x7d*/e\x7d".toList, ⟨1, 7, 6⟩, 0⟩, none⟩) ∧
      matchingBrace? "p\x7bq\x7da\x7bb\x7bc;d\x7d/*\x7d*/e\x7d" 5 = some 18 ∧
      ∃ place after, place.offset = 18 ∧
        skipBlock ⟨⟨"b\x7bc;d\x7d/*\x7d*/e\x7d".toList, ⟨1, 7, 6⟩, 0⟩, none⟩ = (true, after) ∧
        follow (fun n => if n = 1 then .topLevel else .nested) 1
          ⟨⟨"b\x7bc;d\x7d/*\x7d*/e\x7d".toList, ⟨1, 7, 6⟩, 0⟩, none⟩ = .closed (.closed place) after := by
  have hopen : ((ofText "p\x7bq\x7da\x7bb\x7bc;d\x7d/*\x7d*/e\x7d").next .topLevel).2.skipBlock.2.next .topLevel
      = (some (.opened "a" ⟨1, 6, 5⟩), ⟨⟨"b\x7bc;d\x7d/*\x7d*/e\x7d".toList, ⟨1, 7, 6⟩, 0⟩, none⟩) := by
    decide +kernel
  have hsearch : matchingBrace? "p\x7bq\x7da\x7bb\x7bc;d\x7d/*\x7d*/e\x7d" 5 = some 18 := by decide +kernel
  rcases blockEnd_agrees (.skip (.next .topLevel .start)) hopen with
    ⟨offset, after, hfound, hskip, -, hfollow⟩ | ⟨hnone, -⟩
  · obtain rfl : offset = 18 := Option.some.inj (hfound.symm.trans hsearch)
    obtain ⟨place, hplace, hclosed⟩ := hfollow fun n => if n = 1 then .topLevel else .nested
    exact ⟨hopen, hsearch, place, after, hplace, hskip, hclosed⟩
  · exact absurd (hnone.symm.trans hsearch) (by simp)

end FlatSheet
