/-
Any calls on the events of a sheet.

Whoever reads a sheet decides at every moment whether to take the next event, and in which
mode, or to skip the rest of a block.  Whatever is decided, reading comes to an end: an
event takes something off what is to come (`Events.size`), skipping adds nothing to it,
and no call leads back in the text.

A call that answers no event has found nothing to come, neither text nor a closing that
waits.  From then on there is nothing to answer.
-/
import FlatSheet.Proofs.Place

namespace FlatSheet

open Scan

namespace Events

/-- A call on the events of a sheet. -/
inductive Call where
  | next (mode : ScanMode)
  | skip
  deriving DecidableEq

/-- What a call is answered with. -/
inductive Answer where
  /-- The next event, if there is one. -/
  | event (event? : Option Event)
  /-- Whether the block that was skipped is closed. -/
  | skipped (closed : Bool)
  deriving DecidableEq

namespace Answer

/-- The answer is an event. -/
def isEvent : Answer → Bool
  | event event? => event?.isSome
  | skipped _ => false

/-- The answer says that there is nothing to answer. -/
def isNothing : Answer → Bool
  | event event? => event?.isNone
  | skipped closed => !closed

end Answer

/-- Answers a call. -/
def answer (e : Events) : Call → Answer × Events
  | .next mode => (.event (e.next mode).1, (e.next mode).2)
  | .skip => (.skipped e.skipBlock.1, e.skipBlock.2)

/-- The events after some calls. -/
def after (e : Events) (calls : List Call) : Events :=
  calls.foldl (fun e call => (e.answer call).2) e

/-- The answers to some calls. -/
def answers (e : Events) : List Call → List Answer
  | [] => []
  | call :: calls => (e.answer call).1 :: (e.answer call).2.answers calls

@[simp] theorem answer_next (e : Events) (mode : ScanMode) :
    e.answer (.next mode) = (.event (e.next mode).1, (e.next mode).2) := rfl

@[simp] theorem answer_skip (e : Events) :
    e.answer .skip = (.skipped e.skipBlock.1, e.skipBlock.2) := rfl

@[simp] theorem after_nil (e : Events) : e.after [] = e := rfl

@[simp] theorem after_cons (e : Events) (call : Call) (calls : List Call) :
    e.after (call :: calls) = (e.answer call).2.after calls := rfl

@[simp] theorem after_append (e : Events) (before more : List Call) :
    e.after (before ++ more) = (e.after before).after more := by
  simp [after]

theorem Reached.answer {text : String} {e : Events} (h : Reached text e) (call : Call) :
    Reached text (e.answer call).2 := by
  cases call with
  | next mode => exact h.next mode
  | skip => exact h.skip

theorem Reached.after {text : String} {e : Events} (h : Reached text e) (calls : List Call) :
    Reached text (e.after calls) := by
  induction calls generalizing e with
  | nil => exact h
  | cons call calls ih => exact ih (h.answer call)

/-- What is reached in a text is what there is after some calls. -/
theorem reached_iff {text : String} {e : Events} :
    Reached text e ↔ ∃ calls, e = (ofText text).after calls := by
  constructor
  · intro h
    induction h with
    | start => exact ⟨[], rfl⟩
    | next mode _ ih =>
        obtain ⟨calls, rfl⟩ := ih
        exact ⟨calls ++ [.next mode], by rw [after_append]; rfl⟩
    | skip _ ih =>
        obtain ⟨calls, rfl⟩ := ih
        exact ⟨calls ++ [.skip], by rw [after_append]; rfl⟩
  · rintro ⟨calls, rfl⟩
    exact Reached.start.after calls

/-! ### No call leads back -/

theorem reads_answer (e : Events) (call : Call) :
    ∃ ps, e.cursor.Reads ps (e.answer call).2.cursor := by
  cases call with
  | next mode =>
      show ∃ ps, e.cursor.Reads ps (e.next mode).2.cursor
      rcases hq : e.queued with _ | event
      · rw [next_of_not_queued hq]
        exact (reads_read mode e.cursor).1
      · rw [next_of_queued hq]
        exact ⟨[], .refl e.cursor⟩
  | skip =>
      obtain ⟨ps, hps⟩ := e.cursor.reads_closingBrace 0
      obtain ⟨qs, hqs, -⟩ := (e.cursor.closingBrace 0).2.reads_skipTrivia
      exact ⟨ps ++ qs, hps.trans hqs⟩

/-- Where a call leads to not more is ahead. -/
theorem length_answer_le (e : Events) (call : Call) :
    (e.answer call).2.cursor.rest.length ≤ e.cursor.rest.length := by
  obtain ⟨ps, hps⟩ := e.reads_answer call
  exact hps.length_le

theorem length_le_of_next {e e' : Events} {mode : ScanMode} {event? : Option Event}
    (h : e.next mode = (event?, e')) : e'.cursor.rest.length ≤ e.cursor.rest.length := by
  have hle := e.length_answer_le (.next mode)
  rwa [answer_next, h] at hle

/-- Where a block opens its brace is passed. -/
theorem Within.length_lt {text : String} {e e' : Events} {mode : ScanMode} {selector : String}
    {l : Location} (h : e.Within text) (hopen : e.next mode = (some (.opened selector l), e')) :
    e'.cursor.rest.length < e.cursor.rest.length := by
  rcases hq : e.queued with _ | event
  · rw [next_of_not_queued hq] at hopen
    obtain ⟨ps, c₁, c', hps, hnext, -, rfl⟩ := read_eq_opened hopen
    have hskip := c'.length_skipTrivia_le
    have hbrace := Cursor.length_lt_of_next? hnext
    have hfront := hps.length_le
    show c'.skipTrivia.rest.length < e.cursor.rest.length
    omega
  · obtain ⟨place, rfl⟩ := h.queued event hq
    rw [next_of_queued hq] at hopen
    simp at hopen

theorem reads_after (e : Events) (calls : List Call) :
    ∃ ps, e.cursor.Reads ps (e.after calls).cursor := by
  induction calls generalizing e with
  | nil => exact ⟨[], .refl e.cursor⟩
  | cons call calls ih =>
      obtain ⟨ps, hps⟩ := e.reads_answer call
      obtain ⟨qs, hqs⟩ := ih (e.answer call).2
      exact ⟨ps ++ qs, hps.trans hqs⟩

/-- **No calls lead back in the text.** -/
theorem offset_le_after (e : Events) (calls : List Call) :
    e.cursor.location.offset ≤ (e.after calls).cursor.location.offset := by
  obtain ⟨ps, hps⟩ := e.reads_after calls
  rw [hps.location]
  exact Location.offset_le_past .char e.cursor.location (written ps)

/-! ### After the last event -/

/-- Nothing is to come any more. -/
structure Finished (e : Events) : Prop where
  queued : e.queued = none
  rest : e.cursor.rest = []

theorem finished_of_read {mode : ScanMode} {c : Cursor .char} {e : Events}
    (h : read mode c = (none, e)) : e.Finished := by
  fun_induction read mode c with
  | case1 c s text hn =>
      obtain ⟨-, rfl⟩ := by simpa using h
      exact ⟨rfl, Cursor.next?_eq_none_iff.mp hn⟩
  | case2 c s text c' hn => simp at h
  | case3 c s text c' hn close ev hev => simp at h
  | case4 c s text c' hn close => simp at h
  | case5 c s text p c' _ _ hn ev hev => simp at h
  | case6 c s text p c' _ _ hn hev ih => exact ih h

/-- A call that answers no event leaves nothing to come. -/
theorem finished_of_next {mode : ScanMode} {e e' : Events} (h : e.next mode = (none, e')) :
    e'.Finished := by
  rcases hq : e.queued with _ | event
  · rw [next_of_not_queued hq] at h
    exact finished_of_read h
  · rw [next_of_queued hq] at h
    cases h

theorem Finished.size {e : Events} (h : e.Finished) : e.size = 0 := by
  rw [Events.size, h.queued, h.rest]
  rfl

theorem Finished.closingBrace {e : Events} (h : e.Finished) :
    e.cursor.closingBrace 0 = (none, e.cursor) :=
  Cursor.closingBrace_of_none (Cursor.next?_eq_none_iff.mpr h.rest)

/-- When nothing is to come a call is answered with nothing, and nothing is to come then. -/
theorem Finished.answer {e : Events} (h : e.Finished) (call : Call) :
    (e.answer call).1.isNothing = true ∧ (e.answer call).2.Finished := by
  cases call with
  | next mode =>
      rw [answer_next, next_of_rest_eq_nil h.queued h.rest mode]
      exact ⟨rfl, h⟩
  | skip =>
      have htrivia := e.cursor.length_skipTrivia_le
      rw [h.rest, List.length_nil, Nat.le_zero, List.length_eq_zero_iff] at htrivia
      rw [answer_skip, skipBlock, h.closingBrace]
      exact ⟨rfl, h.queued, htrivia⟩

/-- **After the last event all calls are answered with nothing.** -/
theorem Finished.answers {e : Events} (h : e.Finished) (calls : List Call) :
    ∀ a ∈ e.answers calls, a.isNothing = true := by
  induction calls generalizing e with
  | nil => simp [Events.answers]
  | cons call calls ih =>
      obtain ⟨hnothing, hafter⟩ := h.answer call
      exact List.forall_mem_cons.mpr ⟨hnothing, ih hafter⟩

theorem Finished.after {e : Events} (h : e.Finished) (calls : List Call) :
    (e.after calls).Finished := by
  induction calls generalizing e with
  | nil => exact h
  | cons call calls ih => exact ih (h.answer call).2

/-- When a call was answered with no event, nothing is to come behind the calls. -/
theorem finished_after {e : Events} {calls : List Call} (h : .event none ∈ e.answers calls) :
    (e.after calls).Finished := by
  induction calls generalizing e with
  | nil => simp [Events.answers] at h
  | cons call calls ih =>
      rcases List.mem_cons.mp h with hcall | hcalls
      · cases call with
        | next mode =>
            have hnone : e.next mode = (none, (e.next mode).2) :=
              Prod.ext (Answer.event.inj hcall).symm rfl
            exact (finished_of_next hnone).after calls
        | skip => cases hcall
      · exact ih hcalls

/-! ### Events run out -/

/-- An event takes something off what is to come, and no other answer adds to it. -/
theorem size_answer_le (e : Events) (call : Call) :
    (e.answer call).2.size + (if (e.answer call).1.isEvent then 1 else 0) ≤ e.size := by
  cases call with
  | next mode =>
      show (e.next mode).2.size + (if (e.next mode).1.isSome then 1 else 0) ≤ e.size
      rcases hn : e.next mode with ⟨_ | event, e'⟩
      · exact Nat.le_trans (Nat.le_of_eq (finished_of_next hn).size) (Nat.zero_le e.size)
      · exact size_next_lt hn
  | skip => exact size_skipBlock_le e

/-- The events that calls are answered with, and those still to come then, were to come before. -/
theorem countP_answers_le (e : Events) (calls : List Call) :
    (e.answers calls).countP Answer.isEvent + (e.after calls).size ≤ e.size := by
  induction calls generalizing e with
  | nil => exact Nat.le_of_eq (Nat.zero_add e.size)
  | cons call calls ih =>
      have hcall := e.size_answer_le call
      have hcalls := ih (e.answer call).2
      rw [answers, List.countP_cons, after_cons]
      omega

theorem size_ofText_le (text : String) : (ofText text).size ≤ 2 * text.utf8ByteSize := by
  have hskip := (Cursor.ofText text.toList).length_skipTrivia_le
  have hbytes := length_le_bytes text.toList
  rw [bytes_toList] at hbytes
  have hsize : (ofText text).size = 2 * (Cursor.ofText text.toList).skipTrivia.rest.length := rfl
  have hrest : (Cursor.ofText text.toList).rest = text.toList := rfl
  rw [hrest] at hskip
  omega

end Events

end FlatSheet
