/-
The states that flattening goes through.

A step of flattening that is not the last one reads one event, and does one of four things
with it: it puts a text into a rule, it closes a block, it opens one, or it skips a block and
reports it (`step_eq_more`, `openBlock_eq_more`).  The last step halts at a block that never
closes, or finds nothing left to read (`step_eq_finished`).

Each block that is open took a brace of the sheet, and so never more are open than there
are bytes.
-/
import FlatSheet.Proofs.Calls
import FlatSheet.Proofs.Flattening

namespace FlatSheet

open Scan

namespace Flattening

/-- The states that flattening a sheet goes through. -/
inductive Running (source : String) : Flattening → Prop where
  | start : Running source (.ofText source)
  | step {s s' : Flattening} (h : Running source s) (hstep : s.step = .more s') : Running source s'

/-- The events are those of the sheet after some calls, and each open block took a brace of it. -/
structure InText (source : String) (s : Flattening) : Prop where
  events : Events.Reached source s.events
  frames : s.frames.length + s.events.cursor.rest.length ≤ source.toList.length

section

variable {source : String} {s s' : Flattening}

/-- What a step does that is not the last one. -/
theorem step_eq_more (h : s.step = .more s') :
    ∃ event e, s.events.next s.mode = (some event, e) ∧
      ((∃ text l, event = .text text l ∧ s' = { s with events := e }.addText text l) ∨
        (∃ l, event = .closed l ∧ s' = { s with events := e }.closeBlock l) ∨
        ∃ selector l, event = .opened selector l ∧
          { s with events := e }.openBlock selector l = .more s') := by
  rcases hn : s.events.next s.mode with ⟨_ | ⟨text, l⟩ | ⟨selector, l⟩ | ⟨l⟩, e⟩
  · rcases hc : s.checkpoint with _ | c
    · rw [step_of_end_outside hn hc] at h
      cases h
    · rw [step_of_end hn hc] at h
      cases h
  · rw [step_of_text hn] at h
    exact ⟨_, e, rfl, Or.inl ⟨text, l, rfl, (Progress.more.inj h).symm⟩⟩
  · rw [step_of_opened hn] at h
    exact ⟨_, e, rfl, Or.inr (Or.inr ⟨selector, l, rfl, h⟩)⟩
  · rw [step_of_closed hn] at h
    exact ⟨_, e, rfl, Or.inr (Or.inl ⟨l, rfl, (Progress.more.inj h).symm⟩)⟩

theorem discard_eq_more {d : Diagnostic} (h : s.discard d = .more s') :
    s' = { s with events := s.events.skipBlock.2 }.report d := by
  unfold discard at h
  dsimp only at h
  split at h
  · exact (Progress.more.inj h).symm
  · cases h

/-- A block that opens is skipped and reported, or it is one block more. -/
theorem openBlock_eq_more {selector : String} {l : Location}
    (h : s.openBlock selector l = .more s') :
    (∃ d, s.discard d = .more s') ∨
      ∃ checkpoint resolved, s' = { s with checkpoint }.pushFrame selector resolved := by
  unfold openBlock at h
  split at h
  · exact Or.inl ⟨_, h⟩
  · exact Or.inl ⟨_, h⟩
  · exact Or.inr ⟨_, _, (Progress.more.inj h).symm⟩
  · exact Or.inl ⟨_, h⟩
  · exact Or.inr ⟨s.checkpoint, none, (Progress.more.inj h).symm⟩

theorem discard_eq_finished {d : Diagnostic} (h : s.discard d = .finished s') :
    s' = { s with events := s.events.skipBlock.2 }.halt d.location := by
  unfold discard at h
  dsimp only at h
  split at h
  · cases h
  · exact (Progress.finished.inj h).symm

theorem openBlock_eq_finished {selector : String} {l : Location}
    (h : s.openBlock selector l = .finished s') :
    ∃ d, s.discard d = .finished s' := by
  unfold openBlock at h
  split at h
  · exact ⟨_, h⟩
  · exact ⟨_, h⟩
  · cases h
  · exact ⟨_, h⟩
  · cases h

/-- What the last step does: it halts, or it finds no block open at the end of the sheet. -/
theorem step_eq_finished (h : s.step = .finished s') :
    ∃ e, (∃ l, s' = { s with events := e }.halt l) ∨
      s.checkpoint = none ∧ s' = { s with events := e } := by
  rcases hn : s.events.next s.mode with ⟨_ | ⟨text, l⟩ | ⟨selector, l⟩ | ⟨l⟩, e⟩
  · rcases Option.eq_none_or_eq_some s.checkpoint with hc | ⟨c, hc⟩
    · rw [step_of_end_outside hn hc] at h
      exact ⟨e, Or.inr ⟨hc, (Progress.finished.inj h).symm⟩⟩
    · rw [step_of_end hn hc] at h
      exact ⟨e, Or.inl ⟨_, (Progress.finished.inj h).symm⟩⟩
  · rw [step_of_text hn] at h
    cases h
  · rw [step_of_opened hn] at h
    obtain ⟨d, hdiscard⟩ := openBlock_eq_finished h
    have hhalt := discard_eq_finished hdiscard
    exact ⟨e.skipBlock.2, Or.inl ⟨d.location, hhalt⟩⟩
  · rw [step_of_closed hn] at h
    cases h

theorem length_frames_addText (s : Flattening) (text : String) (l : Location) :
    (s.addText text l).frames.length = s.frames.length := by
  obtain ⟨_, frames, _, _, _, _⟩ := s
  cases frames <;> rfl

theorem length_frames_closeBlock_le (s : Flattening) (l : Location) :
    (s.closeBlock l).frames.length ≤ s.frames.length := by
  unfold closeBlock
  split
  next hf =>
    rw [frames_report, hf]
  next f outer hf =>
    rw [hf]
    exact Nat.le_succ _

theorem inText_ofText (source : String) : InText source (.ofText source) := by
  refine ⟨.start, ?_⟩
  show 0 + (Cursor.ofText source.toList).skipTrivia.rest.length ≤ source.toList.length
  rw [Nat.zero_add]
  exact (Cursor.ofText source.toList).length_skipTrivia_le

/-- **A step leaves each open block a brace of its own.** -/
theorem InText.step (h : InText source s) (hstep : s.step = .more s') : InText source s' := by
  obtain ⟨event, e, hn, hevent⟩ := step_eq_more hstep
  have hlength := Events.length_le_of_next hn
  have hframes := h.frames
  have hreached : Events.Reached source e := by
    have hnextReached := h.events.next s.mode
    rwa [hn] at hnextReached
  rcases hevent with ⟨text, l, -, rfl⟩ | ⟨l, -, rfl⟩ | ⟨selector, l, rfl, hopen⟩
  · refine ⟨?_, ?_⟩
    · rw [events_addText]
      exact hreached
    · rw [events_addText, length_frames_addText]
      show s.frames.length + e.cursor.rest.length ≤ _
      omega
  · have hclose : ({ s with events := e }.closeBlock l).frames.length ≤ s.frames.length :=
      length_frames_closeBlock_le { s with events := e } l
    refine ⟨?_, ?_⟩
    · rw [events_closeBlock]
      exact hreached
    · rw [events_closeBlock]
      show _ + e.cursor.rest.length ≤ _
      omega
  · rcases openBlock_eq_more hopen with ⟨d, hdiscard⟩ | ⟨checkpoint, resolved, rfl⟩
    · obtain rfl := discard_eq_more hdiscard
      have hskip : e.skipBlock.2.cursor.rest.length ≤ e.cursor.rest.length :=
        e.length_answer_le .skip
      refine ⟨?_, ?_⟩
      · rw [events_report]
        exact hreached.skip
      · rw [events_report, frames_report]
        show s.frames.length + e.skipBlock.2.cursor.rest.length ≤ _
        omega
    · have hbrace := h.events.within.length_lt hn
      refine ⟨hreached, ?_⟩
      show s.frames.length + 1 + e.cursor.rest.length ≤ _
      omega

theorem Running.inText (h : Running source s) : InText source s := by
  induction h with
  | start => exact inText_ofText source
  | step _ hstep ih => exact ih.step hstep

/-- **At no moment more blocks are open than the text has bytes.** -/
theorem Running.length_frames_le (h : Running source s) :
    s.frames.length ≤ source.utf8ByteSize := by
  have hframes := h.inText.frames
  have hbytes := length_le_bytes source.toList
  rw [bytes_toList] at hbytes
  omega

/-- A run goes through states up to one that has no step left. -/
theorem Running.exists_finished (h : Running source s) :
    ∃ t, Running source t ∧ t.step = .finished s.run := by
  fun_induction run s with
  | case1 s s' hstep ih => exact ih (.step h hstep)
  | case2 s s' hstep => exact ⟨s, h, hstep⟩

end

/-! ### States by their number -/

/-- The state after some steps, unless the run ends before. -/
def after? (source : String) : Nat → Option Flattening
  | 0 => some (.ofText source)
  | n + 1 => (after? source n).bind fun s =>
      match s.step with
      | .more s' => some s'
      | .finished _ => none

theorem running_of_after? {source : String} {s : Flattening} {n : Nat}
    (h : after? source n = some s) : Running source s := by
  induction n generalizing s with
  | zero =>
      obtain rfl := Option.some.inj h
      exact .start
  | succ n ih =>
      obtain ⟨t, ht, hstep⟩ := Option.bind_eq_some_iff.mp h
      rcases hs : t.step with t' | t'
      · rw [hs] at hstep
        obtain rfl := Option.some.inj hstep
        exact .step (ih ht) hs
      · rw [hs] at hstep
        cases hstep

end Flattening

end FlatSheet
