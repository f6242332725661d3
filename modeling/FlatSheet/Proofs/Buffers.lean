/-
What a run of calls leaves in the buffers of a sink.

A sink is used for some time: sheets are injected, texts are appended, buffers are looked
at and cleared.  A buffer holds then what was written to it since it was last cleared, in
the order in which it was written, and it is there exactly if something was (`holds_after`).
A text that is empty counts as written: it makes a buffer where there was none.

The calls are looked at from their end.  The last call either clears the buffer, and then
nothing has been written since, or it adds at most one text to what was written before
(`written_concat`), and the sink does the same (`get?_answer`).
-/
import FlatSheet.Sink
import Mathlib.Data.Finset.Card
import Mathlib.Data.List.DropRight

namespace FlatSheet

namespace Sink

/-- A call on a sink. -/
inductive Call where
  | inject (source : String)
  | injectInto (key source : String)
  | configure (enable : Bool)
  | append (key css : String)
  | get (key : String)
  | clear (key : String)
  | clearAll
  | contains (key : String)
  deriving DecidableEq

/-- What a call is answered with. -/
inductive Answer where
  | done
  /-- What a buffer holds, if it is there. -/
  | text (text? : Option String)
  /-- Whether a buffer is there. -/
  | found (there : Bool)
  deriving DecidableEq

/-- Answers a call. -/
def answer (s : Sink) : Call → Answer × Sink
  | .inject source => (.done, (s.inject source).value)
  | .injectInto key source => (.done, (s.injectInto key source).value)
  | .configure enable => (.done, (s.configure enable).value)
  | .append key css => (.done, s.append key css)
  | .get key => (.text (s.get? key), s)
  | .clear key => (.found (s.clear key).1, (s.clear key).2)
  | .clearAll => (.done, s.clearAll)
  | .contains key => (.found (s.contains key), s)

/-- The sink after some calls. -/
def after (s : Sink) (calls : List Call) : Sink :=
  calls.foldl (fun s call => (s.answer call).2) s

namespace Call

/-- The buffer that a call is about.  One call is about all of them. -/
def key? : Call → Option String
  | inject _ | configure _ => some defaultKey
  | injectInto key _ | append key _ | get key | clear key | contains key => some key
  | clearAll => none

/-- The text that a call writes to its buffer. -/
def text? : Call → Option String
  | inject source | injectInto _ source => some (process source)
  | configure enable => if enable then some (process baseReset) else none
  | append _ css => some css
  | get _ | clear _ | clearAll | contains _ => none

/-- The text that a call writes to a buffer. -/
def textFor? (key : String) (call : Call) : Option String :=
  if call.key? = some key then call.text? else none

/-- The call clears a buffer. -/
def clears (key : String) : Call → Bool
  | clear other => other = key
  | clearAll => true
  | _ => false

end Call

/-- The texts that were written to a buffer since it was last cleared. -/
def written (key : String) (calls : List Call) : List String :=
  (calls.rtakeWhile fun call => !call.clears key).filterMap (Call.textFor? key)

/-- A sink holds the texts that were written to each buffer. -/
structure Holds (s : Sink) (texts : String → List String) : Prop where
  /-- A buffer is there if something was written to it. -/
  contains : ∀ key, s.contains key = true ↔ texts key ≠ []
  /-- It holds all of that, one text after the other. -/
  get? : ∀ key, s.get? key = if texts key = [] then none else some (String.join (texts key))
  size : ∃ keys : Finset String, (∀ key, key ∈ keys ↔ s.contains key = true) ∧ s.size = keys.card
  /-- Clearing a buffer answers whether it was there. -/
  clear : ∀ key, (s.answer (.clear key)).1 = .found (decide (texts key ≠ []))
  /-- A call leaves the buffers alone that it is not about. -/
  frame : ∀ call key, call ≠ .clearAll → call.key? ≠ some key →
    (s.answer call).2.get? key = s.get? key

/-! ### One call -/

section

variable {key : String} {call : Call}

@[simp] theorem written_nil (key : String) : written key [] = [] := by
  simp [written]

/-- A call that clears a buffer leaves nothing in it, and any other adds what it writes. -/
theorem written_concat (key : String) (calls : List Call) (call : Call) :
    written key (calls ++ [call])
      = if call.clears key then [] else written key calls ++ (call.textFor? key).toList := by
  unfold written
  rw [List.rtakeWhile_concat]
  by_cases h : call.clears key = true
  · simp [h]
  · simp only [h, Bool.false_eq_true, Bool.not_false, if_true, if_false]
    rw [List.filterMap_append]
    cases hw : call.textFor? key <;> simp [hw]

/-- A call writes a text to its buffer, or it clears buffers, or it changes nothing. -/
theorem answer_cases (s : Sink) (call : Call) :
    (∃ key css, call.key? = some key ∧ call.text? = some css ∧
        (∀ other, call.clears other = false) ∧ (s.answer call).2 = s.append key css) ∨
      (∃ key, call = .clear key) ∨ call = .clearAll ∨
      (call.text? = none ∧ (∀ other, call.clears other = false) ∧ (s.answer call).2 = s) := by
  cases call with
  | inject source =>
      exact Or.inl ⟨defaultKey, process source, rfl, rfl, fun _ => rfl, rfl⟩
  | injectInto key source =>
      exact Or.inl ⟨key, process source, rfl, rfl, fun _ => rfl, rfl⟩
  | append key css => exact Or.inl ⟨key, css, rfl, rfl, fun _ => rfl, rfl⟩
  | configure enable =>
      cases enable with
      | true => exact Or.inl ⟨defaultKey, process baseReset, rfl, rfl, fun _ => rfl, rfl⟩
      | false => exact Or.inr (Or.inr (Or.inr ⟨rfl, fun _ => rfl, rfl⟩))
  | clear key => exact Or.inr (Or.inl ⟨key, rfl⟩)
  | clearAll => exact Or.inr (Or.inr (Or.inl rfl))
  | get key => exact Or.inr (Or.inr (Or.inr ⟨rfl, fun _ => rfl, rfl⟩))
  | contains key => exact Or.inr (Or.inr (Or.inr ⟨rfl, fun _ => rfl, rfl⟩))

/-- **What a call makes of a buffer.** -/
theorem get?_answer (s : Sink) (call : Call) (key : String) :
    (s.answer call).2.get? key
      = if call.clears key then none
        else match call.textFor? key with
          | some css => some ((s.get? key).getD "" ++ css)
          | none => s.get? key := by
  rcases answer_cases s call with
    ⟨other, css, hkey, htext, hclears, hafter⟩ | ⟨other, rfl⟩ | rfl | ⟨htext, hclears, hafter⟩
  · rw [hafter, hclears, Call.textFor?, hkey, htext]
    by_cases h : other = key
    · subst h
      simp
    · simp [h, get?_append_of_ne h]
  · by_cases h : other = key
    · subst h
      simp [answer, Call.clears]
    · simp [answer, Call.clears, Call.textFor?, Call.text?, h, get?_clear_of_ne h]
  · simp [answer, clearAll, Call.clears]
  · rw [hafter, hclears]
    simp [Call.textFor?, htext]

/-- A call leaves the buffers alone that it is not about. -/
theorem get?_answer_of_ne (s : Sink) (hall : call ≠ .clearAll) (h : call.key? ≠ some key) :
    (s.answer call).2.get? key = s.get? key := by
  have hclears : call.clears key = false := by
    cases call with
    | clear other => simpa [Call.clears, Call.key?] using h
    | clearAll => exact absurd rfl hall
    | _ => rfl
  simp [get?_answer, hclears, Call.textFor?, h]

end

/-! ### A run of calls -/

/-- **A buffer holds what was written to it since it was last cleared.** -/
theorem get?_after (calls : List Call) (key : String) :
    (empty.after calls).get? key
      = if written key calls = [] then none else some (String.join (written key calls)) := by
  -- The induction is on the last call: it is the one that decides what counts as written.
  induction calls using List.reverseRecOn with
  | nil => simp [after]
  | append_singleton calls call ih =>
      have hlast : empty.after (calls ++ [call]) = ((empty.after calls).answer call).2 := by
        simp [after]
      rw [hlast, get?_answer, written_concat, ih]
      by_cases hclears : call.clears key = true
      · simp [hclears]
      · cases htext : call.textFor? key with
        | none => simp [hclears]
        | some css =>
            by_cases hnone : written key calls = []
            · simp [hclears, hnone]
            · simp [hclears, hnone]

/-- The size of a sink is the number of its buffers. -/
theorem exists_keys (s : Sink) :
    ∃ keys : Finset String, (∀ key, key ∈ keys ↔ s.contains key = true) ∧ s.size = keys.card := by
  refine ⟨s.buffers.keys.toFinset, ?_, ?_⟩
  · intro key
    simp [contains]
  · rw [List.toFinset_card_of_nodup Std.HashMap.nodup_keys, Std.HashMap.length_keys]
    rfl

theorem contains_after (calls : List Call) (key : String) :
    (empty.after calls).contains key = true ↔ written key calls ≠ [] := by
  rw [contains_eq_isSome_get?, get?_after]
  by_cases h : written key calls = []
  · simp [h]
  · simp [h]

/-- **After any calls a sink holds, under each key, what was written there since it was last cleared**,
and nothing else: a key is there if and only if something was written to it, even if that was the
empty text. -/
theorem holds_after (calls : List Call) :
    (empty.after calls).Holds fun key => written key calls where
  contains := contains_after calls
  get? := get?_after calls
  size := exists_keys _
  clear := by
    intro key
    have hthere := contains_after calls key
    by_cases h : written key calls = []
    · simp [answer, clear, h] at hthere ⊢
      exact hthere
    · simp [answer, clear, h] at hthere ⊢
      exact hthere
  frame := by
    intro call key hall hkey
    exact get?_answer_of_ne _ hall hkey

/-- A buffer that was cleared is there again after an empty text, and holds what came behind it.  When
it is cleared once more the other buffer stays what it is. -/
theorem holds_after_cleared :
    (empty.after [.append "a" "x", .configure true, .clear "a", .injectInto "a" "",
        .append "a" "y"]).get? "a" = some "y" ∧
      (empty.after [.append "a" "x", .configure true, .clear "a", .injectInto "a" "",
        .append "a" "y", .clear "a"]).get? defaultKey
          = some "body \x7b margin: 0; padding: 0; \x7d" := by
  refine ⟨?_, ?_⟩
  · rw [(holds_after _).get?]
    decide +kernel
  · have hframe := (holds_after [.append "a" "x", .configure true, .clear "a", .injectInto "a" "",
      .append "a" "y"]).frame (.clear "a") defaultKey (by simp) (by decide)
    refine hframe.trans ?_
    rw [(holds_after _).get?]
    decide +kernel

end Sink

end FlatSheet
