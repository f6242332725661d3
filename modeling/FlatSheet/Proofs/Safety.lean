/-
Nothing goes wrong, and everything ends.

The guarded reader gives up where a count leaves its range, where a part of a text is cut
out that is none, and where a loop takes too many turns.  What is offered to those who use
the library is done here by that reader, with the bytes of the text and one more as the
limit: any calls on the events of a text, the removal of comments, the search for a
matching brace and the collection of declarations.  It never gives up, and what it answers
is what the library answers.

Flattening is calls on the events of a sheet, too (`Flattening.Running.inText`), and the
stack of its blocks has no more of them than the sheet has bytes.
-/
import FlatSheet.Proofs.Declaration
import FlatSheet.Proofs.GuardedEvents
import FlatSheet.Proofs.MatchingBrace
import FlatSheet.Proofs.Running

namespace FlatSheet

open Scan

namespace Guarded

/-! ### Calls on the events -/

namespace Reader

/-- Answers a call. -/
def answer (limit : Nat) (text : List Char) (r : Reader) :
    Events.Call → Option (Events.Answer × Reader)
  | .next mode => (r.next limit text mode).map fun (event?, r) => (.event event?, r)
  | .skip => (r.skipBlock limit).map fun (closed, r) => (.skipped closed, r)

/-- The answers to some calls. -/
def answers (limit : Nat) (text : List Char) :
    Reader → List Events.Call → Option (List Events.Answer)
  | _, [] => some []
  | r, call :: calls => do
    let (answer, r) ← r.answer limit text call
    let answers ← r.answers limit text calls
    return answer :: answers

end Reader

/-- The answers to some calls on the events of a text. -/
def answers (limit : Nat) (source : String) (calls : List Events.Call) :
    Option (List Events.Answer) := do
  let r ← Reader.ofText limit source.toList
  r.answers limit source.toList calls

section

variable {limit : Nat} {text : List Char} {r : Reader} {e : Events}

theorem Follows.answer (hlimit : bytes text < limit) (h : Follows limit text r e)
    (call : Events.Call) :
    ∃ r', r.answer limit text call = some ((e.answer call).1, r') ∧
      Follows limit text r' (e.answer call).2 := by
  cases call with
  | next mode =>
      obtain ⟨r', hnext, hfollows⟩ := h.next hlimit mode
      refine ⟨r', ?_, hfollows⟩
      show (r.next limit text mode).map _ = _
      rw [hnext]
      rfl
  | skip =>
      obtain ⟨r', hskip, hfollows⟩ := h.skipBlock
      refine ⟨r', ?_, hfollows⟩
      show (r.skipBlock limit).map _ = _
      rw [hskip]
      rfl

/-- **Calls are answered alike.** -/
theorem Follows.answers (hlimit : bytes text < limit) (h : Follows limit text r e)
    (calls : List Events.Call) : r.answers limit text calls = some (e.answers calls) := by
  induction calls generalizing r e with
  | nil => rfl
  | cons call calls ih =>
      obtain ⟨r', hcall, hfollows⟩ := h.answer hlimit call
      show (r.answer limit text call).bind _ = _
      rw [hcall]
      show (r'.answers limit text calls).bind _ = _
      rw [ih hfollows]
      rfl

theorem Follows.after (hlimit : bytes text < limit) (h : Follows limit text r e)
    (calls : List Events.Call) : ∃ r', Follows limit text r' (e.after calls) := by
  induction calls generalizing r e with
  | nil => exact ⟨r, h⟩
  | cons call calls ih =>
      obtain ⟨r', -, hfollows⟩ := h.answer hlimit call
      exact ih hfollows

end

section

variable {limit : Nat} {source : String}

theorem answers_eq (hlimit : source.utf8ByteSize < limit) (calls : List Events.Call) :
    answers limit source calls = some ((Events.ofText source).answers calls) := by
  obtain ⟨r, hr, hfollows⟩ := follows_ofText hlimit
  show (Reader.ofText limit source.toList).bind _ = _
  rw [hr]
  exact hfollows.answers (by rwa [bytes_toList]) calls

-- Columns count from one, and so the number of bytes alone is no limit.
example : answers 3 "abc" [.next .nested] = none := by decide +kernel

/-- After any calls the counts of the cursor are in their bounds. -/
theorem fits_after (hlimit : source.utf8ByteSize < limit) (calls : List Events.Call) :
    ((Events.ofText source).after calls).cursor.location.line ≤ limit ∧
      ((Events.ofText source).after calls).cursor.location.column ≤ limit ∧
      ((Events.ofText source).after calls).cursor.parens ≤ limit := by
  obtain ⟨r, -, hfollows⟩ := follows_ofText hlimit
  obtain ⟨r', hafter⟩ := hfollows.after (by rwa [bytes_toList]) calls
  obtain ⟨⟨-, hlocation, hparens, hroom, hopen⟩, -, -, -, -⟩ := hafter
  rw [← hlocation, ← hparens]
  exact ⟨Nat.le_of_add_right_le hroom.line, Nat.le_of_add_right_le hroom.column,
    Nat.le_of_add_right_le hopen⟩

end

/-! ### Collecting declarations -/

/-- How many nested blocks are open after an event. -/
def depthAfter (limit depth : Nat) : Event → Option Nat
  | .opened _ _ => plus limit depth 1
  | event => some (Declaration.depthAfter depth event)

/-- The declarations among the events to come, when some nested blocks are open. -/
def collect (limit : Nat) (text : List Char) : Nat → Nat → Reader → Option (List String)
  | 0, _, _ => none
  | turns + 1, depth, r => do
    match ← r.next limit text .nested with
    | (some event, r) =>
      let depth' ← depthAfter limit depth event
      let declarations ← collect limit text turns depth' r
      return (Declaration.own? depth event).toList ++ declarations
    | (none, _) => return []

/-- The declarations of a block, given what stands between its braces. -/
def extractDeclarations (limit : Nat) (content : String) : Option (List String) := do
  let r ← Reader.ofText limit content.toList
  collect limit content.toList (2 * limit) 0 r

section

variable {limit turns depth : Nat} {text : List Char} {r r' : Reader}

theorem collect_of_none (h : r.next limit text .nested = some (none, r')) :
    collect limit text (turns + 1) depth r = some [] := by
  show (r.next limit text .nested).bind _ = _
  rw [h]
  rfl

theorem collect_of_event {event : Event} {depth' : Nat}
    (h : r.next limit text .nested = some (some event, r'))
    (hdepth : depthAfter limit depth event = some depth') :
    collect limit text (turns + 1) depth r
      = (collect limit text turns depth' r').map
          ((Declaration.own? depth event).toList ++ ·) := by
  show (r.next limit text .nested).bind _ = _
  rw [h]
  show (depthAfter limit depth event).bind _ = _
  rw [hdepth]
  show (collect limit text turns depth' r').bind _ = _
  rcases collect limit text turns depth' r' with _ | declarations
  · rfl
  · rfl

/-- **Blocks are counted alike.**  Each block that is open took a brace of the text. -/
theorem depthAfter_eq {source : String} {e e' : Events} {event : Event} (hin : e.Within source)
    (hn : e.next .nested = (some event, e'))
    (hdepth : depth + e.cursor.rest.length ≤ limit) :
    depthAfter limit depth event = some (Declaration.depthAfter depth event) ∧
      Declaration.depthAfter depth event + e'.cursor.rest.length ≤ limit := by
  have hlength := Events.length_le_of_next hn
  cases event with
  | text t l =>
      refine ⟨rfl, ?_⟩
      show depth + _ ≤ limit
      omega
  | opened selector l =>
      have hbrace := hin.length_lt hn
      refine ⟨plus_eq (by omega), ?_⟩
      show depth + 1 + _ ≤ limit
      omega
  | closed l =>
      refine ⟨rfl, ?_⟩
      show depth - 1 + _ ≤ limit
      omega

theorem Follows.collect {source : String} {e : Events} (hlimit : source.utf8ByteSize < limit)
    (h : Follows limit source.toList r e) (hin : e.Within source) (hturns : e.size < turns)
    (hdepth : depth + e.cursor.rest.length ≤ limit) :
    Guarded.collect limit source.toList turns depth r = some (Declaration.collect depth e) := by
  induction turns generalizing r e depth with
  | zero => exact absurd hturns (Nat.not_lt_zero _)
  | succ turns ih =>
      obtain ⟨r', hnext, hfollows⟩ := h.next (by rwa [bytes_toList]) .nested
      rcases hn : e.next .nested with ⟨_ | event, e'⟩
      · rw [hn] at hnext
        rw [collect_of_none hnext, Declaration.collect_of_none hn]
      · rw [hn] at hnext hfollows
        have hsize := Events.size_next_lt hn
        have hin' : e'.Within source := by
          have hnextIn := hin.next .nested
          rwa [hn] at hnextIn
        obtain ⟨hafter, hroom⟩ := depthAfter_eq hin hn hdepth
        have hrest : Guarded.collect limit source.toList turns
            (Declaration.depthAfter depth event) r'
              = some (Declaration.collect (Declaration.depthAfter depth event) e') :=
          ih hfollows hin' (Nat.lt_of_lt_of_le hsize (Nat.lt_succ_iff.mp hturns)) hroom
        rw [collect_of_event hnext hafter, Declaration.collect_of_event hn, hrest]
        rfl

theorem extractDeclarations_eq {content : String} (hlimit : content.utf8ByteSize < limit) :
    extractDeclarations limit content = some (FlatSheet.extractDeclarations content) := by
  obtain ⟨r, hr, hfollows⟩ := follows_ofText hlimit
  have hsize := Events.size_ofText_le content
  have hlength : 2 * (Events.ofText content).cursor.rest.length ≤ (Events.ofText content).size :=
    Nat.le_add_right _ _
  show (Reader.ofText limit content.toList).bind _ = _
  rw [hr]
  exact hfollows.collect hlimit (.ofText content) (by omega) (by omega)

end

/-! ### Matching braces -/

/-- The offset of the brace that closes the block opened at a byte offset.  The search begins behind
the opening brace. -/
def matchingBrace? (limit : Nat) (source : String) (opening : Nat) : Option (Option Nat) :=
  if (Text.Utf8.encode source)[opening]? = some '{'.toUInt8 then do
    let start ← plus limit opening 1
    let (closing?, _) ←
      closingBrace limit limit 1 (Cursor.between source start source.utf8ByteSize)
    return closing?
  else some none

theorem matchingBrace?_eq {limit : Nat} {source : String}
    (hlimit : source.utf8ByteSize < limit) (opening : Nat) :
    matchingBrace? limit source opening = some (FlatSheet.matchingBrace? source opening) := by
  unfold matchingBrace?
  by_cases hbrace : (Text.Utf8.encode source)[opening]? = some '{'.toUInt8
  · rw [if_pos hbrace]
    obtain ⟨front, after, rfl, rfl⟩ := getElem?_encode_eq_opening.mp hbrace
    have hsize : bytes (front ++ '{' :: after) < limit := hlimit
    have htext : front ++ '{' :: after = front ++ ['{'] ++ after := by simp
    have hstart : bytes front + 1 = bytes (front ++ ['{']) := by
      rw [bytes_append]
      rfl
    have hplus : plus limit (bytes front) 1 = some (bytes (front ++ ['{'])) := by
      rw [plus_eq, hstart]
      rw [htext, bytes_append] at hsize
      omega
    have htwin := @twin_between limit (front ++ ['{']) after (by rwa [← htext])
    rw [← htext] at htwin
    have hlength := htwin.length_lt
    obtain ⟨b, hclosing, -⟩ := @Twin.closingBrace limit limit _ _ 0 htwin hlength (by omega)
    show (plus limit (bytes front) 1).bind _ = _
    rw [hplus]
    show (closingBrace limit limit 1 (Cursor.between _ _ (bytes (front ++ '{' :: after)))).bind _ = _
    rw [hclosing, matchingBrace?_eq_closingBrace]
    rfl
  · rw [if_neg hbrace]
    rcases hfound : FlatSheet.matchingBrace? source opening with _ | c
    · rfl
    · exact absurd (getElem?_encode_of_matchingBrace? hfound) hbrace

end Guarded

open Events

/-- **No text can make reading go wrong.**  The guarded reader, which may count up to the number of
bytes of the text and one more, gives up nowhere and answers what the library answers: to any calls
on the events, when comments are removed, when a matching brace is searched for from any offset, and
when declarations are collected.  Lines, columns, open parentheses and open blocks stay in these
bounds all the way, and what flattening asks the events are such calls. -/
theorem reading_is_safe (source : String) :
    (∀ calls, Guarded.answers (source.utf8ByteSize + 1) source calls
        = some ((ofText source).answers calls)) ∧
      (Guarded.stripComments (source.utf8ByteSize + 1) source.toList).map String.ofList
        = some (stripComments source) ∧
      (∀ opening, Guarded.matchingBrace? (source.utf8ByteSize + 1) source opening
        = some (matchingBrace? source opening)) ∧
      Guarded.extractDeclarations (source.utf8ByteSize + 1) source
        = some (extractDeclarations source) ∧
      (∀ calls, ((ofText source).after calls).cursor.location.line ≤ source.utf8ByteSize + 1 ∧
        ((ofText source).after calls).cursor.location.column ≤ source.utf8ByteSize + 1 ∧
        ((ofText source).after calls).cursor.parens ≤ source.utf8ByteSize + 1) ∧
      ∀ s, Flattening.Running source s → (∃ calls, s.events = (ofText source).after calls) ∧
        s.frames.length ≤ source.utf8ByteSize + 1 := by
  have hlimit : source.utf8ByteSize < source.utf8ByteSize + 1 := Nat.lt_succ_self _
  have hstrip : Guarded.stripComments (source.utf8ByteSize + 1) source.toList
      = some (Scan.stripComments source.toList) :=
    Guarded.stripComments_eq (by rwa [bytes_toList])
  refine ⟨Guarded.answers_eq hlimit, ?_, Guarded.matchingBrace?_eq hlimit,
    Guarded.extractDeclarations_eq hlimit, Guarded.fits_after hlimit, ?_⟩
  · rw [hstrip]
    rfl
  · intro s hs
    exact ⟨reached_iff.mp hs.inText.events, Nat.le_succ_of_le hs.length_frames_le⟩

/-- A character of two bytes, a block that never closes, and a comment that ends with the text. -/
theorem reading_is_safe_unclosed :
    Guarded.answers 6 "é\x7b/*" [.next .topLevel, .skip]
        = some [.event (some (.opened "é" ⟨1, 2, 2⟩)), .skipped false] ∧
      Flattening.Running "é\x7b/*" (.ofText "é\x7b/*") ∧
      ∃ calls, (Flattening.ofText "é\x7b/*").events = (ofText "é\x7b/*").after calls := by
  obtain ⟨hanswers, -, -, -, -, hrunning⟩ := reading_is_safe "é\x7b/*"
  have hlimit : "é\x7b/*".utf8ByteSize + 1 = 6 := by decide +kernel
  have hevents : (ofText "é\x7b/*").answers [.next .topLevel, .skip]
      = [.event (some (.opened "é" ⟨1, 2, 2⟩)), .skipped false] := by decide +kernel
  rw [hlimit] at hanswers
  refine ⟨?_, .start, (hrunning _ .start).1⟩
  rw [hanswers, hevents]

/-- **Any calls on the events of a text come to an end.**  Each call ends, no loop of it taking more
turns than the text has bytes and one more; no call leads back in the text; not more events are
answered than the text has bytes, counted twice, and one; and when a call was answered with no event,
no later one is answered with an event or with a block that is closed. -/
theorem calls_come_to_an_end (source : String) (before more : List Call) :
    Guarded.answers (source.utf8ByteSize + 1) source (before ++ more)
        = some ((ofText source).answers (before ++ more)) ∧
      ((ofText source).after before).cursor.location.offset
        ≤ ((ofText source).after (before ++ more)).cursor.location.offset ∧
      ((ofText source).answers before).countP Answer.isEvent ≤ 2 * source.utf8ByteSize + 1 ∧
      (.event none ∈ (ofText source).answers before →
        ∀ a ∈ ((ofText source).after before).answers more, a.isNothing = true) := by
  refine ⟨Guarded.answers_eq (Nat.lt_succ_self _) _, ?_, ?_, ?_⟩
  · rw [after_append]
    exact offset_le_after _ more
  · have hevents := countP_answers_le (ofText source) before
    have hsize := size_ofText_le source
    omega
  · intro hnone
    exact (finished_after hnone).answers more

/-- Two events and nothing more: a text, the closing that waits behind it, and then the end. -/
theorem calls_come_to_an_end_closed :
    .event none ∈ (ofText "b\x7d").answers [.next .nested, .next .nested, .next .nested] ∧
      ∀ a ∈ ((ofText "b\x7d").after [.next .nested, .next .nested, .next .nested]).answers
        [.skip, .next .topLevel], a.isNothing = true := by
  have hnone : .event none
      ∈ (ofText "b\x7d").answers [.next .nested, .next .nested, .next .nested] := by
    decide +kernel
  obtain ⟨-, -, -, hnothing⟩ := calls_come_to_an_end "b\x7d"
    [.next .nested, .next .nested, .next .nested] [.skip, .next .topLevel]
  exact ⟨hnone, hnothing hnone⟩

end FlatSheet
