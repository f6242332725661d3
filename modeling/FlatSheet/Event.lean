/-
A nested sheet as a sequence of events.

Reading a sheet yields three kinds of event: a block opens, a block closes, and text
that belongs to neither, which is a declaration when it stands inside a block.  Blocks
are not matched up in advance, so a reader of the events keeps count of them.

A span of text begins at the first character that is neither in a comment nor one of the
blanks that separate spans.  Inside a block it ends at a brace, at a semicolon or at the
end of the sheet; outside all blocks a semicolon does not end it, and text in front of a
closing brace is dropped.  Texts and selectors are given in their cleaned form, and a
span that is empty in that form is no text.

A span can be ended by the very brace that closes the block.  Then the text comes first,
and the closing waits for the next call.
-/
import FlatSheet.Scan.Visible

namespace FlatSheet

/-- Whether a sheet is read outside all blocks or inside one. -/
inductive ScanMode where
  | topLevel
  | nested
  deriving DecidableEq

/-- The characters that end a span of text. -/
def ScanMode.isBoundary : ScanMode → Char → Bool
  | .topLevel, c => c = '{' || c = '}'
  | .nested, c => c = '{' || c = '}' || c = ';'

/-- One event of a sheet. -/
inductive Event where
  /-- Text, with the place where its span begins. -/
  | text (text : String) (location : Location)
  /-- A block opens; the place is that of its brace. -/
  | opened (selector : String) (location : Location)
  /-- A block closes; the place is that of its brace. -/
  | closed (location : Location)
  deriving DecidableEq

/-- The events of a sheet that are still to come.  The cursor is at the beginning of a span. -/
structure Events where
  cursor : Cursor .char
  /-- A closing that waits for the next call. -/
  queued : Option Event
  deriving DecidableEq

namespace Events

/-- All events of a sheet. -/
def ofText (text : String) : Events := ⟨(Cursor.ofText text.toList).skipTrivia, none⟩

/-- Cleaned text as an event, unless it is empty. -/
def textEvent? (text : List Char) (location : Location) : Option Event :=
  if text.isEmpty then none else some (.text (String.ofList text) location)

/-- Reads on from the beginning of a span up to the next event. -/
def read (mode : ScanMode) (c : Cursor .char) : Option Event × Events :=
  let s := c.stretch mode.isBoundary
  let text := Scan.clean s.1
  match _h : s.2.next? with
  | none => (textEvent? text c.location, ⟨s.2, none⟩)
  | some (.plain '{', c') =>
    (some (.opened (String.ofList text) s.2.location), ⟨c'.skipTrivia, none⟩)
  | some (.plain '}', c') =>
    let close := Event.closed s.2.location
    match mode, textEvent? text c.location with
    | .nested, some e => (some e, ⟨c'.skipTrivia, some close⟩)
    | _, _ => (some close, ⟨c'.skipTrivia, none⟩)
  | some (_, c') =>
    match textEvent? text c.location with
    | some e => (some e, ⟨c'.skipTrivia, none⟩)
    | none => read mode c'.skipTrivia
termination_by c.rest.length
decreasing_by
  exact Nat.lt_of_le_of_lt (Cursor.length_skipTrivia_le c')
    (Nat.lt_of_lt_of_le (Cursor.length_lt_of_next? ‹_›) (Cursor.length_stretch_le _ c))

/-- The next event, and the events after it.  There is none at the end of the sheet. -/
def next (e : Events) (mode : ScanMode) : Option Event × Events :=
  match e.queued with
  | some event => (some event, ⟨e.cursor, none⟩)
  | none => read mode e.cursor

/-- Skips the rest of the block that opened last.  Answers whether that block is closed; if it is
not, nothing of the sheet is left. -/
def skipBlock (e : Events) : Bool × Events :=
  let r := e.cursor.closingBrace 0
  (r.1.isSome, ⟨r.2.skipTrivia, e.queued⟩)

/-! ### Events run out

The text ahead counts twice, so that a text event may leave a closing behind it. -/

/-- A bound on the number of events still to come. -/
def size (e : Events) : Nat := 2 * e.cursor.rest.length + (if e.queued.isSome then 1 else 0)

theorem textEvent?_eq_some {text : List Char} {l : Location} {e : Event}
    (h : textEvent? text l = some e) : text ≠ [] ∧ e = .text (String.ofList text) l := by
  unfold textEvent? at h
  split at h
  · simp at h
  · next hne => exact ⟨by simpa using hne, by simpa using h.symm⟩

private theorem clean_nil : Scan.clean [] = [] := by
  have h : Scan.stripComments [] = [] := by
    unfold Scan.stripComments Cursor.visible
    rfl
  rw [Scan.clean, h]
  rfl

theorem size_read_lt {mode : ScanMode} {c : Cursor .char} {event : Event} {e : Events}
    (h : read mode c = (some event, e)) : e.size < 2 * c.rest.length := by
  have after : ∀ {c c' : Cursor .char} {p : Piece} (q : Option Event),
      (c.stretch mode.isBoundary).2.next? = some (p, c') →
      (⟨c'.skipTrivia, q⟩ : Events).size < 2 * c.rest.length := by
    intro c c' p q hn
    have h1 := Cursor.length_skipTrivia_le c'
    have h2 := Cursor.length_lt_of_next? hn
    have h3 := Cursor.length_stretch_le mode.isBoundary c
    have h4 : (if q.isSome then 1 else 0) ≤ 1 := by split <;> omega
    simp only [size]
    omega
  fun_induction read mode c with
  | case1 c s text hn =>
    obtain ⟨ht, rfl⟩ := by simpa using h
    have hne := (textEvent?_eq_some ht).1
    have hs : s.1 ≠ [] := by
      intro hs
      rw [show text = Scan.clean s.1 from rfl, hs, clean_nil] at hne
      exact hne rfl
    have h1 := congrArg List.length (Cursor.stretch_append mode.isBoundary c)
    have h2 := List.length_pos_iff.mpr hs
    rw [List.length_append] at h1
    simp only [size]
    simp only [s] at h2 ⊢
    simp
    omega
  | case2 c s text c' hn =>
    obtain ⟨-, rfl⟩ := by simpa using h
    exact after none hn
  | case3 c s text c' hn close ev hev =>
    obtain ⟨-, rfl⟩ := by simpa using h
    exact after _ hn
  | case4 c s text c' hn close =>
    obtain ⟨-, rfl⟩ := by simpa using h
    exact after none hn
  | case5 c s text p c' _ _ hn ev hev =>
    obtain ⟨-, rfl⟩ := by simpa using h
    exact after none hn
  | case6 c s text p c' _ _ hn hev ih =>
    have h1 := ih h
    have h2 := after none hn
    simp only [size] at h1 h2 ⊢
    simp at h2
    omega

/-- Each event leaves fewer events to come. -/
theorem size_next_lt {mode : ScanMode} {e e' : Events} {event : Event}
    (h : e.next mode = (some event, e')) : e'.size < e.size := by
  unfold next at h
  split at h
  next q hq =>
    obtain ⟨-, rfl⟩ := by simpa using h
    simp [size, hq]
  next hq =>
    have h1 := size_read_lt h
    have h2 : 2 * e.cursor.rest.length ≤ e.size := by simp [size]
    omega

/-- Reads all events in one mode, and answers them with what is left then. -/
def drain (mode : ScanMode) (e : Events) : List Event × Events :=
  match _h : e.next mode with
  | (some event, e') =>
    let r := drain mode e'
    (event :: r.1, r.2)
  | (none, e') => ([], e')
termination_by e.size
decreasing_by exact size_next_lt ‹_›

/-- Skipping a block leaves no more events than before. -/
theorem size_skipBlock_le (e : Events) : e.skipBlock.2.size ≤ e.size := by
  have h1 := Cursor.length_closingBrace_le e.cursor 0
  have h2 := Cursor.length_skipTrivia_le (e.cursor.closingBrace 0).2
  exact Nat.add_le_add_right (Nat.mul_le_mul_left 2 (Nat.le_trans h2 h1)) _

end Events

end FlatSheet
