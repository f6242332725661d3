/-
The events of a text with all guards up.

Two things are built on the walks of the guarded reader.  Comments are removed by cutting
the runs between them out of the text, and events are read by cutting a span out when its
boundary is reached.  The beginning of the span is kept as an offset, apart from the
cursor, and the library has its cursor there.

That both stand at the same place is kept by everything the two readers do (`Follows`).  It
is what puts each cut between two places where characters begin.
-/
import FlatSheet.Proofs.Conservation
import FlatSheet.Proofs.Guarded

namespace FlatSheet

open Scan

namespace Guarded

/-! ### Removing comments -/

/-- Puts together what is outside comments, run by run.  A run is cut out of the text when a comment
begins behind it, and the last one at the end.  A text without comments is left as it is. -/
def stripRuns (limit : Nat) (text : List Char) :
    Nat → Cursor .byte → Nat → Option (List Char) → Option (List Char)
  | 0, _, _, _ => none
  | turns + 1, c, runStart, stripped => do
    match ← readPiece limit c with
    | some (.comment _, c') =>
      let run ← slice? text runStart c.location.offset
      stripRuns limit text turns c' c'.location.offset (some (stripped.getD [] ++ run))
    | some (.plain _, c') => stripRuns limit text turns c' runStart stripped
    | none =>
      match stripped with
      | some stripped =>
        let run ← slice? text runStart (bytes text)
        return stripped ++ run
      | none => return text

/-- Removes every comment. -/
def stripComments (limit : Nat) (text : List Char) : Option (List Char) :=
  stripRuns limit text limit (Cursor.between (String.ofList text) 0 (bytes text)) 0 none

/-- Removes every comment, and then the blanks at both ends. -/
def clean (limit : Nat) (text : List Char) : Option (List Char) :=
  (stripComments limit text).map Text.trim

section

variable {limit turns : Nat} {b b' : Cursor .byte} {c : Cursor .char} {ds text : List Char}

theorem stripRuns_of_comment {t : List Char} {runStart : Nat} {stripped : Option (List Char)}
    (h : readPiece limit b = some (some (.comment t, b'))) :
    stripRuns limit text (turns + 1) b runStart stripped
      = (slice? text runStart b.location.offset).bind fun run =>
          stripRuns limit text turns b' b'.location.offset (some (stripped.getD [] ++ run)) := by
  show (readPiece limit b).bind _ = _
  rw [h]
  rfl

theorem stripRuns_of_plain {d : Char} {runStart : Nat} {stripped : Option (List Char)}
    (h : readPiece limit b = some (some (.plain d, b'))) :
    stripRuns limit text (turns + 1) b runStart stripped
      = stripRuns limit text turns b' runStart stripped := by
  show (readPiece limit b).bind _ = _
  rw [h]
  rfl

theorem stripRuns_of_none {runStart : Nat} {stripped : Option (List Char)}
    (h : readPiece limit b = some none) :
    stripRuns limit text (turns + 1) b runStart stripped
      = match stripped with
        | some stripped => (slice? text runStart (bytes text)).map (stripped ++ ·)
        | none => some text := by
  show (readPiece limit b).bind _ = _
  rw [h]
  rcases stripped with _ | stripped
  · rfl
  · show (slice? text runStart (bytes text)).bind _ = _
    rcases slice? text runStart (bytes text) with _ | run
    · rfl
    · rfl

theorem stripRuns_of_passes (h : Passes limit b ds b') (turns runStart : Nat)
    (stripped : Option (List Char)) :
    stripRuns limit text (turns + ds.length) b runStart stripped
      = stripRuns limit text turns b' runStart stripped := by
  induction h with
  | nil b => rfl
  | @cons b b₁ b₂ d ds hd hread _ ih =>
      rw [List.length_cons, ← Nat.add_assoc, stripRuns_of_plain hread, ih]

/-- **The runs put together are what is outside comments.**  Between what was put together and the cursor
a run is still to be cut out. -/
theorem Twin.stripRuns {front run : List Char} {stripped : Option (List Char)}
    (h : Twin limit b c) (hturns : b.rest.length < turns) (htext : text = front ++ (run ++ c.rest))
    (hplace : c.location.offset = bytes (front ++ run)) (hstripped : stripped = none → front = []) :
    Guarded.stripRuns limit text turns b (bytes front) stripped
      = some (stripped.getD [] ++ (run ++ c.visible)) := by
  fun_induction Cursor.visible c generalizing b turns front run stripped with
  | case1 c p c' hn ih =>
      obtain ⟨turns, rfl⟩ := exists_turns hturns
      have hrest := Cursor.text_append_of_next? hn
      have hoffset : c'.location.offset = c.location.offset + bytes p.text := by
        rw [(Cursor.next?_eq_some hn).2]
        exact Location.offset_past c.location p.text
      rw [hplace, ← bytes_append] at hoffset
      cases h.reading hn with
      | @comment t b' _ hread htwin hlength =>
          have hslice : slice? text (bytes front) b.location.offset = some run := by
            rw [h.location, hplace]
            exact slice?_eq_some_iff.mpr ⟨front, c.rest, htext, rfl, rfl⟩
          have hbehind : text = front ++ run ++ t ++ ([] ++ c'.rest) := by
            rw [htext, ← hrest]
            simp [Piece.text]
          have hfront : c'.location.offset = bytes (front ++ run ++ t ++ []) := by
            rw [hoffset, List.append_nil]
            rfl
          have hruns := @ih turns b' (front ++ run ++ t) [] (some (stripped.getD [] ++ run)) htwin
            (by omega) hbehind hfront (by simp)
          rw [stripRuns_of_comment hread, hslice, htwin.location, hoffset]
          refine hruns.trans ?_
          simp [Piece.visible]
      | @ascii ch b' _ hch hread htwin hlength =>
          have hbehind : text = front ++ (run ++ [ch] ++ c'.rest) := by
            rw [htext, ← hrest]
            simp [Piece.text]
          have hrun : c'.location.offset = bytes (front ++ (run ++ [ch])) := by
            rw [hoffset, List.append_assoc]
            rfl
          rw [stripRuns_of_plain hread, ih htwin (by omega) hbehind hrun hstripped]
          simp [Piece.visible]
      | @other ch d ds b' _ hch hpasses htwin hlength =>
          obtain ⟨more, hmore, hmoreTurns⟩ := exists_turns_behind hlength hturns
          have hbehind : text = front ++ (run ++ [ch] ++ c'.rest) := by
            rw [htext, ← hrest]
            simp [Piece.text]
          have hrun : c'.location.offset = bytes (front ++ (run ++ [ch])) := by
            rw [hoffset, List.append_assoc]
            rfl
          rw [hmore, stripRuns_of_passes hpasses, ih htwin hmoreTurns hbehind hrun hstripped]
          simp [Piece.visible]
  | case2 c hn =>
      obtain ⟨turns, rfl⟩ := exists_turns hturns
      have hrest := Cursor.next?_eq_none_iff.mp hn
      rw [hrest, List.append_nil] at htext
      cases h.reading hn with
      | none hread =>
          rw [stripRuns_of_none hread]
          rcases stripped with _ | stripped
          · obtain rfl := hstripped rfl
            simp [htext]
          · have hslice : slice? text (bytes front) (bytes text) = some run :=
              slice?_eq_some_iff.mpr ⟨front, [], by rw [htext, List.append_nil], rfl, by rw [htext]⟩
            dsimp only
            rw [hslice]
            simp

end

/-! ### Where scans begin -/

section

variable {limit : Nat}

theorem room_start {n : Nat} (h : n < limit) : Room limit .start n := by
  refine ⟨?_, ?_, ?_⟩
  · show 1 + n ≤ limit
    omega
  · show 1 + n ≤ limit
    omega
  · show 0 + n < limit
    omega

/-- A scan that begins behind the first part of a text has the second part ahead, and there is room for
all it counts. -/
theorem twin_between {front after : List Char} (h : bytes (front ++ after) < limit) :
    Twin limit (Cursor.between (String.ofList (front ++ after)) (bytes front)
        (bytes (front ++ after)))
      ⟨after, .past .char .start front, 0⟩ := by
  have hrest : (Cursor.between (String.ofList (front ++ after)) (bytes front)
      (bytes (front ++ after))).rest = bytewise after := by
    show (((String.ofList (front ++ after)).toUTF8.toList.take (bytes (front ++ after))).drop
      (bytes front)).map Char.ofUInt8 = (Text.Utf8.ofChars after).map Char.ofUInt8
    rw [Text.Utf8.toList_toUTF8, Text.Utf8.encode_eq, String.toList_ofList,
      List.take_of_length_le (by simp), Text.Utf8.ofChars_append, List.drop_left' (by simp)]
  have hlocation : (Cursor.between (String.ofList (front ++ after)) (bytes front)
      (bytes (front ++ after))).location = .past .char .start front :=
    Location.ofOffset_append front after
  have hroom : Room limit (.past .char .start front) (bytes after) := by
    have hlength : (bytewise front).length + bytes after < limit := by
      rwa [length_bytewise, ← bytes_append]
    have hpast := (room_start hlength).past.2
    rwa [past_bytewise] at hpast
  refine ⟨hrest, hlocation, rfl, ?_, ?_⟩
  · rw [hlocation, hrest, length_bytewise]
    exact hroom
  · show 0 + (Cursor.between _ _ _).rest.length ≤ limit
    rw [hrest, length_bytewise]
    have hoffset := hroom.offset
    omega

theorem twin_ofText {text : List Char} (h : bytes text < limit) :
    Twin limit (Cursor.between (String.ofList text) 0 (bytes text)) (.ofText text) := by
  have htwin := @twin_between limit [] text h
  rwa [bytes_nil] at htwin

/-- **Removing comments cannot go wrong.** -/
theorem stripComments_eq {text : List Char} (h : bytes text < limit) :
    Guarded.stripComments limit text = some (Scan.stripComments text) := by
  have htwin := twin_ofText h
  have hturns : (Cursor.between (String.ofList text) 0 (bytes text)).rest.length < limit := by
    rw [htwin.rest, length_bytewise]
    exact h
  have hruns := @Twin.stripRuns limit limit _ _ text [] [] none htwin hturns rfl rfl (by simp)
  rwa [bytes_nil] at hruns

theorem clean_eq {text : List Char} (h : bytes text < limit) :
    Guarded.clean limit text = some (Scan.clean text) := by
  rw [Guarded.clean, stripComments_eq h]
  rfl

end

/-! ### Events -/

/-- The events of a text that are still to come.  Where the current span begins is kept beside the
cursor. -/
structure Reader where
  cursor : Cursor .byte
  start : Nat
  startLocation : Location
  queued : Option Event

namespace Reader

/-- Begins a new span behind trivia. -/
def restart (limit : Nat) (c : Cursor .byte) (queued : Option Event) : Option Reader := do
  let c ← skipTrivia limit limit c
  return ⟨c, c.location.offset, c.location, queued⟩

/-- All events of a text. -/
def ofText (limit : Nat) (text : List Char) : Option Reader :=
  restart limit (Cursor.between (String.ofList text) 0 (bytes text)) none

/-- The current span up to an offset, cleaned. -/
def cleanUntil (limit : Nat) (text : List Char) (r : Reader) (stop : Nat) : Option (List Char) := do
  let raw ← slice? text r.start stop
  clean limit raw

/-- The current span up to an offset as an event, unless it is empty. -/
def textUntil (limit : Nat) (text : List Char) (r : Reader) (stop : Nat) :
    Option (Option Event) := do
  let cleaned ← r.cleanUntil limit text stop
  return Events.textEvent? cleaned r.startLocation

/-- The current span in front of a closing brace as an event.  Outside all blocks it is dropped. -/
def textInFront (limit : Nat) (text : List Char) (mode : ScanMode) (r : Reader) (stop : Nat) :
    Option (Option Event) :=
  match mode with
  | .topLevel => some none
  | .nested => r.textUntil limit text stop

/-- Passes the boundary that the current span ends at, given the cursors in front of it and behind it.
No event is answered if the span is empty and a semicolon ends it. -/
def pass (limit : Nat) (text : List Char) (mode : ScanMode) (r : Reader) (c : Cursor .byte)
    (boundary : Char) (c' : Cursor .byte) : Option (Option Event × Reader) :=
  if boundary = '{' then do
    let selector ← r.cleanUntil limit text c.location.offset
    let r ← restart limit c' none
    return (some (.opened (String.ofList selector) c.location), r)
  else if boundary = '}' then do
    let event? ← r.textInFront limit text mode c.location.offset
    let close := Event.closed c.location
    let r ← restart limit c' (event?.map fun _ => close)
    return (some (event?.getD close), r)
  else do
    let event? ← r.textUntil limit text c.location.offset
    let r ← restart limit c' none
    return (event?, r)

/-- Reads on up to the next event.  No comment begins where a span ends. -/
def read (limit : Nat) (text : List Char) (mode : ScanMode) :
    Nat → Reader → Option (Option Event × Reader)
  | 0, _ => none
  | turns + 1, r => do
    let c ← toBoundary limit mode limit r.cursor
    match ← readPiece limit c with
    | none =>
      let event? ← r.textUntil limit text c.location.offset
      return (event?, { r with cursor := c, start := c.location.offset })
    | some (.comment _, _) => none
    | some (.plain boundary, c') =>
      match ← r.pass limit text mode c boundary c' with
      | (some event, r) => return (some event, r)
      | (none, r) => read limit text mode turns r

/-- The next event, and the events after it. -/
def next (limit : Nat) (text : List Char) (mode : ScanMode) (r : Reader) :
    Option (Option Event × Reader) :=
  match r.queued with
  | some event => some (some event, { r with queued := none })
  | none => r.read limit text mode limit

/-- Skips the rest of the block that opened last. -/
def skipBlock (limit : Nat) (r : Reader) : Option (Bool × Reader) := do
  let (closing?, c) ← closingBrace limit limit 1 r.cursor
  let r ← restart limit c r.queued
  return (closing?.isSome, r)

end Reader

/-- A reader and the events of the library stand at the same place of a text.  At the end of the text the
place of the span no longer matters. -/
structure Follows (limit : Nat) (text : List Char) (r : Reader) (e : Events) : Prop where
  cursor : Twin limit r.cursor e.cursor
  reads : ∃ ps, (Cursor.ofText text).Reads ps e.cursor
  start : r.start = e.cursor.location.offset
  location : r.startLocation = e.cursor.location ∨ e.cursor.rest = []
  queued : r.queued = e.queued

section

variable {limit turns : Nat} {text : List Char} {b : Cursor .byte} {c c' : Cursor .char}
  {r : Reader} {e : Events} {mode : ScanMode}

theorem Twin.length_lt (h : Twin limit b c) : b.rest.length < limit := by
  have hroom := h.fits.room.offset
  omega

theorem Twin.restart (h : Twin limit b c) (hreads : ∃ ps, (Cursor.ofText text).Reads ps c)
    (queued : Option Event) :
    ∃ r, Reader.restart limit b queued = some r ∧ Follows limit text r ⟨c.skipTrivia, queued⟩ := by
  obtain ⟨b', hskip, htwin⟩ := h.skipTrivia h.length_lt
  obtain ⟨ps, hps⟩ := hreads
  obtain ⟨qs, hqs, -⟩ := c.reads_skipTrivia
  refine ⟨⟨b', b'.location.offset, b'.location, queued⟩, ?_, htwin, ⟨_, hps.trans hqs⟩, ?_, ?_, rfl⟩
  · rw [Reader.restart, hskip]
    rfl
  · rw [htwin.location]
  · exact Or.inl htwin.location

/-- **A span is cut out of the text where characters begin.** -/
theorem Follows.slice (h : Follows limit text r e) (mode : ScanMode) :
    slice? text r.start (e.cursor.stretch mode.isBoundary).2.location.offset
      = some (e.cursor.stretch mode.isBoundary).1 := by
  obtain ⟨ps, hps⟩ := h.reads
  obtain ⟨qs, hqs, hwritten, -⟩ := e.cursor.reads_stretch mode.isBoundary
  rw [h.start, hwritten]
  exact slice?_of_reads hps hqs

theorem Follows.cleanUntil (hlimit : bytes text < limit) (h : Follows limit text r e)
    (mode : ScanMode) :
    r.cleanUntil limit text (e.cursor.stretch mode.isBoundary).2.location.offset
      = some (Scan.clean (e.cursor.stretch mode.isBoundary).1) := by
  obtain ⟨front, after, htext, -, -⟩ := slice?_eq_some_iff.mp (h.slice mode)
  have hbytes : bytes (e.cursor.stretch mode.isBoundary).1 < limit := by
    rw [htext, bytes_append, bytes_append] at hlimit
    omega
  rw [Reader.cleanUntil, h.slice mode]
  exact clean_eq hbytes

theorem Follows.textUntil (hlimit : bytes text < limit) (h : Follows limit text r e)
    (mode : ScanMode) :
    r.textUntil limit text (e.cursor.stretch mode.isBoundary).2.location.offset
      = some (Events.textEvent? (Scan.clean (e.cursor.stretch mode.isBoundary).1)
          e.cursor.location) := by
  rw [Reader.textUntil, h.cleanUntil hlimit mode]
  rcases h.location with hlocation | hrest
  · rw [hlocation]
    rfl
  · -- At the end no text is left, and so it does not matter where it would begin.
    have happend := e.cursor.stretch_append mode.isBoundary
    rw [hrest] at happend
    rw [(List.append_eq_nil_iff.mp happend).1, Scan.clean, Cursor.stripComments_of_ne_slash (by simp)]
    rfl

theorem read_of_none (hb : toBoundary limit mode limit r.cursor = some b)
    (hread : readPiece limit b = some none) :
    r.read limit text mode (turns + 1)
      = (r.textUntil limit text b.location.offset).map fun event? =>
          (event?, { r with cursor := b, start := b.location.offset }) := by
  show (toBoundary limit mode limit r.cursor).bind _ = _
  rw [hb]
  show (readPiece limit b).bind _ = _
  rw [hread]
  show (r.textUntil limit text b.location.offset).bind _ = _
  rcases r.textUntil limit text b.location.offset with _ | event?
  · rfl
  · rfl

theorem read_of_plain {d : Char} {b' : Cursor .byte}
    (hb : toBoundary limit mode limit r.cursor = some b)
    (hread : readPiece limit b = some (some (.plain d, b'))) :
    r.read limit text mode (turns + 1)
      = (r.pass limit text mode b d b').bind fun (event?, r') =>
          match event? with
          | some event => some (some event, r')
          | none => r'.read limit text mode turns := by
  show (toBoundary limit mode limit r.cursor).bind _ = _
  rw [hb]
  show (readPiece limit b).bind _ = _
  rw [hread]
  show (r.pass limit text mode b d b').bind _ = _
  rcases r.pass limit text mode b d b' with _ | ⟨_ | event, r'⟩
  · rfl
  · rfl
  · rfl

section

variable {b' : Cursor .byte} {r' : Reader}

theorem pass_opening {selector : List Char}
    (hselector : r.cleanUntil limit text b.location.offset = some selector)
    (hrestart : Reader.restart limit b' none = some r') :
    r.pass limit text mode b '{' b'
      = some (some (.opened (String.ofList selector) b.location), r') := by
  unfold Reader.pass
  rw [if_pos rfl, hselector, hrestart]
  rfl

theorem pass_closing {event? : Option Event}
    (htext : r.textInFront limit text mode b.location.offset = some event?)
    (hrestart : Reader.restart limit b' (event?.map fun _ => .closed b.location) = some r') :
    r.pass limit text mode b '}' b' = some (some (event?.getD (.closed b.location)), r') := by
  unfold Reader.pass
  rw [if_neg (by decide), if_pos rfl, htext]
  show (Reader.restart limit b' (event?.map fun _ => .closed b.location)).bind _ = _
  rw [hrestart]
  rfl

theorem pass_other {d : Char} {event? : Option Event} (ho : d ≠ '{') (hc : d ≠ '}')
    (htext : r.textUntil limit text b.location.offset = some event?)
    (hrestart : Reader.restart limit b' none = some r') :
    r.pass limit text mode b d b' = some (event?, r') := by
  unfold Reader.pass
  rw [if_neg ho, if_neg hc, htext, hrestart]
  rfl

end

/-- A span ends in front of a boundary for both readers. -/
theorem Follows.boundary (h : Follows limit text r e) {d : Char}
    (hn : (e.cursor.stretch mode.isBoundary).2.next? = some (.plain d, c')) :
    ∃ b b', toBoundary limit mode limit r.cursor = some b ∧
      b.location = (e.cursor.stretch mode.isBoundary).2.location ∧
      readPiece limit b = some (some (.plain d, b')) ∧ Twin limit b' c' ∧
      ∃ ps, (Cursor.ofText text).Reads ps c' := by
  obtain ⟨b, hb, htwin⟩ := h.cursor.toBoundary h.cursor.length_lt
  obtain ⟨ch, hch, hboundary⟩ := Cursor.exists_boundary_of_stretch hn
  obtain rfl : d = ch := Piece.plain.inj hch
  obtain ⟨ps, hps⟩ := h.reads
  obtain ⟨qs, hqs, -⟩ := e.cursor.reads_stretch mode.isBoundary
  have hreads := (hps.trans hqs).trans (.of_next? hn)
  cases htwin.reading hn with
  | @ascii _ b' _ hd hread htwin' => exact ⟨b, b', hb, htwin.location, hread, htwin', _, hreads⟩
  | other hd => exact absurd (ascii_of_isBoundary hboundary) hd

/-- **Both readers read the same event**, and stand at the same place behind it. -/
theorem Follows.read (hlimit : bytes text < limit) (mode : ScanMode) (c : Cursor .char) :
    ∀ turns r, Follows limit text r ⟨c, none⟩ → c.rest.length < turns →
      ∃ r', r.read limit text mode turns = some ((Events.read mode c).1, r') ∧
        Follows limit text r' (Events.read mode c).2 := by
  fun_induction Events.read mode c with
  | case1 c s raw hn =>
      intro turns r h hturns
      obtain ⟨turns, rfl⟩ := exists_turns hturns
      obtain ⟨b, hb, htwin⟩ := h.cursor.toBoundary h.cursor.length_lt
      obtain ⟨ps, hps⟩ := h.reads
      obtain ⟨qs, hqs, -⟩ := c.reads_stretch mode.isBoundary
      cases htwin.reading hn with
      | none hread =>
          refine ⟨{ r with cursor := b, start := b.location.offset }, ?_, htwin,
            ⟨_, hps.trans hqs⟩, ?_, Or.inr (Cursor.next?_eq_none_iff.mp hn), h.queued⟩
          · rw [read_of_none hb hread, htwin.location, h.textUntil hlimit mode]
            rfl
          · exact congrArg Location.offset htwin.location
  | case2 c s raw c' hn =>
      intro turns r h hturns
      obtain ⟨turns, rfl⟩ := exists_turns hturns
      obtain ⟨b, b', hb, hlocation, hread, htwin, hreads⟩ := h.boundary hn
      obtain ⟨r', hrestart, hfollows⟩ := htwin.restart hreads none
      have hselector : r.cleanUntil limit text b.location.offset = some raw := by
        rw [hlocation]
        exact h.cleanUntil hlimit mode
      refine ⟨r', ?_, hfollows⟩
      rw [read_of_plain hb hread, pass_opening hselector hrestart, hlocation]
      rfl
  | case3 c s raw c' hn close ev hev =>
      rename_i hmode
      subst hmode
      intro turns r h hturns
      obtain ⟨turns, rfl⟩ := exists_turns hturns
      obtain ⟨b, b', hb, hlocation, hread, htwin, hreads⟩ := h.boundary hn
      obtain ⟨r', hrestart, hfollows⟩ := htwin.restart hreads (some close)
      have htext : r.textInFront limit text .nested b.location.offset = some (some ev) := by
        rw [← hev, hlocation]
        exact h.textUntil hlimit .nested
      have hclose : Event.closed b.location = close := congrArg Event.closed hlocation
      rw [← hclose] at hrestart
      refine ⟨r', ?_, hfollows⟩
      rw [read_of_plain hb hread, pass_closing htext hrestart]
      rfl
  | case4 c s raw c' hn close hno =>
      intro turns r h hturns
      obtain ⟨turns, rfl⟩ := exists_turns hturns
      obtain ⟨b, b', hb, hlocation, hread, htwin, hreads⟩ := h.boundary hn
      obtain ⟨r', hrestart, hfollows⟩ := htwin.restart hreads none
      have htext : r.textInFront limit text mode b.location.offset = some none := by
        cases mode with
        | topLevel => rfl
        | nested =>
            have hevent : Events.textEvent? raw c.location = none :=
              Option.eq_none_iff_forall_ne_some.mpr fun ev hev => hno ev rfl hev
            rw [← hevent, hlocation]
            exact h.textUntil hlimit .nested
      refine ⟨r', ?_, hfollows⟩
      rw [read_of_plain hb hread, pass_closing htext hrestart, hlocation]
      rfl
  | case5 c s raw p c' hopen hclose hn ev hev =>
      intro turns r h hturns
      obtain ⟨turns, rfl⟩ := exists_turns hturns
      obtain ⟨d, rfl, -⟩ := Cursor.exists_boundary_of_stretch hn
      obtain ⟨b, b', hb, hlocation, hread, htwin, hreads⟩ := h.boundary hn
      obtain ⟨r', hrestart, hfollows⟩ := htwin.restart hreads none
      have htext : r.textUntil limit text b.location.offset = some (some ev) := by
        rw [← hev, hlocation]
        exact h.textUntil hlimit mode
      refine ⟨r', ?_, hfollows⟩
      rw [read_of_plain hb hread, pass_other (fun hd => hopen (by rw [hd]))
        (fun hd => hclose (by rw [hd])) htext hrestart]
      rfl
  | case6 c s raw p c' hopen hclose hn hev ih =>
      intro turns r h hturns
      obtain ⟨turns, rfl⟩ := exists_turns hturns
      obtain ⟨d, rfl, -⟩ := Cursor.exists_boundary_of_stretch hn
      obtain ⟨b, b', hb, hlocation, hread, htwin, hreads⟩ := h.boundary hn
      obtain ⟨r', hrestart, hfollows⟩ := htwin.restart hreads none
      have htext : r.textUntil limit text b.location.offset = some none := by
        rw [← hev, hlocation]
        exact h.textUntil hlimit mode
      have hlength : c'.skipTrivia.rest.length < turns := by
        have hskip := c'.length_skipTrivia_le
        have hnext := Cursor.length_lt_of_next? hn
        have hstretch : s.2.rest.length ≤ c.rest.length := c.length_stretch_le mode.isBoundary
        omega
      rw [read_of_plain hb hread, pass_other (fun hd => hopen (by rw [hd]))
        (fun hd => hclose (by rw [hd])) htext hrestart]
      exact ih turns r' hfollows hlength

/-- **The next event is the same for both readers.** -/
theorem Follows.next (hlimit : bytes text < limit) (h : Follows limit text r e) (mode : ScanMode) :
    ∃ r', r.next limit text mode = some ((e.next mode).1, r') ∧
      Follows limit text r' (e.next mode).2 := by
  unfold Reader.next
  rw [h.queued]
  rcases hq : e.queued with _ | event
  · have hlength : e.cursor.rest.length < limit := by
      have hlt := h.cursor.length_lt
      have hle := length_le_bytes e.cursor.rest
      rw [h.cursor.rest, length_bytewise] at hlt
      omega
    rw [Events.next_of_not_queued hq]
    refine Follows.read hlimit mode e.cursor limit r ?_ hlength
    exact ⟨h.cursor, h.reads, h.start, h.location, h.queued.trans hq⟩
  · rw [Events.next_of_queued hq]
    exact ⟨{ r with queued := none }, rfl, h.cursor, h.reads, h.start, h.location, rfl⟩

/-- **A block is skipped alike by both readers.** -/
theorem Follows.skipBlock (h : Follows limit text r e) :
    ∃ r', r.skipBlock limit = some (e.skipBlock.1, r') ∧ Follows limit text r' e.skipBlock.2 := by
  have hlength := h.cursor.length_lt
  obtain ⟨b, hclosing, htwin⟩ := @Twin.closingBrace limit limit _ _ 0 h.cursor hlength (by omega)
  obtain ⟨ps, hps⟩ := h.reads
  obtain ⟨qs, hqs⟩ := e.cursor.reads_closingBrace 0
  obtain ⟨r', hrestart, hfollows⟩ := htwin.restart ⟨_, hps.trans hqs⟩ r.queued
  rw [h.queued] at hfollows
  refine ⟨r', ?_, hfollows⟩
  show (Guarded.closingBrace limit limit (0 + 1) r.cursor).bind _ = _
  rw [hclosing]
  show (Reader.restart limit b r.queued).bind _ = _
  rw [hrestart]
  rfl

/-- Both readers begin at the same place. -/
theorem follows_ofText {source : String} (hlimit : source.utf8ByteSize < limit) :
    ∃ r, Reader.ofText limit source.toList = some r ∧
      Follows limit source.toList r (.ofText source) := by
  have hbytes : bytes source.toList < limit := by
    rwa [bytes_toList]
  exact (twin_ofText hbytes).restart ⟨[], .refl _⟩ none

end

end Guarded

end FlatSheet
