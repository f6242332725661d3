/-
Every place is right.

Lines and columns are counted along the way, while a cursor walks over comments, blanks
and whole blocks, while events are read and while blocks are left out.  The place of an
offset, on the other hand, is counted from the beginning of the text.  The two agree
wherever a cursor can come to, also when it began inside a character.

For the events it is enough that each is met on a walk from the beginning of the text
(`Events.Reached.seen`).  For the reports it is enough that they are about some of the
braces of the text, in the order of the text (`Outline.marks_reports_sublist`).
-/
import FlatSheet.Proofs.BlockEnd
import FlatSheet.Proofs.Bytes
import FlatSheet.Proofs.Settled

namespace FlatSheet

open Scan Marked

/-! ### Cursors -/

namespace Cursor

variable {g : Grain} {c₀ c c' : Cursor g} {ps : List Piece}

/-- The cursors that walks from a cursor lead to: past a comment, past trivia, and behind the end of
the block it is in. -/
inductive Walked (c₀ : Cursor g) : Cursor g → Prop where
  | start : Walked c₀ c₀
  | comment {c c' : Cursor g} (h : Walked c₀ c) (hc : c.skipComment? = some c') : Walked c₀ c'
  | trivia {c : Cursor g} (h : Walked c₀ c) : Walked c₀ c.skipTrivia
  | block {c : Cursor g} (h : Walked c₀ c) : Walked c₀ (c.closingBrace 0).2

theorem reads_skipComment? (h : c.skipComment? = some c') : ∃ ps, c.Reads ps c' := by
  unfold skipComment? at h
  split at h
  next t c'' hn =>
    obtain rfl : c'' = c' := Option.some.inj h
    exact ⟨_, .of_next? hn⟩
  next => simp at h

theorem Walked.reads (h : c₀.Walked c) : ∃ ps, c₀.Reads ps c := by
  induction h with
  | start => exact ⟨[], .refl c₀⟩
  | comment _ hc ih =>
      obtain ⟨ps, hps⟩ := ih
      obtain ⟨qs, hqs⟩ := reads_skipComment? hc
      exact ⟨_, hps.trans hqs⟩
  | @trivia c _ ih =>
      obtain ⟨ps, hps⟩ := ih
      obtain ⟨qs, hqs, -⟩ := c.reads_skipTrivia
      exact ⟨_, hps.trans hqs⟩
  | @block c _ ih =>
      obtain ⟨ps, hps⟩ := ih
      obtain ⟨qs, hqs⟩ := c.reads_closingBrace 0
      exact ⟨_, hps.trans hqs⟩

/-- What a cursor reads from the beginning of a text is the first part of that text. -/
theorem eq_of_reads {text : String} {c : Cursor .char}
    (h : (ofText text.toList).Reads ps c) : text = String.ofList (written ps ++ c.rest) := by
  rw [← String.toList_inj, String.toList_ofList]
  exact h.rest

/-- The offset of a cursor is the number of bytes it has read. -/
theorem offset_of_reads {text : List Char} {c : Cursor .char} (h : (ofText text).Reads ps c) :
    c.location.offset = bytes (written ps) := by
  rw [h.location, Location.offset_past]
  exact Nat.zero_add _

/-- A cursor over characters is at the place of its offset. -/
theorem location_of_reads {text : String} {c : Cursor .char}
    (h : (ofText text.toList).Reads ps c) :
    c.location = .ofOffset text c.location.offset := by
  have hplace := Location.ofOffset_append (written ps) c.rest
  have hlocation : c.location = .past .char .start (written ps) := h.location
  have hoffset := Location.offset_past .start (written ps)
  rw [← eq_of_reads h] at hplace
  rw [show Location.start.offset = 0 from rfl, Nat.zero_add] at hoffset
  rw [hlocation, hoffset, hplace]

/-- The cursor over a part of a text, at the place of the offset where the part begins. -/
def between (text : String) (start stop : Nat) : Cursor .byte :=
  let l := Location.ofOffset text start
  ofBytes text start stop l.line l.column

/-- A part of a text that was read is followed by the place of the offset behind it. -/
theorem location_of_reads_between {text : String} {start stop : Nat} {c : Cursor .byte}
    (h : (between text start stop).Reads ps c) :
    c.location = .ofOffset text c.location.offset := by
  have hlocation : c.location = (Location.ofOffset text start).past .byte (written ps) := h.location
  have hrest : (((Text.Utf8.encode text).take stop).drop start).map Char.ofUInt8
      = written ps ++ c.rest := by
    rw [← h.rest, ← Text.Utf8.toList_toUTF8]
    rfl
  by_cases hnone : written ps = []
  · -- Nothing was read, perhaps because the part begins behind the end of the text.
    rw [hlocation, hnone]
    rfl
  · have hpos : 0 < (written ps).length := List.length_pos_iff.mpr hnone
    have hlength := congrArg List.length hrest
    rw [List.length_map, List.length_drop, List.length_take, Text.Utf8.length_encode,
      List.length_append] at hlength
    have hwritten : written ps
        = (((Text.Utf8.encode text).drop start).take (written ps).length).map Char.ofUInt8 := by
      have htake := congrArg (List.take (written ps).length) hrest
      rw [List.take_left, ← List.map_take, List.drop_take, List.take_take,
        Nat.min_eq_left (by omega)] at htake
      exact htake.symm
    rw [hwritten, Location.past_bytes text (by omega)] at hlocation
    rw [hlocation]
    rfl

end Cursor

/-! ### Braces in a text -/

/-- A place of a text at which a character of one byte stands. -/
structure Location.PlaceOf (text : String) (b : Char) (l : Location) : Prop where
  eq_ofOffset : l = .ofOffset text l.offset
  byte : (Text.Utf8.encode text)[l.offset]? = some b.toUInt8

/-- A character of one byte stands behind what is in front of it. -/
theorem Location.placeOf_append {b : Char} (hb : b.toNat < 0x80) (cs ds : List Char) :
    PlaceOf (String.ofList (cs ++ b :: ds)) b (start.past .char cs) := by
  have hoffset : (start.past .char cs).offset = bytes cs := by
    rw [offset_past]
    exact Nat.zero_add _
  refine ⟨?_, ?_⟩
  · rw [hoffset, ofOffset_append]
  · rw [hoffset, Text.Utf8.encode_eq, String.toList_ofList, Text.Utf8.ofChars_append,
      List.getElem?_append_right (by simp), Text.Utf8.length_ofChars, Nat.sub_self,
      Text.Utf8.ofChars_cons, Text.Utf8.utf8EncodeChar_of_ascii hb]
    rfl

/-- A brace that a cursor is in front of is at the cursor's place. -/
theorem Cursor.placeOf_of_next? {text : String} {ps : List Piece} {c c' : Cursor .char} {b : Char}
    (hb : b.toNat < 0x80) (h : (ofText text.toList).Reads ps c)
    (hnext : c.next? = some (.plain b, c')) : c.location.PlaceOf text b := by
  have hplace := Location.placeOf_append hb (written ps) c'.rest
  have hrest : c.rest = b :: c'.rest := (text_append_of_next? hnext).symm
  rw [← hrest, ← eq_of_reads h] at hplace
  rw [h.location]
  exact hplace

/-! ### Events -/

namespace Event

/-- The place of an event. -/
def location : Event → Location
  | text _ l | opened _ l | closed l => l

/-- The brace of an event. -/
def brace? : Event → Option Char
  | text _ _ => none
  | opened _ _ => some '{'
  | closed _ => some '}'

theorem brace_ascii {event : Event} {b : Char} (h : b ∈ event.brace?) : b.toNat < 0x80 := by
  cases event with
  | text text l => simp [brace?] at h
  | opened selector l =>
      obtain rfl : '{' = b := by simpa [brace?] using h
      decide
  | closed l =>
      obtain rfl : '}' = b := by simpa [brace?] using h
      decide

end Event

namespace Events

/-- An event is met on the way from a cursor: at its place, and in front of its brace. -/
def Seen (c : Cursor .char) (event : Event) : Prop :=
  ∃ ps c₁, c.Reads ps c₁ ∧ c₁.location = event.location ∧
    ∀ b ∈ event.brace?, ∃ c₂, c₁.next? = some (.plain b, c₂)

section

variable {c c' : Cursor .char} {ps : List Piece} {event : Event}

theorem Seen.of_reads (h : c.Reads ps c') (hseen : Seen c' event) : Seen c event := by
  obtain ⟨qs, c₁, hqs, hlocation, hbrace⟩ := hseen
  exact ⟨_, c₁, h.trans hqs, hlocation, hbrace⟩

theorem seen_text {text : List Char} (h : textEvent? text c.location = some event) :
    Seen c event := by
  obtain ⟨-, rfl⟩ := textEvent?_eq_some h
  exact ⟨[], c, .refl c, rfl, by simp [Event.brace?]⟩

/-- The brace that a stretch ends at is met behind the stretch. -/
theorem seen_brace {mode : ScanMode} {b : Char}
    (hnext : (c.stretch mode.isBoundary).2.next? = some (.plain b, c'))
    (hlocation : event.location = (c.stretch mode.isBoundary).2.location)
    (hbrace : event.brace? = some b) : Seen c event := by
  obtain ⟨ps, hps, -⟩ := c.reads_stretch mode.isBoundary
  refine ⟨ps, _, hps, hlocation.symm, ?_⟩
  intro d hd
  obtain rfl : b = d := by simpa [hbrace] using hd
  exact ⟨c', hnext⟩

/-- What is read from a cursor is met on the way from it, be it answered or put off. -/
theorem seen_of_read (mode : ScanMode) (c : Cursor .char) :
    (∀ event, (read mode c).1 = some event → Seen c event) ∧
      ∀ event, (read mode c).2.queued = some event → Seen c event := by
  fun_induction read mode c with
  | case1 c s text hn => exact ⟨fun event h => seen_text h, by simp⟩
  | case2 c s text c' hn =>
      refine ⟨?_, by simp⟩
      rintro event ⟨⟩
      exact seen_brace hn rfl rfl
  | case3 c s text c' hn close ev hev =>
      refine ⟨?_, ?_⟩
      · rintro event ⟨⟩
        exact seen_text hev
      · rintro event ⟨⟩
        exact seen_brace hn rfl rfl
  | case4 c s text c' hn close =>
      refine ⟨?_, by simp⟩
      rintro event ⟨⟩
      exact seen_brace hn rfl rfl
  | case5 c s text p c' _ _ hn ev hev =>
      refine ⟨?_, by simp⟩
      rintro event ⟨⟩
      exact seen_text hev
  | case6 c s text p c' _ _ hn hev ih =>
      obtain ⟨ps, hps⟩ := reads_behind hn
      obtain ⟨hanswered, hqueued⟩ := ih
      refine ⟨?_, ?_⟩
      · intro event h
        exact .of_reads hps (hanswered event h)
      · intro event h
        exact .of_reads hps (hqueued event h)

end

section

variable {text : String} {e e' : Events} {mode : ScanMode} {event : Event}

/-- A closing that waits was met in the text. -/
theorem Reached.seen_queued (h : Reached text e) :
    ∀ event, e.queued = some event → Seen (.ofText text.toList) event := by
  induction h with
  | start =>
      intro event hqueued
      simp [ofText] at hqueued
  | @next e mode h ih =>
      intro event hqueued
      obtain ⟨ps, hps⟩ := h.within.reads
      rcases hq : e.queued with _ | waiting
      · rw [next_of_not_queued hq] at hqueued
        exact .of_reads hps ((seen_of_read mode e.cursor).2 event hqueued)
      · rw [next_of_queued hq] at hqueued
        simp at hqueued
  | skip _ ih => exact ih

/-- **After any calls the next event is met in the text.** -/
theorem Reached.seen (h : Reached text e) (hnext : e.next mode = (some event, e')) :
    Seen (.ofText text.toList) event := by
  obtain ⟨ps, hps⟩ := h.within.reads
  rcases hq : e.queued with _ | waiting
  · rw [next_of_not_queued hq] at hnext
    exact .of_reads hps ((seen_of_read mode e.cursor).1 event (congrArg Prod.fst hnext))
  · rw [next_of_queued hq] at hnext
    obtain ⟨rfl, -⟩ := by simpa using hnext
    exact h.seen_queued _ hq

theorem Seen.placeOf (h : Seen (.ofText text.toList) event) {b : Char} (hb : b ∈ event.brace?) :
    event.location.PlaceOf text b := by
  obtain ⟨ps, c₁, hps, hlocation, hbrace⟩ := h
  obtain ⟨c₂, hnext⟩ := hbrace b hb
  rw [← hlocation]
  exact Cursor.placeOf_of_next? (Event.brace_ascii hb) hps hnext

end

end Events

/-! ### Reports -/

/-- The brace that a report is about. -/
def Diagnostic.brace : Diagnostic → Char
  | strayClosingBrace _ => '}'
  | _ => '{'

/-- A report's brace with its place. -/
def Diagnostic.mark (d : Diagnostic) : Char × Location := (d.brace, d.location)

/-- The reports about a block are about some of the braces in it, in their order. -/
theorem Content.marks_reports_sublist (ms : List (Char × Location)) :
    ((Content.read ms).reports.map Diagnostic.mark).Sublist ms := by
  induction ms using nested_induction with
  | plain ms hms =>
      rw [read_of_forall hms, reports_declared]
      exact List.nil_sublist ms
  | semicolon pre x ms hpre ih =>
      rw [read_of_semicolon hpre, reports_declared]
      exact (ih.cons _).trans (List.sublist_append_right pre _)
  | stray pre x ms hpre ih =>
      rw [read_of_stray hpre, reports_declared]
      exact (ih.cons _).trans (List.sublist_append_right pre _)
  | block pre x ms c hpre hc ih1 ih2 =>
      rw [read_of_block hpre hc, reports, List.map_append, closing?_eq_some hc]
      refine List.Sublist.trans ?_ (List.sublist_append_right pre _)
      have hrest := ih2.trans (List.sublist_cons_self ('}', c.place) c.after)
      split
      · exact .cons_cons _ (hrest.trans (List.sublist_append_right _ _))
      · exact .cons _ (ih1.append hrest)
  | unclosed pre x ms hpre hc =>
      rw [read_of_unclosed hpre hc]
      exact List.nil_sublist _

theorem Item.marks_reports_sublist (selector : String) (x : Location)
    (inside : List (Char × Location)) :
    ((Item.block selector x (.read inside)).reports.map Diagnostic.mark).Sublist
      (('{', x) :: inside) := by
  simp only [Item.reports]
  split
  · exact .cons_cons _ (List.nil_sublist inside)
  · exact .cons_cons _ (List.nil_sublist inside)
  · exact .cons _ (Content.marks_reports_sublist inside)

/-- The reports about a sheet are about some of its braces, in their order. -/
theorem Outline.marks_reports_sublist (ms : List (Char × Location)) :
    ((Outline.read ms).reports.map Diagnostic.mark).Sublist ms := by
  induction ms using topLevel_induction with
  | plain ms hms =>
      rw [read_of_forall hms]
      exact List.nil_sublist ms
  | stray pre x ms hpre ih =>
      rw [read_of_stray hpre]
      exact (ih.cons_cons _).trans (List.sublist_append_right pre _)
  | block pre x ms c hpre hc ih =>
      rw [read_of_block hpre hc, reports_cons, List.map_append, closing?_eq_some hc]
      have hblock := Item.marks_reports_sublist (trimmed (pre.map Prod.fst)) x c.inside
      have hrest := ih.trans (List.sublist_cons_self ('}', c.place) c.after)
      exact (hblock.append hrest).trans (List.sublist_append_right pre _)
  | unclosed pre x ms hpre hc =>
      rw [read_of_unclosed hpre hc]
      have hbrace : [('{', x)].Sublist (('{', x) :: ms) := .cons_cons _ (List.nil_sublist ms)
      exact hbrace.trans (List.sublist_append_right pre _)

/-- No walk leads back. -/
theorem Location.offset_le_past (g : Grain) (l : Location) (cs : List Char) :
    l.offset ≤ (l.past g cs).offset := by
  induction cs generalizing l with
  | nil => exact Nat.le_refl _
  | cons c cs ih =>
      have hstep := step_offset g l c
      have hrest := ih (l.step g c)
      rw [past_cons]
      omega

/-- The marks of a text are not in front of it. -/
theorem Scan.offset_le_of_mem_marks {g : Grain} {l : Location} {ps : List Piece}
    {m : Char × Location} (h : m ∈ marks g l ps) : l.offset ≤ m.2.offset := by
  obtain ⟨before, after, hmarks⟩ := List.append_of_mem h
  obtain ⟨qs, rs, -, -, hplace, -⟩ := exists_of_marks_eq hmarks
  rw [hplace]
  exact Location.offset_le_past g l (written qs)

/-- The marks of a text come one behind the other. -/
theorem Scan.pairwise_marks (g : Grain) (l : Location) (ps : List Piece) :
    (marks g l ps).Pairwise fun m m' => m.2.offset < m'.2.offset := by
  induction ps generalizing l with
  | nil => exact .nil
  | cons p ps ih =>
      cases p with
      | comment t => exact ih _
      | plain c =>
          refine .cons ?_ (ih _)
          intro m hm
          have hle : (l.step g c).offset ≤ m.2.offset := offset_le_of_mem_marks hm
          have hpos := g.bytes_pos c
          rw [Location.step_offset] at hle
          show l.offset < m.2.offset
          omega

/-- A character outside comments is at its own place. -/
theorem placeOf_of_mem_sheetMarks {text : String} {b : Char} {l : Location} (hb : b.toNat < 0x80)
    (h : (b, l) ∈ sheetMarks text) : l.PlaceOf text b := by
  obtain ⟨before, after, hmarks⟩ := List.append_of_mem h
  obtain ⟨cs, ds, htext, -, hplace⟩ := exists_of_sheetMarks_eq hmarks
  have hbrace := Location.placeOf_append hb cs ds
  rw [← Location.ofOffset_append cs (b :: ds), ← htext, ← hplace] at hbrace
  exact hbrace

theorem Diagnostic.brace_ascii (d : Diagnostic) : d.brace.toNat < 0x80 := by
  unfold brace
  split
  · decide
  · decide

theorem marks_diagnostics_sublist (source : String) :
    ((flatten source).diagnostics.map Diagnostic.mark).Sublist (sheetMarks source) := by
  rw [flatten_eq_outline]
  exact Outline.marks_reports_sublist (sheetMarks source)

theorem placeOf_of_mem_diagnostics {source : String} {d : Diagnostic}
    (h : d ∈ (flatten source).diagnostics) : d.location.PlaceOf source d.brace := by
  have hmem := (marks_diagnostics_sublist source).subset (List.mem_map_of_mem h)
  exact placeOf_of_mem_sheetMarks d.brace_ascii hmem

theorem pairwise_diagnostics (source : String) :
    (flatten source).diagnostics.Pairwise fun d d' => d.location.offset < d'.location.offset := by
  have hmarks := (Scan.pairwise_marks .char .start (Scan.pieces 0 source.toList)).sublist
    (marks_diagnostics_sublist source)
  rw [List.pairwise_map] at hmarks
  exact hmarks

/-- **Every place is right.**  Whatever a cursor has walked over, from the beginning of a text or over a
part of it between any two offsets, its line and column are those of its offset.  So are those of the
braces at which blocks open and close, after any calls on the events, and those of the braces that
flattening reports, which come one behind the other. -/
theorem location_eq_ofOffset (text : String) :
    (∀ c, (Cursor.ofText text.toList).Walked c → c.location = .ofOffset text c.location.offset) ∧
      (∀ start stop c, (Cursor.between text start stop).Walked c →
        c.location = .ofOffset text c.location.offset) ∧
      (∀ e mode event e', Events.Reached text e → e.next mode = (some event, e') →
        ∀ b ∈ event.brace?, event.location.PlaceOf text b) ∧
      (∀ d ∈ (flatten text).diagnostics, d.location.PlaceOf text d.brace) ∧
      (flatten text).diagnostics.Pairwise fun d d' => d.location.offset < d'.location.offset := by
  refine ⟨?_, ?_, ?_, ?_, pairwise_diagnostics text⟩
  · intro c hc
    obtain ⟨ps, hps⟩ := hc.reads
    exact Cursor.location_of_reads hps
  · intro start stop c hc
    obtain ⟨ps, hps⟩ := hc.reads
    exact Cursor.location_of_reads_between hps
  · intro e mode event e' he hnext b hb
    exact (he.seen hnext).placeOf hb
  · intro d hd
    exact placeOf_of_mem_diagnostics hd

/-- From inside a character a search comes past a comment with a brace and a line's end in it.  The
brace it finds is one of the two that are reported; the block that opens behind it is the other. -/
theorem location_eq_ofOffset_inside :
    ((Cursor.between "é/*\x7d\n*/è \x7d à \x7b b" 1 99).closingBrace 0).2.location
        = .ofOffset "é/*\x7d\n*/è \x7d à \x7b b" 12 ∧
      (((Events.ofText "é/*\x7d\n*/è \x7d à \x7b b").next .topLevel).2.next .topLevel).1
        = some (.opened "à" ⟨2, 9, 16⟩) ∧
      (⟨2, 9, 16⟩ : Location).PlaceOf "é/*\x7d\n*/è \x7d à \x7b b" '{' ∧
      .strayClosingBrace ⟨2, 5, 11⟩ ∈ (flatten "é/*\x7d\n*/è \x7d à \x7b b").diagnostics ∧
      (⟨2, 5, 11⟩ : Location).PlaceOf "é/*\x7d\n*/è \x7d à \x7b b" '}' := by
  obtain ⟨-, hbetween, hevents, hreports, -⟩ := location_eq_ofOffset "é/*\x7d\n*/è \x7d à \x7b b"
  have hoffset :
      ((Cursor.between "é/*\x7d\n*/è \x7d à \x7b b" 1 99).closingBrace 0).2.location.offset = 12 := by
    decide +kernel
  have hopened : (((Events.ofText "é/*\x7d\n*/è \x7d à \x7b b").next .topLevel).2.next .topLevel).1
      = some (.opened "à" ⟨2, 9, 16⟩) := by
    decide +kernel
  have hstray : .strayClosingBrace ⟨2, 5, 11⟩ ∈ (flatten "é/*\x7d\n*/è \x7d à \x7b b").diagnostics := by
    decide +kernel
  have hwalked := hbetween 1 99 _ (.block .start)
  rw [hoffset] at hwalked
  have hbrace := hevents _ .topLevel _ _ (.next .topLevel .start) (Prod.ext hopened rfl) '{' rfl
  exact ⟨hwalked, hopened, hbrace, hstray, hreports _ hstray⟩

end FlatSheet
