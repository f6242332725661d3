/-
Reading with all guards up.

Reading a sheet counts lines, columns, offsets, parentheses and blocks, it cuts parts out of
the text between two byte offsets, and it goes on in loops until something is found.  Each
of these could go wrong: a count could leave its range, an offset could lie inside a
character or behind another one, a loop could go on for ever.

The reader of this file works on single bytes and keeps the beginning of a span as an
offset.  It checks each count whenever it changes, at every byte, against a limit, it cuts
parts out only between two places where characters begin, in their order, and it gives its
loops a number of turns.  Where a check fails it gives up.

Its walks are compared here with those of a cursor over characters.  The two cursors move
alike (`Twin`): a comment is one piece for both, an ASCII character is the same piece for
both, and any other character is some pieces for the one that no walk stops between.
-/
import FlatSheet.Proofs.Bytewise
import FlatSheet.Proofs.Place

namespace FlatSheet

open Scan

namespace Guarded

/-! ### Counts, parts of a text, and pieces -/

/-- Adds to a count that must not exceed a limit. -/
def plus (limit n k : Nat) : Option Nat := if n + k ≤ limit then some (n + k) else none

/-- Takes from a count what is in it. -/
def minus (n k : Nat) : Option Nat := if k ≤ n then some (n - k) else none

/-- The first bytes of a text, if a character begins behind them or the text ends there. -/
def takeBytes? : Nat → List Char → Option (List Char)
  | 0, _ => some []
  | _ + 1, [] => none
  | n + 1, c :: cs =>
    if c.utf8Size ≤ n + 1 then (takeBytes? (n + 1 - c.utf8Size) cs).map (c :: ·) else none

/-- The part of a text between two byte offsets.  They have to be in order and in the text, and both
where a character begins or the text ends. -/
def slice? (text : List Char) (start stop : Nat) : Option (List Char) := do
  let length ← minus stop start
  let behind ← dropBytes? start text
  takeBytes? length behind

/-- The place after a byte. -/
def step (limit : Nat) (l : Location) (b : Char) : Option Location := do
  let offset ← plus limit l.offset 1
  if b = '\n' then
    let line ← plus limit l.line 1
    return ⟨line, 1, offset⟩
  else
    let column ← plus limit l.column (Grain.byte.columns b)
    return ⟨l.line, column, offset⟩

/-- The number of parentheses open after a byte outside comments. -/
def parensAfter (limit parens : Nat) (b : Char) : Option Nat :=
  if b = '(' then plus limit parens 1 else some (Scan.parensAfter parens b)

/-- Moves past a piece, byte by byte. -/
def past (limit : Nat) (c : Cursor .byte) (p : Piece) (rest : List Char) :
    Option (Cursor .byte) := do
  let location ← p.text.foldlM (step limit) c.location
  let parens ← p.visible.foldlM (parensAfter limit) c.parens
  return ⟨rest, location, parens⟩

/-- Reads the next piece.  Whether it is a comment takes a look at the offset behind the next one. -/
def readPiece (limit : Nat) (c : Cursor .byte) : Option (Option (Piece × Cursor .byte)) := do
  let _ ← plus limit c.location.offset 1
  match piece? c.parens c.rest with
  | none => return none
  | some (p, rest) => (past limit c p rest).map fun c' => some (p, c')

/-! ### Walks -/

/-- Moves past blanks and comments. -/
def skipTrivia (limit : Nat) : Nat → Cursor .byte → Option (Cursor .byte)
  | 0, _ => none
  | turns + 1, c => do
    match ← readPiece limit c with
    | some (.comment _, c') => skipTrivia limit turns c'
    | some (.plain b, c') => if Cursor.isSpacing b then skipTrivia limit turns c' else return c
    | none => return c

/-- Looks for the brace at which no block is open any more.  Its offset is the one in front of where the
cursor is then. -/
def closingBrace (limit : Nat) : Nat → Nat → Cursor .byte → Option (Option Nat × Cursor .byte)
  | 0, _, _ => none
  | turns + 1, depth, c => do
    match ← readPiece limit c with
    | some (.comment _, c') => closingBrace limit turns depth c'
    | some (.plain b, c') =>
      if b = '{' then
        let depth ← plus limit depth 1
        closingBrace limit turns depth c'
      else if b = '}' then
        let depth ← minus depth 1
        if depth = 0 then
          let offset ← minus c'.location.offset 1
          return (some offset, c')
        else closingBrace limit turns depth c'
      else closingBrace limit turns depth c'
    | none => return (none, c)

/-- Moves up to the next boundary. -/
def toBoundary (limit : Nat) (mode : ScanMode) : Nat → Cursor .byte → Option (Cursor .byte)
  | 0, _ => none
  | turns + 1, c => do
    match ← readPiece limit c with
    | some (.comment _, c') => toBoundary limit mode turns c'
    | some (.plain b, c') => if mode.isBoundary b then return c else toBoundary limit mode turns c'
    | none => return c

/-! ### Parts of a text -/

@[simp] theorem takeBytes?_append (cs ds : List Char) :
    takeBytes? (bytes cs) (cs ++ ds) = some cs := by
  induction cs with
  | nil =>
      rw [bytes_nil]
      cases ds <;> rfl
  | cons c cs ih =>
      obtain ⟨n, hn, hle, hrest⟩ := exists_bytes_cons c cs
      rw [hn, List.cons_append, takeBytes?, if_pos hle, hrest, ih]
      rfl

theorem exists_of_takeBytes? {n : Nat} {cs front : List Char}
    (h : takeBytes? n cs = some front) : ∃ ds, cs = front ++ ds ∧ bytes front = n := by
  fun_induction takeBytes? n cs generalizing front with
  | case1 cs =>
      obtain rfl := by simpa using h
      exact ⟨cs, rfl, bytes_nil⟩
  | case2 => simp at h
  | case3 n c cs hle ih =>
      obtain ⟨front, hfront, rfl⟩ := Option.map_eq_some_iff.mp h
      obtain ⟨ds, rfl, hbytes⟩ := ih hfront
      refine ⟨ds, rfl, ?_⟩
      rw [bytes_cons]
      omega
  | case4 => simp at h

/-- **What is cut out of a text** is the part with these bytes in front of it and up to its end. -/
theorem slice?_eq_some_iff {text mid : List Char} {start stop : Nat} :
    slice? text start stop = some mid ↔
      ∃ front after, text = front ++ (mid ++ after) ∧ bytes front = start ∧
        bytes (front ++ mid) = stop := by
  constructor
  · intro h
    obtain ⟨length, hlength, hbehind⟩ := Option.bind_eq_some_iff.mp h
    obtain ⟨behind, hdrop, htake⟩ := Option.bind_eq_some_iff.mp hbehind
    obtain ⟨front, rfl, hfront⟩ := exists_of_dropBytes? hdrop
    obtain ⟨after, rfl, hmid⟩ := exists_of_takeBytes? htake
    refine ⟨front, after, rfl, hfront, ?_⟩
    unfold minus at hlength
    split at hlength
    next hle =>
      obtain rfl := Option.some.inj hlength
      rw [bytes_append]
      omega
    next => cases hlength
  · rintro ⟨front, after, rfl, rfl, rfl⟩
    have hminus : minus (bytes (front ++ mid)) (bytes front) = some (bytes mid) := by
      unfold minus
      rw [bytes_append, if_pos (Nat.le_add_right _ _), Nat.add_sub_cancel_left]
    show (minus (bytes (front ++ mid)) (bytes front)).bind _ = _
    rw [hminus]
    show (dropBytes? (bytes front) (front ++ (mid ++ after))).bind _ = _
    rw [dropBytes?_append]
    exact takeBytes?_append mid after

/-- **Two places where a reader comes are in order, and characters begin there.**  What it reads between
them is the part of the text that can be cut out there. -/
theorem slice?_of_reads {text : List Char} {start stop : Cursor .char} {ps qs : List Piece}
    (hstart : (Cursor.ofText text).Reads ps start) (hstop : start.Reads qs stop) :
    slice? text start.location.offset stop.location.offset = some (written qs) := by
  refine slice?_eq_some_iff.mpr
    ⟨written ps, stop.rest, ?_, (Cursor.offset_of_reads hstart).symm, ?_⟩
  · rw [← hstop.rest]
    exact hstart.rest
  · rw [Cursor.offset_of_reads (hstart.trans hstop), written_append]

/-! ### Room for the counts -/

/-- The counts of a place stay within a limit when some more bytes are passed, and so does a look at the
offset behind the next byte. -/
structure Room (limit : Nat) (l : Location) (n : Nat) : Prop where
  line : l.line + n ≤ limit
  column : l.column + n ≤ limit
  offset : l.offset + n < limit

section

variable {limit n : Nat} {l : Location}

theorem plus_eq {k : Nat} (h : n + k ≤ limit) : plus limit n k = some (n + k) := if_pos h

theorem Room.step (h : Room limit l (n + 1)) (b : Char) :
    step limit l b = some (l.step .byte b) ∧ Room limit (l.step .byte b) n := by
  obtain ⟨hline, hcolumn, hoffset⟩ := h
  have hcolumns : Grain.byte.columns b ≤ 1 := by
    unfold Grain.columns
    dsimp only
    split <;> omega
  unfold Guarded.step Location.step
  rw [plus_eq (show l.offset + 1 ≤ limit by omega), Option.bind_eq_bind, Option.bind_some]
  by_cases hb : b = '\n'
  · rw [if_pos hb, if_pos hb, plus_eq (show l.line + 1 ≤ limit by omega)]
    refine ⟨rfl, ?_, ?_, ?_⟩
    · show l.line + 1 + n ≤ limit
      omega
    · show 1 + n ≤ limit
      omega
    · show l.offset + 1 + n < limit
      omega
  · rw [if_neg hb, if_neg hb,
      plus_eq (show l.column + Grain.byte.columns b ≤ limit by omega)]
    refine ⟨rfl, ?_, ?_, ?_⟩
    · show l.line + n ≤ limit
      omega
    · show l.column + Grain.byte.columns b + n ≤ limit
      omega
    · show l.offset + 1 + n < limit
      omega

theorem Room.past {bs : List Char} (h : Room limit l (bs.length + n)) :
    bs.foldlM (Guarded.step limit) l = some (l.past .byte bs) ∧
      Room limit (l.past .byte bs) n := by
  induction bs generalizing l with
  | nil => exact ⟨rfl, by simpa using h⟩
  | cons b bs ih =>
      have hroom : Room limit l (bs.length + n + 1) := by
        rwa [List.length_cons, Nat.add_right_comm] at h
      obtain ⟨hstep, hbehind⟩ := hroom.step b
      rw [List.foldlM_cons, hstep]
      exact ih hbehind

end

/-- Whatever a cursor meets, its counts stay within a limit. -/
structure Fits (limit : Nat) (c : Cursor .byte) : Prop where
  room : Room limit c.location c.rest.length
  parens : c.parens + c.rest.length ≤ limit

section

variable {limit : Nat} {c c' : Cursor .byte} {p : Piece}

/-- Parentheses open one at a time, at a byte of their own. -/
theorem foldlM_parensAfter {parens n : Nat} (h : parens + (p.text.length + n) ≤ limit) :
    p.visible.foldlM (Guarded.parensAfter limit) parens
        = some (p.visible.foldl Scan.parensAfter parens) ∧
      p.visible.foldl Scan.parensAfter parens + n ≤ limit := by
  cases p with
  | comment t =>
      refine ⟨rfl, ?_⟩
      show parens + n ≤ limit
      omega
  | plain b =>
      have hroom : parens + (1 + n) ≤ limit := h
      show [b].foldlM (Guarded.parensAfter limit) parens = some (Scan.parensAfter parens b) ∧
        Scan.parensAfter parens b + n ≤ limit
      rw [List.foldlM_cons, Guarded.parensAfter]
      by_cases hb : b = '('
      · have hafter : Scan.parensAfter parens b = parens + 1 := if_pos hb
        rw [if_pos hb, hafter, plus_eq (by omega)]
        exact ⟨rfl, by omega⟩
      · have hle : Scan.parensAfter parens b ≤ parens := by
          unfold Scan.parensAfter
          rw [if_neg hb]
          split
          · omega
          · split <;> omega
        rw [if_neg hb]
        exact ⟨rfl, by omega⟩

/-- **Where there is room for the counts a piece is read as it is**, and there is room behind it. -/
theorem Fits.readPiece (h : Fits limit c) (hn : c.next? = some (p, c')) :
    readPiece limit c = some (some (p, c')) ∧ Fits limit c' := by
  obtain ⟨hpiece, hc'⟩ := Cursor.next?_eq_some hn
  have hlength := congrArg List.length (Cursor.text_append_of_next? hn)
  rw [List.length_append] at hlength
  have hroom := h.room
  have hparens := h.parens
  rw [← hlength] at hroom hparens
  obtain ⟨hlocation, hroom'⟩ := hroom.past
  obtain ⟨hopen, hparens'⟩ := foldlM_parensAfter hparens
  have hpast : past limit c p c'.rest = some c' := by
    unfold past
    rw [hlocation, hopen, hc']
    rfl
  refine ⟨?_, ?_⟩
  · unfold Guarded.readPiece
    have hlook := h.room.offset
    rw [plus_eq (by omega), hpiece]
    show (past limit c p c'.rest).map _ = _
    rw [hpast]
    rfl
  · rw [hc'] at hroom' hparens' ⊢
    exact ⟨hroom', hparens'⟩

theorem Fits.readPiece_none (h : Fits limit c) (hn : c.next? = none) :
    Guarded.readPiece limit c = some none := by
  have hlook := h.room.offset
  unfold Guarded.readPiece
  rw [plus_eq (by omega), Scan.piece?_eq_none_iff.mpr (Cursor.next?_eq_none_iff.mp hn)]
  rfl

end

/-! ### Two cursors that move alike -/

/-- Bytes lead to the place where the characters lead that they are. -/
theorem past_bytewise (l : Location) (cs : List Char) :
    l.past .byte (bytewise cs) = l.past .char cs := by
  have hplace := Location.past_take_ofChars l (Nat.le_refl (bytes cs))
  have hbefore := Location.beginningBefore_append cs []
  rw [List.append_nil] at hbefore
  rw [List.take_of_length_le (by simp), hbefore, ← Location.offset_past] at hplace
  exact hplace

/-- A cursor over bytes and one over characters, with the same text ahead. -/
structure Twin (limit : Nat) (b : Cursor .byte) (c : Cursor .char) : Prop where
  rest : b.rest = bytewise c.rest
  location : b.location = c.location
  parens : b.parens = c.parens
  fits : Fits limit b

/-- Some bytes that are no ASCII characters are read one after the other. -/
inductive Passes (limit : Nat) : Cursor .byte → List Char → Cursor .byte → Prop where
  | nil (b : Cursor .byte) : Passes limit b [] b
  | cons {b b' b'' : Cursor .byte} {d : Char} {ds : List Char} (hd : ¬ d.toNat < 0x80)
      (h : readPiece limit b = some (some (.plain d, b'))) (hrest : Passes limit b' ds b'') :
      Passes limit b (d :: ds) b''

/-- What a cursor over bytes reads where one over characters reads a piece: nothing at the end, the same
comment, the same ASCII character, or the bytes of another one. -/
inductive Reading (limit : Nat) (b : Cursor .byte) : Option (Piece × Cursor .char) → Prop where
  | none (h : readPiece limit b = some none) : Reading limit b none
  | comment {t : List Char} {b' : Cursor .byte} {c' : Cursor .char}
      (h : readPiece limit b = some (some (.comment (bytewise t), b'))) (htwin : Twin limit b' c')
      (hlength : b'.rest.length < b.rest.length) : Reading limit b (some (.comment t, c'))
  | ascii {ch : Char} {b' : Cursor .byte} {c' : Cursor .char} (hch : ch.toNat < 0x80)
      (h : readPiece limit b = some (some (.plain ch, b'))) (htwin : Twin limit b' c')
      (hlength : b.rest.length = b'.rest.length + 1) : Reading limit b (some (.plain ch, c'))
  | other {ch d : Char} {ds : List Char} {b' : Cursor .byte} {c' : Cursor .char}
      (hch : ¬ ch.toNat < 0x80) (h : Passes limit b (d :: ds) b') (htwin : Twin limit b' c')
      (hlength : b.rest.length = b'.rest.length + (d :: ds).length) :
      Reading limit b (some (.plain ch, c'))

section

variable {limit : Nat} {b b' : Cursor .byte} {c c' : Cursor .char}

/-- The bytes of a character outside comments are read one after the other. -/
theorem Fits.passes {ds rest : List Char} (h : Fits limit b) (hrest : b.rest = ds ++ rest)
    (hds : ∀ d ∈ ds, ¬ d.toNat < 0x80) :
    Passes limit b ds ⟨rest, b.location.past .byte ds, b.parens⟩ ∧
      Fits limit ⟨rest, b.location.past .byte ds, b.parens⟩ := by
  induction ds generalizing b with
  | nil =>
      rw [List.nil_append] at hrest
      subst hrest
      exact ⟨.nil b, h⟩
  | cons d ds ih =>
      obtain ⟨hd, hds⟩ := List.forall_mem_cons.mp hds
      have hslash : d ≠ '/' := ne_of_not_ascii (by decide) hd
      have hnext : b.next? = some (.plain d, ⟨ds ++ rest, b.location.step .byte d, b.parens⟩) := by
        unfold Cursor.next?
        rw [hrest, List.cons_append, piece?_of_ne_slash hslash]
        show some (Piece.plain d, (⟨ds ++ rest, b.location.step .byte d,
          Scan.parensAfter b.parens d⟩ : Cursor .byte)) = _
        rw [parensAfter_of_not_ascii hd]
      obtain ⟨hread, hfits⟩ := h.readPiece hnext
      obtain ⟨hpasses, hfits'⟩ := ih hfits rfl hds
      exact ⟨.cons hd hread hpasses, hfits'⟩

theorem Twin.of_comment {t : List Char} (h : Twin limit b c)
    (hn : c.next? = some (.comment t, c')) : Reading limit b (some (.comment t, c')) := by
  obtain ⟨hrest, hlocation, hparens, hfits⟩ := h
  obtain ⟨hpiece, hc'⟩ := Cursor.next?_eq_some hn
  have hnext : b.next? = some (.comment (bytewise t),
      b.past (.comment (bytewise t)) (bytewise c'.rest)) := by
    unfold Cursor.next? piece?
    rw [hrest, hparens, comment?_bytewise, comment?_of_piece? hpiece]
    rfl
  obtain ⟨hread, hfits'⟩ := hfits.readPiece hnext
  refine .comment hread ⟨rfl, ?_, ?_, hfits'⟩ (Cursor.length_lt_of_next? hnext)
  · rw [hc']
    show b.location.past .byte (bytewise t) = c.location.past .char t
    rw [past_bytewise, hlocation]
  · rw [hc']
    exact hparens

theorem Twin.of_plain {ch : Char} (h : Twin limit b c)
    (hn : c.next? = some (.plain ch, c')) : Reading limit b (some (.plain ch, c')) := by
  obtain ⟨hrest, hlocation, hparens, hfits⟩ := h
  obtain ⟨hpiece, hc'⟩ := Cursor.next?_eq_some hn
  obtain ⟨hcomment, hcrest⟩ := comment?_of_plain hpiece
  have hplace : b.location.past .byte (bytewise [ch]) = c'.location := by
    rw [past_bytewise, hlocation, hc']
    rfl
  by_cases hch : ch.toNat < 0x80
  · have hnext : b.next? = some (.plain ch, b.past (.plain ch) (bytewise c'.rest)) := by
      unfold Cursor.next? piece?
      rw [hrest, hparens, comment?_bytewise, hcomment, hcrest, bytewise_cons_of_ascii hch]
      rfl
    obtain ⟨hread, hfits'⟩ := hfits.readPiece hnext
    refine .ascii hch hread ⟨rfl, ?_, ?_, hfits'⟩ ?_
    · rw [bytewise_of_ascii hch] at hplace
      exact hplace
    · rw [hc']
      show Scan.parensAfter b.parens ch = Scan.parensAfter c.parens ch
      rw [hparens]
    · rw [← Cursor.text_append_of_next? hnext]
      rfl
  · obtain ⟨d, ds, hds⟩ := List.exists_cons_of_ne_nil (bytewise_singleton_ne_nil ch)
    have hbytes : b.rest = d :: ds ++ bytewise c'.rest := by
      rw [hrest, hcrest, bytewise_cons, hds]
    have hall : ∀ x ∈ d :: ds, ¬ x.toNat < 0x80 := by
      rw [← hds]
      exact fun x hx => not_ascii_of_mem_bytewise hch hx
    obtain ⟨hpasses, hfits'⟩ := hfits.passes hbytes hall
    refine .other hch hpasses ⟨rfl, ?_, ?_, hfits'⟩ ?_
    · rw [hds] at hplace
      exact hplace
    · rw [hc']
      show b.parens = Scan.parensAfter c.parens ch
      rw [parensAfter_of_not_ascii hch, hparens]
    · rw [hbytes, List.length_append]
      exact Nat.add_comm _ _

/-- **Where characters are read, bytes are read alike.** -/
theorem Twin.reading {r : Option (Piece × Cursor .char)} (h : Twin limit b c)
    (hn : c.next? = r) : Reading limit b r := by
  rcases r with _ | ⟨t | ch, c'⟩
  · refine .none (h.fits.readPiece_none (Cursor.next?_eq_none_iff.mpr ?_))
    rw [h.rest, Cursor.next?_eq_none_iff.mp hn, bytewise_nil]
  · exact h.of_comment hn
  · exact h.of_plain hn

end

/-! ### Walks that move alike -/

theorem ascii_of_isSpacing {ch : Char} (h : Cursor.isSpacing ch = true) : ch.toNat < 0x80 := by
  simp only [Cursor.isSpacing, Bool.or_eq_true, decide_eq_true_eq] at h
  rcases h with (((rfl | rfl) | rfl) | rfl) | rfl <;> decide

theorem ascii_of_isBoundary {mode : ScanMode} {ch : Char} (h : mode.isBoundary ch = true) :
    ch.toNat < 0x80 := by
  rcases Marked.boundary_cases h with rfl | rfl | rfl <;> decide

theorem exists_turns {n turns : Nat} (h : n < turns) : ∃ turns', turns = turns' + 1 :=
  Nat.exists_eq_add_one.mpr (Nat.lt_of_le_of_lt (Nat.zero_le n) h)

/-- Enough turns for some bytes and what is behind them are enough for what is behind them. -/
theorem exists_turns_behind {n m k turns : Nat} (hlength : n = m + k) (h : n < turns) :
    ∃ more, turns = more + k ∧ m < more :=
  ⟨turns - k, by omega, by omega⟩

section

variable {limit turns : Nat} {b b' : Cursor .byte} {c c' : Cursor .char} {ds : List Char}

theorem closingBrace_of_passes (h : Passes limit b ds b') (turns depth : Nat) :
    Guarded.closingBrace limit (turns + ds.length) depth b
      = Guarded.closingBrace limit turns depth b' := by
  induction h with
  | nil b => rfl
  | @cons b b₁ b₂ d ds hd hread _ ih =>
      rw [List.length_cons, ← Nat.add_assoc, Guarded.closingBrace, hread]
      show (if d = '{' then _ else if d = '}' then _ else _) = _
      rw [if_neg (ne_of_not_ascii (by decide) hd), if_neg (ne_of_not_ascii (by decide) hd), ih]

theorem toBoundary_of_passes {mode : ScanMode} (h : Passes limit b ds b') (turns : Nat) :
    toBoundary limit mode (turns + ds.length) b = toBoundary limit mode turns b' := by
  induction h with
  | nil b => rfl
  | @cons b b₁ b₂ d ds hd hread _ ih =>
      rw [List.length_cons, ← Nat.add_assoc, toBoundary, hread]
      show (if mode.isBoundary d = true then _ else _) = _
      rw [if_neg fun hb => hd (ascii_of_isBoundary hb), ih]

/-- **Trivia is skipped alike.** -/
theorem Twin.skipTrivia (h : Twin limit b c) (hturns : b.rest.length < turns) :
    ∃ b', Guarded.skipTrivia limit turns b = some b' ∧ Twin limit b' c.skipTrivia := by
  fun_induction Cursor.skipTrivia c generalizing b turns with
  | case1 c t c' hn ih =>
      obtain ⟨turns, rfl⟩ := exists_turns hturns
      cases h.reading hn with
      | comment hread htwin hlength =>
          rw [Guarded.skipTrivia, hread]
          exact ih htwin (by omega)
  | case2 c ch c' hn hs ih =>
      obtain ⟨turns, rfl⟩ := exists_turns hturns
      cases h.reading hn with
      | ascii hch hread htwin hlength =>
          rw [Guarded.skipTrivia, hread]
          show ∃ b', (if Cursor.isSpacing ch = true then _ else _) = some b' ∧ _
          rw [if_pos hs]
          exact ih htwin (by omega)
      | other hch => exact absurd (ascii_of_isSpacing hs) hch
  | case3 c ch c' hn hs =>
      obtain ⟨turns, rfl⟩ := exists_turns hturns
      refine ⟨b, ?_, h⟩
      cases h.reading hn with
      | ascii hch hread htwin hlength =>
          rw [Guarded.skipTrivia, hread]
          exact if_neg hs
      | other hch hpasses =>
          cases hpasses with
          | cons hd hread =>
              rw [Guarded.skipTrivia, hread]
              exact if_neg fun hs => hd (ascii_of_isSpacing hs)
  | case4 c hn =>
      obtain ⟨turns, rfl⟩ := exists_turns hturns
      refine ⟨b, ?_, h⟩
      cases h.reading hn with
      | none hread =>
          rw [Guarded.skipTrivia, hread]
          rfl

/-- **The search for a closing brace ends alike.** -/
theorem Twin.closingBrace {inner : Nat} (h : Twin limit b c) (hturns : b.rest.length < turns)
    (hdepth : inner + 1 + b.rest.length ≤ limit) :
    ∃ b', Guarded.closingBrace limit turns (inner + 1) b = some ((c.closingBrace inner).1, b') ∧
      Twin limit b' (c.closingBrace inner).2 := by
  fun_induction Cursor.closingBrace c inner generalizing b turns with
  | case1 c inner c' hn ih =>
      obtain ⟨turns, rfl⟩ := exists_turns hturns
      cases h.reading hn with
      | ascii hch hread htwin hlength =>
          rw [Guarded.closingBrace, hread]
          show ∃ b', (plus limit (inner + 1) 1).bind _ = _ ∧ _
          rw [plus_eq (by omega)]
          exact ih htwin (by omega) (by omega)
      | other hch => exact absurd (by decide) hch
  | case2 c c' hn =>
      obtain ⟨turns, rfl⟩ := exists_turns hturns
      cases h.reading hn with
      | @ascii _ b' _ hch hread htwin hlength =>
          refine ⟨b', ?_, htwin⟩
          have hoffset : b'.location.offset = c.location.offset + 1 := by
            rw [htwin.location, (Cursor.Reads.of_next? hn).location]
            exact Location.step_offset .char c.location '}'
          rw [Guarded.closingBrace, hread]
          show (minus b'.location.offset 1).bind _ = _
          rw [hoffset]
          rfl
      | other hch => exact absurd (by decide) hch
  | case3 c c' hn outer ih =>
      obtain ⟨turns, rfl⟩ := exists_turns hturns
      cases h.reading hn with
      | ascii hch hread htwin hlength =>
          rw [Guarded.closingBrace, hread]
          exact ih htwin (by omega) (by omega)
      | other hch => exact absurd (by decide) hch
  | case4 c inner p c' hopen hclose hn ih =>
      obtain ⟨turns, rfl⟩ := exists_turns hturns
      cases h.reading hn with
      | comment hread htwin hlength =>
          rw [Guarded.closingBrace, hread]
          exact ih htwin (by omega) (by omega)
      | @ascii ch _ _ hch hread htwin hlength =>
          have ho : ch ≠ '{' := fun he => hopen (by rw [he])
          have hc : ch ≠ '}' := fun he => hclose (by rw [he])
          rw [Guarded.closingBrace, hread]
          show ∃ b', (if ch = '{' then _ else if ch = '}' then _ else _) = _ ∧ _
          rw [if_neg ho, if_neg hc]
          exact ih htwin (by omega) (by omega)
      | @other ch d ds _ _ hch hpasses htwin hlength =>
          obtain ⟨more, hmore, hbehind⟩ := exists_turns_behind hlength hturns
          rw [hmore, closingBrace_of_passes hpasses]
          exact ih htwin hbehind (by omega)
  | case5 c inner hn =>
      obtain ⟨turns, rfl⟩ := exists_turns hturns
      refine ⟨b, ?_, h⟩
      cases h.reading hn with
      | none hread =>
          rw [Guarded.closingBrace, hread]
          rfl

/-- **The next boundary is reached alike.** -/
theorem Twin.toBoundary {mode : ScanMode} (h : Twin limit b c) (hturns : b.rest.length < turns) :
    ∃ b', Guarded.toBoundary limit mode turns b = some b' ∧
      Twin limit b' (c.stretch mode.isBoundary).2 := by
  fun_induction Cursor.stretch mode.isBoundary c generalizing b turns with
  | case1 c t c' hn s =>
      rename_i ih
      obtain ⟨turns, rfl⟩ := exists_turns hturns
      cases h.reading hn with
      | comment hread htwin hlength =>
          rw [Guarded.toBoundary, hread]
          exact ih htwin (by omega)
  | case2 c ch c' hn hb =>
      obtain ⟨turns, rfl⟩ := exists_turns hturns
      refine ⟨b, ?_, h⟩
      cases h.reading hn with
      | ascii hch hread htwin hlength =>
          rw [Guarded.toBoundary, hread]
          exact if_pos hb
      | other hch => exact absurd (ascii_of_isBoundary hb) hch
  | case3 c ch c' hn hb s =>
      rename_i ih
      obtain ⟨turns, rfl⟩ := exists_turns hturns
      cases h.reading hn with
      | ascii hch hread htwin hlength =>
          rw [Guarded.toBoundary, hread]
          show ∃ b', (if mode.isBoundary ch = true then _ else _) = some b' ∧ _
          rw [if_neg hb]
          exact ih htwin (by omega)
      | @other ch d ds _ _ hch hpasses htwin hlength =>
          obtain ⟨more, hmore, hbehind⟩ := exists_turns_behind hlength hturns
          rw [hmore, toBoundary_of_passes hpasses]
          exact ih htwin hbehind
  | case4 c hn =>
      obtain ⟨turns, rfl⟩ := exists_turns hturns
      refine ⟨b, ?_, h⟩
      cases h.reading hn with
      | none hread =>
          rw [Guarded.toBoundary, hread]
          rfl

end

end Guarded

end FlatSheet
