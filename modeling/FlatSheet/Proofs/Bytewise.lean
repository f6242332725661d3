/-
A text read byte by byte.

The characters that mean something to a reader, slashes, stars, line ends, parentheses,
braces and semicolons, are single bytes, and no byte of another character looks like one
of them.  So a reader of single bytes meets the same comments as a reader of characters,
and outside comments the same braces at the same offsets.

Most of this rests on reading the bytes backwards: where an ASCII character is among
them, it is in the text, with the same bytes around it (`exists_of_bytewise_append`).
-/
import FlatSheet.Proofs.Bytes
import FlatSheet.Proofs.Cursor

namespace FlatSheet

namespace Scan

/-- The bytes of a text, each shown as the character of its number. -/
def bytewise (cs : List Char) : List Char := (Text.Utf8.ofChars cs).map Char.ofUInt8

@[simp] theorem bytewise_nil : bytewise [] = [] := rfl

theorem bytewise_cons (c : Char) (cs : List Char) :
    bytewise (c :: cs) = bytewise [c] ++ bytewise cs := by
  simp [bytewise]

@[simp] theorem length_bytewise (cs : List Char) : (bytewise cs).length = bytes cs := by
  simp [bytewise]

/-- An ASCII character is shown as itself. -/
theorem bytewise_of_ascii {c : Char} (h : c.toNat < 0x80) : bytewise [c] = [c] := by
  have hshown : Char.ofUInt8 c.toUInt8 = c := Char.toNat_inj.mp (Text.Utf8.toNat_toUInt8 h)
  simp [bytewise, Text.Utf8.utf8EncodeChar_of_ascii h, hshown]

theorem bytewise_cons_of_ascii {c : Char} (h : c.toNat < 0x80) (cs : List Char) :
    bytewise (c :: cs) = c :: bytewise cs := by
  rw [bytewise_cons, bytewise_of_ascii h, List.singleton_append]

/-- No byte of another character is shown as an ASCII character. -/
theorem not_ascii_of_mem_bytewise {c d : Char} (hc : ¬ c.toNat < 0x80) (hd : d ∈ bytewise [c]) :
    ¬ d.toNat < 0x80 := by
  obtain ⟨b, hb, rfl⟩ := List.mem_map.mp hd
  rw [Text.Utf8.ofChars_cons, Text.Utf8.ofChars_nil, List.append_nil] at hb
  exact Nat.not_lt.mpr (Text.Utf8.le_of_mem_utf8EncodeChar (Nat.not_lt.mp hc) hb)

theorem ne_of_not_ascii {a c : Char} (ha : a.toNat < 0x80) (hc : ¬ c.toNat < 0x80) : c ≠ a := by
  rintro rfl
  exact hc ha

theorem ne_of_mem_bytewise {a c d : Char} (ha : a.toNat < 0x80) (hc : ¬ c.toNat < 0x80)
    (hd : d ∈ bytewise [c]) : d ≠ a :=
  ne_of_not_ascii ha (not_ascii_of_mem_bytewise hc hd)

theorem bytewise_singleton_ne_nil (c : Char) : bytewise [c] ≠ [] := by
  have hlength := length_bytewise [c]
  have hsize := c.utf8Size_pos
  intro hnil
  rw [hnil, bytes_cons, List.length_nil] at hlength
  omega

/-- **Where an ASCII character is among the bytes, it is in the text.** -/
theorem exists_of_bytewise_append {a : Char} (ha : a.toNat < 0x80) {cs xs ys : List Char}
    (h : bytewise cs = xs ++ a :: ys) :
    ∃ front after, cs = front ++ a :: after ∧ bytewise front = xs ∧ bytewise after = ys := by
  induction cs generalizing xs with
  | nil => simp at h
  | cons c cs ih =>
      by_cases hc : c.toNat < 0x80
      · rw [bytewise_cons_of_ascii hc] at h
        rcases xs with _ | ⟨x, xs⟩
        · obtain ⟨rfl, rfl⟩ := by simpa using h
          exact ⟨[], cs, rfl, rfl, rfl⟩
        · obtain ⟨rfl, hrest⟩ := by simpa using h
          obtain ⟨front, after, rfl, rfl, rfl⟩ := ih hrest
          exact ⟨c :: front, after, rfl, bytewise_cons_of_ascii hc front, rfl⟩
      · -- The character is none of the bytes of the first one, so it is behind them.
        have hbehind : ∃ zs, xs = bytewise [c] ++ zs ∧ bytewise cs = zs ++ a :: ys := by
          rw [bytewise_cons] at h
          rcases List.append_eq_append_iff.mp h with hzs | ⟨zs, hbytes, hrest⟩
          · exact hzs
          · rcases zs with _ | ⟨d, zs⟩
            · exact ⟨[], by simpa using hbytes.symm, by simpa using hrest.symm⟩
            · obtain ⟨rfl, -⟩ := by simpa using hrest
              have hmem : a ∈ bytewise [c] := by simp [hbytes]
              exact absurd rfl (ne_of_mem_bytewise ha hc hmem)
        obtain ⟨zs, rfl, hzs⟩ := hbehind
        obtain ⟨front, after, rfl, rfl, rfl⟩ := ih hzs
        exact ⟨c :: front, after, rfl, bytewise_cons c front, rfl⟩

/-- Where the bytes begin with an ASCII character, the text begins with it. -/
theorem eq_of_bytewise_cons {a : Char} (ha : a.toNat < 0x80) {cs ds : List Char}
    (h : bytewise cs = a :: ds) : ∃ cs', cs = a :: cs' ∧ bytewise cs' = ds := by
  have hfirst : bytewise cs = [] ++ a :: ds := h
  obtain ⟨front, after, rfl, hfront, rfl⟩ := exists_of_bytewise_append ha hfirst
  rcases front with _ | ⟨c, front⟩
  · exact ⟨after, rfl, rfl⟩
  · rw [bytewise_cons, List.append_eq_nil_iff] at hfront
    exact absurd hfront.1 (bytewise_singleton_ne_nil c)

theorem exists_of_bytewise_cons_cons {a b : Char} (ha : a.toNat < 0x80) (hb : b.toNat < 0x80)
    {cs ds : List Char} (h : bytewise cs = a :: b :: ds) : ∃ cs', cs = a :: b :: cs' := by
  obtain ⟨cs₁, rfl, h₁⟩ := eq_of_bytewise_cons ha h
  obtain ⟨cs₂, rfl, -⟩ := eq_of_bytewise_cons hb h₁
  exact ⟨cs₂, rfl⟩

/-! ### Comments -/

theorem splitBlock_append_of_ne_star {ds : List Char} (h : ∀ d ∈ ds, d ≠ '*') (cs : List Char) :
    splitBlock (ds ++ cs) = (ds ++ (splitBlock cs).1, (splitBlock cs).2) := by
  induction ds with
  | nil => rfl
  | cons d ds ih =>
      obtain ⟨hd, hds⟩ := List.forall_mem_cons.mp h
      rw [List.cons_append, splitBlock, ih hds]
      · rfl
      · intro _ hstar
        exact absurd hstar hd

theorem splitLine_append_of_ne_newline {ds : List Char} (h : ∀ d ∈ ds, d ≠ '\n')
    (cs : List Char) : splitLine (ds ++ cs) = (ds ++ (splitLine cs).1, (splitLine cs).2) := by
  induction ds with
  | nil => rfl
  | cons d ds ih =>
      obtain ⟨hd, hds⟩ := List.forall_mem_cons.mp h
      rw [List.cons_append, splitLine, if_neg hd, ih hds]
      rfl

theorem splitBlock_bytewise (cs : List Char) :
    splitBlock (bytewise cs) = (bytewise (splitBlock cs).1, bytewise (splitBlock cs).2) := by
  fun_induction splitBlock cs with
  | case1 => rfl
  | case2 cs =>
      rw [bytewise_cons_of_ascii (by decide), bytewise_cons_of_ascii (by decide)]
      rfl
  | case3 c cs hne s ih =>
      by_cases hc : c.toNat < 0x80
      · rw [bytewise_cons_of_ascii hc, splitBlock, ih, bytewise_cons_of_ascii hc]
        -- The bytes are no closing mark, or the text would begin with one too.
        intro ds hstar hslash
        obtain ⟨cs', rfl, -⟩ := eq_of_bytewise_cons (by decide) hslash
        exact hne cs' hstar rfl
      · rw [bytewise_cons c cs, bytewise_cons c s.1,
          splitBlock_append_of_ne_star fun d hd => ne_of_mem_bytewise (by decide) hc hd, ih]

theorem splitLine_bytewise (cs : List Char) :
    splitLine (bytewise cs) = (bytewise (splitLine cs).1, bytewise (splitLine cs).2) := by
  fun_induction splitLine cs with
  | case1 => rfl
  | case2 cs =>
      rw [bytewise_cons_of_ascii (by decide), splitLine, if_pos rfl]
      rfl
  | case3 c cs hline s ih =>
      by_cases hc : c.toNat < 0x80
      · rw [bytewise_cons_of_ascii hc, splitLine, if_neg hline, ih, bytewise_cons_of_ascii hc]
      · rw [bytewise_cons c cs, bytewise_cons c s.1,
          splitLine_append_of_ne_newline fun d hd => ne_of_mem_bytewise (by decide) hc hd, ih]

/-- The bytes begin with a comment where the text does. -/
theorem comment?_bytewise (parens : Nat) (cs : List Char) :
    comment? parens (bytewise cs) = (comment? parens cs).map (Prod.map bytewise bytewise) := by
  fun_cases comment? parens cs with
  | case1 cs s =>
      rw [bytewise_cons_of_ascii (by decide), bytewise_cons_of_ascii (by decide), comment?_block,
        splitBlock_bytewise]
      simp [bytewise_cons_of_ascii, s]
  | case2 cs hparens s =>
      rw [bytewise_cons_of_ascii (by decide), bytewise_cons_of_ascii (by decide), hparens,
        comment?_line, splitLine_bytewise]
      simp [bytewise_cons_of_ascii, s]
  | case3 cs hparens =>
      rw [bytewise_cons_of_ascii (by decide), bytewise_cons_of_ascii (by decide), comment?,
        if_neg hparens]
      rfl
  | case4 cs hblock hline =>
      rw [Option.map_none]
      unfold comment?
      split
      next bs hbytes =>
        obtain ⟨cs', rfl⟩ := exists_of_bytewise_cons_cons (by decide) (by decide) hbytes
        exact (hblock cs' rfl).elim
      next bs hbytes =>
        obtain ⟨cs', rfl⟩ := exists_of_bytewise_cons_cons (by decide) (by decide) hbytes
        exact (hline cs' rfl).elim
      next => rfl

/-! ### Pieces -/

theorem parensAfter_of_not_ascii {c : Char} (h : ¬ c.toNat < 0x80) (parens : Nat) :
    parensAfter parens c = parens := by
  have hne : ∀ a : Char, a.toNat < 0x80 → c ≠ a := fun a ha => ne_of_not_ascii ha h
  unfold parensAfter
  rw [if_neg (hne '(' (by decide)), if_neg (hne ')' (by decide)), if_neg]
  simp [hne '{' (by decide), hne '}' (by decide), hne ';' (by decide)]

theorem foldl_parensAfter_of_not_ascii {cs : List Char} (h : ∀ c ∈ cs, ¬ c.toNat < 0x80)
    (parens : Nat) : cs.foldl parensAfter parens = parens := by
  induction cs with
  | nil => rfl
  | cons c cs ih =>
      obtain ⟨hc, hcs⟩ := List.forall_mem_cons.mp h
      rw [List.foldl_cons, parensAfter_of_not_ascii hc, ih hcs]

end Scan

/-- A comment is read whole, and any other character byte by byte. -/
def Piece.bytewise : Piece → List Piece
  | comment t => [comment (Scan.bytewise t)]
  | plain c => (Scan.bytewise [c]).map plain

namespace Scan

/-- A character outside comments has its bytes outside comments. -/
theorem pieces_bytewise_cons {parens : Nat} {c : Char} {cs : List Char}
    (h : comment? parens (c :: cs) = none) :
    pieces parens (bytewise (c :: cs))
      = Piece.bytewise (.plain c) ++ pieces (parensAfter parens c) (bytewise cs) := by
  by_cases hc : c.toNat < 0x80
  · have hcomment := comment?_bytewise parens (c :: cs)
    rw [h, bytewise_cons_of_ascii hc] at hcomment
    rw [bytewise_cons_of_ascii hc, pieces_of_comment?_eq_none hcomment, Piece.bytewise,
      bytewise_of_ascii hc]
    rfl
  · have hbytes : ∀ d ∈ bytewise [c], ¬ d.toNat < 0x80 := by
      intro d hd
      exact not_ascii_of_mem_bytewise hc hd
    have hslash : ∀ d ∈ bytewise [c], d ≠ '/' := by
      intro d hd
      exact ne_of_mem_bytewise (by decide) hc hd
    rw [bytewise_cons, pieces_append_of_ne_slash hslash, foldl_parensAfter_of_not_ascii hbytes,
      parensAfter_of_not_ascii hc]
    rfl

/-- **The bytes have the comments of the text.** -/
theorem pieces_bytewise (parens : Nat) (cs : List Char) :
    pieces parens (bytewise cs) = (pieces parens cs).flatMap Piece.bytewise := by
  fun_induction pieces parens cs with
  | case1 parens cs p rest h ih =>
      rw [List.flatMap_cons, ← ih]
      unfold piece? at h
      split at h
      next t rest' ht =>
        obtain ⟨rfl, rfl⟩ := by simpa using h
        have hcomment := comment?_bytewise parens cs
        rw [ht] at hcomment
        exact pieces_of_comment? hcomment
      next hn =>
        split at h
        next => simp at h
        next c rest' =>
          obtain ⟨rfl, rfl⟩ := by simpa using h
          exact pieces_bytewise_cons hn
  | case2 parens cs h =>
      obtain rfl := piece?_eq_none_iff.mp h
      exact pieces_nil parens

end Scan

/-! ### Where a block ends -/

/-- A walk over single bytes moves on by their number. -/
theorem Location.offset_past_byte (l : Location) (cs : List Char) :
    (l.past .byte cs).offset = l.offset + cs.length := by
  induction cs generalizing l with
  | nil => rfl
  | cons c cs ih =>
      rw [past_cons, ih, step_offset, List.length_cons]
      show l.offset + 1 + cs.length = _
      omega

/-- Bytes lead as far as the characters that they are. -/
theorem Location.offset_past_bytewise {l l' : Location} (h : l.offset = l'.offset)
    (cs : List Char) :
    (l.past .byte (Scan.bytewise cs)).offset = (l'.past .char cs).offset := by
  rw [offset_past_byte, offset_past, Scan.length_bytewise, h]

namespace Marked

variable {α : Type}

/-- Where a block ends does not change when more text is put in front of two texts alike. -/
theorem place_closing?_cons_congr {ms ns : List (Char × α)}
    (h : ∀ inner, (closing? inner ms).map Closing.place = (closing? inner ns).map Closing.place)
    (m : Char × α) (inner : Nat) :
    (closing? inner (m :: ms)).map Closing.place
      = (closing? inner (m :: ns)).map Closing.place := by
  obtain ⟨c, x⟩ := m
  have hmap : ∀ k, ((closing? k ms).map (Closing.cons (c, x))).map Closing.place
      = ((closing? k ns).map (Closing.cons (c, x))).map Closing.place := by
    intro k
    rw [Option.map_map, Option.map_map]
    exact h k
  by_cases ho : c = '{'
  · subst ho
    exact hmap (inner + 1)
  · by_cases hc : c = '}'
    · subst hc
      rcases inner with _ | outer
      · rfl
      · exact hmap outer
    · rw [closing?_cons_of_ne ho hc, closing?_cons_of_ne ho hc]
      exact hmap inner

/-- Where a block ends does not depend on what stands inside, as long as no braces do. -/
theorem place_closing?_append_of_forall {pre : List (Char × α)}
    (h : ∀ m ∈ pre, m.1 ≠ '{' ∧ m.1 ≠ '}') (inner : Nat) (ms : List (Char × α)) :
    (closing? inner (pre ++ ms)).map Closing.place = (closing? inner ms).map Closing.place := by
  rw [closing?_append_of_forall h, Option.map_map]
  rfl

end Marked

open Scan Marked

/-- The characters outside comments, each with its offset. -/
def Scan.offsets (g : Grain) (l : Location) (ps : List Piece) : List (Char × Nat) :=
  (marks g l ps).map (Prod.map id Location.offset)

theorem Scan.offsets_append (g : Grain) (l : Location) (ps qs : List Piece) :
    offsets g l (ps ++ qs) = offsets g l ps ++ offsets g (l.past g (written ps)) qs := by
  rw [offsets, marks_append, List.map_append]
  rfl

theorem Scan.mem_shown_of_mem_offsets {g : Grain} {l : Location} {ps : List Piece}
    {m : Char × Nat} (h : m ∈ offsets g l ps) : m.1 ∈ shown ps := by
  obtain ⟨m', hm', rfl⟩ := List.mem_map.mp h
  exact mem_shown_of_mem_marks hm'

/-- **Read byte by byte, a block ends at the same offset.** -/
theorem place_closing?_bytewise {l l' : Location} (h : l.offset = l'.offset) (ps : List Piece)
    (inner : Nat) :
    (closing? inner (offsets .byte l (ps.flatMap Piece.bytewise))).map Closing.place
      = (closing? inner (offsets .char l' ps)).map Closing.place := by
  induction ps generalizing l l' inner with
  | nil => rfl
  | cons p ps ih =>
      cases p with
      | comment t => exact ih (Location.offset_past_bytewise h t) inner
      | plain c =>
          have hc' : offsets .char l' (.plain c :: ps)
              = [(c, l'.offset)] ++ offsets .char (l'.step .char c) ps := rfl
          have hbehind := Location.offset_past_bytewise h [c]
          rw [List.flatMap_cons, Piece.bytewise, hc']
          by_cases hc : c.toNat < 0x80
          · rw [bytewise_of_ascii hc] at hbehind ⊢
            rw [← h]
            exact place_closing?_cons_congr (ih hbehind) (c, l.offset) inner
          · have hbyte : ∀ m ∈ offsets .byte l ((bytewise [c]).map .plain),
                m.1 ≠ '{' ∧ m.1 ≠ '}' := by
              intro m hm
              have hshown := mem_shown_of_mem_offsets hm
              rw [shown_map_plain] at hshown
              exact ⟨ne_of_mem_bytewise (by decide) hc hshown,
                ne_of_mem_bytewise (by decide) hc hshown⟩
            have hchar : ∀ m ∈ [(c, l'.offset)], m.1 ≠ '{' ∧ m.1 ≠ '}' :=
              List.forall_mem_singleton.mpr
                ⟨ne_of_not_ascii (by decide) hc, ne_of_not_ascii (by decide) hc⟩
            rw [offsets_append, place_closing?_append_of_forall hbyte,
              place_closing?_append_of_forall hchar]
            refine ih ?_ inner
            rw [written_map_plain]
            exact hbehind

end FlatSheet
