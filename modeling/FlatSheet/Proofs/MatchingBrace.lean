/-
Which brace belongs to which.

The brace that closes a block is the first place outside comments at which, counted from
the block's opening brace on, one more brace has closed than has opened.  What a comment
is here is settled from the opening brace on, whatever stands in front of it.

The counting is over single bytes.  A search goes through them with the number of blocks
that are open, and the places it can end at are the same after each step, counted with
that number (`mem_balanced_cons`).
-/
import FlatSheet.Proofs.Bytewise
import FlatSheet.Proofs.Place
import FlatSheet.Proofs.Recursion
import Mathlib.Order.Bounds.Basic

namespace FlatSheet

open Scan

namespace Marked

/-! ### Counting braces -/

/-- How often a character stands in a text, up to an offset. -/
def countUpTo (c : Char) (i : Nat) (ms : List (Char × Nat)) : Nat :=
  ms.countP fun m => m.1 = c ∧ m.2 ≤ i

/-- The offsets up to which the braces close `inner` blocks and one more. -/
def balanced (inner : Nat) (ms : List (Char × Nat)) : Set Nat :=
  {i | i ∈ ms.map Prod.snd ∧ countUpTo '}' i ms = countUpTo '{' i ms + inner + 1}

section

variable {ms : List (Char × Nat)} {c : Char} {x i : Nat}

theorem mem_balanced {inner : Nat} : i ∈ balanced inner ms ↔
    i ∈ ms.map Prod.snd ∧ countUpTo '}' i ms = countUpTo '{' i ms + inner + 1 := Iff.rfl

theorem countUpTo_cons_of_le (h : x ≤ i) (b : Char) :
    countUpTo b i ((c, x) :: ms) = countUpTo b i ms + if c = b then 1 else 0 := by
  unfold countUpTo
  rw [List.countP_cons]
  simp [h]

theorem countUpTo_of_lt (h : ∀ m ∈ ms, i < m.2) (b : Char) : countUpTo b i ms = 0 := by
  refine List.countP_eq_zero.mpr ?_
  intro m hm
  have hlt := h m hm
  simp only [decide_eq_true_eq, not_and]
  omega

/-- **One step of the count.**  The first character of a text ends the block if it is a closing brace
and no other block is open, and behind it the search goes on with the blocks that are open then. -/
theorem mem_balanced_cons (h : ∀ m ∈ ms, x < m.2) {inner : Nat} :
    i ∈ balanced inner ((c, x) :: ms) ↔
      (i = x ∧ c = '}' ∧ inner = 0) ∨
        (i ∈ ms.map Prod.snd ∧ countUpTo '}' i ms + (if c = '}' then 1 else 0)
          = countUpTo '{' i ms + (if c = '{' then 1 else 0) + inner + 1) := by
  have hbehind : i ∈ ms.map Prod.snd → x < i := by
    intro hi
    obtain ⟨m, hm, rfl⟩ := List.mem_map.mp hi
    exact h m hm
  show i ∈ x :: ms.map Prod.snd ∧ _ ↔ _
  rw [List.mem_cons]
  by_cases hx : i = x
  · subst hx
    have hnot : i ∉ ms.map Prod.snd := fun hi => Nat.lt_irrefl i (hbehind hi)
    rw [countUpTo_cons_of_le (Nat.le_refl i), countUpTo_cons_of_le (Nat.le_refl i),
      countUpTo_of_lt h, countUpTo_of_lt h]
    by_cases hc : c = '}'
    · subst hc
      simp [hnot]
    · simp [hnot, hc]
  · by_cases hi : i ∈ ms.map Prod.snd
    · have hle := Nat.le_of_lt (hbehind hi)
      rw [countUpTo_cons_of_le hle, countUpTo_cons_of_le hle]
      simp [hx, hi]
    · simp [hx, hi]

theorem balanced_cons_opening (h : ∀ m ∈ ms, x < m.2) (inner : Nat) :
    balanced inner (('{', x) :: ms) = balanced (inner + 1) ms := by
  ext i
  rw [mem_balanced_cons h, mem_balanced]
  simp
  omega

theorem balanced_cons_closing (h : ∀ m ∈ ms, x < m.2) (outer : Nat) :
    balanced (outer + 1) (('}', x) :: ms) = balanced outer ms := by
  ext i
  rw [mem_balanced_cons h, mem_balanced]
  simp
  omega

theorem balanced_cons_of_ne (h : ∀ m ∈ ms, x < m.2) (ho : c ≠ '{') (hc : c ≠ '}') (inner : Nat) :
    balanced inner ((c, x) :: ms) = balanced inner ms := by
  ext i
  rw [mem_balanced_cons h, mem_balanced]
  simp [ho, hc]

/-- A brace that closes the block itself is the first at which the count is even. -/
theorem isLeast_balanced_closing (h : ∀ m ∈ ms, x < m.2) :
    IsLeast (balanced 0 (('}', x) :: ms)) x := by
  refine ⟨(mem_balanced_cons h).mpr (Or.inl ⟨rfl, rfl, rfl⟩), ?_⟩
  intro i hi
  rcases (mem_balanced_cons h).mp hi with ⟨rfl, -, -⟩ | ⟨hi, -⟩
  · exact Nat.le_refl i
  · obtain ⟨m, hm, rfl⟩ := List.mem_map.mp hi
    exact Nat.le_of_lt (h m hm)

end

/-- **A block ends where the count first says so.** -/
theorem place_closing?_eq_some_iff {ms : List (Char × Nat)}
    (h : ms.Pairwise fun m m' => m.2 < m'.2) (inner c : Nat) :
    (closing? inner ms).map Closing.place = some c ↔ IsLeast (balanced inner ms) c := by
  induction ms generalizing inner with
  | nil =>
      have hnot : c ∉ balanced inner [] := by simp [mem_balanced]
      simp only [closing?, Option.map_none, reduceCtorEq, false_iff]
      exact fun hleast => hnot hleast.1
  | cons m ms ih =>
      obtain ⟨ch, x⟩ := m
      obtain ⟨hx, hms⟩ := List.pairwise_cons.mp h
      have hstep : ∀ k, ((closing? k ms).map (.cons (ch, x))).map Closing.place = some c ↔
          IsLeast (balanced k ms) c := by
        intro k
        rw [Option.map_map]
        exact ih hms k
      by_cases ho : ch = '{'
      · subst ho
        rw [balanced_cons_opening hx]
        exact hstep (inner + 1)
      · by_cases hc : ch = '}'
        · subst hc
          rcases inner with _ | outer
          · rw [(isLeast_balanced_closing hx).isLeast_iff_eq]
            exact Option.some_inj
          · rw [balanced_cons_closing hx]
            exact hstep outer
        · rw [closing?_cons_of_ne ho hc, balanced_cons_of_ne hx ho hc]
          exact hstep inner

end Marked

open Marked

/-! ### Braces in the bytes of a text -/

/-- The bytes outside comments when a text is read from an offset on, each with its offset. -/
def bytesOutside (text : String) (start : Nat) : List (Char × Nat) :=
  (Cursor.between text start text.utf8ByteSize).marks.map (Prod.map id Location.offset)

theorem le_of_mem_bytesOutside {text : String} {start : Nat} {m : Char × Nat}
    (h : m ∈ bytesOutside text start) : start ≤ m.2 := by
  obtain ⟨m', hm', rfl⟩ := List.mem_map.mp h
  exact offset_le_of_mem_marks hm'

theorem pairwise_bytesOutside (text : String) (start : Nat) :
    (bytesOutside text start).Pairwise fun m m' => m.2 < m'.2 := by
  unfold bytesOutside
  rw [List.pairwise_map]
  exact pairwise_marks .byte _ _

/-- From behind the first part of a text on, the bytes are those of its second part. -/
theorem bytesOutside_append (front after : List Char) :
    bytesOutside (String.ofList (front ++ after)) (bytes front)
      = offsets .byte (.ofOffset (String.ofList (front ++ after)) (bytes front))
          (pieces 0 (bytewise after)) := by
  have hbytes : ((String.ofList (front ++ after)).toUTF8.toList.take
      (String.ofList (front ++ after)).utf8ByteSize).drop (bytes front)
        = Text.Utf8.ofChars after := by
    rw [Text.Utf8.toList_toUTF8, List.take_of_length_le (by simp), Text.Utf8.encode_eq,
      String.toList_ofList, Text.Utf8.ofChars_append, List.drop_left' (by simp)]
  have hrest := congrArg (List.map Char.ofUInt8) hbytes
  exact congrArg (fun cs => offsets .byte _ (pieces 0 cs)) hrest

theorem place_closing?_bytesOutside (front after : List Char) (inner : Nat) :
    (closing? inner (bytesOutside (String.ofList (front ++ after)) (bytes front))).map Closing.place
      = (closing? inner (Recursion.marksBehind front after)).map (·.place.offset) := by
  have hoffset : (Location.ofOffset (String.ofList (front ++ after)) (bytes front)).offset
      = (Location.start.past .char front).offset := by
    rw [Location.ofOffset_append]
  rw [bytesOutside_append, pieces_bytewise, place_closing?_bytewise hoffset]
  show (closing? inner ((Recursion.marksBehind front after).map _)).map _ = _
  rw [closing?_map, Option.map_map]
  rfl

/-- The search is the one in the bytes behind the opening brace. -/
theorem matchingBrace?_eq_closing? (front after : List Char) :
    matchingBrace? (String.ofList (front ++ '{' :: after)) (bytes front)
      = (closing? 0 (bytesOutside (String.ofList (front ++ '{' :: after)) (bytes front + 1))).map
          Closing.place := by
  have hplace := place_closing?_bytesOutside (front ++ ['{']) after 0
  rw [bytes_append, List.append_assoc, List.singleton_append] at hplace
  rw [Recursion.matchingBrace?_append, ← hplace]
  rfl

/-- An opening brace stands at an offset where the text can be cut in front of one. -/
theorem getElem?_encode_eq_opening {text : String} {opening : Nat} :
    (Text.Utf8.encode text)[opening]? = some '{'.toUInt8 ↔
      ∃ front after, text = String.ofList (front ++ '{' :: after) ∧ bytes front = opening := by
  constructor
  · intro h
    obtain ⟨hlt, hbyte⟩ := List.getElem?_eq_some_iff.mp h
    have hsplit := List.take_append_drop opening (Text.Utf8.encode text)
    rw [List.drop_eq_getElem_cons hlt, hbyte, Text.Utf8.encode_eq] at hsplit
    have hbytes := congrArg (List.map Char.ofUInt8) hsplit.symm
    rw [List.map_append, List.map_cons] at hbytes
    obtain ⟨front, after, htext, hfront, -⟩ := exists_of_bytewise_append (a := '{') (by decide) hbytes
    refine ⟨front, after, ?_, ?_⟩
    · rw [← htext, String.ofList_toList]
    · rw [← length_bytewise, hfront, List.length_map, List.length_take, ← Text.Utf8.encode_eq]
      omega
  · rintro ⟨front, after, rfl, rfl⟩
    have hplace := Location.placeOf_append (b := '{') (by decide) front after
    have hoffset : (Location.start.past .char front).offset = bytes front := by
      rw [Location.offset_past]
      exact Nat.zero_add _
    have hbyte := hplace.byte
    rwa [hoffset] at hbyte

theorem getElem?_encode_of_matchingBrace? {text : String} {opening c : Nat}
    (h : matchingBrace? text opening = some c) :
    (Text.Utf8.encode text)[opening]? = some '{'.toUInt8 := by
  unfold matchingBrace? at h
  split at h
  next rest hrest =>
    obtain ⟨front, htext, hfront⟩ := exists_of_dropBytes? hrest
    refine getElem?_encode_eq_opening.mpr ⟨front, rest, ?_, hfront⟩
    rw [← htext, String.ofList_toList]
  next => simp at h

/-! ### What follows a block -/

/-- A block that closes is the same block whatever follows the text. -/
theorem closing?_marksBehind_append {front after : List Char} {inner : Nat}
    {c : Closing Location} (h : closing? inner (Recursion.marksBehind front after) = some c)
    (behind : List Char) :
    ∃ more, closing? inner (Recursion.marksBehind front (after ++ behind))
      = some { c with after := more } := by
  obtain ⟨more, hmore⟩ := exists_marks_append (closing?_eq_some h) behind
  refine ⟨more, ?_⟩
  rw [Recursion.marksBehind, hmore]
  exact closing?_inside h more

/-- A brace that is found is found in every text that goes on behind. -/
theorem matchingBrace?_append_of_some {text : String} {opening c : Nat}
    (h : matchingBrace? text opening = some c) (suffix : String) :
    matchingBrace? (text ++ suffix) opening = some c := by
  obtain ⟨front, after, rfl, rfl⟩ :=
    getElem?_encode_eq_opening.mp (getElem?_encode_of_matchingBrace? h)
  have htext : String.ofList (front ++ '{' :: after) ++ suffix
      = String.ofList (front ++ '{' :: (after ++ suffix.toList)) := by
    rw [← String.toList_inj]
    simp
  rw [Recursion.matchingBrace?_append] at h
  obtain ⟨d, hd, rfl⟩ := Option.map_eq_some_iff.mp h
  obtain ⟨more, hmore⟩ := closing?_marksBehind_append hd suffix.toList
  rw [htext, Recursion.matchingBrace?_append, hmore]
  rfl

/-! ### The brace that belongs to one -/

/-- Counted from an opening brace on, one more brace closes than opens up to an offset, where
something outside comments stands. -/
structure ClosesAt (text : String) (opening i : Nat) : Prop where
  behind : opening < i
  outside : i ∈ (bytesOutside text (opening + 1)).map Prod.snd
  balance : countUpTo '}' i (bytesOutside text (opening + 1))
    = countUpTo '{' i (bytesOutside text (opening + 1)) + 1

theorem setOf_closesAt (text : String) (opening : Nat) :
    {i | ClosesAt text opening i} = balanced 0 (bytesOutside text (opening + 1)) := by
  ext i
  constructor
  · intro h
    exact ⟨h.outside, h.balance⟩
  · intro h
    obtain ⟨m, hm, rfl⟩ := List.mem_map.mp h.1
    exact ⟨le_of_mem_bytesOutside hm, h.1, h.2⟩

/-- **The brace that belongs to an opening one is the first at which the braces since then balance.**
It is found if there is such a place and an opening brace stands at the offset, and then it is found
in every text that goes on behind. -/
theorem matchingBrace?_isLeast (text : String) (opening : Nat) :
    (∀ c, matchingBrace? text opening = some c ↔
      (Text.Utf8.encode text)[opening]? = some '{'.toUInt8 ∧
        IsLeast {i | ClosesAt text opening i} c) ∧
      ∀ c suffix, matchingBrace? text opening = some c →
        matchingBrace? (text ++ suffix) opening = some c := by
  refine ⟨?_, fun c suffix h => matchingBrace?_append_of_some h suffix⟩
  intro c
  have hiff : (Text.Utf8.encode text)[opening]? = some '{'.toUInt8 →
      (matchingBrace? text opening = some c ↔ IsLeast {i | ClosesAt text opening i} c) := by
    intro hbrace
    obtain ⟨front, after, rfl, rfl⟩ := getElem?_encode_eq_opening.mp hbrace
    rw [setOf_closesAt, matchingBrace?_eq_closing?]
    exact place_closing?_eq_some_iff (pairwise_bytesOutside _ _) 0 c
  constructor
  · intro h
    have hbrace := getElem?_encode_of_matchingBrace? h
    exact ⟨hbrace, (hiff hbrace).mp h⟩
  · rintro ⟨hbrace, hleast⟩
    exact (hiff hbrace).mpr hleast

/-- Behind two characters that are several bytes, a block with a block, a line comment and an address
in it: the brace in the comment does not count, and the slashes of the address begin no comment. -/
theorem matchingBrace?_isLeast_nested :
    matchingBrace? "é\x7bp(//è)\x7bq\x7d//\x7d\n\x7d" 2 = some 17 ∧
      IsLeast {i | ClosesAt "é\x7bp(//è)\x7bq\x7d//\x7d\n\x7d" 2 i} 17 ∧
      matchingBrace? ("é\x7bp(//è)\x7bq\x7d//\x7d\n\x7d" ++ "*/\x7d") 2 = some 17 := by
  obtain ⟨hiff, hstable⟩ := matchingBrace?_isLeast "é\x7bp(//è)\x7bq\x7d//\x7d\n\x7d" 2
  have hfound : matchingBrace? "é\x7bp(//è)\x7bq\x7d//\x7d\n\x7d" 2 = some 17 := by
    decide +kernel
  exact ⟨hfound, ((hiff 17).mp hfound).2, hstable 17 "*/\x7d" hfound⟩

end FlatSheet
