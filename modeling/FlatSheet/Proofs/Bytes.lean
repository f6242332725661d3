/-
A text as its bytes.

Every character is a first byte and some that continue it, and the two kinds of byte are
told apart by their values alone.  That is why a walk over single bytes can count lines
and columns without knowing where characters begin: the first byte moves the place as
its character does, and the others move nothing but the offset.
-/
import FlatSheet.Proofs.Offset
import FlatSheet.Text.Utf8

namespace FlatSheet

open Scan

namespace Text.Utf8

/-- The bytes of characters, one after the other. -/
def ofChars (cs : List Char) : List UInt8 := cs.flatMap String.utf8EncodeChar

/-- A byte that continues a character. -/
def IsFollower (b : UInt8) : Prop := 0x80 ≤ b.toNat ∧ b.toNat < 0xC0

/-! ### Texts as bytes -/

theorem toList_loop (bs : ByteArray) (i : Nat) (r : List UInt8) :
    ByteArray.toList.loop bs i r = r.reverse ++ bs.data.toList.drop i := by
  fun_induction ByteArray.toList.loop bs i r with
  | case1 i r h ih =>
      have hi : i < bs.data.toList.length := h
      rw [ih, List.drop_eq_getElem_cons hi]
      simp [ByteArray.get!, h]
  | case2 i r h =>
      rw [List.drop_eq_nil_of_le (by simpa using h)]
      simp

theorem toList_toUTF8 (text : String) : text.toUTF8.toList = encode text :=
  toList_loop text.toUTF8 0 []

theorem encode_eq (text : String) : encode text = ofChars text.toList := by
  have h : (String.ofList text.toList).toUTF8.data.toList = ofChars text.toList := by
    rw [String.toUTF8_eq_toByteArray]
    exact List.toList_data_toByteArray
  rwa [String.ofList_toList] at h

@[simp] theorem ofChars_nil : ofChars [] = [] := rfl

@[simp] theorem ofChars_cons (c : Char) (cs : List Char) :
    ofChars (c :: cs) = String.utf8EncodeChar c ++ ofChars cs := rfl

@[simp] theorem ofChars_append (cs ds : List Char) :
    ofChars (cs ++ ds) = ofChars cs ++ ofChars ds := List.flatMap_append

@[simp] theorem length_ofChars (cs : List Char) : (ofChars cs).length = bytes cs := by
  induction cs with
  | nil => simp
  | cons c cs ih => simp [ih]

@[simp] theorem length_encode (text : String) : (encode text).length = text.utf8ByteSize := by
  rw [encode_eq, length_ofChars, bytes_toList]

/-! ### Characters as bytes -/

theorem toNat_toUInt8 {c : Char} (h : c.toNat < 0x80) : c.toUInt8.toNat = c.toNat := by
  have hnat : c.toUInt8.toNat = c.toNat % 256 := UInt32.toNat_toUInt8 c.val
  omega

/-- An ASCII character is one byte. -/
theorem utf8EncodeChar_of_ascii {c : Char} (h : c.toNat < 0x80) :
    String.utf8EncodeChar c = [c.toUInt8] := by
  have hsize : c.utf8Size = 1 := by
    rw [Char.utf8Size_eq_one_iff, UInt32.le_iff_toNat_le]
    exact Nat.le_of_lt_succ h
  rw [String.utf8EncodeChar_eq_singleton hsize]
  rfl

/-- Six bits of a number are a byte that continues a character. -/
theorem isFollower_of_bits (ns : List Nat) :
    ∀ b ∈ ns.map (fun n => UInt8.ofNat (n % 0x40 + 0x80)), IsFollower b := by
  intro b hb
  obtain ⟨n, -, rfl⟩ := List.mem_map.mp hb
  unfold IsFollower
  rw [UInt8.toNat_ofNat']
  omega

/-- The first byte of any other character is above those that continue one, and all others continue
it. -/
theorem exists_of_not_ascii {c : Char} (h : 0x80 ≤ c.toNat) :
    ∃ first followers, String.utf8EncodeChar c = first :: followers ∧ 0xC0 ≤ first.toNat ∧
      ∀ b ∈ followers, IsFollower b := by
  have hnat : c.val.toNat = c.toNat := rfl
  fun_cases String.utf8EncodeChar c with
  | case1 v h1 => exact absurd h1 (by omega)
  | case2 v h1 h2 =>
      refine ⟨_, _, rfl, ?_, isFollower_of_bits [v]⟩
      rw [UInt8.toNat_ofNat']
      omega
  | case3 v h1 h2 h3 =>
      refine ⟨_, _, rfl, ?_, isFollower_of_bits [v / 0x40, v]⟩
      rw [UInt8.toNat_ofNat']
      omega
  | case4 v h1 h2 h3 =>
      refine ⟨_, _, rfl, ?_, isFollower_of_bits [v / 0x1000, v / 0x40, v]⟩
      rw [UInt8.toNat_ofNat']
      omega

/-- The bytes of other characters are no ASCII bytes. -/
theorem le_of_mem_utf8EncodeChar {c : Char} (hc : 0x80 ≤ c.toNat) {b : UInt8}
    (hb : b ∈ String.utf8EncodeChar c) : 0x80 ≤ b.toNat := by
  obtain ⟨first, followers, hbytes, hfirst, hfollowers⟩ := exists_of_not_ascii hc
  rw [hbytes] at hb
  rcases List.mem_cons.mp hb with rfl | hb
  · omega
  · exact (hfollowers b hb).1

/-- Of the bytes of a character all but the first continue it, and only a line's end begins as one. -/
theorem exists_utf8EncodeChar (c : Char) :
    ∃ first followers, String.utf8EncodeChar c = first :: followers ∧ ¬ IsFollower first ∧
      (Char.ofUInt8 first = '\n' ↔ c = '\n') ∧ ∀ b ∈ followers, IsFollower b := by
  by_cases hascii : c.toNat < 0x80
  · have hnat : c.toUInt8.toNat = c.toNat := toNat_toUInt8 hascii
    have hshown : Char.ofUInt8 c.toUInt8 = c := Char.toNat_inj.mp hnat
    refine ⟨c.toUInt8, [], utf8EncodeChar_of_ascii hascii, ?_, by rw [hshown], by simp⟩
    unfold IsFollower
    omega
  · obtain ⟨first, followers, hc, hfirst, hfollowers⟩ := exists_of_not_ascii (Nat.not_lt.mp hascii)
    refine ⟨first, followers, hc, ?_, ?_, hfollowers⟩
    · unfold IsFollower
      omega
    · constructor
      · intro he
        have hnat := congrArg Char.toNat he
        have : (Char.ofUInt8 first).toNat = first.toNat := rfl
        have : '\n'.toNat = 10 := rfl
        omega
      · rintro rfl
        exact absurd (by decide) hascii

end Text.Utf8

namespace Location

open Text.Utf8

/-! ### Places after some bytes -/

theorem step_of_follower (l : Location) {b : UInt8} (h : IsFollower b) :
    l.step .byte (Char.ofUInt8 b) = { l with offset := l.offset + 1 } := by
  have hline : Char.ofUInt8 b ≠ '\n' := by
    intro he
    have hb : b.toNat = 10 := congrArg Char.toNat he
    have := h.1
    omega
  have hcolumns : Grain.byte.columns (Char.ofUInt8 b) = 0 := if_pos h
  unfold step
  rw [if_neg hline, hcolumns]
  rfl

/-- Bytes that continue a character only move the offset on. -/
theorem past_of_followers (l : Location) {bs : List UInt8} (h : ∀ b ∈ bs, IsFollower b) :
    l.past .byte (bs.map Char.ofUInt8) = { l with offset := l.offset + bs.length } := by
  induction bs generalizing l with
  | nil => rfl
  | cons b bs ih =>
      obtain ⟨hb, hbs⟩ := List.forall_mem_cons.mp h
      rw [List.map_cons, past_cons, step_of_follower l hb, ih _ hbs, List.length_cons]
      simp only [Nat.add_assoc, Nat.add_comm 1]

/-- The first byte of a character moves the line and the column as the character does. -/
theorem past_take_utf8EncodeChar (l : Location) (c : Char) {i : Nat} (hpos : 0 < i)
    (hle : i ≤ c.utf8Size) :
    l.past .byte (((String.utf8EncodeChar c).take i).map Char.ofUInt8)
      = { l.step .char c with offset := l.offset + i } := by
  have hlength := String.length_utf8EncodeChar c
  obtain ⟨first, followers, hc, hfirst, hline, hfollowers⟩ := exists_utf8EncodeChar c
  obtain ⟨k, rfl⟩ := Nat.exists_eq_add_one.mpr hpos
  have hstep : l.step .byte (Char.ofUInt8 first)
      = { l.step .char c with offset := l.offset + 1 } := by
    have hcolumns : Grain.byte.columns (Char.ofUInt8 first) = 1 := if_neg hfirst
    unfold step
    by_cases he : c = '\n'
    · rw [if_pos he, if_pos (hline.mpr he)]
      rfl
    · rw [if_neg he, if_neg (mt hline.mp he), hcolumns]
      rfl
  have hk : (followers.take k).length = k := by
    rw [hc, List.length_cons] at hlength
    rw [List.length_take]
    omega
  rw [hc, List.take_succ_cons, List.map_cons, past_cons, hstep,
    past_of_followers _ fun b hb => hfollowers b (List.mem_of_mem_take hb), hk]
  simp only [Nat.add_assoc, Nat.add_comm 1]

/-- **Bytes and characters are counted alike.**  The first bytes of a text lead to the place where the
characters lead that begin among them. -/
theorem past_take_ofChars (l : Location) {cs : List Char} {i : Nat} (h : i ≤ bytes cs) :
    l.past .byte (((ofChars cs).take i).map Char.ofUInt8)
      = { l.past .char (beginningBefore i cs) with offset := l.offset + i } := by
  induction cs generalizing l i with
  | nil =>
      obtain rfl : i = 0 := by simpa using h
      rfl
  | cons c cs ih =>
      rcases i with _ | i
      · rfl
      · rw [bytes_cons] at h
        rw [beginningBefore, past_cons, ofChars_cons, List.take_append, List.map_append,
          past_append, String.length_utf8EncodeChar]
        by_cases hle : i + 1 ≤ c.utf8Size
        · -- The offset is inside the first character or at its end.
          rw [past_take_utf8EncodeChar l c (Nat.succ_pos i) hle, Nat.sub_eq_zero_of_le hle]
          cases cs <;> rfl
        · have hlength := String.length_utf8EncodeChar c
          have hwhole := past_take_utf8EncodeChar l c c.utf8Size_pos (Nat.le_refl _)
          rw [List.take_of_length_le (Nat.le_of_eq hlength)] at hwhole
          rw [List.take_of_length_le (by omega)]
          have hstep : ({ l.step .char c with offset := l.offset + c.utf8Size } : Location)
              = l.step .char c := by
            rw [← show (l.step .char c).offset = l.offset + c.utf8Size from step_offset .char l c]
          rw [hwhole, hstep, ih _ (by omega), step_offset]
          have hoffset : l.offset + c.utf8Size + (i + 1 - c.utf8Size) = l.offset + (i + 1) := by
            omega
          exact congrArg _ hoffset

/-- The place of an offset is where the bytes in front of it lead. -/
theorem ofOffset_eq_past (text : String) {offset : Nat} (h : offset ≤ text.utf8ByteSize) :
    ofOffset text offset
      = start.past .byte (((encode text).take offset).map Char.ofUInt8) := by
  have hle : offset ≤ bytes text.toList := by rwa [bytes_toList]
  rw [encode_eq, past_take_ofChars start hle, show start.offset = 0 from rfl, Nat.zero_add]
  rfl

/-- Any bytes of a text lead from the place of one offset to that of another. -/
theorem past_bytes (text : String) {offset k : Nat} (h : offset + k ≤ text.utf8ByteSize) :
    (ofOffset text offset).past .byte ((((encode text).drop offset).take k).map Char.ofUInt8)
      = ofOffset text (offset + k) := by
  rw [ofOffset_eq_past text (by omega), ofOffset_eq_past text h, ← past_append, ← List.map_append,
    ← List.take_add]

end Location

end FlatSheet
