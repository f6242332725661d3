/-
Reading bytes as UTF-8 text.

Bytes that are text in every part have one reading, and that is what core reads.  Any
other bytes can still be shown: each stretch of bytes that begins like a character and
cannot be finished is shown as one replacement character, and so is a byte that begins
nothing.
-/
namespace FlatSheet.Text.Utf8

/-- The bytes of a text. -/
def encode (s : String) : List UInt8 := s.toUTF8.data.toList

/-- The text that some bytes are, if they are one. -/
def decode? (bytes : List UInt8) : Option String := String.fromUTF8? bytes.toByteArray

/-- The bytes that may follow a first byte above ASCII: how many, and the least and the greatest
value that the first of them may have. -/
def followers? (first : UInt8) : Option (Nat × UInt8 × UInt8) :=
  if first < 0xC2 then none
  else if first ≤ 0xDF then some (1, 0x80, 0xBF)
  else if first = 0xE0 then some (2, 0xA0, 0xBF)
  else if first = 0xED then some (2, 0x80, 0x9F)
  else if first ≤ 0xEF then some (2, 0x80, 0xBF)
  else if first = 0xF0 then some (3, 0x90, 0xBF)
  else if first ≤ 0xF3 then some (3, 0x80, 0xBF)
  else if first = 0xF4 then some (3, 0x80, 0x8F)
  else none

/-- The bits of a character that its first byte holds. -/
def firstBits (first : UInt8) : Nat :=
  if first ≤ 0xDF then first.toNat % 0x20
  else if first ≤ 0xEF then first.toNat % 0x10
  else first.toNat % 0x08

/-- Reads `count` more bytes of a character.  Answers its number unless a byte is missing or out of
bounds, and the bytes that were not read. -/
def readFollowers (count : Nat) (least greatest : UInt8) (number : Nat) :
    List UInt8 → Option Nat × List UInt8
  | [] => (if count = 0 then some number else none, [])
  | b :: bytes =>
    match count with
    | 0 => (some number, b :: bytes)
    | n + 1 =>
      if least ≤ b ∧ b ≤ greatest then
        readFollowers n 0x80 0xBF (number * 0x40 + b.toNat % 0x40) bytes
      else (none, b :: bytes)

/-- Reads one character, or what has to be replaced by one. -/
def readChar (first : UInt8) (bytes : List UInt8) : Char × List UInt8 :=
  if first < 0x80 then (Char.ofUInt8 first, bytes)
  else
    match followers? first with
    | none => ('\uFFFD', bytes)
    | some (count, least, greatest) =>
      match readFollowers count least greatest (firstBits first) bytes with
      | (some number, rest) => (Char.ofNat number, rest)
      | (none, rest) => ('\uFFFD', rest)

theorem length_readFollowers_le (count : Nat) (least greatest : UInt8) (number : Nat)
    (bytes : List UInt8) :
    (readFollowers count least greatest number bytes).2.length ≤ bytes.length := by
  fun_induction readFollowers count least greatest number bytes with
  | case1 => exact Nat.le_refl _
  | case2 => exact Nat.le_refl _
  | case3 _ _ _ _ _ _ _ ih => exact Nat.le_succ_of_le ih
  | case4 => exact Nat.le_refl _

theorem length_readChar_le (first : UInt8) (bytes : List UInt8) :
    (readChar first bytes).2.length ≤ bytes.length := by
  unfold readChar
  split
  · exact Nat.le_refl _
  · split
    · exact Nat.le_refl _
    · next count least greatest _ =>
      have h := length_readFollowers_le count least greatest (firstBits first) bytes
      split
      next hr => rw [hr] at h; exact h
      next hr => rw [hr] at h; exact h

/-- The characters that some bytes show. -/
def shownChars : List UInt8 → List Char
  | [] => []
  | first :: bytes =>
    let r := readChar first bytes
    r.1 :: shownChars r.2
termination_by bytes => bytes.length
decreasing_by exact Nat.lt_succ_of_le (length_readChar_le first bytes)

/-- The text that some bytes show: the text they are, or as much of it as can be read. -/
def lossy (bytes : List UInt8) : String :=
  (decode? bytes).getD (String.ofList (shownChars bytes))

end FlatSheet.Text.Utf8
