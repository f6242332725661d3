/-
Places and offsets in the middle of a text.

A text in two parts: the number of bytes in the first part is an offset of the whole, and
the place of that offset is where the first part leads.  So a search that begins at an
offset begins right behind the first part.
-/
import FlatSheet.Scan.MatchingBrace

namespace FlatSheet

namespace Scan

/-- The number of bytes that characters take up. -/
def bytes (cs : List Char) : Nat := (String.ofList cs).utf8ByteSize

@[simp] theorem bytes_nil : bytes [] = 0 := by
  simp [bytes]

@[simp] theorem bytes_cons (c : Char) (cs : List Char) : bytes (c :: cs) = c.utf8Size + bytes cs := by
  simp [bytes]

@[simp] theorem bytes_append (cs ds : List Char) : bytes (cs ++ ds) = bytes cs + bytes ds := by
  simp [bytes]

theorem bytes_toList (text : String) : bytes text.toList = text.utf8ByteSize := by
  rw [bytes, String.ofList_toList]

/-- A character takes up at least one byte. -/
theorem length_le_bytes (cs : List Char) : cs.length ≤ bytes cs := by
  induction cs with
  | nil => exact Nat.zero_le _
  | cons c cs ih =>
      have hsize := c.utf8Size_pos
      rw [bytes_cons, List.length_cons]
      omega

theorem exists_bytes_cons (c : Char) (cs : List Char) :
    ∃ n, bytes (c :: cs) = n + 1 ∧ c.utf8Size ≤ n + 1 ∧ n + 1 - c.utf8Size = bytes cs := by
  have hc := c.utf8Size_pos
  refine ⟨bytes (c :: cs) - 1, ?_⟩
  rw [bytes_cons]
  omega

/-- The text from the offset behind its first part on is its second part. -/
@[simp] theorem dropBytes?_append (cs ds : List Char) :
    dropBytes? (bytes cs) (cs ++ ds) = some ds := by
  induction cs with
  | nil =>
      rw [bytes_nil]
      cases ds <;> rfl
  | cons c cs ih =>
      obtain ⟨n, hn, hle, hrest⟩ := exists_bytes_cons c cs
      rw [hn, List.cons_append, dropBytes?, if_pos hle, hrest, ih]

theorem exists_of_dropBytes? {offset : Nat} {cs ds : List Char}
    (h : dropBytes? offset cs = some ds) : ∃ front, cs = front ++ ds ∧ bytes front = offset := by
  fun_induction dropBytes? offset cs with
  | case1 cs =>
      obtain rfl := by simpa using h
      exact ⟨[], rfl, bytes_nil⟩
  | case2 => simp at h
  | case3 offset c cs hle ih =>
      obtain ⟨front, rfl, hfront⟩ := ih h
      refine ⟨c :: front, rfl, ?_⟩
      rw [bytes_cons]
      omega
  | case4 => simp at h

end Scan

namespace Location

open Scan

/-- A walk moves on by the bytes it passes. -/
theorem offset_past (l : Location) (cs : List Char) :
    (l.past .char cs).offset = l.offset + bytes cs := by
  induction cs generalizing l with
  | nil => simp
  | cons c cs ih =>
      rw [past_cons, ih, step_offset, bytes_cons]
      show l.offset + c.utf8Size + _ = _
      omega

@[simp] theorem beginningBefore_append (cs ds : List Char) :
    beginningBefore (bytes cs) (cs ++ ds) = cs := by
  induction cs with
  | nil =>
      rw [bytes_nil]
      cases ds <;> rfl
  | cons c cs ih =>
      obtain ⟨n, hn, -, hrest⟩ := exists_bytes_cons c cs
      rw [hn, List.cons_append, beginningBefore, hrest, ih]

/-- The offset behind the first part of a text is the place where that part leads. -/
theorem ofOffset_append (cs ds : List Char) :
    ofOffset (String.ofList (cs ++ ds)) (bytes cs) = start.past .char cs := by
  unfold ofOffset
  rw [String.toList_ofList, beginningBefore_append]
  have hoffset := offset_past start cs
  rw [show start.offset = 0 from rfl, Nat.zero_add] at hoffset
  rw [← hoffset]

end Location

open Scan

/-- The brace that belongs to one in a text is searched for from right behind that one. -/
theorem matchingBrace?_eq_closingBrace (front after : List Char) :
    matchingBrace? (String.ofList (front ++ '{' :: after)) (bytes front)
      = ((⟨after, .past .char .start (front ++ ['{']), 0⟩ : Cursor .char).closingBrace 0).1 := by
  have hplace := Location.ofOffset_append (front ++ ['{']) after
  rw [bytes_append, List.append_assoc, List.singleton_append] at hplace
  unfold matchingBrace?
  rw [String.toList_ofList, dropBytes?_append, ← hplace]
  rfl

end FlatSheet
