/-
Places in a text.

A place is a line and a column, both counted from one, and an offset counted from
zero.  The offset counts UTF-8 bytes, the column counts characters.

Two readings of a text are located here.  Nearly all of the library reads whole
characters; a scan that starts or stops at an arbitrary byte offset reads single
bytes instead, each shown as the character of its number.  A byte that continues a
character belongs to the column its first byte opened, so both readings place the
start of a character alike.
-/
namespace FlatSheet

/-- A place in a text. -/
structure Location where
  line : Nat
  column : Nat
  offset : Nat
  deriving DecidableEq, Inhabited

/-- How a text is cut into units: into whole characters, or into single bytes. -/
inductive Grain where
  | char
  | byte
  deriving DecidableEq

namespace Grain

/-- The number of bytes a unit takes up. -/
def bytes : Grain → Char → Nat
  | .char, c => c.utf8Size
  | .byte, _ => 1

/-- The number of columns a unit takes up: a byte that continues a character takes none. -/
def columns : Grain → Char → Nat
  | .char, _ => 1
  | .byte, c => if 0x80 ≤ c.toNat ∧ c.toNat < 0xC0 then 0 else 1

theorem bytes_pos (g : Grain) (c : Char) : 0 < g.bytes c := by
  cases g
  · exact c.utf8Size_pos
  · exact Nat.one_pos

end Grain

namespace Location

/-- The place where every text begins. -/
def start : Location := ⟨1, 1, 0⟩

/-- The place right after a unit. -/
def step (g : Grain) (l : Location) (c : Char) : Location :=
  if c = '\n' then ⟨l.line + 1, 1, l.offset + g.bytes c⟩
  else ⟨l.line, l.column + g.columns c, l.offset + g.bytes c⟩

/-- The place right after a run of units. -/
def past (g : Grain) (l : Location) (cs : List Char) : Location :=
  cs.foldl (step g) l

/-- The characters that begin before a byte offset. -/
def beginningBefore : Nat → List Char → List Char
  | _, [] => []
  | 0, _ :: _ => []
  | n + 1, c :: cs => c :: beginningBefore (n + 1 - c.utf8Size) cs

/-- The place of a byte offset.  The offset is kept as it is given, also past the end and inside a
character. -/
def ofOffset (text : String) (offset : Nat) : Location :=
  { past .char start (beginningBefore offset text.toList) with offset }

/-- A place is written as its line and its column. -/
protected def toString (l : Location) : String := s!"{l.line}:{l.column}"

instance : ToString Location := ⟨Location.toString⟩

/-! ### One unit at a time -/

@[simp] theorem past_nil (g : Grain) (l : Location) : l.past g [] = l := rfl

@[simp] theorem past_cons (g : Grain) (l : Location) (c : Char) (cs : List Char) :
    l.past g (c :: cs) = (l.step g c).past g cs := rfl

@[simp] theorem past_append (g : Grain) (l : Location) (cs ds : List Char) :
    l.past g (cs ++ ds) = (l.past g cs).past g ds := by
  simp [past]

@[simp] theorem step_offset (g : Grain) (l : Location) (c : Char) :
    (l.step g c).offset = l.offset + g.bytes c := by
  unfold step; split <;> rfl

end Location

end FlatSheet
