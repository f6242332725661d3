/-
A text without its comments.

Removing a comment joins what stood before it to what stood after it, with nothing in
between.  The cleaned form of a text is what is left of it then, without the blanks
around it.
-/
import FlatSheet.Scan.Cursor
import FlatSheet.Text.Blank

namespace FlatSheet

/-- What is left of the text ahead when its comments are removed. -/
def Cursor.visible {g : Grain} (c : Cursor g) : List Char :=
  match _h : c.next? with
  | some (p, c') => p.visible ++ c'.visible
  | none => []
termination_by c.rest.length
decreasing_by exact Cursor.length_lt_of_next? ‹_›

namespace Scan

/-- Removes every comment. -/
def stripComments (cs : List Char) : List Char := (Cursor.ofText cs).visible

/-- Removes every comment, and then the blanks at both ends. -/
def clean (cs : List Char) : List Char := Text.trim (stripComments cs)

end Scan

/-- A text without its comments. -/
def stripComments (text : String) : String := String.ofList (Scan.stripComments text.toList)

end FlatSheet
