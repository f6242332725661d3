/-
The closing brace that belongs to an opening one.

Both braces are named by their byte offsets.  Braces inside comments do not count.
-/
import FlatSheet.Scan.Cursor

namespace FlatSheet

namespace Scan

/-- The text from a byte offset on, if a character begins there or the text ends there. -/
def dropBytes? : Nat → List Char → Option (List Char)
  | 0, cs => some cs
  | _ + 1, [] => none
  | n + 1, c :: cs => if c.utf8Size ≤ n + 1 then dropBytes? (n + 1 - c.utf8Size) cs else none

end Scan

/-- The offset of the brace that closes the block opened at a byte offset.  There is none when no
opening brace stands at that offset, or when the text ends before the block does. -/
def matchingBrace? (text : String) (opening : Nat) : Option Nat :=
  match Scan.dropBytes? opening text.toList with
  | some ('{' :: rest) =>
    ((⟨rest, .ofOffset text (opening + 1), 0⟩ : Cursor .char).closingBrace 0).1
  | _ => none

end FlatSheet
