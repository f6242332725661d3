/-
Breaks inside an address.

An address may have been broken over several lines.  Tabs and line ends inside it are
breaks, and an address means what it means without them.  Only the address of a local
file can tell where it was broken, and only behind a drive.
-/
namespace FlatSheet.Url

/-- A tab or a character that ends a line. -/
def isBreak (c : Char) : Bool := c = '\t' || c = '\n' || c = '\r'

/-- A text without its breaks. -/
def unbroken (cs : List Char) : List Char := cs.filter fun c => !isBreak c

end FlatSheet.Url
