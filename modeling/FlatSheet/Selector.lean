/-
The selector of a block inside another block.

A nested selector that names its parent with an ampersand has the parent's selector put
in the place of every ampersand.  Any other nested selector is a descendant of its
parent.
-/
namespace FlatSheet

namespace Selector

/-- Puts a text in the place of every ampersand. -/
def fillIn (parent : List Char) (nested : List Char) : List Char :=
  nested.flatMap fun c => if c = '&' then parent else [c]

/-- The full selector of a nested block, given that of its parent. -/
def resolve (parent nested : String) : String :=
  if '&' ∈ nested.toList then String.ofList (fillIn parent.toList nested.toList)
  else parent ++ " " ++ nested

end Selector

end FlatSheet
