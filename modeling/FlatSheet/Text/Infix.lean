/-
Texts inside texts.
-/
namespace FlatSheet.Text

/-- A text occurs in another. -/
def occursIn (pattern : List Char) : List Char → Bool
  | [] => pattern.isEmpty
  | c :: cs => pattern.isPrefixOf (c :: cs) || occursIn pattern cs

end FlatSheet.Text
