/-
Rules of a flat sheet, and the sheet they make up.

A rule is written on one line, and a sheet is its rules one below the other.  Rules
without declarations are left out of a sheet.
-/
import FlatSheet.Declaration

namespace FlatSheet

/-- A full selector and the declarations that stand directly in its block. -/
structure Rule where
  selector : String
  declarations : List String
  deriving DecidableEq, Inhabited

namespace Rule

/-- The declarations of a rule as one text. -/
def declarationText (r : Rule) : String := joinDeclarations r.declarations

/-- A rule on one line. -/
protected def toString (r : Rule) : String :=
  s!"{r.selector} \x7b {r.declarationText}; \x7d"

instance : ToString Rule := ⟨Rule.toString⟩

/-- A rule that a sheet shows. -/
def isShown (r : Rule) : Bool := !r.declarations.isEmpty

end Rule

/-- A flat sheet, one rule on each line. -/
def emit (rules : List Rule) : String :=
  "\n".intercalate ((rules.filter Rule.isShown).map Rule.toString)

end FlatSheet
