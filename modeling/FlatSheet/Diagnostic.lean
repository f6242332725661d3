/-
What flattening reports about a sheet.

A report names what was left out and where.  Only one of them is fatal: a block that
never closes stops the flattening, and all others merely skip something.
-/
import FlatSheet.Location

namespace FlatSheet

/-- Something that was skipped, or the block at which flattening stopped. -/
inductive Diagnostic where
  /-- A block is never closed. -/
  | unbalancedBraces (location : Location)
  /-- A block introduced by an at-sign was left out. -/
  | atRuleDiscarded (name : String) (location : Location)
  /-- A block outside all others has no selector. -/
  | emptySelector (location : Location)
  /-- A block inside another has no selector. -/
  | degenerateNestedSelector (location : Location)
  /-- A closing brace closes nothing. -/
  | strayClosingBrace (location : Location)
  deriving DecidableEq

namespace Diagnostic

/-- The brace that the report is about. -/
def location : Diagnostic → Location
  | unbalancedBraces l | atRuleDiscarded _ l | emptySelector l | degenerateNestedSelector l
  | strayClosingBrace l => l

/-- Flattening stopped here. -/
def isFatal : Diagnostic → Bool
  | unbalancedBraces _ => true
  | _ => false

/-- The report as a sentence. -/
def message : Diagnostic → String
  | unbalancedBraces l => s!"Unbalanced braces: block opened at {l} is never closed"
  | atRuleDiscarded name l => s!"Discarded @{name} block at {l}"
  | emptySelector l => s!"Empty selector at {l}"
  | degenerateNestedSelector l => s!"Nested block without a selector at {l}"
  | strayClosingBrace l => s!"Stray '\x7d' at {l}"

/-- The kind of report, in one word. -/
def kind : Diagnostic → String
  | unbalancedBraces _ => "unbalanced_braces"
  | atRuleDiscarded _ _ => "at_rule_discarded"
  | emptySelector _ => "empty_selector"
  | degenerateNestedSelector _ => "degenerate_nested_selector"
  | strayClosingBrace _ => "stray_closing_brace"

/-- The name of the at-rule, where there is one. -/
def name? : Diagnostic → Option String
  | atRuleDiscarded name _ => some name
  | _ => none

instance : ToString Diagnostic := ⟨message⟩

end Diagnostic

end FlatSheet
