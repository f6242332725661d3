/-
The declarations of a block.

A block's own declarations are the texts that stand directly in it.  Blocks inside it
are left out together with everything they hold.  The text may be any part of a sheet:
a brace that closes nothing only ends the declaration in front of it, and a block that
never closes reaches to the end.
-/
import FlatSheet.Event

namespace FlatSheet

namespace Declaration

/-- How many nested blocks are open after an event. -/
def depthAfter (depth : Nat) : Event → Nat
  | .text _ _ => depth
  | .opened _ _ => depth + 1
  | .closed _ => depth - 1

/-- The text of an event, if it stands outside all nested blocks. -/
def own? (depth : Nat) : Event → Option String
  | .text t _ => if depth = 0 then some t else none
  | _ => none

/-- The declarations among the events to come, when `depth` nested blocks are open. -/
def collect (depth : Nat) (e : Events) : List String :=
  match _h : e.next .nested with
  | (some event, e') => (own? depth event).toList ++ collect (depthAfter depth event) e'
  | (none, _) => []
termination_by e.size
decreasing_by exact Events.size_next_lt ‹_›

end Declaration

/-- The declarations of a block, given what stands between its braces. -/
def extractDeclarations (content : String) : List String :=
  Declaration.collect 0 (Events.ofText content)

/-- Declarations side by side, as a rule shows them. -/
def joinDeclarations (declarations : List String) : String :=
  "; ".intercalate declarations

end FlatSheet
