/-
Flattening a nested sheet.

The events of a sheet are read once.  The blocks that are open at a moment form a stack
of frames, innermost first.  Each block reserves its place among the rules when it
opens, so that rules come in the order in which their blocks begin, wherever in the
block its declarations stand.  Places that no declaration ever filled are dropped at
the end.

Selectors are resolved only where a declaration needs them, from the nearest frame that
has its full selector already.

When a block outside all others opens, a checkpoint records how much was there before.
If the sheet ends with that block still open, everything since the checkpoint is taken
back and a single fatal report stands in its place.
-/
import FlatSheet.Diagnostic
import FlatSheet.Log
import FlatSheet.Rule
import FlatSheet.Selector
import FlatSheet.Text.Quoted

namespace FlatSheet

/-- The rules of a nested sheet, and what was reported while reading it. -/
structure Flattened where
  rules : List Rule
  diagnostics : List Diagnostic
  deriving DecidableEq, Inhabited

/-- The whole sheet was read. -/
def Flattened.isComplete (f : Flattened) : Bool := !f.diagnostics.any Diagnostic.isFatal

/-- An open block. -/
structure Frame where
  /-- The selector as it is written. -/
  selector : String
  /-- The full selector, once something needed it. -/
  resolved : Option String
  /-- The block's place among the rules. -/
  slot : Nat
  deriving DecidableEq

/-- How much there was when the current outermost block opened. -/
structure Checkpoint where
  location : Location
  rules : Nat
  diagnostics : Nat
  deriving DecidableEq

/-- A sheet in the middle of being flattened. -/
structure Flattening where
  events : Events
  frames : List Frame
  checkpoint : Option Checkpoint
  rules : Array Rule
  diagnostics : Array Diagnostic
  records : Array Log.Record

namespace Flattening

/-- The name under which flattening writes to the log. -/
def logTarget : String := "stylenest_css::flatten"

/-- A sheet before its first event. -/
def ofText (source : String) : Flattening where
  events := .ofText source
  frames := []
  checkpoint := none
  rules := #[]
  diagnostics := #[]
  records := #[]

/-- The full selector of the innermost block. -/
def resolveInnermost : List Frame → String
  | [] => ""
  | f :: outer =>
    match f.resolved with
    | some selector => selector
    | none => Selector.resolve (resolveInnermost outer) f.selector

/-- Writes to the log. -/
def say (s : Flattening) (level : Log.Level) (message : String) : Flattening :=
  { s with records := s.records.push ⟨level, logTarget, message⟩ }

/-- What the log says about a report: of an at-rule, that it is being left out, and then the report
itself. -/
def announce (s : Flattening) (d : Diagnostic) : Flattening :=
  match d with
  | .atRuleDiscarded name location =>
    (s.say .debug s!"Discarding @{name} block at {location}").say .debug d.message
  | _ => s.say .debug d.message

/-- Adds a report, and tells the log about it. -/
def report (s : Flattening) (d : Diagnostic) : Flattening :=
  { s.announce d with diagnostics := s.diagnostics.push d }

/-- Opens a block and reserves its place. -/
def pushFrame (s : Flattening) (selector : String) (resolved : Option String) : Flattening :=
  { s with
    frames := ⟨selector, resolved, s.rules.size⟩ :: s.frames
    rules := s.rules.push ⟨"", []⟩ }

/-- Takes back all that came since a checkpoint. -/
def rewind (s : Flattening) (c : Checkpoint) : Flattening :=
  { s with
    checkpoint := none
    rules := s.rules.take c.rules
    diagnostics := s.diagnostics.take c.diagnostics }

/-- Reports a block that never closes, and leaves all blocks. -/
def stop (s : Flattening) (location : Location) : Flattening :=
  let s := { s with frames := [] }
  (s.say .warn s!"Block opened at {location} is never closed, stopping").report
    (.unbalancedBraces location)

/-- Stops at the outermost block if there is one, and else at the block that was just read. -/
def halt (s : Flattening) (location : Location) : Flattening :=
  match s.checkpoint with
  | some c => (s.rewind c).stop c.location
  | none => s.stop location

/-- The name of an at-rule: what follows the sign, up to a blank or a parenthesis. -/
def atRuleName (afterSign : List Char) : String :=
  String.ofList (afterSign.takeWhile fun c => !Text.isBlank c && c ≠ '(')

/-- How a step ends: either the sheet can be read on, or nothing follows. -/
inductive Progress where
  | more (s : Flattening)
  | finished (s : Flattening)

/-- Skips the block that has just opened and reports it, or stops if it never closes. -/
def discard (s : Flattening) (d : Diagnostic) : Progress :=
  let skipped := s.events.skipBlock
  let s := { s with events := skipped.2 }
  if skipped.1 then .more (s.report d) else .finished (s.halt d.location)

/-- A block opens. -/
def openBlock (s : Flattening) (selector : String) (location : Location) : Progress :=
  match s.frames, selector.toList with
  | [], [] => s.discard (.emptySelector location)
  | [], '@' :: afterSign => s.discard (.atRuleDiscarded (atRuleName afterSign) location)
  | [], _ =>
    let checkpoint := ⟨location, s.rules.size, s.diagnostics.size⟩
    .more ({ s with checkpoint := some checkpoint }.pushFrame selector (some selector))
  | _ :: _, [] => s.discard (.degenerateNestedSelector location)
  | _ :: _, _ => .more (s.pushFrame selector none)

/-- Puts a declaration into a rule.  The first one brings the selector with it. -/
def addDeclaration (selector declaration : String) (r : Rule) : Rule where
  selector := if r.declarations.isEmpty then selector else r.selector
  declarations := r.declarations ++ [declaration]

/-- A text is read: a declaration of the innermost block, or nothing at all outside every block. -/
def addText (s : Flattening) (text : String) (location : Location) : Flattening :=
  match s.frames with
  | [] => s.say .debug s!"Ignoring trailing text {Text.quoted text} at {location}"
  | f :: outer =>
    let selector := resolveInnermost s.frames
    { s with
      frames := { f with resolved := some selector } :: outer
      rules := s.rules.modify f.slot (addDeclaration selector text) }

/-- Tells the log about the rule of a block that closes, if it got declarations. -/
def announceRule (s : Flattening) (slot : Nat) : Flattening :=
  match s.rules[slot]? with
  | some r =>
    if r.declarations.isEmpty then s
    else s.say .debug s!"{r.declarations.length} declaration(s) for '{r.selector}'"
  | none => s

/-- A block closes. -/
def closeBlock (s : Flattening) (location : Location) : Flattening :=
  match s.frames with
  | [] => s.report (.strayClosingBrace location)
  | f :: outer =>
    { s.announceRule f.slot with
      frames := outer
      checkpoint := if outer.isEmpty then none else s.checkpoint }

/-- How the sheet is read at this moment. -/
def mode (s : Flattening) : ScanMode := if s.frames.isEmpty then .topLevel else .nested

/-- Reads one event. -/
def step (s : Flattening) : Progress :=
  match s.events.next s.mode with
  | (some event, events) =>
    let s := { s with events }
    match event with
    | .opened selector location => s.openBlock selector location
    | .text text location => .more (s.addText text location)
    | .closed location => .more (s.closeBlock location)
  | (none, events) =>
    let s := { s with events }
    match s.checkpoint with
    | some c => .finished (s.halt c.location)
    | none => .finished s

/-! ### A step leaves fewer events -/

theorem events_addText (s : Flattening) (text : String) (l : Location) :
    (s.addText text l).events = s.events := by
  unfold addText; split <;> rfl

theorem events_announceRule (s : Flattening) (slot : Nat) :
    (s.announceRule slot).events = s.events := by
  unfold announceRule
  split
  · split <;> rfl
  · rfl

theorem events_report (s : Flattening) (d : Diagnostic) : (s.report d).events = s.events := by
  unfold report announce; split <;> rfl

theorem events_closeBlock (s : Flattening) (l : Location) :
    (s.closeBlock l).events = s.events := by
  unfold closeBlock
  split
  · exact events_report s _
  · exact events_announceRule s _

theorem size_discard_le {s s' : Flattening} {d : Diagnostic} (h : s.discard d = .more s') :
    s'.events.size ≤ s.events.size := by
  unfold discard at h
  dsimp only at h
  split at h
  · obtain rfl := by simpa using h
    rw [events_report]
    exact Events.size_skipBlock_le s.events
  · simp at h

theorem size_openBlock_le {s s' : Flattening} {selector : String} {l : Location}
    (h : s.openBlock selector l = .more s') : s'.events.size ≤ s.events.size := by
  unfold openBlock at h
  split at h
  · exact size_discard_le h
  · exact size_discard_le h
  · obtain rfl := by simpa using h
    exact Nat.le_refl _
  · exact size_discard_le h
  · obtain rfl := by simpa using h
    exact Nat.le_refl _

theorem size_step_lt {s s' : Flattening} (h : s.step = .more s') :
    s'.events.size < s.events.size := by
  unfold step at h
  split at h
  next event events hn =>
    have hlt := Events.size_next_lt hn
    dsimp only at h
    split at h
    · exact Nat.lt_of_le_of_lt (size_openBlock_le h) hlt
    · obtain rfl := by simpa using h
      rw [events_addText]
      exact hlt
    · obtain rfl := by simpa using h
      rw [events_closeBlock]
      exact hlt
  · dsimp only at h
    split at h <;> simp at h

/-- Reads all events. -/
def run (s : Flattening) : Flattening :=
  match _h : s.step with
  | .more s' => s'.run
  | .finished s' => s'
termination_by s.events.size
decreasing_by exact size_step_lt ‹_›

/-- The rules that got declarations, and all reports. -/
def result (s : Flattening) : Flattened where
  rules := (s.rules.filter Rule.isShown).toList
  diagnostics := s.diagnostics.toList

end Flattening

/-- Flattens a nested sheet, and writes to the log on the way. -/
def flattenLogged (source : String) : Logged Flattened :=
  let s := (Flattening.ofText source).run
  ⟨s.result, s.records⟩

/-- Flattens a nested sheet.  Whatever is malformed is skipped and reported. -/
def flatten (source : String) : Flattened := (flattenLogged source).value

/-- The flat sheet of a nested one, and what was said on the way. -/
def processLogged (source : String) : Logged String := do
  let f ← flattenLogged source
  return emit f.rules

/-- The flat sheet of a nested one. -/
def process (source : String) : String := emit (flatten source).rules

/-- Loose declarations as the block of one class. -/
def scopedFragment (className declarations : String) : String :=
  let trimmed := String.ofList (Text.trim declarations.toList)
  s!".{className} \x7b {trimmed} \x7d"

end FlatSheet
