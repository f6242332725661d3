/-
Which log records are shown.

A filter names the lowest level that is shown.  It may also name a part of the program;
then records of all other parts are silent.  The name of a part covers every target that
begins with it.

Messages quote names and selectors as they were read.  What is shown of a record is plain
text, so that no control sequence in them reaches a terminal.
-/
import FlatSheet.Log
import FlatSheet.Text.Plain

namespace FlatSheet

namespace Log

/-- Which records are shown. -/
structure Filter where
  /-- What a record's target has to begin with. -/
  part : String
  /-- The rank up to which levels are shown.  Nothing is shown at rank zero. -/
  rank : Nat
  deriving DecidableEq

namespace Filter

/-- What is shown when nothing else is asked for. -/
def standard : Filter := ⟨"", Level.info.rank⟩

/-- The rank that a name stands for. -/
def rank? (name : String) : Option Nat :=
  match String.ofList (name.toList.map Char.toLower) with
  | "off" => some 0
  | "error" => some Level.error.rank
  | "warn" => some Level.warn.rank
  | "info" => some Level.info.rank
  | "debug" => some Level.debug.rank
  | "trace" => some Level.trace.rank
  | _ => none

/-- The filter that a text asks for: a level, or a part of the program and a level.  A part alone
is shown at every level.  A text that asks for nothing shows errors. -/
def parse (text : String) : Filter :=
  match text.toList.splitOn '=' with
  | [[]] => ⟨"", Level.error.rank⟩
  | [one] =>
    match rank? (String.ofList one) with
    | some rank => ⟨"", rank⟩
    | none => ⟨text, Level.trace.rank⟩
  | [part, []] => ⟨String.ofList part, Level.trace.rank⟩
  | [part, level] =>
    match rank? (String.ofList level) with
    | some rank => ⟨String.ofList part, rank⟩
    | none => ⟨"", Level.error.rank⟩
  | _ => ⟨"", Level.error.rank⟩

/-- The filter shows the record. -/
def shows (f : Filter) (r : Record) : Bool :=
  r.level.rank ≤ f.rank && f.part.toList.isPrefixOf r.target.toList

/-- The shown records, each on a line of its own and without the control sequences that came with
its message. -/
def lines (f : Filter) (rs : List Record) : String :=
  String.join ((rs.filter f.shows).map fun r => Text.plain (r.line ++ "\n"))

end Filter

end Log

end FlatSheet
