/-
Flattened sheets as JSON.
-/
import FlatSheet.Flatten
import FlatSheet.Output.Json

namespace FlatSheet

/-- A place as JSON. -/
def Location.toJson (l : Location) : JsonValue :=
  .object [("line", .number l.line), ("column", .number l.column), ("offset", .number l.offset)]

/-- A report as JSON.  The name of an at-rule stands between the kind and the place. -/
def Diagnostic.toJson (d : Diagnostic) : JsonValue :=
  let name := (d.name?.map fun n => ("name", JsonValue.string n)).toList
  .object (("kind", .string d.kind) :: name ++ [("location", d.location.toJson)])

/-- A rule as JSON. -/
def Rule.toJson (r : Rule) : JsonValue :=
  .object [("selector", .string r.selector), ("declarations", .array (r.declarations.map .string))]

/-- A flattened sheet as JSON. -/
def Flattened.toJson (f : Flattened) : JsonValue :=
  .object [("rules", .array (f.rules.map Rule.toJson)),
    ("diagnostics", .array (f.diagnostics.map Diagnostic.toJson))]

end FlatSheet
