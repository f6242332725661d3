/-
The command line.

A run reads all its sources, in order, before it flattens the first.  If one of them
cannot be read nothing is printed but the reason.  Otherwise the sheets are put one below
the other, or their rules and reports are put into one JSON document.
-/
import FlatSheet.Fetch.Fetcher
import FlatSheet.Log.Filter
import FlatSheet.Output.Report

namespace FlatSheet

namespace CommandLine

/-- The version of the program. -/
def version : String := "0.1.0"

/-- The name under which the command line writes to the log. -/
def logTarget : String := "stylenest"

/-- How to run. -/
structure Options where
  /-- Print rules and reports as JSON. -/
  json : Bool := false
  /-- Tell about all reports, and fail if a sheet is cut short. -/
  check : Bool := false
  /-- Begin with the base reset. -/
  reset : Bool := false
  /-- Names of sources, or a dash for the standard input. -/
  sources : List String := []
  deriving DecidableEq

/-- What the program is asked to do. -/
inductive Command where
  | help
  | version
  | run (options : Options)
  deriving DecidableEq

/-- Why the arguments make no sense. -/
inductive UsageError where
  | unknownOption (flag : String)
  | noSource
  deriving DecidableEq

/-- The cause in words. -/
def UsageError.message : UsageError → String
  | unknownOption flag => s!"Unknown option: {flag}"
  | noSource => "No source given"

/-- Reads arguments from left to right.  The first that settles the matter wins. -/
def parseFrom (o : Options) : List String → Except UsageError Command
  | [] => if o.sources.isEmpty then .error .noSource else .ok (.run o)
  | arg :: args =>
    if arg = "--help" ∨ arg = "-h" then .ok .help
    else if arg = "--version" ∨ arg = "-V" then .ok .version
    else if arg = "--json" then parseFrom { o with json := true } args
    else if arg = "--check" then parseFrom { o with check := true } args
    else if arg = "--reset" then parseFrom { o with reset := true } args
    else if arg ≠ "-" ∧ arg.toList.head? = some '-' then .error (.unknownOption arg)
    else parseFrom { o with sources := o.sources ++ [arg] } args

/-- What the arguments ask for. -/
def parse (args : List String) : Except UsageError Command := parseFrom {} args

/-- Why a run came to nothing. -/
inductive RunError where
  | fetch (e : FetchError)
  /-- The standard input cannot be read. -/
  | input (reason : String)
  /-- The standard input is no text. -/
  | inputEncoding
  deriving DecidableEq

/-- The cause in words. -/
def RunError.message : RunError → String
  | fetch e => e.message
  | input reason => reason
  | inputEncoding => "stream did not contain valid UTF-8"

/-- What the standard input holds, or the reason why it cannot be read. -/
abbrev Input := Except String (List UInt8)

/-- What sources are read with: the fetcher, and what is left of the standard input. -/
structure Reader where
  fetcher : Fetcher
  input : Input

variable {U : Type} [Addressing U]

/-- Reads one source.  The standard input is used up once it was read. -/
def Reader.read (r : Reader) (w : World U) (name : String) :
    Logged (Except RunError String × Reader) :=
  if name = "-" then
    match r.input with
    | .error reason => pure (.error (.input reason), r)
    | .ok bytes =>
      match Text.Utf8.decode? bytes with
      | some text => pure (.ok text, { r with input := .ok [] })
      | none => pure (.error .inputEncoding, r)
  else
    match Source.parse name with
    | .error e => pure (.error (.fetch e), r)
    | .ok source => do
      let (text, fetcher) ← r.fetcher.load w source
      return (text.mapError .fetch, { r with fetcher })

/-- Reads sources in order, up to the first that cannot be read.  Answers each text with the name
of its source. -/
def Reader.readAll (r : Reader) (w : World U) :
    List String → Logged (Except RunError (List (String × String)))
  | [] => pure (.ok [])
  | name :: names => do
    match ← r.read w name with
    | (.error e, _) => return .error e
    | (.ok text, r) => return (← r.readAll w names).map ((name, text) :: ·)

/-- What a run has printed so far: a sheet, or rules and reports. -/
structure Collected where
  sink : Sink
  flattened : Flattened
  complete : Bool

/-- Tells the log about a report in one of the sources. -/
def announce (name : String) (d : Diagnostic) : Logged Unit :=
  Logged.say (if d.isFatal then .warn else .info) logTarget s!"{name}: {d}"

/-- Puts a sheet below those before it.  Sheets without rules leave no empty line. -/
def appendSheet (s : Sink) (css : String) : Sink :=
  let s := if !css.isEmpty && !s.text.isEmpty then s.append Sink.defaultKey "\n" else s
  s.append Sink.defaultKey css

/-- Flattens one text and adds what comes of it. -/
def addText (o : Options) (c : Collected) (name text : String) : Logged Collected := do
  let f ← flattenLogged text
  if o.check then f.diagnostics.forM (announce name)
  let complete := c.complete && f.isComplete
  if o.json then
    let rules := c.flattened.rules ++ f.rules
    let diagnostics := c.flattened.diagnostics ++ f.diagnostics
    return { c with flattened := ⟨rules, diagnostics⟩, complete }
  else return { c with sink := appendSheet c.sink (emit f.rules), complete }

/-- What a run prints, and whether all sheets were read to their end. -/
structure Output where
  text : String
  complete : Bool
  deriving DecidableEq

/-- The texts that a run flattens, given those of its sources. -/
def Options.texts (o : Options) (sources : List (String × String)) : List (String × String) :=
  (if o.reset then [("<reset>", Sink.baseReset)] else []) ++ sources

/-- Flattens texts in order. -/
def flattenAll (o : Options) (texts : List (String × String)) : Logged Output := do
  let c ← texts.foldlM (fun c (name, text) => addText o c name text) ⟨.empty, ⟨[], []⟩, true⟩
  return ⟨if o.json then c.flattened.toJson.pretty 0 else c.sink.text, c.complete⟩

/-- Reads all sources and flattens them. -/
def run (o : Options) (w : World U) (input : Input) : Logged (Except RunError Output) :=
  match Fetcher.make w true {} with
  | .error e => pure (.error (.fetch e))
  | .ok fetcher => do
    match ← (⟨fetcher, input⟩ : Reader).readAll w o.sources with
    | .error e => return .error e
    | .ok sources => return .ok (← flattenAll o (o.texts sources))

/-- How to use the program, under the name by which it was called. -/
def usage (program : String) : String :=
"Stylenest " ++ version ++ " - flattens nested stylesheets into plain CSS

USAGE:
    " ++ program ++ " [OPTIONS] <SOURCE>...

SOURCES:
    A file path, an http(s) or file:// URL, or - for stdin.
    Sources are flattened in order into one style sheet.

OPTIONS:
    -h, --help        Print this help message
    -V, --version     Print version information
    --json            Print the flattened rules and diagnostics as JSON
    --check           Report skipped input; fail if a block is never closed
    --reset           Start with a body margin/padding reset

EXAMPLES:
    " ++ program ++ " styles/app.scss
    " ++ program ++ " --check https://example.com/theme.css
    cat nested.css | " ++ program ++ " -
"

/-- What a call of the program leaves behind. -/
structure Outcome where
  success : Bool
  /-- The standard output. -/
  printed : String
  /-- The log, and what comes after it on the standard error. -/
  records : List Log.Record
  complaint : String
  deriving DecidableEq

/-- Calls the program.  Its own name comes in front of its arguments. -/
def call (argv : List String) (w : World U) (input : Input) : Outcome :=
  let program := argv.head?.getD "stylenest"
  match parse argv.tail with
  | .error e => ⟨false, usage program ++ "\n", [], e.message ++ "\n\n"⟩
  | .ok .help => ⟨true, usage program ++ "\n", [], ""⟩
  | .ok .version => ⟨true, s!"Stylenest {version}\n", [], ""⟩
  | .ok (.run o) =>
    let r := run o w input
    match r.value with
    | .error e => ⟨false, "", r.records.toList, s!"Error: {e.message}\n"⟩
    | .ok output =>
      ⟨!o.check || output.complete, output.text ++ "\n", r.records.toList, ""⟩

/-- The standard error of a call. -/
def Outcome.errors (o : Outcome) (f : Log.Filter) : String := f.lines o.records ++ o.complaint

/-- The code that the program exits with. -/
def Outcome.exitCode (o : Outcome) : Nat := if o.success then 0 else 1

end CommandLine

end FlatSheet
