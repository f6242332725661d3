/-
The program.

All files that the arguments name are read first, since reading them again gives the same
bytes.  What remains is a pure call.
-/
import FlatSheet.CommandLine
import FlatSheet.Url.Parse

namespace FlatSheet

/-- An error number is reported as it is or negated. -/
def isErrorNumber (n code : UInt32) : Bool := code = n || code = 0 - n

/-- Why reading failed. -/
def reasonOf (e : IO.Error) : String :=
  match e with
  | .noFileOrDirectory _ _ _ => ReadError.notFound.message
  | .inappropriateType _ code _ =>
    if isErrorNumber 21 code then ReadError.isADirectory.message
    else ReadError.notADirectory.message
  | .invalidArgument _ code _ =>
    if isErrorNumber 36 code then ReadError.nameTooLong.message else toString e
  | _ => toString e

/-- The bytes of a file, or the reason why it cannot be read.  A file whose path is no text cannot be
opened from here. -/
def readFile (p : FilePath) : IO (Except String (List UInt8)) := do
  if 0 ∈ p.bytes then return .error ReadError.nulByte.message
  match Text.Utf8.decode? p.bytes with
  | none => return .error "the path is no text"
  | some name =>
    try
      return .ok (← IO.FS.readBinFile name).data.toList
    catch e => return .error (reasonOf e)

/-- The world as it is now, as far as some sources reach.  Nobody is connected to the web. -/
def worldFor (names : List String) : IO (World Url) := do
  let mut seen : List (FilePath × Except String (List UInt8)) := []
  for name in names do
    if let .ok (.file p) := (Source.parse name : Except FetchError (Source Url)) then
      seen := (p, ← readFile p) :: seen
  let files := seen
  return {
    read := fun p => (files.lookup p).getD (.error ReadError.notFound.message)
    client := fun _ => .ok ()
    send := fun u => .error { isConnect := true, reason := s!"no connection to {u}" } }

/-- The names of the sources among the arguments, and whether the standard input is one. -/
def sourcesOf (args : List String) : List String × Bool :=
  match CommandLine.parse args with
  | .ok (.run o) => (o.sources.filter (· ≠ "-"), "-" ∈ o.sources)
  | _ => ([], false)

/-- What the standard input holds. -/
def readInput : IO CommandLine.Input := do
  try
    return .ok (← (← IO.getStdin).readBinToEnd).data.toList
  catch e => return .error (reasonOf e)

/-- The name by which the program was called, where the system tells. -/
def programName : IO String := do
  try
    let line ← IO.FS.readBinFile "/proc/self/cmdline"
    return Text.Utf8.lossy (line.data.toList.takeWhile (· ≠ 0))
  catch _ => return "stylenest"

end FlatSheet

open FlatSheet in
def main (args : List String) : IO UInt32 := do
  let filter := match ← IO.getEnv "RUST_LOG" with
    | some text => Log.Filter.parse text
    | none => .standard
  let (names, wantsInput) := sourcesOf args
  let w ← worldFor names
  let input ← if wantsInput then readInput else pure (.ok [])
  let o := CommandLine.call ((← programName) :: args) w input
  IO.print o.printed
  IO.eprint (o.errors filter)
  return UInt32.ofNat o.exitCode
