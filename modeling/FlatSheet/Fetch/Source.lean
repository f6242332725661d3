/-
Where a sheet comes from.

A sheet is a file or lies on the web.  A name with a colon and two slashes in it is an
address, and any other name is a path.  The address of a local file stands for its path.

A reference in one sheet to another is read from the place of the first: against its
address, or from the directory it lies in.
-/
import FlatSheet.Fetch.Addressing
import FlatSheet.Fetch.Error
import FlatSheet.Text.Infix

namespace FlatSheet

/-- Where a sheet comes from. -/
inductive Source (U : Type) where
  /-- An address on the web. -/
  | remote (url : U)
  /-- A local file. -/
  | file (path : FilePath)
  deriving DecidableEq

namespace Source

open Addressing (IsWeb scheme filePath?)

/-- A name that is an address. -/
def isAddress (name : String) : Bool := Text.occursIn [':', '/', '/'] name.toList

variable {U : Type} [Addressing U]

/-- What cannot be read as an address makes no sense as a source. -/
def ofParse (r : Except String U) : Except FetchError U := r.mapError .invalidSource

/-- The source at an address.  It is the web or a local file. -/
def ofUrl (u : U) : Except FetchError (Source U) :=
  if IsWeb u then .ok (.remote u)
  else if scheme u = "file" then
    match filePath? u with
    | some path => .ok (.file path)
    | none => .error (.invalidSource (toString u))
  else .error (.invalidSource s!"unsupported scheme '{scheme u}' in {u}")

/-- The source that a name stands for. -/
def parse (name : String) : Except FetchError (Source U) :=
  if isAddress name then do ofUrl (← ofParse (Addressing.parse name))
  else .ok (.file (.ofString name))

/-- The name under which a source is remembered. -/
def id : Source U → String
  | remote url => toString url
  | file path => path.display

instance : ToString (Source U) := ⟨id⟩

/-- The same address, or the same path. -/
def same : Source U → Source U → Bool
  | remote u, remote v => u == v
  | file p, file q => p.same q
  | _, _ => false

/-- The source that a reference in this one stands for. -/
def resolve (s : Source U) (reference : String) : Except FetchError (Source U) :=
  match s with
  | remote url => do ofUrl (← ofParse (Addressing.join url reference))
  | file path =>
    if isAddress reference then parse reference
    else .ok (.file ((path.parent?.getD ⟨[]⟩).join (.ofString reference)))

end Source

end FlatSheet
