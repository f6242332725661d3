/-
Paths of files.

A path is a sequence of bytes, in which slashes separate components.  Slashes in a row
count as one, a slash at the end does not count, and neither does a component that is a
single dot, unless a relative path begins with it.  Two dots are a component of their
own, since only the file system knows what they lead to.

Two paths are the same when they have the same components.
-/
import FlatSheet.Text.Utf8

namespace FlatSheet

/-- The path of a file. -/
structure FilePath where
  bytes : List UInt8
  deriving DecidableEq

/-- One step of a path. -/
inductive PathComponent where
  | root
  | here
  | up
  | name (bytes : List UInt8)
  deriving DecidableEq

namespace FilePath

/-- The byte that separates components. -/
def slash : UInt8 := 0x2F

/-- The byte of a dot. -/
def dot : UInt8 := 0x2E

/-- A path written as a text. -/
def ofString (s : String) : FilePath := ⟨Text.Utf8.encode s⟩

/-- The path as a text.  Bytes that are no text are shown as replacement characters. -/
def display (p : FilePath) : String := Text.Utf8.lossy p.bytes

/-- What a path begins with, and the rest: a slash, a dot that is a component of its own, or
nothing. -/
def front (p : FilePath) : List UInt8 × List UInt8 :=
  match p.bytes with
  | 0x2F :: body => ([slash], body)
  | [0x2E] => ([dot], [])
  | 0x2E :: 0x2F :: body => ([dot], 0x2F :: body)
  | body => ([], body)

/-- A piece between slashes that is no component. -/
def isNeutral (piece : List UInt8) : Bool := piece.isEmpty || piece = [dot]

/-- The component that a piece between slashes is. -/
def component? (piece : List UInt8) : Option PathComponent :=
  if isNeutral piece then none
  else if piece = [dot, dot] then some .up
  else some (.name piece)

/-- The component that the front of a path is. -/
def frontComponent? (f : List UInt8) : Option PathComponent :=
  if f = [slash] then some .root else if f = [dot] then some .here else none

/-- The components of a path. -/
def components (p : FilePath) : List PathComponent :=
  (frontComponent? p.front.1).toList ++ (p.front.2.splitOn slash).filterMap component?

/-- The same components, in whatever way they are written. -/
def same (p q : FilePath) : Bool := p.components = q.components

/-- The pieces of a body up to the last one that is a component. -/
def uptoComponent (pieces : List (List UInt8)) : List (List UInt8) :=
  (pieces.reverse.dropWhile isNeutral).reverse

/-- The path without its last component.  The root has none to lose, and neither has the empty
path. -/
def parent? (p : FilePath) : Option FilePath :=
  match p.front, uptoComponent (p.front.2.splitOn slash) with
  | ([0x2E], _), [] => some ⟨[]⟩
  | _, [] => none
  | (f, _), pieces@(_ :: _) =>
    some ⟨f ++ [slash].intercalate (uptoComponent pieces.dropLast)⟩

/-- The path begins at the root. -/
def isAbsolute (p : FilePath) : Bool := p.bytes.head? = some slash

/-- A path as it is seen from another one, which is taken for a directory. -/
def join (base relative : FilePath) : FilePath :=
  if relative.isAbsolute then relative
  else if base.bytes.isEmpty || base.bytes.getLast? = some slash then
    ⟨base.bytes ++ relative.bytes⟩
  else ⟨base.bytes ++ slash :: relative.bytes⟩

end FilePath

end FlatSheet
