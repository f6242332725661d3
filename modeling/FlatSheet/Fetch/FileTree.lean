/-
Files below a working directory.

A tree knows its directories and its files, each by the names that lead to it.  A path is
walked one name after the other.  Every name but the last has to lead to a directory,
and so has the last if a slash follows it; a dot stays, and two dots lead back to where
the walk came from.

Around the working directory there is nothing to be found but the link that a system
keeps to it, /proc/self/cwd, by which it can be reached from the root.
-/
import FlatSheet.Fetch.World

namespace FlatSheet

/-- The names that lead from one place to another, the last name first. -/
abbrev Trail := List (List UInt8)

/-- The names that lead from the root to the link to the working directory. -/
def Trail.toWorkingDirectory : Trail := ["cwd", "self", "proc"].map Text.Utf8.encode

/-- Files below a working directory. -/
structure FileTree where
  directories : List Trail
  files : List (Trail × List UInt8)

namespace FileTree

/-- A working directory with nothing in it. -/
def empty : FileTree := ⟨[], []⟩

/-- Where a walk has come to. -/
inductive Place where
  /-- Around the working directory. -/
  | outside
  /-- At the root, or on the way from it to the working directory. -/
  | above (trail : Trail)
  /-- In the working directory or in one below it. -/
  | directory (trail : Trail)
  /-- At a file. -/
  | file (content : List UInt8)
  deriving DecidableEq

/-- The longest name that a file can have, in bytes. -/
def maxNameLength : Nat := 255

/-- The longest path that can be walked, in bytes. -/
def maxPathLength : Nat := 4095

/-- What lies at the end of a trail. -/
def lookup? (t : FileTree) (trail : Trail) : Option Place :=
  match t.files.lookup trail with
  | some content => some (.file content)
  | none => if trail ∈ t.directories then some (.directory trail) else none

/-- Goes on by one piece of a path. -/
def walkStep (t : FileTree) (place : Place) (piece : List UInt8) : Except ReadError Place :=
  match place with
  | .file _ => .error .notADirectory
  | .outside =>
    if FilePath.isNeutral piece || piece = [FilePath.dot, FilePath.dot] then .ok .outside
    else if maxNameLength < piece.length then .error .nameTooLong
    else .error .notFound
  | .above trail =>
    if FilePath.isNeutral piece then .ok place
    else if piece = [FilePath.dot, FilePath.dot] then .ok (.above trail.tail)
    else if maxNameLength < piece.length then .error .nameTooLong
    else if piece :: trail = Trail.toWorkingDirectory then .ok (.directory [])
    else if (piece :: trail).isSuffixOf Trail.toWorkingDirectory then .ok (.above (piece :: trail))
    else .error .notFound
  | .directory trail =>
    if FilePath.isNeutral piece then .ok place
    else if piece = [FilePath.dot, FilePath.dot] then
      match trail with
      | [] => .ok .outside
      | _ :: above => .ok (.directory above)
    else if maxNameLength < piece.length then .error .nameTooLong
    else
      match t.lookup? (piece :: trail) with
      | some next => .ok next
      | none => .error .notFound

/-- Walks a path to its end. -/
def walk (t : FileTree) (p : FilePath) : Except ReadError Place :=
  if 0 ∈ p.bytes then .error .nulByte
  else if p.bytes.isEmpty then .error .notFound
  else if maxPathLength < p.bytes.length then .error .nameTooLong
  else
    let start := if p.isAbsolute then Place.above [] else .directory []
    (p.bytes.splitOn FilePath.slash).foldlM t.walkStep start

/-- The bytes of a file. -/
def read (t : FileTree) (p : FilePath) : Except ReadError (List UInt8) := do
  match ← t.walk p with
  | .file content => .ok content
  | _ => .error .isADirectory

/-- Makes a directory at the end of a trail, unless something is there. -/
def makeDirectory (t : FileTree) (trail : Trail) : FileTree :=
  if trail.isEmpty || (t.lookup? trail).isSome then t
  else { t with directories := trail :: t.directories }

/-- Where pieces of a path lead to from a directory, whatever is there. -/
def follow (trail : Trail) : List (List UInt8) → Trail
  | [] => trail
  | piece :: more =>
    if FilePath.isNeutral piece then follow trail more
    else if piece = [FilePath.dot, FilePath.dot] then follow trail.tail more
    else follow (piece :: trail) more

/-- Makes all directories on the way along some pieces. -/
def makeWay (t : FileTree) (trail : Trail) : List (List UInt8) → FileTree
  | [] => t
  | piece :: more =>
    (t.makeDirectory (follow trail [piece])).makeWay (follow trail [piece]) more

/-- The trail of a file, whether it is there or not. -/
def trailOf (p : FilePath) : Trail := follow [] (p.bytes.splitOn FilePath.slash)

/-- Leaves a file out. -/
def remove (t : FileTree) (p : FilePath) : FileTree :=
  { t with files := t.files.filter fun f => f.1 ≠ trailOf p }

/-- Writes a file, and makes the directories that lead to it. -/
def write (t : FileTree) (p : FilePath) (content : List UInt8) : FileTree :=
  let t := (t.makeWay [] (p.bytes.splitOn FilePath.slash).dropLast).remove p
  { t with files := (trailOf p, content) :: t.files }

/-- The world that holds these files and no servers. -/
def world {U : Type} [ToString U] (t : FileTree) : World U where
  read p := (t.read p).mapError ReadError.message
  client _ := .ok ()
  send u := .error { isConnect := true, reason := s!"no server answers at {u}" }

end FileTree

end FlatSheet
