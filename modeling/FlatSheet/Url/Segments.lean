/-
The parts of a path, and the dots among them.

A part that is a single dot stands for the path so far and is left out; two dots take the
part before them away.  Each dot may also be written percent-encoded.  When dots end a
path, an empty part takes their place, so that the path ends in a slash.

A letter with a colon or a bar is a drive.  Two dots do not take a drive away, nor a part
that continues a drive behind a backslash.  Where the path of a local file begins with a
drive, its bar becomes a colon.  If it begins with a part that is broken behind a drive
with a colon, then the break counts as a slash, and what follows it is an ordinary part.
-/
import FlatSheet.Url.Break
import FlatSheet.Url.Percent

namespace FlatSheet.Url

namespace Segments

/-- The part stands for the path so far. -/
def isSingleDot (s : String) : Bool := s ∈ [".", "%2e", "%2E"]

/-- The part takes away the one before it. -/
def isDoubleDot (s : String) : Bool :=
  s ∈ ["..", ".%2e", ".%2E", "%2e.", "%2E.", "%2e%2e", "%2e%2E", "%2E%2e", "%2E%2E"]

/-- The part is a drive. -/
def isDrive (s : String) : Bool :=
  match s.toList with
  | [letter, mark] => letter.isAlpha && (mark = ':' || mark = '|')
  | _ => false

/-- The part is a drive, or it continues one behind a backslash. -/
def staysDrive (s : String) : Bool := isDrive (String.ofList (s.toList.takeWhile (· ≠ '\\')))

/-- A drive as it is written in the address of a local file. -/
def normalDrive (s : String) : String := String.ofList (s.toList.take 1 ++ [':'])

/-- One part of a written path, encoded. -/
def ofPart (part : List Char) : String := Percent.encode Percent.inPath (unbroken part)

/-- The drive with a colon behind which a part is broken, and what follows it. -/
def brokenDrive? (part : List Char) : Option (String × String) :=
  match part.dropWhile isBreak with
  | letter :: cs =>
    match cs.dropWhile isBreak with
    | ':' :: gap :: rest =>
      if letter.isAlpha && isBreak gap && !(unbroken rest).isEmpty then
        some (String.ofList [letter, ':'], ofPart rest)
      else none
    | _ => none
  | [] => none

/-- Takes the last part away, unless it is or continues a drive. -/
def up (before : List String) : List String :=
  match before.getLast? with
  | some s => if staysDrive s then before else before.dropLast
  | none => []

/-- Adds one more part, which has no breaks, to those before it. -/
def addWhole (file : Bool) (before : List String) (s : String) : List String :=
  if isDoubleDot s then up before
  else if isSingleDot s then before
  else before ++ [if file && before.isEmpty && isDrive s then normalDrive s else s]

/-- Adds one more written part to those before it. -/
def add (file : Bool) (before : List String) (part : List Char) : List String :=
  match brokenDrive? part with
  | some (drive, rest) =>
    if file && before.isEmpty then [drive, rest] else addWhole file before (ofPart part)
  | none => addWhole file before (ofPart part)

/-- Adds the last part. -/
def addLast (file : Bool) (before : List String) (part : List Char) : List String :=
  if isDoubleDot (ofPart part) || isSingleDot (ofPart part) then add file before part ++ [""]
  else add file before part

/-- Adds written parts to those before them. -/
def addAll (file : Bool) (before : List String) : List (List Char) → List String
  | [] => before
  | [part] => addLast file before part
  | part :: more => addAll file (add file before part) more

/-- Among written parts there is a drive that comes first when it is added to those before. -/
def namesDrive (before : List String) : List (List Char) → Bool
  | [] => false
  | part :: more =>
    before.isEmpty && isDrive (ofPart part) || namesDrive (add true before part) more

/-- The parts of a written path.  The path has lost the slash it begins with. -/
def ofText (special : Bool) (cs : List Char) : List (List Char) :=
  (if special then cs.map fun c => if c = '\\' then '/' else c else cs).splitOn '/'

/-- The path of a local file has no empty parts in front. -/
def withoutEmptyFront (parts : List String) : List String :=
  match parts.dropWhile (· = "") with
  | [] => [""]
  | rest => rest

end Segments

end FlatSheet.Url
