/-
Texts without control sequences.

A terminal takes an escape and what follows it for an order, and does not show it.  The
characters behind the escape settle how long the order is.  An escape sequence ends at
its first character that is none of the ASCII characters from space to slash.  A control
sequence, behind an opening bracket, ends at its first letter or at one of the signs
beside the letters.  A control string goes on until something ends it.  Cancelling ends
all of them, and another escape begins a new one.  Controls are not shown either, except
for the blank ones.

A blank control within a sequence is shown, and suspends the sequence.  Then text is
shown up to the next control, which takes the sequence up again.  A character outside
ASCII is shown too, and drops the suspended sequence.
-/
import FlatSheet.Text.Utf8

namespace FlatSheet.Text

namespace Plain

/-- A sequence that can be suspended, by what has been read of it. -/
inductive Sequence where
  /-- Only the escape. -/
  | escape
  /-- The escape and characters that do not end an escape sequence. -/
  | intermediate
  /-- The escape, the opening bracket, and characters that do not end a control sequence. -/
  | control
  deriving DecidableEq

/-- Where in a text the next character stands. -/
inductive Mode where
  | text
  | within (s : Sequence)
  | suspended (s : Sequence)
  /-- At the head of a device control string. -/
  | device
  /-- Among the parameters at the head of a device control string. -/
  | deviceParameters
  /-- Behind the parameters at the head of a device control string. -/
  | deviceIntermediate
  /-- In a control string that a string terminator ends. -/
  | string
  /-- In an operating system command, which a bell ends. -/
  | command
  deriving DecidableEq

/-- A tab, a line feed, a form feed or a carriage return. -/
def isBlankControl (c : Char) : Bool := c ∈ ['\t', '\n', '\x0c', '\r']

/-- An ASCII character that is no control. -/
def isGraphic (c : Char) : Bool := 0x20 ≤ c.toNat && c.toNat < 0x7F

/-- A character outside ASCII. -/
def isForeign (c : Char) : Bool := 0x80 ≤ c.toNat

/-- A character that is shown where no sequence has begun. -/
def isText (c : Char) : Bool := isGraphic c || isBlankControl c || isForeign c

/-- The string terminator is a single byte, and any character that contains this byte counts. -/
def isTerminator (c : Char) : Bool := isForeign c && 0x9C ∈ Utf8.encode (String.singleton c)

/-- Where a sequence is after one of its own characters. -/
def Sequence.next (s : Sequence) (c : Char) : Mode :=
  match s with
  | control => if c.toNat < 0x40 then .within control else .text
  | intermediate => if c.toNat < 0x30 then .within intermediate else .text
  | escape =>
    if c.toNat < 0x30 then .within intermediate
    else match c with
      | '[' => .within control
      | ']' => .command
      | 'P' => .device
      | 'X' | '^' | '_' => .string
      | _ => .text

namespace Mode

/-- The character is shown. -/
def shows (m : Mode) (c : Char) : Bool :=
  match m with
  | text | suspended _ => isText c
  | within _ => isBlankControl c
  | device | deviceParameters | deviceIntermediate | string | command => false

/-- Where the head of a device control string goes on after a graphic ASCII character, if its
parameters are written with characters below some number. -/
def deviceNext (bound : Nat) (parameters : Mode) (c : Char) : Mode :=
  if c.toNat < 0x30 then deviceIntermediate
  else if c.toNat < bound then parameters
  else string

/-- Where the text goes on after the character. -/
def next (m : Mode) (c : Char) : Mode :=
  if c = '\x18' ∨ c = '\x1a' then text
  else if c = '\x1b' then within .escape
  else match m with
    | text => text
    | within s =>
      if isBlankControl c then suspended s
      else if isGraphic c then s.next c
      else m
    | suspended s =>
      if isForeign c then text
      else if isText c then m
      else within s
    | device => if isGraphic c then deviceNext 0x40 deviceParameters c else m
    | deviceParameters => if isGraphic c then deviceNext 0x3C m c else m
    | deviceIntermediate => if isGraphic c then deviceNext 0x30 m c else m
    | string => if isTerminator c then text else m
    | command => if c = '\x07' then text else m

/-- What is shown of a text. -/
def shown (m : Mode) : List Char → List Char
  | [] => []
  | c :: cs => if m.shows c then c :: (m.next c).shown cs else (m.next c).shown cs

end Mode

end Plain

/-- The text without control sequences. -/
def plain (s : String) : String := String.ofList (Plain.Mode.text.shown s.toList)

end FlatSheet.Text
