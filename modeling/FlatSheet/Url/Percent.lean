/-
Percent-encoding.

A byte is encoded as a percent sign and its two hexadecimal digits.  Controls and all
characters beyond ASCII are always encoded; which others are depends on the part of the
address they stand in.  A percent sign is itself never encoded, so an address that is
encoded already stays as it is.
-/
import FlatSheet.Text.Utf8

namespace FlatSheet.Url

namespace Percent

/-- The characters that are encoded in every part of an address. -/
def always (c : Char) : Bool := c.toNat < 0x20 || 0x7F ≤ c.toNat

/-- The further characters that are encoded in a fragment. -/
def inFragment (c : Char) : Bool := c ∈ [' ', '"', '<', '>', '\x60']

/-- The further characters that are encoded in a query. -/
def inQuery (special : Bool) (c : Char) : Bool :=
  c ∈ [' ', '"', '#', '<', '>'] || special && c = '\x27'

/-- The further characters that are encoded in a path. -/
def inPath (c : Char) : Bool := inFragment c || c ∈ ['#', '?', '{', '}']

/-- The further characters that are encoded in a user name or a password. -/
def inUserInfo (c : Char) : Bool :=
  inPath c || c ∈ ['/', ':', ';', '=', '@', '[', '\\', ']', '^', '|']

/-- A digit of a hexadecimal number, in upper case. -/
def upperDigit (n : Nat) : Char := (n.digitChar).toUpper

/-- One byte, encoded. -/
def encodeByte (b : UInt8) : List Char :=
  ['%', upperDigit (b.toNat / 16), upperDigit (b.toNat % 16)]

/-- One character, encoded where it has to be. -/
def encodeChar (further : Char → Bool) (c : Char) : List Char :=
  if always c || further c then (String.utf8EncodeChar c).flatMap encodeByte else [c]

/-- A part of an address, encoded. -/
def encode (further : Char → Bool) (cs : List Char) : String :=
  String.ofList (cs.flatMap (encodeChar further))

/-- The value of a hexadecimal digit. -/
def digitValue? (b : UInt8) : Option UInt8 :=
  if 0x30 ≤ b ∧ b ≤ 0x39 then some (b - 0x30)
  else if 0x41 ≤ b ∧ b ≤ 0x46 then some (b - 0x37)
  else if 0x61 ≤ b ∧ b ≤ 0x66 then some (b - 0x57)
  else none

/-- Puts a byte in the place of every percent sign that two hexadecimal digits follow. -/
def decode : List UInt8 → List UInt8
  | 0x25 :: high :: low :: bytes =>
    match digitValue? high, digitValue? low with
    | some h, some l => (h * 16 + l) :: decode bytes
    | _, _ => 0x25 :: decode (high :: low :: bytes)
  | b :: bytes => b :: decode bytes
  | [] => []

end Percent

end FlatSheet.Url
