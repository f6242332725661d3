/-
Hosts.

A host is a name or an address.  The name of a host on the web is written in lower case
once its percent-encoding is undone, and if its last part is a number the whole name has
to be an address of four bytes.  An address of eight groups stands between brackets, and
its longest run of zero groups, the first if there are several, is left out when it is
written, provided it is longer than one group.

Names on the web are ASCII names here.  International names are left out: a name that is
not written in ASCII counts as invalid, and nobody looks into a part that begins with xn--
and stands for such a name.
-/
import FlatSheet.Url.Percent

namespace FlatSheet.Url

/-- Why a text is not an address. -/
inductive ParseError where
  | emptyHost
  | invalidPort
  | invalidIpv6Address
  | invalidIpv4Address
  | invalidDomainName
  | invalidDomainCharacter
  | relativeWithoutBase
  deriving DecidableEq

/-- The cause in words. -/
def ParseError.message : ParseError → String
  | emptyHost => "empty host"
  | invalidPort => "invalid port number"
  | invalidIpv6Address => "invalid IPv6 address"
  | invalidIpv4Address => "invalid IPv4 address"
  | invalidDomainName => "invalid international domain name"
  | invalidDomainCharacter => "invalid domain character"
  | relativeWithoutBase => "relative URL without a base"

/-- Where a resource is to be found. -/
inductive Host where
  | name (text : String)
  /-- An address of four bytes, as one number. -/
  | ipv4 (address : Nat)
  /-- An address of eight groups of two bytes. -/
  | ipv6 (groups : List Nat)
  deriving DecidableEq

namespace Host

/-! ### Addresses of four bytes -/

/-- Reads digits of a base, most significant first. -/
def number? (base : Nat) (digit? : Char → Option Nat) (digits : List Char) : Option Nat :=
  digits.foldl (fun n c => do return (← n) * base + (← digit? c)) (some 0)

/-- The value of a digit of a base up to ten. -/
def decimalDigit? (base : Nat) (c : Char) : Option Nat :=
  if '0' ≤ c ∧ c ≤ '9' ∧ c.toNat - 48 < base then some (c.toNat - 48) else none

/-- The value of a hexadecimal digit. -/
def hexDigit? (c : Char) : Option Nat :=
  if '0' ≤ c ∧ c ≤ '9' then some (c.toNat - 48)
  else if 'a' ≤ c ∧ c ≤ 'f' then some (c.toNat - 87)
  else if 'A' ≤ c ∧ c ≤ 'F' then some (c.toNat - 55)
  else none

/-- A part of an address of four bytes: octal after a zero, hexadecimal after a zero and an x, and
otherwise decimal. -/
def ipv4Number? : List Char → Option Nat
  | [] => none
  | '0' :: 'x' :: cs | '0' :: 'X' :: cs => number? 16 hexDigit? cs
  | '0' :: c :: cs => number? 8 (decimalDigit? 8) (c :: cs)
  | cs => number? 10 (decimalDigit? 10) cs

/-- The parts of a name.  One dot at the end does not count. -/
def parts (name : List Char) : List (List Char) :=
  let ps := name.splitOn '.'
  if ps.length > 1 ∧ ps.getLast? = some [] then ps.dropLast else ps

/-- The last part of the name is a number, so the name has to be an address. -/
def endsInNumber (name : List Char) : Bool :=
  match (parts name).getLast? with
  | some last =>
    !last.isEmpty && last.all (fun c => (decimalDigit? 10 c).isSome) || (ipv4Number? last).isSome
  | none => false

/-- The address that a name is.  The last part fills all bytes that the parts before it leave. -/
def ipv4? (name : List Char) : Option Nat := do
  let numbers ← (parts name).mapM ipv4Number?
  let last ← numbers.getLast?
  let before := numbers.dropLast
  if before.length ≤ 3 ∧ before.all (· ≤ 255) ∧ last < Nat.pow 256 (4 - before.length) then
    return before.foldr (fun n acc => acc / 0x100 + n * 0x1000000) 0 + last
  else none

/-- The four bytes of an address. -/
def ipv4Bytes (address : Nat) : List Nat :=
  [address / 0x1000000 % 256, address / 0x10000 % 256, address / 0x100 % 256, address % 256]

/-! ### Addresses of eight groups -/

/-- One group of an address: up to four hexadecimal digits. -/
def group? (cs : List Char) : Option (List Nat) :=
  if cs.isEmpty ∨ 4 < cs.length then none
  else (number? 16 hexDigit? cs).map fun n => [n]

/-- One byte in decimal, without a zero in front. -/
def byte? (cs : List Char) : Option Nat := do
  if cs.isEmpty ∨ (cs.head? = some '0' ∧ 1 < cs.length) then none
  else
    let n ← number? 10 (decimalDigit? 10) cs
    if n ≤ 255 then some n else none

/-- The last two groups of an address, written as four bytes. -/
def groupPair? (cs : List Char) : Option (List Nat) := do
  match ← (cs.splitOn '.').mapM byte? with
  | [a, b, c, d] => some [a * 256 + b, c * 256 + d]
  | _ => none

/-- Groups between colons.  Only the last may stand for two. -/
def groups? : List (List Char) → Option (List Nat)
  | [] => some []
  | [last] => if '.' ∈ last then groupPair? last else group? last
  | cs :: more => do return (← group? cs) ++ (← groups? more)

/-- Cuts a text at its first two colons in a row. -/
def cutAtGap : List Char → List Char × Option (List Char)
  | ':' :: ':' :: cs => ([], some cs)
  | c :: cs => let r := cutAtGap cs; (c :: r.1, r.2)
  | [] => ([], none)

/-- The groups in a text between two ends of an address; an empty text holds none. -/
def sideGroups? (cs : List Char) : Option (List Nat) :=
  if cs.isEmpty then some [] else groups? (cs.splitOn ':')

/-- The address that a text between brackets is. -/
def ipv6? (cs : List Char) : Option (List Nat) :=
  match cutAtGap cs with
  | (all, none) => do
    let gs ← sideGroups? all
    if gs.length = 8 then some gs else none
  | (before, some after) => do
    let front ← if '.' ∈ before then none else sideGroups? before
    let back ← sideGroups? after
    if front.length + back.length ≤ 7 then
      some (front ++ List.replicate (8 - front.length - back.length) 0 ++ back)
    else none

/-- The length of the run of zeros that a list begins with. -/
def leadingZeros (gs : List Nat) : Nat := (gs.takeWhile (· = 0)).length

/-- The place and the length of the longest run of zeros, the first among equals. -/
def longestZeros : List Nat → Nat × Nat
  | [] => (0, 0)
  | g :: gs =>
    let here := leadingZeros (g :: gs)
    let later := longestZeros gs
    if later.2 ≤ here then (0, here) else (later.1 + 1, later.2)

/-- Groups between colons, in hexadecimal. -/
def groupText (gs : List Nat) : List Char :=
  [':'].intercalate (gs.map (Nat.toDigits 16))

/-- An address of eight groups, without its longest run of zeros. -/
def ipv6Text (gs : List Nat) : List Char :=
  let (place, length) := longestZeros gs
  if length < 2 then groupText gs
  else groupText (gs.take place) ++ [':', ':'] ++ groupText (gs.drop (place + length))

/-! ### Hosts -/

/-- The host as it is written. -/
protected def toString : Host → String
  | name text => text
  | ipv4 address => ".".intercalate ((ipv4Bytes address).map Nat.repr)
  | ipv6 groups => String.ofList ('[' :: ipv6Text groups ++ [']'])

instance : ToString Host := ⟨Host.toString⟩

/-- The characters that no host name holds. -/
def isForbidden (c : Char) : Bool :=
  c ∈ ['\x00', '\t', '\n', '\r', ' ', '#', '/', ':', '<', '>', '?', '@', '[', '\\', ']', '^', '|']

/-- The characters that no host name on the web holds. -/
def isForbiddenInDomain (c : Char) : Bool :=
  isForbidden c || c = '%' || c.toNat < 0x20 || c.toNat = 0x7F

/-- Reads what stands between brackets. -/
def parseBracketed (cs : List Char) : Except ParseError Host :=
  match cs.getLast?, ipv6? cs.dropLast with
  | some ']', some groups => .ok (.ipv6 groups)
  | _, _ => .error .invalidIpv6Address

/-- Reads a host on the web. -/
def parseDomain (cs : List Char) : Except ParseError Host :=
  match cs with
  | '[' :: inner => parseBracketed inner
  | _ =>
    match Text.Utf8.decode? (Percent.decode (Text.Utf8.encode (String.ofList cs))) with
    | none => .error .invalidDomainName
    | some decoded =>
      let lower := decoded.toList.map Char.toLower
      if lower.any (fun c => isForbiddenInDomain c || 0x80 ≤ c.toNat) then
        .error .invalidDomainName
      else if lower.isEmpty then .error .emptyHost
      else if endsInNumber lower then
        match ipv4? lower with
        | some address => .ok (.ipv4 address)
        | none => .error .invalidIpv4Address
      else .ok (.name (String.ofList lower))

/-- Reads a host of any other scheme, whose name is kept as it is. -/
def parseVerbatim (cs : List Char) : Except ParseError Host :=
  match cs with
  | '[' :: inner => parseBracketed inner
  | _ =>
    if cs.any isForbidden then .error .invalidDomainCharacter
    else .ok (.name (Percent.encode (fun _ => false) cs))

end Host

end FlatSheet.Url
