/-
Reading addresses.

An address stands alone or refers to another one, its base.  Blanks and controls around
it do not count, and breaks inside it are taken out before it is read.  Only the address
of a local file keeps its breaks up to its path.

A reference that has a scheme of its own stands alone, with one exception: on the web the
base's own scheme may be repeated in front of a reference that does not go on with two
slashes.  Otherwise the reference takes from the base all that comes before its own
first part.
-/
import FlatSheet.Fetch.Addressing
import FlatSheet.Url.Basic
import FlatSheet.Url.Segments

namespace FlatSheet.Url

/-! ### Cutting an address into parts -/

/-- Drops blanks and controls at both ends. -/
def trimmed (text : String) : List Char :=
  let outer := fun (c : Char) => decide (c ≤ ' ')
  ((text.toList.dropWhile outer).reverse.dropWhile outer).reverse

/-- A character that a scheme may go on with. -/
def isSchemeChar (c : Char) : Bool := c.isAlphanum || c = '+' || c = '-' || c = '.'

/-- The scheme in lower case, and what follows its colon. -/
def scheme? (cs : List Char) : Option (String × List Char) :=
  let inScheme := fun (c : Char) => isSchemeChar c || isBreak c
  match unbroken (cs.takeWhile inScheme), cs.dropWhile inScheme with
  | c :: name, ':' :: rest =>
    if c.isAlpha then some (String.ofList ((c :: name).map Char.toLower), rest) else none
  | _, _ => none

/-- A slash, or a backslash that counts as one. -/
def isSlash (special : Bool) (c : Char) : Bool := c = '/' || special && c = '\\'

/-- A character that ends an authority. -/
def endsAuthority (special : Bool) (c : Char) : Bool := isSlash special c || c = '?' || c = '#'

/-- The query and the fragment that a text consists of. -/
def queryAndFragment (special : Bool) (cs : List Char) : Option String × Option String :=
  let fragment? := fun (rest : List Char) =>
    match rest with
    | '#' :: f => some (Percent.encode Percent.inFragment f)
    | _ => none
  match cs with
  | '?' :: rest =>
    (some (Percent.encode (Percent.inQuery special) (rest.takeWhile (· ≠ '#'))),
      fragment? (rest.dropWhile (· ≠ '#')))
  | _ => (none, fragment? cs)

/-- A character that belongs to the path. -/
def isInPath (c : Char) : Bool := c ≠ '?' && c ≠ '#'

/-! ### The authority -/

/-- User name and password.  The first colon parts them. -/
def userInfo (cs : List Char) : String × Option String :=
  let password := match cs.dropWhile (· ≠ ':') with
    | _ :: p => if p.isEmpty then none else some (Percent.encode Percent.inUserInfo p)
    | [] => none
  (Percent.encode Percent.inUserInfo (cs.takeWhile (· ≠ ':')), password)

/-- Cuts a text after its last at-sign before the authority ends. -/
def cutUserInfo (special : Bool) (cs : List Char) : Option (List Char) × List Char :=
  let authority := cs.takeWhile fun c => !endsAuthority special c
  match (authority.splitOn '@').reverse with
  | last :: before@(_ :: _) =>
    (some (['@'].intercalate before.reverse),
      last ++ cs.dropWhile fun c => !endsAuthority special c)
  | _ => (none, cs)

/-- Cuts the host from what follows it.  A colon between brackets belongs to the host. -/
def cutHost (special bracketed : Bool) : List Char → List Char × List Char
  | [] => ([], [])
  | c :: cs =>
    if c = ':' && !bracketed || endsAuthority special c then ([], c :: cs)
    else
      let r := cutHost special (if c = '[' then true else if c = ']' then false else bracketed) cs
      (c :: r.1, r.2)

/-- The port that follows a host, unless it is the scheme's own, and what follows the port. -/
def cutPort (scheme : String) (cs : List Char) :
    Except ParseError (Option Nat × List Char) :=
  match cs with
  | ':' :: rest =>
    let digits := rest.takeWhile Char.isDigit
    let after := rest.dropWhile Char.isDigit
    let endsHere := match after with
      | [] => true
      | c :: _ => endsAuthority true c
    match Host.number? 10 (Host.decimalDigit? 10) digits with
    | some port =>
      if 65535 < port || !endsHere then .error .invalidPort
      else if digits.isEmpty || defaultPort? scheme = some port then .ok (none, after)
      else .ok (some port, after)
    | none => .error .invalidPort
  | _ => .ok (none, cs)

/-- Reads the authority after two slashes, and answers what follows it. -/
def parseAuthority (scheme : String) (cs : List Char) :
    Except ParseError (Authority × List Char) := do
  let special := isWebScheme scheme
  let (info?, afterInfo) := cutUserInfo special cs
  let (hostText, afterHost) := cutHost special false afterInfo
  let (username, password) := userInfo (info?.getD [])
  let named := !username.isEmpty || password.isSome
  if hostText.isEmpty then
    let misplaced := info? = some [] && !afterHost.isEmpty
    if special || named || misplaced || afterHost.head? = some ':' then .error .emptyHost
    else return (⟨username, password, none, none⟩, afterHost)
  else
    let host ← if special then Host.parseDomain hostText else Host.parseVerbatim hostText
    let (port, rest) ← cutPort scheme afterHost
    return (⟨username, password, some host, port⟩, rest)

/-! ### Addresses that stand alone -/

/-- Puts an address together from what precedes its path and a text that begins with the path. -/
def withPath (scheme : String) (authority : Option Authority) (before : List String)
    (cs : List Char) : Url :=
  let special := isWebScheme scheme
  let parts := Segments.addAll false before (Segments.ofText special (cs.takeWhile isInPath))
  let (query, fragment) := queryAndFragment special (cs.dropWhile isInPath)
  ⟨scheme, authority, .segments parts, query, fragment⟩

/-- Reads an address from its authority on. -/
def parseFromAuthority (scheme : String) (cs : List Char) : Except ParseError Url := do
  let (authority, rest) ← parseAuthority scheme cs
  let special := isWebScheme scheme
  match rest with
  | c :: path =>
    if isSlash special c then return withPath scheme authority [] path
    else if special || isInPath c then return withPath scheme authority [] rest
    else
      let (query, fragment) := queryAndFragment special rest
      return ⟨scheme, authority, .segments [], query, fragment⟩
  | [] => return ⟨scheme, authority, .segments (if special then [""] else []), none, none⟩

/-- Reads an address whose scheme is neither of the web nor of local files. -/
def parseOther (scheme : String) (cs : List Char) : Except ParseError Url :=
  match cs with
  | '/' :: '/' :: rest => parseFromAuthority scheme rest
  | '/' :: rest => .ok (withPath scheme none [] rest)
  | _ =>
    let (query, fragment) := queryAndFragment false (cs.dropWhile isInPath)
    let path := Percent.encode (fun _ => false) (cs.takeWhile isInPath)
    .ok ⟨scheme, none, .verbatim path, query, fragment⟩

/-- What follows a slash at the front, if there is one. -/
def afterSlash? (cs : List Char) : Option (List Char) :=
  match cs.dropWhile isBreak with
  | c :: rest => if isSlash true c then some rest else none
  | [] => none

/-- The host in the address of a local file, and the text that begins with the path.  The local host
is no host, and a drive is not one either.  Only behind a host the first slash is not part of the
path. -/
def cutFileHost (cs : List Char) : Except ParseError (Option Host × List Char) := do
  let text := unbroken (cs.takeWhile fun c => !endsAuthority true c)
  let rest := cs.dropWhile fun c => !endsAuthority true c
  if Segments.isDrive (String.ofList text) then return (none, cs)
  else if text.isEmpty then return (none, rest)
  else
    match ← Host.parseDomain text with
    | .name "localhost" => return (none, rest)
    | host => return (some host, (afterSlash? rest).getD rest)

/-- Reads the address of a local file from behind the scheme, with its breaks.  A path that begins
with a drive drops the host. -/
def parseFile (cs : List Char) : Except ParseError Url := do
  let path := (afterSlash? cs).getD cs
  let (host, rest) ←
    match (afterSlash? cs).bind afterSlash? with
    | some inner => cutFileHost inner
    | none => pure (none, path)
  let parts := Segments.ofText true (rest.takeWhile isInPath)
  let host := if Segments.namesDrive [] parts then none else host
  let parts := Segments.withoutEmptyFront (Segments.addAll true [] parts)
  let (query, fragment) := queryAndFragment true (unbroken (rest.dropWhile isInPath))
  return ⟨"file", some ⟨"", none, host, none⟩, .segments parts, query, fragment⟩

/-- Reads an address, with its breaks, from behind its scheme. -/
def parseFromScheme (scheme : String) (cs : List Char) : Except ParseError Url :=
  if scheme = "file" then parseFile cs
  else if isWebScheme scheme then
    parseFromAuthority scheme ((unbroken cs).dropWhile (isSlash true))
  else parseOther scheme (unbroken cs)

/-- Reads an address that stands alone. -/
def parse (text : String) : Except ParseError Url :=
  match scheme? (trimmed text) with
  | some (scheme, rest) => parseFromScheme scheme rest
  | none => .error .relativeWithoutBase

/-! ### References -/

/-- The parts of a path without the last one, to which a reference is added. -/
def Path.directory : Path → List String
  | .verbatim _ => []
  | .segments parts => parts.dropLast

/-- Reads a reference that has no scheme, against a base on the web. -/
def parseRelative (base : Url) (cs : List Char) : Except ParseError Url :=
  match cs with
  | [] => .ok { base with fragment := none }
  | '#' :: _ => .ok { base with fragment := (queryAndFragment true cs).2 }
  | '?' :: _ =>
    let (query, fragment) := queryAndFragment true cs
    .ok { base with query, fragment }
  | '/' :: '/' :: rest => parseFromAuthority base.scheme rest
  | c :: rest =>
    if isSlash true c then
      match rest with
      | d :: _ =>
        if isSlash true d then parseFromAuthority base.scheme (rest.dropWhile (isSlash true))
        else .ok (withPath base.scheme base.authority [] rest)
      | [] => .ok (withPath base.scheme base.authority [] rest)
    else .ok (withPath base.scheme base.authority base.path.directory cs)

/-- Reads a reference against a base on the web. -/
def join (base : Url) (reference : String) : Except ParseError Url :=
  match scheme? (trimmed reference) with
  | some (scheme, rest) =>
    let slashes := ((unbroken rest).takeWhile (isSlash true)).length
    if scheme = base.scheme ∧ isWebScheme scheme ∧ slashes < 2 then
      parseRelative base (unbroken rest)
    else parseFromScheme scheme rest
  | none => parseRelative base (unbroken (trimmed reference))

/-! ### Local files -/

/-- The path that the address of a local file names.  It names none when it has a host.  A drive at
the end gets a slash. -/
def filePath? (u : Url) : Option FilePath :=
  match u.path, u.host? with
  | .segments parts@(_ :: _), none =>
    let bytes := parts.flatMap fun s => 0x2F :: Percent.decode (Text.Utf8.encode s)
    let isDriveEnd := match bytes.reverse with
      | mark :: letter :: _ :: _ =>
        (mark = 0x3A || mark = 0x7C) && (Char.ofUInt8 letter).isAlpha
      | _ => false
    some ⟨if isDriveEnd then bytes ++ [0x2F] else bytes⟩
  | _, _ => none

/-- The addresses that the program runs with.  They know no international hosts: a host that is not
written in ASCII is refused, and one that is written in its ASCII form is taken as it stands. -/
instance : Addressing Url where
  beq u v := (toString u : String) = toString v
  parse text := (Url.parse text).mapError ParseError.message
  join base reference := (base.join reference).mapError ParseError.message
  scheme u := u.scheme
  filePath? := Url.filePath?

end FlatSheet.Url
