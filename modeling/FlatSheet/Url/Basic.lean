/-
Addresses, and how they are written.

An address has a scheme, perhaps an authority, a path, and perhaps a query and a
fragment.  The schemes of the web and the scheme of local files are special: a backslash
is a slash in them, and they always have an authority and a path that begins with a
slash.

All parts are kept in encoded form, so that writing an address only puts its parts
side by side.
-/
import FlatSheet.Url.Host

namespace FlatSheet

namespace Url

/-- Who is asked for a resource. -/
structure Authority where
  username : String
  /-- The password, unless it is empty. -/
  password : Option String
  /-- The host.  A local file has none, and other schemes may do without one. -/
  host : Option Host
  /-- The port, unless it is the scheme's own. -/
  port : Option Nat
  deriving DecidableEq

/-- The path of an address. -/
inductive Path where
  /-- A path that has no parts. -/
  | verbatim (text : String)
  /-- A path of parts, each with a slash in front. -/
  | segments (parts : List String)
  deriving DecidableEq

end Url

open Url in
/-- An address. -/
structure Url where
  scheme : String
  authority : Option Authority
  path : Path
  query : Option String
  fragment : Option String
  deriving DecidableEq

namespace Url

/-- The port that a scheme of the web has on its own. -/
def defaultPort? : String → Option Nat
  | "http" => some 80
  | "https" => some 443
  | "ws" => some 80
  | "wss" => some 443
  | "ftp" => some 21
  | _ => none

/-- The scheme is one of the web's. -/
def isWebScheme (scheme : String) : Bool := (defaultPort? scheme).isSome

/-- The authority as it is written. -/
protected def Authority.toString (a : Authority) : String :=
  let password := match a.password with
    | some p => ":" ++ p
    | none => ""
  let userInfo := a.username ++ password
  let host := match a.host with
    | some h => toString h
    | none => ""
  let port := match a.port with
    | some p => ":" ++ p.repr
    | none => ""
  (if userInfo.isEmpty then "" else userInfo ++ "@") ++ host ++ port

/-- The path as it is written.  Without an authority in front, a path that would begin with two
slashes gets a dot to begin with. -/
protected def Path.toString (hasAuthority : Bool) : Path → String
  | .verbatim text => text
  | .segments parts =>
    let text := String.join (parts.map ("/" ++ ·))
    match parts with
    | "" :: _ :: _ => if hasAuthority then text else "/." ++ text
    | _ => text

/-- The address as it is written. -/
protected def toString (u : Url) : String :=
  let authority := match u.authority with
    | some a => "//" ++ a.toString
    | none => ""
  let query := match u.query with
    | some q => "?" ++ q
    | none => ""
  let fragment := match u.fragment with
    | some f => "#" ++ f
    | none => ""
  u.scheme ++ ":" ++ authority ++ u.path.toString u.authority.isSome ++ query ++ fragment

instance : ToString Url := ⟨Url.toString⟩

/-- The host of an address. -/
def host? (u : Url) : Option Host := do (← u.authority).host

end Url

end FlatSheet
