/-
What a server answers.
-/
import FlatSheet.Fetch.Error
import FlatSheet.Text.Infix
import FlatSheet.Text.Quoted

namespace FlatSheet

/-- What a server answers. -/
structure Response (U : Type) where
  /-- The address that answered in the end. -/
  url : U
  status : Nat
  /-- Names in lower case, each with its value. -/
  headers : List (String × String)
  body : List UInt8

namespace Response

variable {U : Type}

/-- The server answered with what was asked for. -/
def isSuccess (r : Response U) : Bool := 200 ≤ r.status && r.status < 300

/-- What the server says the body is. -/
def contentType? (r : Response U) : Option String := r.headers.lookup "content-type"

/-- The server says that the body is a sheet. -/
def isStylesheet (r : Response U) : Bool :=
  match r.contentType? with
  | some type => Text.occursIn "text/css".toList (type.toList.map Char.toLower)
  | none => false

/-- What the server says the body is, as a log message shows it. -/
def shownContentType (r : Response U) : String :=
  match r.contentType? with
  | some type => s!"Some({Text.quoted type})"
  | none => "None"

/-- The body as text. -/
def text [ToString U] (r : Response U) : Except FetchError String :=
  match Text.Utf8.decode? r.body with
  | some s => .ok s
  | none => .error (.encoding (toString r.url))

/-- The body as text, with replacement characters where it is none. -/
def textLossy (r : Response U) : String := Text.Utf8.lossy r.body

end Response

end FlatSheet
