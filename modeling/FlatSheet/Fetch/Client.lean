/-
Asking servers for sheets.

A client introduces itself with every request, so the name that it gives itself has to be
one that a header can hold.  Of the headers that come back those count whose values are
ASCII texts.
-/
import FlatSheet.Fetch.Response
import FlatSheet.Fetch.World
import FlatSheet.Log

namespace FlatSheet

namespace ClientConfig

/-- A byte that may stand in a header: a tab, or anything but a control. -/
def isHeaderByte (b : UInt8) : Bool := b = 0x09 || (0x20 ≤ b && b ≠ 0x7F)

/-- The settings, if the client's name can stand in a header. -/
def validate (c : ClientConfig) : Except FetchError ClientConfig :=
  if (Text.Utf8.encode c.userAgent).all isHeaderByte then .ok c
  else .error (.requestFailed "failed to parse header value")

end ClientConfig

namespace Client

variable {U : Type}

/-- The name under which a client writes to the log. -/
def logTarget : String := "stylenest_net::client"

/-- A client can be made with some settings. -/
def make (w : World U) (c : ClientConfig) : Except FetchError Unit := do
  let c ← c.validate
  (w.client c).mapError .requestFailed

/-- A byte of a header that is ASCII text: a tab, or a character that is no control. -/
def isTextByte (b : UInt8) : Bool := b = 0x09 || (0x20 ≤ b && b < 0x7F)

/-- The headers whose values are ASCII texts.  Of several with one name the last one counts. -/
def textHeaders (headers : List (String × List UInt8)) : List (String × String) :=
  (headers.filterMap fun (name, value) =>
    if value.all isTextByte then
      some (String.ofList (name.toList.map Char.toLower), String.ofList (value.map Char.ofUInt8))
    else none).reverse

/-- Asks the server at an address. -/
def get [ToString U] (w : World U) (u : U) : Logged (Except FetchError (Response U)) := do
  Logged.say .info logTarget s!"Fetching: {u}"
  match w.send u with
  | .error e => return .error (.ofRequest e)
  | .ok answer => do
    Logged.say .debug logTarget s!"Response status: {answer.status}"
    match answer.body with
    | .error e => return .error (.ofRequest e)
    | .ok body => do
      Logged.say .debug logTarget s!"Received {body.length} bytes"
      return .ok ⟨answer.url, answer.status, textHeaders answer.headers, body⟩

end Client

end FlatSheet
