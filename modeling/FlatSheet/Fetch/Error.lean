/-
Why a sheet could not be fetched.
-/
import FlatSheet.FilePath

namespace FlatSheet

/-- Why a request to a server failed, as the library for requests tells it. -/
structure RequestError where
  isTimeout : Bool := false
  isConnect : Bool := false
  isRedirect : Bool := false
  reason : String
  deriving DecidableEq

/-- Why a sheet could not be fetched. -/
inductive FetchError where
  /-- The name of the sheet makes no sense. -/
  | invalidSource (reason : String)
  | requestFailed (reason : String)
  | connectionError (reason : String)
  | timeout
  | tooManyRedirects
  /-- The server refused. -/
  | httpError (status : Nat) (url : String)
  /-- The file cannot be read. -/
  | io (path : FilePath) (reason : String)
  /-- What was read is no text. -/
  | encoding (source : String)
  deriving DecidableEq

namespace FetchError

/-- What a failed request means.  Only the first kind that it is of counts. -/
def ofRequest (e : RequestError) : FetchError :=
  if e.isTimeout then .timeout
  else if e.isConnect then .connectionError e.reason
  else if e.isRedirect then .tooManyRedirects
  else .requestFailed e.reason

/-- The cause in words. -/
def message : FetchError → String
  | invalidSource reason => s!"Invalid source: {reason}"
  | requestFailed reason => s!"Request failed: {reason}"
  | connectionError reason => s!"Connection error: {reason}"
  | timeout => "Timeout"
  | tooManyRedirects => "Too many redirects"
  | httpError status url => s!"HTTP error {status} for {url}"
  | io path reason => s!"Failed to read {path.display}: {reason}"
  | encoding source => s!"Stylesheet {source} is not valid UTF-8"

end FetchError

end FlatSheet
