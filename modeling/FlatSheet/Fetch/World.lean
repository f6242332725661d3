/-
What is outside of the program.

Sheets come from files and from the web.  Reading either is asking the world, which
answers with bytes or says why it cannot.  The web is asked by a client, and the world also
says whether there is one.
-/
import FlatSheet.Fetch.Error

namespace FlatSheet

/-- How the client asks for sheets on the web. -/
structure ClientConfig where
  /-- How long to wait for an answer, in seconds. -/
  timeoutSecs : Nat := 30
  /-- The name that the client gives itself. -/
  userAgent : String := "Stylenest/0.1.0"
  deriving DecidableEq

instance : Inhabited ClientConfig := ⟨{}⟩

/-- What a server sends. -/
structure Answer (U : Type) where
  /-- The address that answered in the end. -/
  url : U
  status : Nat
  /-- Names with their values, in the order in which they came. -/
  headers : List (String × List UInt8)
  /-- The bytes behind the headers, or the reason why they did not come. -/
  body : Except RequestError (List UInt8)

/-- What reading files and asking servers gives at some moment. -/
structure World (U : Type) where
  /-- The bytes of a file, or the reason why it cannot be read. -/
  read : FilePath → Except String (List UInt8)
  /-- There is a client with some settings, or a reason why not. -/
  client : ClientConfig → Except String Unit
  /-- What a server sends to the client. -/
  send : U → Except RequestError (Answer U)

/-- Why a file cannot be read. -/
inductive ReadError where
  | notFound
  | notADirectory
  | isADirectory
  | nameTooLong
  | nulByte
  deriving DecidableEq

/-- The reason in words. -/
def ReadError.message : ReadError → String
  | notFound => "No such file or directory (os error 2)"
  | notADirectory => "Not a directory (os error 20)"
  | isADirectory => "Is a directory (os error 21)"
  | nameTooLong => "File name too long (os error 36)"
  | nulByte => "file name contained an unexpected NUL byte"

end FlatSheet
