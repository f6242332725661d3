/-
Addresses.

How an address is read and written is left to a library.  Said here is what the program
asks of it, and what it relies on.  So nothing that is said about sources depends on which
addresses there are: a library may know more kinds of hosts than another one.

The library that the program runs with is an instance.
-/
import FlatSheet.FilePath

namespace FlatSheet

/-- A library that reads and writes addresses. -/
class Addressing (U : Type) extends ToString U, BEq U where
  /-- Reads an address that stands alone, or tells why the text is none. -/
  parse : String → Except String U
  /-- Reads a reference from the place of an address. -/
  join : U → String → Except String U
  /-- The scheme, in lower case. -/
  scheme : U → String
  /-- The path of the local file that an address stands for. -/
  filePath? : U → Option FilePath

namespace Addressing

variable {U : Type} [Addressing U]

/-- The addresses that are read from texts, and from references at such addresses. -/
inductive Obtained : U → Prop where
  | parse {text : String} {u : U} (h : parse text = .ok u) : Obtained u
  | join {base u : U} {reference : String} (hbase : Obtained base)
      (h : join base reference = .ok u) : Obtained u

/-- The address is on the web. -/
def IsWeb (u : U) : Prop := scheme u = "http" ∨ scheme u = "https"

instance (u : U) : Decidable (IsWeb u) := inferInstanceAs (Decidable (_ ∨ _))

end Addressing

open Addressing in
/-- What such a library says about itself. -/
class LawfulAddressing (U : Type) [Addressing U] : Prop where
  /-- Addresses are equal when they are written alike. -/
  beq_iff : ∀ u v : U, (u == v) = true ↔ toString u = toString v
  /-- An address on the web begins with its scheme, a colon and two slashes. -/
  web_prefix : ∀ u : U, Obtained u → IsWeb u → (scheme u ++ "://").toList <+: (toString u).toList
  /-- The path of a local file begins at the root. -/
  isAbsolute_filePath : ∀ (u : U) (p : FilePath), filePath? u = some p → p.isAbsolute = true

end FlatSheet
