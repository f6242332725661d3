/-
Where flat sheets are collected.

A sink is a set of named buffers.  A buffer comes into being when something is written
to it, even if that is the empty text, and it only ever grows until it is cleared.
-/
import Std.Data.HashMap
import FlatSheet.Flatten

namespace FlatSheet

/-- Named buffers of flat sheets. -/
structure Sink where
  buffers : Std.HashMap String String

namespace Sink

/-- The name of the buffer that is written to when none is named. -/
def defaultKey : String := "ui-styles"

/-- The sheet that takes the body's own margin and padding away. -/
def baseReset : String := "body \x7b margin: 0; padding: 0; \x7d"

/-- The name under which a sink writes to the log. -/
def logTarget : String := "stylenest_css::sink"

/-- A sink without buffers. -/
def empty : Sink := ⟨∅⟩

instance : Inhabited Sink := ⟨empty⟩

/-- What a buffer holds, if it is there. -/
def get? (s : Sink) (key : String) : Option String := s.buffers[key]?

/-- What the default buffer holds. -/
def text (s : Sink) : String := (s.get? defaultKey).getD ""

/-- A buffer is there. -/
def contains (s : Sink) (key : String) : Bool := s.buffers.contains key

/-- The number of buffers. -/
def size (s : Sink) : Nat := s.buffers.size

/-- There are no buffers. -/
def isEmpty (s : Sink) : Bool := s.buffers.isEmpty

/-- Writes at the end of a buffer. -/
def append (s : Sink) (key css : String) : Sink :=
  ⟨s.buffers.insert key ((s.get? key).getD "" ++ css)⟩

/-- Flattens a nested sheet and writes it at the end of a buffer. -/
def injectInto (s : Sink) (key source : String) : Logged Sink := do
  let css ← processLogged source
  Logged.say .debug logTarget s!"Injecting {css.utf8ByteSize} bytes of CSS into '{key}'"
  return s.append key css

/-- Flattens a nested sheet and writes it at the end of the default buffer. -/
def inject (s : Sink) (source : String) : Logged Sink := s.injectInto defaultKey source

/-- Writes the base reset, if that is wanted. -/
def configure (s : Sink) (enable : Bool) : Logged Sink :=
  if enable then s.inject baseReset else pure s

/-- Removes a buffer.  Answers whether it was there. -/
def clear (s : Sink) (key : String) : Bool × Sink := (s.contains key, ⟨s.buffers.erase key⟩)

/-- Removes all buffers. -/
def clearAll (_ : Sink) : Sink := empty

/-! ### What an operation does to the buffers -/

@[simp] theorem get?_empty (key : String) : empty.get? key = none := by
  simp [get?, empty]

@[simp] theorem get?_append_self (s : Sink) (key css : String) :
    (s.append key css).get? key = some ((s.get? key).getD "" ++ css) := by
  simp [get?, append]

theorem get?_append_of_ne {key other : String} (h : key ≠ other) (s : Sink) (css : String) :
    (s.append key css).get? other = s.get? other := by
  simp [get?, append, Std.HashMap.getElem?_insert, h]

@[simp] theorem get?_clear_self (s : Sink) (key : String) : (s.clear key).2.get? key = none := by
  simp [get?, clear]

theorem get?_clear_of_ne {key other : String} (h : key ≠ other) (s : Sink) :
    (s.clear key).2.get? other = s.get? other := by
  simp [get?, clear, Std.HashMap.getElem?_erase, h]

theorem contains_eq_isSome_get? (s : Sink) (key : String) :
    s.contains key = (s.get? key).isSome := by
  simp [get?, contains]

end Sink

end FlatSheet
