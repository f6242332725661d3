/-
Log records.

Every part of the library that has something to tell returns its records beside its
result, oldest first.  Which of them are shown is decided at the very end, by a filter.
-/
namespace FlatSheet

namespace Log

/-- How much a record matters.  Lower levels are for fewer eyes. -/
inductive Level where
  | error
  | warn
  | info
  | debug
  | trace
  deriving DecidableEq

namespace Level

/-- Levels by falling weight: a filter at some rank lets through all records up to that rank. -/
def rank : Level → Nat
  | error => 1
  | warn => 2
  | info => 3
  | debug => 4
  | trace => 5

/-- The name of a level. -/
def name : Level → String
  | error => "ERROR"
  | warn => "WARN"
  | info => "INFO"
  | debug => "DEBUG"
  | trace => "TRACE"

end Level

/-- One record: its weight, the part of the program that speaks, and what it says. -/
structure Record where
  level : Level
  target : String
  message : String
  deriving DecidableEq

/-- A message with its second and further lines set in. -/
def indented (message : String) : String :=
  String.ofList (message.toList.flatMap fun c =>
    if c = '\n' then ['\n', ' ', ' ', ' ', ' '] else [c])

/-- A record as it is written.  The level is filled up to five characters. -/
def Record.line (r : Record) : String :=
  let level := r.level.name
  let gap := String.ofList (List.replicate (5 - level.length) ' ')
  s!"[{level}{gap} {r.target}] {indented r.message}"

end Log

/-- A result together with the records made on the way to it. -/
structure Logged (α : Type) where
  value : α
  records : Array Log.Record

namespace Logged

/-- A result that was reached in silence. -/
def silent {α : Type} (a : α) : Logged α := ⟨a, #[]⟩

/-- Says something and has no other result. -/
def say (level : Log.Level) (target message : String) : Logged Unit :=
  ⟨(), #[⟨level, target, message⟩]⟩

/-- Goes on from a result, and keeps what was said before it. -/
def andThen {α β : Type} (x : Logged α) (f : α → Logged β) : Logged β :=
  let y := f x.value
  ⟨y.value, x.records ++ y.records⟩

instance : Monad Logged where
  pure := silent
  bind := andThen

@[simp] theorem value_pure {α : Type} (a : α) : (pure a : Logged α).value = a := rfl

@[simp] theorem value_bind {α β : Type} (x : Logged α) (f : α → Logged β) :
    (x >>= f).value = (f x.value).value := rfl

@[simp] theorem value_silent {α : Type} (a : α) : (silent a).value = a := rfl

end Logged

end FlatSheet
