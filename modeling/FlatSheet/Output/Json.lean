/-
JSON, spread over lines.

Every item of an array and every field of an object stands on its own line, set in by two
more blanks than the brackets around it; empty arrays and objects stay on their line.
Strings escape the quote, the backslash and the controls below the space, and nothing
else.
-/
namespace FlatSheet

/-- A JSON value.  The fields of an object keep their order. -/
inductive JsonValue where
  | string (text : String)
  | number (n : Nat)
  | array (items : List JsonValue)
  | object (fields : List (String × JsonValue))

namespace JsonValue

/-- One character of a string. -/
def escapeChar (c : Char) : List Char :=
  match c with
  | '"' => ['\\', '"']
  | '\\' => ['\\', '\\']
  | '\x08' => ['\\', 'b']
  | '\x0c' => ['\\', 'f']
  | '\n' => ['\\', 'n']
  | '\r' => ['\\', 'r']
  | '\t' => ['\\', 't']
  | c =>
    if c.toNat < 0x20 then
      ['\\', 'u', '0', '0', (c.toNat / 16).digitChar, (c.toNat % 16).digitChar]
    else [c]

/-- A string between quotes. -/
def quote (s : String) : String :=
  String.ofList ('"' :: s.toList.flatMap escapeChar ++ ['"'])

/-- The start of a line at some depth. -/
def newline (depth : Nat) : String := String.ofList ('\n' :: List.replicate (2 * depth) ' ')

mutual

/-- A value whose brackets stand at some depth. -/
def pretty (depth : Nat) : JsonValue → String
  | .string text => quote text
  | .number n => n.repr
  | .array [] => "[]"
  | .array (item :: items) =>
    "[" ++ newline (depth + 1) ++ item.pretty (depth + 1) ++ prettyItems (depth + 1) items ++
      newline depth ++ "]"
  | .object [] => "\x7b\x7d"
  | .object ((name, value) :: fields) =>
    "\x7b" ++ newline (depth + 1) ++ quote name ++ ": " ++ value.pretty (depth + 1) ++
      prettyFields (depth + 1) fields ++ newline depth ++ "\x7d"

/-- The items of an array after its first. -/
def prettyItems (depth : Nat) : List JsonValue → String
  | [] => ""
  | item :: items => "," ++ newline depth ++ item.pretty depth ++ prettyItems depth items

/-- The fields of an object after its first. -/
def prettyFields (depth : Nat) : List (String × JsonValue) → String
  | [] => ""
  | (name, value) :: fields =>
    "," ++ newline depth ++ quote name ++ ": " ++ value.pretty depth ++ prettyFields depth fields

end

end JsonValue

end FlatSheet
