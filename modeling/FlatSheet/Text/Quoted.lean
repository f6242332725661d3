/-
Quoted texts, as log messages show them.

A text stands between double quotes.  A quote and a backslash inside it are written
after a backslash, and so are the usual short names of tab, line feed, carriage return
and NUL.  Any other character without a printed form is written as its number in
hexadecimal, between braces.
-/
import FlatSheet.Text.Unprintable

namespace FlatSheet.Text

/-- How one character is written inside quotes. -/
def quotedChar (c : Char) : List Char :=
  match c with
  | '\x00' => ['\\', '0']
  | '\t' => ['\\', 't']
  | '\n' => ['\\', 'n']
  | '\r' => ['\\', 'r']
  | '"' => ['\\', '"']
  | '\\' => ['\\', '\\']
  | c =>
    if isUnprintable c then ['\\', 'u', '{'] ++ Nat.toDigits 16 c.toNat ++ ['}']
    else [c]

/-- A text between quotes. -/
def quoted (s : String) : String :=
  String.ofList ('"' :: s.toList.flatMap quotedChar ++ ['"'])

end FlatSheet.Text
