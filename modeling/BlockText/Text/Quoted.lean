/-
Quoted texts, for listings of values.

A quoted text stands between double quotes.  Quotes and backslashes are written behind a backslash,
as are tab, carriage return, line feed and NUL by their letters; a character that would not show by
itself, or that would attach itself to its neighbour, is written by its number.
-/
import BlockText.Text.Extending
import BlockText.Text.Ignorable
import BlockText.Text.Unprintable

namespace BlockText
namespace Text

/-- Whether a character can be told from its neighbours when it is printed. -/
def showsItself (c : Char) : Bool := !(isExtending c || isIgnorable c || isUnprintable c)

/-- One character of a quoted text. -/
def escape (c : Char) : Text :=
  match c with
  | '"' => ['\\', '"']
  | '\\' => ['\\', '\\']
  | '\t' => ['\\', 't']
  | '\r' => ['\\', 'r']
  | '\n' => ['\\', 'n']
  | '\x00' => ['\\', '0']
  | c =>
    if showsItself c then [c]
    else '\\' :: 'u' :: '{' :: hexadecimal c.toNat ++ ['}']

def quoted (t : Text) : Text := '"' :: t.flatMap escape ++ ['"']

end Text
end BlockText
