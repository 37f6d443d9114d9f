/-
Lines of a source and the place of a reader among them.

`Line.ofSource` cuts a source at its line feeds.  A carriage return at the end of a line belongs to
the line's ending, not to its text, and a line keeps the byte offset at which it starts, so that
`Line.span` slices the source to exactly the line's text.
-/
import BlockText.Text.Basic

namespace BlockText

/-- A range of bytes in a source, `stop` excluded. -/
structure Span where
  start : Nat
  stop : Nat
  deriving DecidableEq, Repr

/-- One line, without its ending. -/
structure Line where
  /-- Lines are numbered from 1. -/
  number : Nat
  /-- The byte offset of the first character. -/
  start : Nat
  text : Text
  deriving DecidableEq, Repr

namespace Line

def trimmed (line : Line) : Text := line.text.trim

def span (line : Line) : Span := ⟨line.start, line.start + line.text.byteLength⟩

/-- Lines for consecutive raw pieces, of which the first has this number and offset.  The offset
grows by the raw piece and its line feed, so a dropped carriage return is counted. -/
def numbered (number start : Nat) : List Text → List Line
  | [] => []
  | raw :: rest =>
    ⟨number, start, Text.dropSuffix ['\r'] raw⟩ ::
      numbered (number + 1) (start + raw.byteLength + 1) rest

/-- The lines of a source.  There is always at least one. -/
def ofSource (source : Text) : List Line := numbered 1 0 source.pieces

end Line

/-- The place of a reader among the lines: the line that it is on and all lines after it. -/
structure Cursor where
  ahead : List Line

namespace Cursor

def ofSource (source : Text) : Cursor := ⟨Line.ofSource source⟩

/-- The line that the reader is on, unless it is past the last one. -/
def current? (cursor : Cursor) : Option Line := cursor.ahead.head?

/-- Past the last line the cursor stays where it is. -/
def advance (cursor : Cursor) : Cursor := ⟨cursor.ahead.tail⟩

end Cursor
end BlockText
