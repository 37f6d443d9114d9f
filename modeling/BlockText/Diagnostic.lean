/-
Errors shown in their source.

A diagnostic is a title and a marked range of one line.  `Diagnostic.render` shows the line under
the place where it stands, with a mark under each column of the range.  Marks follow the columns of
a terminal: a tab reaches to the next multiple of four, wide characters take two columns, and
characters that take none are not marked.  A range without characters is marked by one column,
which may lie behind the end of the line.
-/
import BlockText.Error
import BlockText.Text.Width

namespace BlockText

structure Diagnostic where
  title : Text
  line : Line
  span : Span
  /-- What stands behind the marks. -/
  note : Text

def ParseError.diagnostic (e : ParseError) : Diagnostic where
  title := e.title
  line := e.place
  span := e.span
  note := match e.index? with
    | none => []
    | some index => "index ".toList ++ Text.decimal index

namespace Diagnostic

/-! ## Columns -/

/-- A character on a line, with the bytes it has in the line and its columns. -/
structure Cell where
  char : Char
  start : Nat
  width : Nat

def Cell.stop (c : Cell) : Nat := c.start + c.char.utf8Size

def tabWidth : Nat := 4

/-- The cells of a line, of which the first has this offset and column. -/
def cells (offset column : Nat) : Text → List Cell
  | [] => []
  | c :: rest =>
    let width := if c == '\t' then tabWidth - column % tabWidth else Text.columns c
    ⟨c, offset, width⟩ :: cells (offset + c.utf8Size) (column + width) rest

/-- The line as it is shown, without what may end it. -/
def shown (d : Diagnostic) : Text :=
  (d.line.text.reverse.dropWhile fun c => c == '\n' || c == '\r' || c == '\x00').reverse

def sourceLine (d : Diagnostic) : Text :=
  (cells 0 0 d.shown).flatMap fun c =>
    if c.char == '\t' then List.replicate c.width ' ' else [c.char]

/-- The marks, with blanks in front of them. -/
def marks (d : Diagnostic) : Text :=
  let start := d.span.start - d.line.start
  let stop := max (d.span.stop - d.line.start) (start + 1)
  let last : Cell := ⟨'\x00', Text.byteLength d.shown, 1⟩
  (cells 0 0 d.shown ++ [last]).flatMap fun c =>
    if max start c.start < min stop c.stop then List.replicate c.width '^'
    else if c.start < stop then List.replicate c.width ' '
    else []

/-- The number of characters of the line in front of the offset. -/
def charsBefore (offset : Nat) (t : Text) : Nat :=
  (cells 0 0 t).countP fun c => c.start < offset

/-- The column of the first character of the range, counted in characters from 1. -/
def column (d : Diagnostic) : Nat := charsBefore (d.span.start - d.line.start) d.line.text + 1

/-! ## The whole text -/

def render (d : Diagnostic) (file : Text) : Text :=
  let number := Text.decimal d.line.number
  let gutter : Text := List.replicate number.length ' '
  let note := if d.note.isEmpty then [] else ' ' :: d.note
  "error: ".toList ++ d.title ++ ['\n'] ++
    gutter ++ " ┌─ ".toList ++ file ++ ':' :: number ++ ':' :: Text.decimal d.column ++ ['\n'] ++
    gutter ++ " │\n".toList ++
    number ++ " │ ".toList ++ d.sourceLine ++ ['\n'] ++
    gutter ++ " │ ".toList ++ d.marks ++ note ++ "\n\n".toList

end Diagnostic
end BlockText
