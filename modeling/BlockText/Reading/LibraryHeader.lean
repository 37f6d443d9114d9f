/-
The shape of a library header.

A library header is the word `library`, a name, and two labelled fields in parentheses, with white
space between the parts.  The name may hold anything, even what looks like a field, so
`LibraryHeader.ofText?` takes the shortest name that two fields and the bracket follow.
-/
import BlockText.Category
import BlockText.Number.Reader

namespace BlockText

/-- The parts of a library header as they were written. -/
structure LibraryHeader where
  name : Text
  hue : Text
  language : Text
  deriving DecidableEq

namespace LibraryHeader

/-- A label, white space, and a text in parentheses.  Gives the text and what follows it. -/
def field? (label t : Text) : Option (Text × Text) := do
  match Text.trimStart (← label.isPrefixOf? t) with
  | '(' :: rest =>
    match rest.span (· != ')') with
    | (value, _ :: rest) => some (value, rest)
    | (_, []) => none
  | _ => none

/-- The texts of hue and language, in what follows the name: white space, the fields with white
space around them, and the bracket. -/
def fields? (t : Text) : Option (Text × Text) := do
  if (t.takeWhile Text.isSpace).isEmpty then none
  else
    let (hue, rest) ← field? "hue:".toList (Text.trimStart t)
    let (language, rest) ← field? "language:".toList (Text.trimStart rest)
    if Text.trimStart rest == ['['] then some (hue, language) else none

/-- The header with the shortest name that the fields follow, where the text starts with the name and
that starts with no white space.  The shortest name does not end in white space either, since the
fields would follow it without that as well. -/
def ofNamed? : Text → Option LibraryHeader
  | [] => none
  | c :: rest =>
    match if Text.isSpace c then none else fields? rest with
    | some (hue, language) => some ⟨[c], hue, language⟩
    | none => (ofNamed? rest).map fun h => { h with name := c :: h.name }

/-- The header in what follows the first word.  The name starts behind all the white space if it
can; else it is the last but one of the white space, with some before it and some after it. -/
def ofSpaced? (t : Text) : Option LibraryHeader :=
  let (space, rest) := t.span Text.isSpace
  if space.isEmpty then none
  else match ofNamed? rest, space.reverse with
    | some h, _ => some h
    | none, last :: c :: _ :: _ =>
      (fields? (last :: rest)).map fun (hue, language) => ⟨[c], hue, language⟩
    | none, _ => none

/-- The header in a trimmed line. -/
def ofText? (trimmed : Text) : Option LibraryHeader := do
  ofSpaced? (← Keyword.library.text.isPrefixOf? trimmed)

/-- The hue, a whole number of 64 bits with an optional sign. -/
def hueValue? (h : LibraryHeader) : Option Int64 := do
  let n ← Numeral.integer? h.hue.trim
  if Int64.minValue.toInt ≤ n ∧ n ≤ Int64.maxValue.toInt then some (Int64.ofInt n) else none

end LibraryHeader
end BlockText
