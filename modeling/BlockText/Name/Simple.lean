/-
Names without parameters, and returns clauses, which hold two of them.

`SimpleName.read` accepts a text that is not blank, is no number, and holds no delimiter.
`Returns.read` accepts the word `returns`, white space, and two simple names with a colon between
them.  A clause that is no returns clause has one fault whatever is wrong with it, since the reader
of a definition is to learn which definition it belongs to.
-/
import BlockText.Name.Basic

namespace BlockText

namespace SimpleName

/-- The name, trimmed. -/
def read (text : Text) : Except NameError Text :=
  if text.isEmpty then .error ⟨.emptyName, text, 0⟩
  else if text.isBlank then .error ⟨.blankName, text, 0⟩
  else if Number.isNumeral text then .error ⟨.numeric, text, 0⟩
  else match text.findIdx? Category.isDelimiter with
    | some index => .error ⟨.delimiter, text, index⟩
    | none => .ok text.trim

end SimpleName

namespace Returns

/-- The text after the word `returns` and the white space behind it, of which there must be some. -/
def body? (clause : Text) : Option Text :=
  match "returns".toList.isPrefixOf? clause with
  | some (c :: rest) => if Text.isSpace c then some (Text.trimStart rest) else none
  | _ => none

/-- One part of a clause, which lies on one line. -/
def part? (t : Text) : Option Text :=
  if t.contains '\n' then none else (SimpleName.read t).toOption

/-- The two parts of a clause, at the first colon.  A second colon would stand in the type, which
is then no simple name. -/
def ofText? (text : Text) : Option Returns := do
  let body ← body? text.trim
  match body.span (· != ':') with
  | (name, _ :: type) => return ⟨← part? name, ← part? type⟩
  | (_, []) => none

/-- Reads the clause of the definition named `block`. -/
def read (text block : Text) : Except NameError Returns :=
  match ofText? text with
  | some returns => .ok returns
  | none => .error ⟨.malformedReturns block, text, 0⟩

end Returns
end BlockText
