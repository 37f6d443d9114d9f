/-
Names, arguments, and what can be wrong with them.

A name is written with its parameters or arguments in it: `move (speed) steps`.  Its canonical form
has `()` in the place of each, so that a signature and the calls of it have the same name.

A `NameError` knows only the text that was read, not where the text stood.
-/
import BlockText.Number.Reader
import BlockText.Category

namespace BlockText

/-! ## What stands in a name -/

/-- An argument at a call site. -/
inductive Expression
  | number (value : Number)
  /-- A call whose name has one `()` for each argument. -/
  | call (name : Text) (args : List Expression)

/-- A call site: the canonical name and one argument for each `()` in it. -/
structure Call where
  name : Text
  args : List Expression

/-- A typed slot of a signature. -/
structure Parameter where
  name : Text
  type : Text
  deriving DecidableEq

/-- The slot holds steps and not a value. -/
def Parameter.isBlockList (p : Parameter) : Bool := p.type == Category.blockListType

/-- The value that a definition or an escape gives back. -/
structure Returns where
  name : Text
  type : Text
  deriving DecidableEq

/-- The place of a parameter or an argument in a canonical name. -/
def seam : Text := ['(', ')']

/-- The number of groups that may be open at once in a call, and of context calls in a body. -/
def maxNesting : Nat := 128

/-! ## Errors -/

/-- What can be wrong with a name. -/
inductive NameFault
  | openBracket
  | openParenthesis
  | closeParenthesis
  | missingClose
  | secondColon
  | incompleteParameter
  | tooDeep
  | emptyGroup
  | numeric
  | namelessDefinition
  | blankCall
  | emptyName
  | blankName
  | delimiter
  | malformedReturns (block : Text)
  /-- A fault that a caller states in its own words. -/
  | stated (message : Text)
  deriving DecidableEq

def NameFault.message : NameFault → Text
  | openBracket => "illegal open bracket".toList
  | openParenthesis => "illegal open parens".toList
  | closeParenthesis => "illegal close parens".toList
  | missingClose => "missing close parens".toList
  | secondColon => "a parameter takes a single colon".toList
  | incompleteParameter => "a parameter needs both a name and a type".toList
  | tooDeep => "expression nested too deeply".toList
  | emptyGroup => "an expression cannot be empty".toList
  | numeric => "a number cannot be used as a name".toList
  | namelessDefinition => "a definition needs a name".toList
  | blankCall => "a name cannot be empty or only whitespace".toList
  | emptyName => "a name cannot be empty".toList
  | blankName => "a name cannot be only whitespace".toList
  | delimiter => "a name cannot contain square brackets, parentheses, or colons".toList
  | malformedReturns block =>
    "problem parsing returns for block definition \"".toList ++ block ++ ['"']
  | stated message => message

/-- A fault and the character at which it shows. -/
structure NameError where
  fault : NameFault
  /-- The text that was read. -/
  text : Text
  /-- Characters are counted from 0; the index after the last one is the end of the text. -/
  index : Nat
  deriving DecidableEq

/-- A mark under a character of a text that is printed in quotes. -/
def caret (index : Nat) : Text := List.replicate (index + 1) ' ' ++ ['^']

/-- The lines that show a text and mark one character of it. -/
def excerpt (text : Text) (index : Nat) : Text :=
  " at index ".toList ++ Text.decimal index ++ ":\n\"".toList ++ text ++ "\"\n".toList ++
    caret index

def NameError.display (e : NameError) : Text :=
  "name error: ".toList ++ e.fault.message ++ excerpt e.text e.index

end BlockText
