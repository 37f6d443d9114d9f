/-
Errors of a source.

An error is a fault and the line that it is found on: a fault of the line as a whole, or a fault in
a name at one character of it.  What an error says is computed from these, so that an error never
disagrees with its line.

`ParseError.span` is the place to point at.  For a fault in a name it is the character itself, found
by looking for the text that was read in the line; a text that cannot be found, or is empty, leaves
the whole line.
-/
import BlockText.Line
import BlockText.Name.Basic

namespace BlockText

/-- The part of the grammar that an error comes from. -/
inductive ErrorKind
  | structural
  | nameSyntax
  | metadata
  deriving DecidableEq, Repr

def ErrorKind.describe : ErrorKind → Text
  | structural => "structural error".toList
  | nameSyntax => "name error".toList
  | metadata => "metadata error".toList

/-- What can be wrong with a line as a whole. -/
inductive LineFault
  /-- A line that starts like a header and is none. -/
  | malformedHeader (keyword : Keyword)
  /-- A line in a place that does not permit it; no parent is the file. -/
  | misplaced (child : Category) (parent : Option Category)
  /-- A header whose construct does not close. -/
  | unterminated (category : Category)
  | blockListInBlock
  | contextTooDeep
  | triggerReturns
  | namelessEvent
  | libraryShape
  | libraryHue
  | libraryLanguage
  deriving DecidableEq

namespace LineFault

def kind : LineFault → ErrorKind
  | malformedHeader _ | misplaced .. | unterminated _ | blockListInBlock | contextTooDeep
  | triggerReturns => .structural
  | namelessEvent => .nameSyntax
  | libraryShape | libraryHue | libraryLanguage => .metadata

/-- The place of a misplaced line in words. -/
def place (parent : Option Category) : String := (parent.map Category.describe).getD "file"

/-- What is said of a misplaced line.  Calls may be any text, so they are not named. -/
def misplacement (child : Category) (parent : Option Category) : String :=
  match parent, child with
  | some .sounds, _ | some .costumes, _ => "unrecognized " ++ place parent ++ " child type"
  | _, .stepCall | _, .contextCall => "unrecognized line inside " ++ place parent
  | _, _ => child.describe ++ " not permitted inside " ++ place parent

def message : LineFault → Text
  | malformedHeader keyword => "malformed ".toList ++ keyword.text ++ " header".toList
  | misplaced child parent => (misplacement child parent).toList
  | unterminated category =>
    ("unterminated " ++ category.describe ++ ", no closing \"" ++ category.closing ++
      "\" found").toList
  | blockListInBlock =>
    "only context and trigger definitions may take BlockList parameters".toList
  | contextTooDeep => "context calls nested too deeply".toList
  | triggerReturns => "trigger definitions cannot declare returns".toList
  | namelessEvent => "a trigger needs an event name".toList
  | libraryShape =>
    "library header must have the shape \"library NAME hue: (N) language: (TEXT) [\"".toList
  | libraryHue => "library hue must be an integer".toList
  | libraryLanguage => "library language cannot be empty".toList

end LineFault

/-- The error that ends a reading. -/
inductive ParseError
  | line (fault : LineFault) (line : Line)
  | name (error : NameError) (line : Line)
  deriving DecidableEq

/-- The range of the character at `index`, from the start of the text; empty past the end. -/
def Text.charSpan (t : Text) (index : Nat) : Span :=
  let start := Text.byteLength (t.take index)
  ⟨start, start + Text.byteLength ((t.drop index).take 1)⟩

namespace ParseError

/-- The line that the error is found on. -/
def place : ParseError → Line
  | line _ l | name _ l => l

def lineNumber (e : ParseError) : Nat := e.place.number

def kind : ParseError → ErrorKind
  | line fault _ => fault.kind
  | name .. => .nameSyntax

def message : ParseError → Text
  | line fault _ => fault.message
  | name e _ => e.fault.message

/-- The text that the error speaks of: the line, or what was read as a name. -/
def text : ParseError → Text
  | line _ l => l.text
  | name e _ => e.text

def index? : ParseError → Option Nat
  | line .. => none
  | name e _ => some e.index

def span : ParseError → Span
  | line _ l => l.span
  | name e l =>
    match Text.indexOf? e.text l.text with
    | none => l.span
    | some before =>
      if e.text.isEmpty then l.span
      else
        let offset := l.start + Text.byteLength (l.text.take before)
        let c := Text.charSpan e.text e.index
        ⟨offset + c.start, offset + c.stop⟩

/-- The kind and the message. -/
def title (e : ParseError) : Text := e.kind.describe ++ ": ".toList ++ e.message

def display (e : ParseError) : Text :=
  e.title ++ " on line ".toList ++ Text.decimal e.lineNumber ++
    match e with
    | line _ l => ": \"".toList ++ l.text ++ ['"']
    | name n _ => excerpt n.text n.index

end ParseError
end BlockText
