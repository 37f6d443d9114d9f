/-
Fixtures: sources with what is expected of them.

A fixture starts with a line of three dashes, the front matter, and three dashes at the start of a
line; the rest is the source.  `Fixture.split` cuts there.  `Config.mismatch?` compares an outcome
with what the front matter expects, and says how they differ.
-/
import BlockText.FrontMatter.Config
import BlockText.Reading.Parse
import BlockText.Text.Quoted

namespace BlockText

inductive FixtureError
  | noOpening
  | noClosing
  | badFrontMatter
  deriving DecidableEq

def FixtureError.message : FixtureError → Text
  | noOpening => "missing opening --- front matter delimiter".toList
  | noClosing => "missing closing --- front matter delimiter".toList
  | badFrontMatter => "TOML parse error".toList

structure Fixture where
  config : Config
  source : Text

namespace Fixture

def dashes : Text := ['-', '-', '-']

/-- The text without one line end in front of it. -/
def dropLineEnd : Text → Text
  | '\r' :: '\n' :: rest => rest
  | '\n' :: rest => rest
  | t => t

/-- The front matter, trimmed, and the source.  The line feed that ends the opening dashes may also
start the closing ones, so front matter may be empty. -/
def split (content : Text) : Except FixtureError (Text × Text) :=
  match dashes.isPrefixOf? (content.dropWhile (· == '\uFEFF')) with
  | none => .error .noOpening
  | some body =>
    match Text.indexOf? ('\n' :: dashes) body with
    | none => .error .noClosing
    | some n => .ok (Text.trim (body.take n), dropLineEnd (body.drop (n + 4)))

def read (content : Text) : Except FixtureError Fixture := do
  let (frontMatter, source) ← split content
  match Config.ofText? frontMatter with
  | some config => .ok ⟨config, source⟩
  | none => .error .badFrontMatter

/-- What comes of reading the source as the front matter asks. -/
def outcome (f : Fixture) : Except ParseError Document := Document.parse f.config.strict f.source

end Fixture

/-! ## Expectations -/

/-- A difference between an outcome and what was expected. -/
inductive Mismatch
  | otherError (expected : Text) (error : ParseError)
  | otherLine (expected : Nat) (error : ParseError)
  | unexpectedError (error : ParseError)
  | noError
  | otherUnits (expected actual : List Text)

namespace Mismatch

/-- A list of quoted texts. -/
def quotedList (ts : List Text) : Text :=
  '[' :: ", ".toList.intercalate (ts.map Text.quoted) ++ [']']

def message : Mismatch → Text
  | otherError expected e =>
    "expected error containing \"".toList ++ expected ++ "\", got: ".toList ++ e.display
  | otherLine expected e =>
    "expected error on line ".toList ++ Text.decimal expected ++ ", got line ".toList ++
      Text.decimal e.lineNumber ++ ": ".toList ++ e.display
  | unexpectedError e => "unexpected parse error: ".toList ++ e.display
  | noError => "expected parse error, but parsing succeeded".toList
  | otherUnits expected actual =>
    "unit mismatch\n  expected: ".toList ++ quotedList expected ++
      "\n  actual:   ".toList ++ quotedList actual

end Mismatch

namespace Config

/-- An expected text that the error does not contain. -/
def missingText? (c : Config) (e : ParseError) : Option Mismatch := do
  let expected ← c.expectError
  if Text.hasInfix expected e.display then none else some (.otherError expected e)

/-- An expected line that the error is not found on. -/
def otherLine? (c : Config) (e : ParseError) : Option Mismatch := do
  let expected ← c.expectErrorLine
  if e.lineNumber = expected then none else some (.otherLine expected e)

/-- Expected units that are not the document's. -/
def otherUnits? (c : Config) (d : Document) : Option Mismatch := do
  let expected ← c.expectUnits
  let actual := d.units.map (·.name)
  if actual = expected then none else some (.otherUnits expected actual)

/-- The first difference between an outcome and what is expected. -/
def mismatch? (c : Config) (outcome : Except ParseError Document) : Option Mismatch :=
  match outcome, c.expectsFailure with
  | .error e, true => (c.missingText? e).or (c.otherLine? e)
  | .error e, false => some (.unexpectedError e)
  | .ok _, true => some .noError
  | .ok d, false => c.otherUnits? d

end Config

/-- How the fixture fails, if it does. -/
def Fixture.mismatch? (f : Fixture) : Option Mismatch := f.config.mismatch? f.outcome

end BlockText
