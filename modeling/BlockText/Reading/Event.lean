/-
What a reading reports on its way.

The events of a reading are told from the states before and after each line: an event for each
construct that opens, one for each escape that closes, and one for the error that ends the reading.
Comments, step calls and content that is not kept make no event.
-/
import BlockText.Reading.Parse
import BlockText.Text.Quoted

namespace BlockText

inductive Event
  | opened (opening : Opening) (line : Nat)
  /-- An escape of so many lines. -/
  | hostedRead (line : Nat) (lines : Nat)
  | failed (error : ParseError)

namespace Event

/-- The two degrees of detail in a report. -/
inductive Level
  | debug
  | trace
  deriving DecidableEq

def level : Event → Level
  | opened .. | failed _ => .debug
  | hostedRead .. => .trace

/-- The event between two states, of which the second follows the first by one line. -/
def between? (before after : State) (line : Line) : Option Event :=
  match before.verbatim, after.verbatim with
  | some (header, .hosted _ code), none => some (hostedRead header.number code.length)
  | _, _ =>
    if before.frames.length < after.frames.length then
      after.frames.head?.map fun f => opened f.opening line.number
    else none

/-- The events of a reading that goes on from a state. -/
def ofRun (strict : Bool) (s : State) : List Line → List Event
  | [] =>
    match s.finish with
    | .ok _ => []
    | .error e => [failed e]
  | line :: rest =>
    match s.step strict line with
    | .ok next => (between? s next line).toList ++ ofRun strict next rest
    | .error e => [failed e]

def ofSource (strict : Bool) (source : Text) : List Event :=
  ofRun strict .start (Line.ofSource source)

/-! ## Wording

An event is worded as a message and named values. -/

/-- An optional value, told apart from any text. -/
def optional (t : Option Text) : Text :=
  match t with
  | none => "None".toList
  | some t => "Some(".toList ++ Text.quoted t ++ [')']

/-- The words for a construct that opens. -/
def announcement? : Opening → Option (Text × List (String × Text))
  | .unit name => some ("parsing unit".toList, [("unit", name)])
  | .library name hue language =>
    some ("parsing library".toList,
      [("library", name), ("hue", Text.signedDecimal hue.toInt), ("language", language)])
  | .sprite name => some ("parsing sprite".toList, [("sprite", name)])
  | .stage name => some ("parsing stage".toList, [("stage", optional name)])
  | .sounds | .costumes => none
  | .blockDefinition s => some ("parsing block definition".toList, [("block", s.name)])
  | .contextDefinition s => some ("parsing context definition".toList, [("context", s.name)])
  | .triggerDefinition s => some ("parsing trigger definition".toList, [("trigger", s.name)])
  | .trigger event => some ("parsing trigger call".toList, [("event", event)])
  | .contextCall call => some ("parsing context call".toList, [("context", call.name)])

/-- A character of a message.  Characters that would steer a terminal are written by number. -/
def shown (c : Char) : Text :=
  match c with
  | '\x07' => "\\x07".toList
  | '\x08' => "\\x08".toList
  | '\x0c' => "\\x0c".toList
  | '\x1b' => "\\x1b".toList
  | '\x7f' => "\\x7f".toList
  | c =>
    if 0x80 ≤ c.toNat && c.toNat ≤ 0x9F then
      '\\' :: 'u' :: '\x7b' :: Text.hexadecimal c.toNat ++ ['\x7d']
    else [c]

/-- The message and the named values of an event; some events have none. -/
def wording? : Event → Option (Text × List (String × Text))
  | opened o line =>
    (announcement? o).map fun (message, fields) =>
      (message, fields ++ [("line", Text.decimal line)])
  | hostedRead line lines =>
    some ("read hosted escape".toList,
      [("line", Text.decimal line), ("lines", Text.decimal lines)])
  | failed e =>
    some ("parse failed: ".toList ++ e.display.flatMap shown,
      [("line", Text.decimal e.lineNumber)])

end Event
end BlockText
