/-
What the program shows.

A run shows text on two channels, changes files, and ends with a status; `Outcome` is all of it.
Reading a document shows the events of the reading, as far as they were asked for, and where it
fails the diagnostic.
-/
import BlockText.CommandLine.Arguments
import BlockText.Diagnostic
import BlockText.FileTree
import BlockText.Reading.Event

namespace BlockText
namespace CommandLine

structure Outcome where
  /-- What is shown as the result. -/
  out : Text
  /-- What is shown about the run. -/
  err : Text
  /-- The files afterwards. -/
  tree : FileTree
  exit : Nat

namespace Outcome

/-- The outcome with more shown in front of it. -/
def after (o : Outcome) (out err : Text) : Outcome :=
  { o with out := out ++ o.out, err := err ++ o.err }

end Outcome

def line (t : Text) : Text := t ++ ['\n']

/-! ## Color -/

def escapeCode (code : String) : Text := '\x1b' :: '[' :: code.toList ++ ['m']

/-- A text in a style of the terminal. -/
def paint (settings : Settings) (code : String) (t : Text) : Text :=
  if settings.color then escapeCode code ++ t ++ escapeCode "0" else t

/-! ## Events -/

/-- How much has to be asked for before events of a level are shown. -/
def threshold : Event.Level → Nat
  | .debug => 1
  | .trace => 2

def levelName (settings : Settings) : Event.Level → Text
  | .debug => paint settings "34" "DEBUG".toList
  | .trace => paint settings "35" "TRACE".toList

/-- A named value behind a message. -/
def field (settings : Settings) (f : String × Text) : Text :=
  ' ' :: paint settings "3" f.1.toList ++ paint settings "2" ['='] ++ f.2

/-- A line of a log. -/
def logLine (settings : Settings) (level : Event.Level) (message : Text)
    (fields : List (String × Text)) : Text :=
  if threshold level ≤ settings.verbosity then
    line (levelName settings level ++ ' ' :: message ++ fields.flatMap (field settings))
  else []

/-- The line of an event. -/
def eventLine (settings : Settings) (e : Event) : Text :=
  match e.wording? with
  | none => []
  | some (message, fields) => logLine settings e.level message fields

/-- The lines of a reading. -/
def readingLog (settings : Settings) (strict : Bool) (source : Text) : Text :=
  (Event.ofSource strict source).flatMap (eventLine settings)

/-! ## Reading a document -/

/-- Reads a document from a file.  Gives what is shown about it, and the document unless it
failed. -/
def readDocument (settings : Settings) (strict : Bool) (tree : FileTree) (path : Text) :
    Text × Option Document :=
  match tree.read path with
  | .error e =>
    (line ("error: cannot read '".toList ++ path ++ "': ".toList ++ e.message), none)
  | .ok source =>
    let opening := logLine settings .debug "parsing".toList
      [("file", path), ("bytes", Text.decimal (Text.byteLength source))]
    let log := opening ++ readingLog settings strict source
    match Document.parse strict source with
    | .ok d => (log, some d)
    | .error e => (log ++ e.diagnostic.render path, none)

end CommandLine
end BlockText
