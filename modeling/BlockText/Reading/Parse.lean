/-
Reading a source.

`Document.parse` takes the lines of a source one after another and asks at the end whether anything
is still open.  `State.takeUntil` takes lines only as far as one construct goes, for readers that
stand on its header.
-/
import BlockText.Reading.State

namespace BlockText

namespace State

/-- Takes lines in order. -/
def run (strict : Bool) (s : State) (lines : List Line) : Except ParseError State :=
  lines.foldlM (step strict) s

/-- Takes lines until at most `depth` constructs are open.  Gives the lines from the one that
closed the last of the others on. -/
def takeUntil (strict : Bool) (depth : Nat) (s : State) :
    List Line → Except ParseError (State × List Line)
  | [] => do
    let _ ← s.finish
    return (s, [])
  | line :: rest => do
    let next ← s.step strict line
    if next.depth ≤ depth then return (next, line :: rest) else takeUntil strict depth next rest

end State

namespace Document

/-- Reads lines to the end. -/
def ofLines (strict : Bool) (lines : List Line) : Except ParseError Document := do
  (← State.start.run strict lines).finish

/-- Reads a source.  A strict reader refuses calls that start like headers. -/
def parse (strict : Bool) (source : Text) : Except ParseError Document :=
  ofLines strict (Line.ofSource source)

end Document

namespace Hosted

/-- Reads the escape whose header is `header`, in the definition named `block`, from a cursor on the
header.  The cursor stays where it is if the header is at fault, and else goes to the line that
closes the escape, or past the end. -/
def read (block : Text) (header : Line) (cursor : Cursor) : Except ParseError Step × Cursor :=
  match hostedReturns block header with
  | .error e => (.error e, cursor)
  | .ok returns =>
    let s : State := { State.start with verbatim := some (header, .hosted returns []) }
    match s.takeUntil false 0 cursor.ahead.tail with
    | .error e => (.error e, ⟨[]⟩)
    | .ok (s, rest) =>
      match s.top.steps.head? with
      | some step => (.ok step, ⟨rest⟩)
      | none => (.error (.line (.unterminated .hosted) header), ⟨rest⟩)

end Hosted
end BlockText
