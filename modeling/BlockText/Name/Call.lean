/-
Call sites.

`Call.read` reads a name with groups in parentheses in it, each of which is an expression: a number,
or a call whose groups are expressions again.  The reader goes through the text once.  Its state is
the group being read and the groups around it, so what it accepts and where it stops depend on the
characters so far and on nothing after them.
-/
import BlockText.Name.Basic

namespace BlockText
namespace Call

/-- A call being read, whose groups so far are finished. -/
structure Draft where
  /-- The characters read, the last one first, with a seam for each group. -/
  literal : Text
  /-- The arguments read, the last one first. -/
  args : List Expression

namespace Draft

def start : Draft := ⟨[], []⟩

/-- The characters read, with a seam for each group. -/
def text (p : Draft) : Text := p.literal.reverse

def push (p : Draft) (c : Char) : Draft := { p with literal := c :: p.literal }

def addArg (p : Draft) (e : Expression) : Draft :=
  ⟨seam.reverse ++ p.literal, e :: p.args⟩

/-- The call that has been read. -/
def finish (p : Draft) : Call := ⟨p.text.collapse, p.args.reverse⟩

/-- The expression that has been read between two parentheses.  Only a group without groups in it
can be a number or empty. -/
def expression? (p : Draft) : Except NameFault Expression :=
  if p.args.isEmpty then
    match Number.ofText? p.text with
    | some value => .ok (.number value)
    | none =>
      if p.text.isBlank then .error .emptyGroup else .ok (.call p.text.collapse [])
  else .ok (.call p.finish.name p.finish.args)

end Draft

/-- The group being read and the groups around it, each with the index of the parenthesis that
opened the group inside it. -/
structure State where
  current : Draft
  around : List (Draft × Nat)

namespace State

def start : State := ⟨.start, []⟩

/-- Takes the character at `index`.  An error is a fault and the character that it shows at. -/
def step (s : State) (index : Nat) (c : Char) : Except (NameFault × Nat) State :=
  match c with
  | '(' =>
    if maxNesting ≤ s.around.length then .error (.tooDeep, index)
    else .ok ⟨.start, (s.current, index) :: s.around⟩
  | ')' =>
    match s.around with
    | [] => .error (.closeParenthesis, index)
    | (parent, opened) :: around =>
      match s.current.expression? with
      | .ok e => .ok ⟨parent.addArg e, around⟩
      | .error fault => .error (fault, opened)
  | '[' => .error (.openBracket, index)
  | c => .ok { s with current := s.current.push c }

/-- Takes all characters, of which the first has this index. -/
def run (s : State) (index : Nat) : Text → Except (NameFault × Nat) State
  | [] => .ok s
  | c :: rest => do run (← s.step index c) (index + 1) rest

/-- The call, where no group is open. -/
def finish (s : State) (index : Nat) : Except (NameFault × Nat) Call :=
  if s.around.isEmpty then .ok s.current.finish else .error (.missingClose, index)

end State

/-- Reads all of the text as one call. -/
def scan (text : Text) : Except (NameFault × Nat) Call := do
  (← State.start.run 0 text).finish text.length

/-- Reads a call site.  A text that is blank or a number as a whole is no name. -/
def read (text : Text) : Except NameError Call :=
  if text.isBlank then .error ⟨.blankCall, text, 0⟩
  else if Number.isNumeral text then .error ⟨.numeric, text, 0⟩
  else (scan text).mapError fun (fault, index) => ⟨fault, text, index⟩

end Call
end BlockText
