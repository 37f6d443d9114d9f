/-
Reading line by line.

The reader keeps what is open and takes one line at a time: `State.step` says what a line does.
Nothing is looked up ahead or behind, so the outcome after some lines depends on these lines alone,
and an error is raised by the first line at which the source cannot be continued.

Two constructs take lines as they are: hosted escapes, up to their closing mark, and comments that
span lines.  Every other line is put into its category first, and then either closes the innermost
construct, or adds to it, or opens one inside it.
-/
import BlockText.Reading.Opening

namespace BlockText

/-! ## Lines that are not categorised -/

/-- An open construct that takes lines as they are. -/
inductive Verbatim
  /-- The code lines so far. -/
  | hosted (returns : Option Returns) (code : List Text)
  /-- The pieces so far. -/
  | comment (pieces : List Text)

namespace Verbatim

def category : Verbatim → Category
  | hosted .. => .hosted
  | comment _ => .comment

/-- Takes the next piece of a comment.  Empty pieces in front are dropped, as is an empty piece
before the closing mark unless nothing else remains. -/
def takePiece (pieces : List Text) (piece : Text) : Verbatim ⊕ Comment :=
  match ['*', '/'].isSuffixOf? piece with
  | some last =>
    let last := Text.trim last
    let pieces := if last.isEmpty && !pieces.isEmpty then pieces else pieces ++ [last]
    .inr ⟨Text.joinLines pieces⟩
  | none =>
    .inl (comment (if piece.isEmpty && pieces.isEmpty then pieces else pieces ++ [piece]))

/-- Takes a line: the construct goes on, or is finished. -/
def take (v : Verbatim) (line : Line) : Verbatim ⊕ Node :=
  match v with
  | hosted returns code =>
    if line.trimmed == ['@', ']'] then .inr (.step (.hosted returns (Text.joinLines code)))
    else .inl (hosted returns (code ++ [line.text]))
  | comment pieces => (takePiece pieces line.trimmed).map id .comment

end Verbatim

namespace Comment

/-- The comment that a trimmed line starts. -/
def start (trimmed : Text) : Verbatim ⊕ Comment :=
  match ['/', '/'].isPrefixOf? trimmed with
  | some text => .inr ⟨Text.trim text⟩
  | none => Verbatim.takePiece [] (Text.trim (Text.dropPrefix ['/', '*'] trimmed))

end Comment

/-- The clause of a hosted header, between its word and its opening mark. -/
def hostedClause (trimmed : Text) : Text :=
  match Keyword.hosted.text.isPrefixOf? trimmed with
  | none => []
  | some rest => Text.trim ((['[', '@'].isSuffixOf? rest).getD [])

/-- Reads a hosted header in the definition named `block`. -/
def hostedReturns (block : Text) (line : Line) : Except ParseError (Option Returns) :=
  let clause := hostedClause line.trimmed
  if clause.isEmpty then .ok none else some <$> Opening.atLine line (Returns.read clause block)

/-! ## The state -/

/-- An open construct and what it holds so far. -/
structure Frame where
  header : Line
  opening : Opening
  contents : Contents

/-- What has been read. -/
structure State where
  /-- The finished constructs outside all others. -/
  top : Contents
  /-- The open constructs, the innermost one first. -/
  frames : List Frame
  /-- The construct inside these that takes lines as they are, and its first line. -/
  verbatim : Option (Line × Verbatim)

namespace State

def start : State := ⟨.empty, [], none⟩

/-- The number of open constructs. -/
def depth (s : State) : Nat := s.frames.length + (if s.verbatim.isSome then 1 else 0)

/-- The category of the innermost open construct; none is the file. -/
def parent (s : State) : Option Category := s.frames.head?.map (·.opening.category)

/-- The number of open context calls. -/
def contextDepth (s : State) : Nat := s.frames.countP (·.opening.category == .contextCall)

/-- Puts a finished construct into the innermost open one. -/
def add (s : State) (node : Node) : State :=
  match s.frames with
  | [] => { s with top := s.top.add node }
  | f :: rest => { s with frames := { f with contents := f.contents.add node } :: rest }

/-- Opens a construct. -/
def push (s : State) (header : Line) (opening : Opening) : State :=
  { s with frames := ⟨header, opening, .empty⟩ :: s.frames }

/-- Goes on with a construct that takes lines as they are, or puts it in its place. -/
def resume (s : State) (header : Line) : Verbatim ⊕ Node → State
  | .inl v => { s with verbatim := some (header, v) }
  | .inr node => { s with verbatim := none }.add node

/-! ## One line -/

/-- The category of a line.  A strict reader refuses calls that start like headers. -/
def categorize (strict : Bool) (line : Line) : Except ParseError Category :=
  let category := Category.ofLine line.text
  if strict && (category == .contextCall || category == .stepCall) then
    match Keyword.heading? line.trimmed with
    | some keyword => .error (.line (.malformedHeader keyword) line)
    | none => .ok category
  else .ok category

/-- Reads a hosted header. -/
def enterHosted (s : State) (line : Line) : Except ParseError State := do
  let block := (s.frames.head?.bind (·.opening.definitionName?)).getD []
  let returns ← hostedReturns block line
  return { s with verbatim := some (line, .hosted returns []) }

/-- Takes a line that closes nothing. -/
def enter (s : State) (strict : Bool) (line : Line) : Except ParseError State := do
  let category ← categorize strict line
  if category == .blank then return s
  else if !Category.permits s.parent category then
    .error (.line (.misplaced category s.parent) line)
  else match category with
    | .comment => return s.resume line ((Comment.start line.trimmed).map id .comment)
    | .stepCall =>
      let call ← Opening.atLine line (Call.read line.trimmed)
      return s.add (.step (.call call.name call.args))
    | .hosted => s.enterHosted line
    | category =>
      match ← Opening.ofHeader category s.contextDepth line with
      | some opening => return s.push line opening
      | none => return s

/-- Takes a line that closes the frame `f`, which lies in the frames `rest`. -/
def close (s : State) (f : Frame) (rest : List Frame) (line : Line) : Except ParseError State := do
  let outer := { s with frames := rest }
  match ← f.opening.close f.contents line with
  | some node => return outer.add node
  | none => return outer

/-- Takes a line. -/
def step (strict : Bool) (s : State) (line : Line) : Except ParseError State :=
  match s.verbatim with
  | some (header, v) => .ok (s.resume header (v.take line))
  | none =>
    match s.frames with
    | [] => s.enter strict line
    | f :: rest =>
      if f.opening.closesOn line.trimmed then s.close f rest line else s.enter strict line

/-! ## The end of the lines -/

/-- The first line and the category of the innermost open construct. -/
def innermost? (s : State) : Option (Line × Category) :=
  match s.verbatim with
  | some (header, v) => some (header, v.category)
  | none => s.frames.head?.map fun f => (f.header, f.opening.category)

/-- The document, where nothing is open. -/
def finish (s : State) : Except ParseError Document :=
  match s.innermost? with
  | some (header, category) => .error (.line (.unterminated category) header)
  | none => .ok ⟨s.top.comments, s.top.units⟩

end State
end BlockText
