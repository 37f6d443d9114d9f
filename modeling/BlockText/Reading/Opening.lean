/-
Headers and closing lines.

A header opens a construct, and `Opening` is what it said: the construct's kind with all that the
construct needs besides its contents.  `Opening.ofHeader` reads a header of a known category, and
`Opening.close` makes the finished construct from the contents and the closing line, which for
definitions may carry a returns clause.
-/
import BlockText.Error
import BlockText.Name.Call
import BlockText.Reading.Contents
import BlockText.Reading.LibraryHeader

namespace BlockText

/-! ## Openings -/

/-- What a header said. -/
inductive Opening
  | unit (name : Text)
  | library (name : Text) (hue : Int64) (language : Text)
  | sprite (name : Text)
  | stage (name : Option Text)
  | sounds
  | costumes
  | blockDefinition (signature : Signature)
  | contextDefinition (signature : Signature)
  | triggerDefinition (signature : Signature)
  | trigger (event : Text)
  | contextCall (call : Call)

namespace Opening

/-- The category of the header. -/
def category : Opening → Category
  | unit _ => .unit
  | library .. => .library
  | sprite _ => .sprite
  | stage _ => .stage
  | sounds => .sounds
  | costumes => .costumes
  | blockDefinition _ => .blockDefinition
  | contextDefinition _ => .contextDefinition
  | triggerDefinition _ => .triggerDefinition
  | trigger _ => .trigger
  | contextCall _ => .contextCall

/-- The name of a definition, for the faults of the clauses in it. -/
def definitionName? : Opening → Option Text
  | blockDefinition s | contextDefinition s | triggerDefinition s => some s.name
  | _ => none

/-- Attaches the line that a name was read from. -/
def atLine {α : Type} (line : Line) : Except NameError α → Except ParseError α :=
  Except.mapError fun e => .name e line

/-! ## Reading headers -/

/-- What a header says between its opening words and its bracket. -/
def headerText (opening : Text) (line : Line) : Text :=
  Text.trim (Text.dropSuffix ['['] (Text.dropPrefix opening line.trimmed))

def ofLibraryHeader (line : Line) : Except ParseError Opening :=
  match LibraryHeader.ofText? line.trimmed with
  | none => .error (.line .libraryShape line)
  | some header => do
    let name ← atLine line (SimpleName.read header.name)
    match header.hueValue? with
    | none => .error (.line .libraryHue line)
    | some hue =>
      if header.language.isBlank then .error (.line .libraryLanguage line)
      else .ok (library name hue header.language.trim)

def ofStageHeader (line : Line) : Except ParseError Opening := do
  let name := headerText Category.stage.opening line
  if name.isEmpty then .ok (stage none)
  else .ok (stage (some (← atLine line (SimpleName.read name))))

/-- An event's name may hold anything, but is no number. -/
def ofTriggerHeader (line : Line) : Except ParseError Opening :=
  let event := headerText Category.trigger.opening line
  if event.isEmpty then .error (.line .namelessEvent line)
  else if Number.isNumeral event then .error (.name ⟨.numeric, event, 0⟩ line)
  else .ok (trigger event)

def signature (category : Category) (line : Line) : Except ParseError Signature :=
  atLine line (Signature.read (headerText category.opening line))

def ofBlockHeader (line : Line) : Except ParseError Opening := do
  let s ← signature .blockDefinition line
  if s.blockLists.isEmpty then .ok (blockDefinition s)
  else .error (.line .blockListInBlock line)

/-- A header under `depth` open context calls. -/
def ofContextHeader (depth : Nat) (line : Line) : Except ParseError Opening := do
  if maxNesting ≤ depth then .error (.line .contextTooDeep line)
  else .ok (contextCall (← atLine line (Call.read (headerText [] line))))

/-- Reads a header of this category, under `depth` open context calls.  The other categories open
nothing that holds lines. -/
def ofHeader (category : Category) (depth : Nat) (line : Line) :
    Except ParseError (Option Opening) :=
  match category with
  | .unit => do
    return some (unit (← atLine line (SimpleName.read (headerText category.opening line))))
  | .library => some <$> ofLibraryHeader line
  | .sprite => do
    return some (sprite (← atLine line (SimpleName.read (headerText category.opening line))))
  | .stage => some <$> ofStageHeader line
  | .sounds => .ok (some sounds)
  | .costumes => .ok (some costumes)
  | .blockDefinition => some <$> ofBlockHeader line
  | .contextDefinition => do return some (contextDefinition (← signature category line))
  | .triggerDefinition => do return some (triggerDefinition (← signature category line))
  | .trigger => some <$> ofTriggerHeader line
  | .contextCall => some <$> ofContextHeader depth line
  | .blank | .comment | .hosted | .stepCall => .ok none

/-! ## Closing lines -/

/-- Definitions close on a bracket with anything behind it, all else on a bracket alone. -/
def closesOn (o : Opening) (trimmed : Text) : Bool :=
  match o with
  | blockDefinition _ | contextDefinition _ | triggerDefinition _ => [']'].isPrefixOf trimmed
  | _ => trimmed == [']']

/-- The clause behind the brackets of a closing line. -/
def closingReturns (block : Text) (line : Line) : Except ParseError (Option Returns) :=
  let clause := Text.trim (line.trimmed.dropWhile (· == ']'))
  if clause.isEmpty then .ok none else some <$> atLine line (Returns.read clause block)

/-- The construct that a closing line finishes.  Content that is not kept gives none. -/
def close (o : Opening) (b : Contents) (line : Line) : Except ParseError (Option Node) :=
  match o with
  | unit name => .ok (some (.unit ⟨name, b.comments, b.libraries, b.sprites, b.stages⟩))
  | library name hue language =>
    .ok (some (.library ⟨name, hue, language, b.comments, b.definitions⟩))
  | sprite name => .ok (some (.sprite ⟨name, b.actor⟩))
  | stage name => .ok (some (.stage ⟨name, b.actor⟩))
  | sounds | costumes => .ok none
  | blockDefinition s => do
    let returns ← closingReturns s.name line
    return some (.definition (.block ⟨s.name, s.params, b.steps, returns, b.comments⟩))
  | contextDefinition s => do
    let returns ← closingReturns s.name line
    return some (.definition
      (.context ⟨s.name, s.params, s.blockLists, b.steps, returns, b.comments⟩))
  | triggerDefinition s =>
    if line.trimmed == [']'] then
      .ok (some (.definition (.trigger ⟨s.name, s.params, s.blockLists, b.steps, b.comments⟩)))
    else .error (.line .triggerReturns line)
  | trigger event => .ok (some (.trigger ⟨event, b.steps, b.comments⟩))
  | contextCall call => .ok (some (.step (.context call.name call.args b.steps b.comments)))

end Opening
end BlockText
