/-
What a line is, told from the line alone.

Each category but the last has a test on the trimmed line, and `Category.ofLine` takes the first
category of `Category.cascade` whose test accepts; a line that none accepts is a step call.  The
tests look at the first word and at the last bracket only, and `define` headers of contexts and
triggers also at their parameters.  A line that starts like a header and does not end like one is
therefore a call; `Keyword.heading?` finds these.
-/
import BlockText.Text.Basic

namespace BlockText

/-! ## Keywords -/

/-- The words that start a header, in the order in which they are looked for. -/
inductive Keyword
  | unit | library | sprite | stage | define | when | hosted | sounds | costumes
  deriving DecidableEq, Repr

namespace Keyword

def all : List Keyword :=
  [unit, library, sprite, stage, define, .when, hosted, sounds, costumes]

def text : Keyword → Text
  | unit => "unit".toList
  | library => "library".toList
  | sprite => "sprite".toList
  | stage => "stage".toList
  | define => "define".toList
  | .when => "when".toList
  | hosted => "hosted".toList
  | sounds => "sounds".toList
  | costumes => "costumes".toList

/-- The keyword stands at the front of the text as a whole word: white space, a bracket or nothing
follows. -/
def heads (keyword : Keyword) (t : Text) : Bool :=
  match keyword.text.isPrefixOf? t with
  | none => false
  | some [] => true
  | some (c :: _) => Text.isSpace c || c == '['

/-- The keyword at the front of a text. -/
def heading? (t : Text) : Option Keyword := all.find? (·.heads t)

end Keyword

/-! ## Categories -/

/-- The structural role of one line. -/
inductive Category
  | blank
  | comment
  | unit
  | library
  | sprite
  | stage
  | costumes
  | sounds
  /-- A header of text in another language. -/
  | hosted
  | contextDefinition
  | triggerDefinition
  | blockDefinition
  /-- A header of steps that answer an event. -/
  | trigger
  /-- Any other line that ends in an opening bracket. -/
  | contextCall
  /-- Any other line. -/
  | stepCall
  deriving DecidableEq, Repr

namespace Category

/-- The category in words. -/
def describe : Category → String
  | blank => "blank line"
  | comment => "comment"
  | unit => "unit"
  | library => "library"
  | sprite => "sprite"
  | stage => "stage"
  | costumes => "costumes"
  | sounds => "sounds"
  | hosted => "hosted block"
  | contextDefinition => "context definition"
  | triggerDefinition => "trigger definition"
  | blockDefinition => "block definition"
  | trigger => "trigger"
  | contextCall => "context call"
  | stepCall => "step"

/-! ## Tests on trimmed lines -/

def endsWith (ending t : Text) : Bool := ending.isSuffixOf t

/-- The words `opening`, a space, and a bracket at the end of the line. -/
def isNamed (opening t : Text) : Bool :=
  (opening ++ [' ']).isPrefixOf t && endsWith ['['] t

/-- A keyword that may stand alone before the bracket. -/
def isKeyed (keyword : Keyword) (bracket t : Text) : Bool :=
  keyword.heads t && endsWith bracket t

/-- The type of a parameter that takes steps and not a value. -/
def blockListType : Text := "BlockList".toList

/-- The characters that part a signature. -/
def isDelimiter (c : Char) : Bool :=
  c == '(' || c == ')' || c == '[' || c == ']' || c == ':'

/-- The text after an opening parenthesis starts with a parameter that takes steps: a name, a colon,
the type, and the closing parenthesis. -/
def startsBlockList (t : Text) : Bool :=
  let (name, rest) := t.span fun c => !isDelimiter c
  !name.isEmpty &&
    match rest with
    | ':' :: type =>
      match blockListType.isPrefixOf? (Text.trimStart type) with
      | some rest => [')'].isPrefixOf (Text.trimStart rest)
      | none => false
    | _ => false

/-- Some parenthesis opens a parameter that takes steps. -/
def hasBlockList : Text → Bool
  | [] => false
  | c :: rest => (c == '(' && startsBlockList rest) || hasBlockList rest

/-- The words that start the headers that carry a name. -/
def opening : Category → Text
  | unit => Keyword.unit.text
  | library => Keyword.library.text
  | sprite => Keyword.sprite.text
  | stage => Keyword.stage.text
  | costumes => Keyword.costumes.text
  | sounds => Keyword.sounds.text
  | hosted => Keyword.hosted.text
  | contextDefinition => "define context".toList
  | triggerDefinition => "define trigger".toList
  | blockDefinition => Keyword.define.text
  | trigger => Keyword.when.text
  | blank | comment | contextCall | stepCall => []

/-- The category's test on a trimmed line. -/
def acceptsTrimmed (category : Category) (t : Text) : Bool :=
  match category with
  | blank => t.isEmpty
  | comment => ['/', '/'].isPrefixOf t || ['/', '*'].isPrefixOf t
  | unit | library | sprite | blockDefinition | trigger => isNamed category.opening t
  | stage => isKeyed .stage ['['] t
  | costumes => isKeyed .costumes ['['] t
  | sounds => isKeyed .sounds ['['] t
  | hosted => isKeyed .hosted ['[', '@'] t
  | contextDefinition | triggerDefinition => isNamed category.opening t && hasBlockList t
  | contextCall => endsWith ['['] t
  | stepCall => true

/-- The category's test on a line. -/
def accepts (category : Category) (line : Text) : Bool := category.acceptsTrimmed line.trim

/-! ## The category of a line -/

/-- The categories with a test of their own, the more particular ones first. -/
def cascade : List Category :=
  [blank, comment, unit, library, sprite, stage, costumes, sounds, hosted, contextDefinition,
    triggerDefinition, blockDefinition, trigger, contextCall]

/-- The first category of `order` that accepts the line. -/
def firstOf (order : List Category) (line : Text) : Category :=
  (order.find? (·.accepts line)).getD .stepCall

def ofLine (line : Text) : Category := firstOf cascade line

/-! ## Where a category may stand -/

/-- The categories that a construct may hold; `none` is the file. -/
def permits (parent : Option Category) (child : Category) : Bool :=
  match parent with
  | none => (child matches .comment | .unit)
  | some .unit => (child matches .comment | .library | .sprite | .stage)
  | some .library =>
    (child matches .comment | .blockDefinition | .contextDefinition | .triggerDefinition)
  | some .sprite | some .stage =>
    (child matches .comment | .sounds | .costumes | .trigger | .blockDefinition)
  | some .sounds | some .costumes => (child matches .comment)
  | some .blockDefinition | some .contextDefinition | some .triggerDefinition =>
    (child matches .comment | .hosted | .contextCall | .stepCall)
  | some .trigger | some .contextCall => (child matches .comment | .contextCall | .stepCall)
  | some .blank | some .comment | some .hosted | some .stepCall => false

/-- What closes a construct. -/
def closing : Category → String
  | comment => "*/"
  | hosted => "@]"
  | _ => "]"

end Category
end BlockText
