/-
Documents: what a source says.

A document holds units, a unit holds libraries of definitions and actors, and definitions and
triggers hold steps.  Collections keep the order of the source.  Sprites and stages hold the same
things, an `Actor`.  Content that headers reserve and nothing fills yet (forms, structs, sounds,
costumes) has no place here; the written forms of a document show it as empty.
-/
import BlockText.Name.Signature
import BlockText.Name.Simple

namespace BlockText

structure Comment where
  text : Text
  deriving DecidableEq

/-- An entry in a list of steps. -/
inductive Step
  | call (name : Text) (args : List Expression)
  /-- A call that carries steps. -/
  | context (name : Text) (args : List Expression) (steps : List Step) (comments : List Comment)
  /-- Text in another language, its lines joined by line feeds. -/
  | hosted (returns : Option Returns) (code : Text)

/-- A definition that is called as a step or as a value. -/
structure BlockDefinition where
  name : Text
  params : List Parameter
  steps : List Step
  returns : Option Returns
  comments : List Comment

/-- A definition that takes steps, for calls that carry them. -/
structure ContextDefinition where
  name : Text
  params : List Parameter
  blockLists : List Parameter
  steps : List Step
  returns : Option Returns
  comments : List Comment

/-- A definition that is called by the system, and so returns nothing. -/
structure TriggerDefinition where
  name : Text
  params : List Parameter
  blockLists : List Parameter
  steps : List Step
  comments : List Comment

inductive Definition
  | block (d : BlockDefinition)
  | context (d : ContextDefinition)
  | trigger (d : TriggerDefinition)

/-- Steps that answer an event. -/
structure Trigger where
  /-- The name of the event, as it was written. -/
  event : Text
  steps : List Step
  comments : List Comment

/-- What sprites and stages hold. -/
structure Actor where
  comments : List Comment
  definitions : List BlockDefinition
  triggers : List Trigger

structure Sprite where
  name : Text
  actor : Actor

/-- The backdrop, which needs no name. -/
structure Stage where
  name : Option Text
  actor : Actor

/-- Definitions under a hue, with the language of the escapes in them. -/
structure Library where
  name : Text
  hue : Int64
  language : Text
  comments : List Comment
  definitions : List Definition

structure CompilationUnit where
  name : Text
  comments : List Comment
  libraries : List Library
  sprites : List Sprite
  stages : List Stage

structure Document where
  comments : List Comment
  units : List CompilationUnit

/-! ## Access -/

namespace Expression

def number? : Expression → Option Number
  | number value => some value
  | call .. => none

def call? : Expression → Option Call
  | number _ => none
  | call name args => some ⟨name, args⟩

end Expression

namespace Step

/-- The name of a call; an escape has none. -/
def name? : Step → Option Text
  | call name _ | context name .. => some name
  | hosted .. => none

def args : Step → List Expression
  | call _ args | context _ args .. => args
  | hosted .. => []

end Step

namespace Definition

def name : Definition → Text
  | block d => d.name
  | context d => d.name
  | trigger d => d.name

def params : Definition → List Parameter
  | block d => d.params
  | context d => d.params
  | trigger d => d.params

def steps : Definition → List Step
  | block d => d.steps
  | context d => d.steps
  | trigger d => d.steps

def returns : Definition → Option Returns
  | block d => d.returns
  | context d => d.returns
  | trigger _ => none

def block? : Definition → Option BlockDefinition
  | block d => some d
  | _ => none

end Definition

/-- The first definition of this name. -/
def Library.definition? (l : Library) (name : Text) : Option Definition :=
  l.definitions.find? (·.name == name)

/-- The first sprite of this name. -/
def CompilationUnit.sprite? (u : CompilationUnit) (name : Text) : Option Sprite :=
  u.sprites.find? (·.name == name)

/-- The first library of this name. -/
def CompilationUnit.library? (u : CompilationUnit) (name : Text) : Option Library :=
  u.libraries.find? (·.name == name)

namespace Document

def isEmpty (d : Document) : Bool := d.units.isEmpty && d.comments.isEmpty

/-- The first unit of this name. -/
def unit? (d : Document) (name : Text) : Option CompilationUnit :=
  d.units.find? (·.name == name)

end Document
end BlockText
