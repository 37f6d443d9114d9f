/-
Documents as JSON.

Every construct is an object with its kind under `type`, except where its place tells the kind.
Content that the grammar reserves is written as an empty array.
-/
import BlockText.Document
import BlockText.Json

namespace BlockText

/-- An object of a tagged kind. -/
def Json.tagged (type : String) (members : List (String × Json)) : Json :=
  .object (("type".toList, .string type.toList) :: members.map fun (key, x) => (key.toList, x))

/-- An object without a kind. -/
def Json.record (members : List (String × Json)) : Json :=
  .object (members.map fun (key, x) => (key.toList, x))

/-- A value that may be missing. -/
def Json.optional (x : Option Json) : Json := x.getD .null

/-- A name and a type. -/
def Json.typedName (name type : Text) : Json :=
  .record [("name", .string name), ("type", .string type)]

def Comment.toJson (c : Comment) : Json := .tagged "Comment" [("text", .string c.text)]

def Parameter.toJson (p : Parameter) : Json := .typedName p.name p.type

def Returns.toJson (r : Returns) : Json := .typedName r.name r.type

def commentsToJson (cs : List Comment) : Json := .array (cs.map Comment.toJson)

def parametersToJson (ps : List Parameter) : Json := .array (ps.map Parameter.toJson)

def returnsToJson (r : Option Returns) : Json := .optional (r.map Returns.toJson)

namespace Expression

mutual

def toJson : Expression → Json
  | number value => .tagged "Number" [("value", .number value)]
  | call name args =>
    .tagged "BlockCall" [("value", .record [("name", .string name), ("args", .array (listToJson args))])]

def listToJson : List Expression → List Json
  | [] => []
  | e :: es => toJson e :: listToJson es

end

end Expression

def argumentsToJson (args : List Expression) : Json := .array (Expression.listToJson args)

namespace Step

mutual

def toJson : Step → Json
  | call name args => .tagged "StepCall" [("name", .string name), ("args", argumentsToJson args)]
  | context name args steps comments =>
    .tagged "ContextCall"
      [("name", .string name), ("args", argumentsToJson args),
        ("steps", .array (listToJson steps)), ("comments", commentsToJson comments)]
  | hosted (some returns) code =>
    .tagged "Hosted" [("returns", returns.toJson), ("code", .string code)]
  | hosted none code => .tagged "HostedNoReturns" [("code", .string code)]

def listToJson : List Step → List Json
  | [] => []
  | s :: ss => toJson s :: listToJson ss

end

end Step

def stepsToJson (steps : List Step) : Json := .array (Step.listToJson steps)

def BlockDefinition.toJson (d : BlockDefinition) : Json :=
  .tagged "BlockDef"
    [("name", .string d.name), ("params", parametersToJson d.params),
      ("steps", stepsToJson d.steps), ("returns", returnsToJson d.returns),
      ("comments", commentsToJson d.comments)]

def ContextDefinition.toJson (d : ContextDefinition) : Json :=
  .tagged "ContextDef"
    [("name", .string d.name), ("params", parametersToJson d.params),
      ("blocklists", parametersToJson d.blockLists), ("steps", stepsToJson d.steps),
      ("returns", returnsToJson d.returns), ("comments", commentsToJson d.comments)]

def TriggerDefinition.toJson (d : TriggerDefinition) : Json :=
  .tagged "TriggerDef"
    [("name", .string d.name), ("params", parametersToJson d.params),
      ("blocklists", parametersToJson d.blockLists), ("steps", stepsToJson d.steps),
      ("comments", commentsToJson d.comments)]

def Definition.toJson : Definition → Json
  | block d => d.toJson
  | context d => d.toJson
  | trigger d => d.toJson

def Trigger.toJson (t : Trigger) : Json :=
  .tagged "TriggerCall"
    [("name", .string t.event), ("steps", stepsToJson t.steps),
      ("comments", commentsToJson t.comments)]

/-- The members of a sprite or a stage behind its name. -/
def Actor.members (a : Actor) : List (String × Json) :=
  [("comments", commentsToJson a.comments),
    ("blockDefs", .array (a.definitions.map BlockDefinition.toJson)),
    ("triggerCalls", .array (a.triggers.map Trigger.toJson)),
    ("forms", .array []), ("sounds", .array []), ("costumes", .array []), ("structs", .array [])]

def Sprite.toJson (s : Sprite) : Json :=
  .tagged "Sprite" (("name", .string s.name) :: s.actor.members)

def Stage.toJson (s : Stage) : Json :=
  .tagged "Stage" (("name", .optional (s.name.map .string)) :: s.actor.members)

def Library.toJson (l : Library) : Json :=
  .tagged "Library"
    [("name", .string l.name), ("hue", .integer l.hue.toInt), ("language", .string l.language),
      ("comments", commentsToJson l.comments), ("structs", .array []),
      ("blockDefs", .array (l.definitions.map Definition.toJson))]

def CompilationUnit.toJson (u : CompilationUnit) : Json :=
  .tagged "Unit"
    [("name", .string u.name), ("comments", commentsToJson u.comments),
      ("libraries", .array (u.libraries.map Library.toJson)),
      ("sprites", .array (u.sprites.map Sprite.toJson)),
      ("stages", .array (u.stages.map Stage.toJson))]

def Document.toJson (d : Document) : Json :=
  .tagged "Document"
    [("comments", commentsToJson d.comments),
      ("units", .array (d.units.map CompilationUnit.toJson))]

/-- The document in JSON text, one value a line. -/
def Document.interchange (d : Document) : Text := d.toJson.pretty

end BlockText
