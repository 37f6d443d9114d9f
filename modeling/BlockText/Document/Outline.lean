/-
Documents as outlines.
-/
import BlockText.Document
import BlockText.Outline

namespace BlockText

/-- A record with these fields. -/
def Outline.fields (name : String) (fields : List (String × Outline)) : Outline :=
  .record name.toList (fields.map fun (key, x) => (key.toList, x))

/-- A value of one of several kinds, with the kind around it. -/
def Outline.variant (name : String) (item : Outline) : Outline := .wrap name.toList item

def Comment.outline (c : Comment) : Outline := .fields "Comment" [("text", .text c.text)]

def commentsOutline (cs : List Comment) : Outline := .list (cs.map Comment.outline)

def Parameter.outline (p : Parameter) : Outline :=
  .fields "Parameter" [("name", .text p.name), ("param_type", .text p.type)]

def parametersOutline (ps : List Parameter) : Outline := .list (ps.map Parameter.outline)

def Returns.outline (r : Returns) : Outline :=
  .fields "Returns" [("name", .text r.name), ("return_type", .text r.type)]

def returnsOutline (r : Option Returns) : Outline := .optional (r.map Returns.outline)

namespace Expression

mutual

def outline : Expression → Outline
  | number value => .variant "Number" (.number value)
  | call name args =>
    .variant "BlockCall"
      (.fields "BlockCall" [("name", .text name), ("args", .list (outlines args))])

def outlines : List Expression → List Outline
  | [] => []
  | e :: es => outline e :: outlines es

end

end Expression

def argumentsOutline (args : List Expression) : Outline := .list (Expression.outlines args)

namespace Step

mutual

def outline : Step → Outline
  | call name args =>
    .variant "Call" (.fields "StepCall" [("name", .text name), ("args", argumentsOutline args)])
  | context name args steps comments =>
    .variant "Context"
      (.fields "ContextCall"
        [("name", .text name), ("args", argumentsOutline args), ("steps", .list (outlines steps)),
          ("comments", commentsOutline comments)])
  | hosted (some returns) code =>
    .variant "Hosted" (.fields "Hosted" [("returns", returns.outline), ("code", .text code)])
  | hosted none code =>
    .variant "HostedNoReturns" (.fields "HostedNoReturns" [("code", .text code)])

def outlines : List Step → List Outline
  | [] => []
  | s :: ss => outline s :: outlines ss

end

end Step

def stepsOutline (steps : List Step) : Outline := .list (Step.outlines steps)

def BlockDefinition.outline (d : BlockDefinition) : Outline :=
  .fields "BlockDef"
    [("name", .text d.name), ("params", parametersOutline d.params),
      ("steps", stepsOutline d.steps), ("returns", returnsOutline d.returns),
      ("comments", commentsOutline d.comments)]

def ContextDefinition.outline (d : ContextDefinition) : Outline :=
  .fields "ContextDef"
    [("name", .text d.name), ("params", parametersOutline d.params),
      ("blocklists", parametersOutline d.blockLists), ("steps", stepsOutline d.steps),
      ("returns", returnsOutline d.returns), ("comments", commentsOutline d.comments)]

def TriggerDefinition.outline (d : TriggerDefinition) : Outline :=
  .fields "TriggerDef"
    [("name", .text d.name), ("params", parametersOutline d.params),
      ("blocklists", parametersOutline d.blockLists), ("steps", stepsOutline d.steps),
      ("comments", commentsOutline d.comments)]

def Definition.outline : Definition → Outline
  | block d => .variant "Block" d.outline
  | context d => .variant "Context" d.outline
  | trigger d => .variant "Trigger" d.outline

def Trigger.outline (t : Trigger) : Outline :=
  .fields "TriggerCall"
    [("name", .text t.event), ("steps", stepsOutline t.steps),
      ("comments", commentsOutline t.comments)]

/-- The fields of a sprite or a stage behind its name. -/
def Actor.outlineFields (a : Actor) : List (String × Outline) :=
  [("comments", commentsOutline a.comments),
    ("block_defs", .list (a.definitions.map BlockDefinition.outline)),
    ("trigger_calls", .list (a.triggers.map Trigger.outline)),
    ("forms", .list []), ("sounds", .list []), ("costumes", .list []), ("structs", .list [])]

def Sprite.outline (s : Sprite) : Outline :=
  .fields "Sprite" (("name", .text s.name) :: s.actor.outlineFields)

def Stage.outline (s : Stage) : Outline :=
  .fields "Stage" (("name", .optional (s.name.map .text)) :: s.actor.outlineFields)

def Library.outline (l : Library) : Outline :=
  .fields "Library"
    [("name", .text l.name), ("hue", .integer l.hue.toInt), ("language", .text l.language),
      ("comments", commentsOutline l.comments), ("structs", .list []),
      ("block_defs", .list (l.definitions.map Definition.outline))]

def CompilationUnit.outline (u : CompilationUnit) : Outline :=
  .fields "Unit"
    [("name", .text u.name), ("comments", commentsOutline u.comments),
      ("libraries", .list (u.libraries.map Library.outline)),
      ("sprites", .list (u.sprites.map Sprite.outline)),
      ("stages", .list (u.stages.map Stage.outline))]

def Document.outline (d : Document) : Outline :=
  .fields "Document"
    [("comments", commentsOutline d.comments),
      ("units", .list (d.units.map CompilationUnit.outline))]

/-- The document's outline in text. -/
def Document.tree (d : Document) : Text := d.outline.render

end BlockText
