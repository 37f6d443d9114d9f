/-
The code in a document.

Escapes hold text in another language, and nothing else in a document does.  `Document.mapCode` changes
the code of every escape and keeps all else, so documents with one image under it differ in their code
at most.  `Text.mapLines` changes code line by line.
-/
import Mathlib.Data.List.Basic
import BlockText.Proofs.Text.Lines
import BlockText.Proofs.Document.Contents
import BlockText.Proofs.Document.Place
import BlockText.Reading.Opening

namespace BlockText

/-! ## Lines of code -/

namespace Text

/-- The text with each of its lines changed. -/
def mapLines (φ : Text → Text) (t : Text) : Text := joinLines (t.pieces.map φ)

theorem mapLines_id : mapLines id = id := by
  funext t
  rw [mapLines, List.map_id, joinLines_pieces]
  rfl

/-- Lines that are joined are changed one by one.  No lines and one empty line join to the same text,
so an empty line has to stay empty. -/
theorem mapLines_joinLines {φ : Text → Text} (hφ : φ [] = []) {ts : List Text}
    (h : ∀ t ∈ ts, '\n' ∉ t) : mapLines φ (joinLines ts) = joinLines (ts.map φ) := by
  cases ts with
  | nil =>
    show joinLines [φ []] = joinLines []
    rw [hφ]
    rfl
  | cons t ts => rw [mapLines, pieces_joinLines h (List.cons_ne_nil t ts)]

end Text

/-! ## Changing code -/

mutual

/-- The step with the code of the escapes in it changed. -/
def Step.mapCode (f : Text → Text) : Step → Step
  | .call name args => .call name args
  | .context name args steps comments => .context name args (mapCodeOf f steps) comments
  | .hosted returns code => .hosted returns (f code)

def Step.mapCodeOf (f : Text → Text) : List Step → List Step
  | [] => []
  | step :: steps => step.mapCode f :: mapCodeOf f steps

end

theorem Step.mapCodeOf_eq_map (f : Text → Text) (steps : List Step) :
    mapCodeOf f steps = steps.map (mapCode f) := by
  induction steps with
  | nil => rfl
  | cons step steps ih => rw [mapCodeOf, ih, List.map_cons]

theorem Step.mapCodeOf_append (f : Text → Text) (xs ys : List Step) :
    mapCodeOf f (xs ++ ys) = mapCodeOf f xs ++ mapCodeOf f ys := by
  simp only [mapCodeOf_eq_map, List.map_append]

section document

variable (f : Text → Text)

def BlockDefinition.mapCode (d : BlockDefinition) : BlockDefinition := d.mapSteps (Step.mapCodeOf f)

def Definition.mapCode (d : Definition) : Definition := d.mapSteps (Step.mapCodeOf f)

def Trigger.mapCode (t : Trigger) : Trigger := t.mapSteps (Step.mapCodeOf f)

def Actor.mapCode (a : Actor) : Actor :=
  { a with
    definitions := a.definitions.map (BlockDefinition.mapCode f)
    triggers := a.triggers.map (Trigger.mapCode f) }

def Sprite.mapCode (s : Sprite) : Sprite := { s with actor := s.actor.mapCode f }

def Stage.mapCode (s : Stage) : Stage := { s with actor := s.actor.mapCode f }

def Library.mapCode (l : Library) : Library :=
  { l with definitions := l.definitions.map (Definition.mapCode f) }

def CompilationUnit.mapCode (u : CompilationUnit) : CompilationUnit :=
  { u with
    libraries := u.libraries.map (Library.mapCode f)
    sprites := u.sprites.map (Sprite.mapCode f)
    stages := u.stages.map (Stage.mapCode f) }

/-- The document with the code of all its escapes changed. -/
def Document.mapCode (d : Document) : Document :=
  { d with units := d.units.map (CompilationUnit.mapCode f) }

def Node.mapCode : Node → Node
  | .comment c => .comment c
  | .unit u => .unit (u.mapCode f)
  | .library l => .library (l.mapCode f)
  | .sprite s => .sprite (s.mapCode f)
  | .stage s => .stage (s.mapCode f)
  | .definition d => .definition (d.mapCode f)
  | .trigger t => .trigger (t.mapCode f)
  | .step s => .step (s.mapCode f)

def Contents.mapCode (b : Contents) : Contents :=
  ⟨b.comments, b.units.map (CompilationUnit.mapCode f), b.libraries.map (Library.mapCode f),
    b.sprites.map (Sprite.mapCode f), b.stages.map (Stage.mapCode f),
    b.definitions.map (Definition.mapCode f), b.triggers.map (Trigger.mapCode f),
    Step.mapCodeOf f b.steps⟩

/-! ## Changed code in contents -/

namespace Contents

theorem mapCode_add (b : Contents) (node : Node) :
    (b.add node).mapCode f = (b.mapCode f).add (node.mapCode f) := by
  cases node <;>
    simp [add, mapCode, Node.mapCode, Step.mapCodeOf_append, Step.mapCodeOf]

/-- Block definitions are the same ones, whatever their code. -/
theorem actor_mapCode (b : Contents) : (b.mapCode f).actor = b.actor.mapCode f := by
  have hblock : ∀ d : Definition,
      (d.mapCode f).block? = d.block?.map (BlockDefinition.mapCode f) := by
    intro d
    cases d <;> rfl
  rw [actor, actor, mapCode, Actor.mapCode, List.filterMap_map, List.map_filterMap]
  congr 1
  exact List.filterMap_congr fun d _ => hblock d

end Contents

/-- A construct is finished with the code that its contents have. -/
theorem Opening.close_mapCode (o : Opening) (b : Contents) (line : Line) :
    o.close (b.mapCode f) line = (o.close b line).map (Option.map (Node.mapCode f)) := by
  cases o with
  | sprite name | stage name =>
    rw [close, close, Contents.actor_mapCode]
    rfl
  | blockDefinition s | contextDefinition s =>
    rw [close, close]
    cases closingReturns s.name line <;> rfl
  | triggerDefinition s =>
    rw [close, close]
    split <;> rfl
  | _ => rfl

end document

/-! ## Code that stays as it is -/

theorem Step.mapCode_id (step : Step) : step.mapCode id = step := by
  cases step with
  | call name args => rfl
  | context name args steps comments =>
    have hsteps : ∀ s ∈ steps, s.mapCode id = s := fun s _ => s.mapCode_id
    rw [mapCode, mapCodeOf_eq_map, List.map_congr_left hsteps, List.map_id']
  | hosted returns code => rfl

theorem Step.mapCodeOf_id (steps : List Step) : mapCodeOf id steps = steps := by
  rw [mapCodeOf_eq_map, List.map_congr_left fun s _ => s.mapCode_id, List.map_id']

theorem BlockDefinition.mapCode_id (d : BlockDefinition) : d.mapCode id = d := by
  rw [mapCode, mapSteps, Step.mapCodeOf_id]

theorem Definition.mapCode_id (d : Definition) : d.mapCode id = d := by
  cases d with
  | block d => exact congrArg block d.mapCode_id
  | context d | trigger d => rw [mapCode, mapSteps, Step.mapCodeOf_id]

theorem Trigger.mapCode_id (t : Trigger) : t.mapCode id = t := by
  rw [mapCode, mapSteps, Step.mapCodeOf_id]

theorem Actor.mapCode_id (a : Actor) : a.mapCode id = a := by
  rw [mapCode, List.map_congr_left fun d _ => d.mapCode_id, List.map_id',
    List.map_congr_left fun t _ => t.mapCode_id, List.map_id']

theorem Library.mapCode_id (l : Library) : l.mapCode id = l := by
  rw [mapCode, List.map_congr_left fun d _ => d.mapCode_id, List.map_id']

theorem Sprite.mapCode_id (s : Sprite) : s.mapCode id = s := by
  rw [mapCode, s.actor.mapCode_id]

theorem Stage.mapCode_id (s : Stage) : s.mapCode id = s := by
  rw [mapCode, s.actor.mapCode_id]

theorem CompilationUnit.mapCode_id (u : CompilationUnit) : u.mapCode id = u := by
  rw [mapCode, List.map_congr_left fun l _ => l.mapCode_id, List.map_id',
    List.map_congr_left fun s _ => s.mapCode_id, List.map_id',
    List.map_congr_left fun s _ => s.mapCode_id, List.map_id']

theorem Document.mapCode_id (d : Document) : d.mapCode id = d := by
  rw [mapCode, List.map_congr_left fun u _ => u.mapCode_id, List.map_id']

end BlockText
