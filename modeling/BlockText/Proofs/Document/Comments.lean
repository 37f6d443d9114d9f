/-
A document without its comments.

Comments stand in a document next to the other constructs and say nothing of these.
`Document.uncommented` empties every list of comments and keeps all else.  Emptying goes along with how
constructs are put together: what is added to contents can be emptied first
(`Contents.uncommented_add`), and a construct is finished without comments of contents without
comments (`Opening.close_uncommented`).
-/
import Mathlib.Data.List.Basic
import BlockText.Reading.Opening

namespace BlockText

/-! ## Emptying the lists of comments -/

mutual

def Step.uncommented : Step → Step
  | .call name args => .call name args
  | .context name args steps _ => .context name args (uncommentedOf steps) []
  | .hosted returns code => .hosted returns code

def Step.uncommentedOf : List Step → List Step
  | [] => []
  | step :: steps => step.uncommented :: uncommentedOf steps

end

theorem Step.uncommentedOf_append (xs ys : List Step) :
    uncommentedOf (xs ++ ys) = uncommentedOf xs ++ uncommentedOf ys := by
  induction xs with
  | nil => rfl
  | cons x xs ih => rw [List.cons_append, uncommentedOf, ih, uncommentedOf, List.cons_append]

def BlockDefinition.uncommented (d : BlockDefinition) : BlockDefinition :=
  { d with steps := Step.uncommentedOf d.steps, comments := [] }

def Definition.uncommented : Definition → Definition
  | block d => block d.uncommented
  | context d => context { d with steps := Step.uncommentedOf d.steps, comments := [] }
  | trigger d => trigger { d with steps := Step.uncommentedOf d.steps, comments := [] }

def Trigger.uncommented (t : Trigger) : Trigger :=
  { t with steps := Step.uncommentedOf t.steps, comments := [] }

def Actor.uncommented (a : Actor) : Actor :=
  ⟨[], a.definitions.map BlockDefinition.uncommented, a.triggers.map Trigger.uncommented⟩

def Sprite.uncommented (s : Sprite) : Sprite := { s with actor := s.actor.uncommented }

def Stage.uncommented (s : Stage) : Stage := { s with actor := s.actor.uncommented }

def Library.uncommented (l : Library) : Library :=
  { l with comments := [], definitions := l.definitions.map Definition.uncommented }

def CompilationUnit.uncommented (u : CompilationUnit) : CompilationUnit :=
  { u with
    comments := []
    libraries := u.libraries.map Library.uncommented
    sprites := u.sprites.map Sprite.uncommented
    stages := u.stages.map Stage.uncommented }

/-- The document with every list of comments emptied. -/
def Document.uncommented (d : Document) : Document :=
  ⟨[], d.units.map CompilationUnit.uncommented⟩

def Node.uncommented : Node → Node
  | .comment c => .comment c
  | .unit u => .unit u.uncommented
  | .library l => .library l.uncommented
  | .sprite s => .sprite s.uncommented
  | .stage s => .stage s.uncommented
  | .definition d => .definition d.uncommented
  | .trigger t => .trigger t.uncommented
  | .step s => .step s.uncommented

/-! ## Contents without comments -/

namespace Contents

def uncommented (b : Contents) : Contents :=
  ⟨[], b.units.map CompilationUnit.uncommented, b.libraries.map Library.uncommented,
    b.sprites.map Sprite.uncommented, b.stages.map Stage.uncommented,
    b.definitions.map Definition.uncommented, b.triggers.map Trigger.uncommented,
    Step.uncommentedOf b.steps⟩

theorem uncommented_empty : empty.uncommented = empty := rfl

theorem uncommented_add (b : Contents) {node : Node} (h : ∀ c, node ≠ .comment c) :
    (b.add node).uncommented = b.uncommented.add node.uncommented := by
  cases node with
  | comment c => exact absurd rfl (h c)
  | step s =>
    simp only [add, uncommented, Node.uncommented, Step.uncommentedOf_append, Step.uncommentedOf]
  | _ => simp only [add, uncommented, Node.uncommented, List.map_append, List.map_cons, List.map_nil]

/-- Block definitions are the same ones, whatever their comments. -/
theorem actor_uncommented (b : Contents) : b.uncommented.actor = b.actor.uncommented := by
  have hblock : ∀ d : Definition, d.uncommented.block? = d.block?.map BlockDefinition.uncommented := by
    intro d
    cases d <;> rfl
  rw [actor, actor, uncommented, Actor.uncommented, List.filterMap_map, List.map_filterMap]
  congr 1
  exact List.filterMap_congr fun d _ => hblock d

end Contents

/-- A construct is finished without the comments of its contents. -/
theorem Opening.close_uncommented (o : Opening) (b : Contents) (line : Line) :
    o.close b.uncommented line = (o.close b line).map (Option.map Node.uncommented) := by
  cases o with
  | sprite name | stage name =>
    rw [close, close, Contents.actor_uncommented]
    rfl
  | blockDefinition s | contextDefinition s =>
    rw [close, close]
    cases closingReturns s.name line <;> rfl
  | triggerDefinition s =>
    rw [close, close]
    split <;> rfl
  | _ => rfl

end BlockText
