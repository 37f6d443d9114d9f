/-
What an open construct holds.

Finished constructs are kept by kind, since a document keeps them by kind, and each kind in the
order in which its constructs were finished, which is the order of the source.
-/
import BlockText.Document

namespace BlockText

/-- A finished construct. -/
inductive Node
  | comment (c : Comment)
  | unit (u : CompilationUnit)
  | library (l : Library)
  | sprite (s : Sprite)
  | stage (s : Stage)
  | definition (d : Definition)
  | trigger (t : Trigger)
  | step (s : Step)

/-- Finished constructs by kind, each kind in order. -/
structure Contents where
  comments : List Comment
  units : List CompilationUnit
  libraries : List Library
  sprites : List Sprite
  stages : List Stage
  definitions : List Definition
  triggers : List Trigger
  steps : List Step

namespace Contents

def empty : Contents := ⟨[], [], [], [], [], [], [], []⟩

def add (b : Contents) : Node → Contents
  | .comment c => { b with comments := b.comments ++ [c] }
  | .unit u => { b with units := b.units ++ [u] }
  | .library l => { b with libraries := b.libraries ++ [l] }
  | .sprite s => { b with sprites := b.sprites ++ [s] }
  | .stage s => { b with stages := b.stages ++ [s] }
  | .definition d => { b with definitions := b.definitions ++ [d] }
  | .trigger t => { b with triggers := b.triggers ++ [t] }
  | .step s => { b with steps := b.steps ++ [s] }

/-- What a sprite or a stage takes of its contents. -/
def actor (b : Contents) : Actor :=
  ⟨b.comments, b.definitions.filterMap Definition.block?, b.triggers⟩

end Contents

end BlockText
