/-
Printed documents.

A construct is printed as its header, its comments, what else it holds kind by kind, and a closing
line; a document has neither header nor closing line.  Every line ends in a carriage return and a line
feed.

`Opening.Finishes.print_eq` puts the printed lines of all constructs into one shape: the header that is
printed of the opening, the lines of what the construct holds, and the closing line.
-/
import BlockText.Proofs.Print.Verbatim

namespace BlockText

/-! ## Lines of constructs -/

/-- A header, comments, the lines of what else a construct holds, and a closing line. -/
def bracketed (header : Text) (comments : List Comment) (held : List Text) (closing : Text) :
    List Text :=
  header :: (comments.flatMap Comment.print ++ held ++ [closing])

mutual

/-- The lines of a step. -/
def Step.print (f : NumberNotation) : Step → List Text
  | .call name args => [Call.print f ⟨name, args⟩]
  | .context name args steps comments =>
    bracketed ((Opening.contextCall ⟨name, args⟩).print f) comments (printAll f steps) [']']
  | .hosted returns code => Hosted.print returns code

def Step.printAll (f : NumberNotation) : List Step → List Text
  | [] => []
  | s :: steps => s.print f ++ printAll f steps

end

theorem Step.printAll_eq (f : NumberNotation) (steps : List Step) :
    printAll f steps = steps.flatMap (print f) := by
  induction steps with
  | nil => rfl
  | cons s steps ih => rw [printAll, ih, List.flatMap_cons]

section print

variable (f : NumberNotation)

def BlockDefinition.print (d : BlockDefinition) : List Text :=
  bracketed ((Opening.blockDefinition ⟨d.name, d.params, []⟩).print f) d.comments
    (Step.printAll f d.steps) (Returns.closing d.returns)

def ContextDefinition.print (d : ContextDefinition) : List Text :=
  bracketed ((Opening.contextDefinition ⟨d.name, d.params, d.blockLists⟩).print f) d.comments
    (Step.printAll f d.steps) (Returns.closing d.returns)

def TriggerDefinition.print (d : TriggerDefinition) : List Text :=
  bracketed ((Opening.triggerDefinition ⟨d.name, d.params, d.blockLists⟩).print f) d.comments
    (Step.printAll f d.steps) [']']

def Definition.print : Definition → List Text
  | .block d => d.print f
  | .context d => d.print f
  | .trigger d => d.print f

def Trigger.print (t : Trigger) : List Text :=
  bracketed ((Opening.trigger t.event).print f) t.comments (Step.printAll f t.steps) [']']

/-- What a sprite or a stage holds, behind a header. -/
def Actor.print (header : Text) (a : Actor) : List Text :=
  bracketed header a.comments
    (a.definitions.flatMap (BlockDefinition.print f) ++ a.triggers.flatMap (Trigger.print f)) [']']

def Sprite.print (s : Sprite) : List Text := s.actor.print f ((Opening.sprite s.name).print f)

def Stage.print (s : Stage) : List Text := s.actor.print f ((Opening.stage s.name).print f)

def Library.print (l : Library) : List Text :=
  bracketed ((Opening.library l.name l.hue l.language).print f) l.comments
    (l.definitions.flatMap (Definition.print f)) [']']

def CompilationUnit.print (u : CompilationUnit) : List Text :=
  bracketed ((Opening.unit u.name).print f) u.comments
    (u.libraries.flatMap (Library.print f) ++ u.sprites.flatMap (Sprite.print f) ++
      u.stages.flatMap (Stage.print f)) [']']

/-- The lines of a document, without their endings. -/
def Document.lines (d : Document) : List Text :=
  d.comments.flatMap Comment.print ++ d.units.flatMap (CompilationUnit.print f)

/-- The source that a document is printed as. -/
def Document.print (d : Document) : Text :=
  (d.lines f).flatMap fun line => line ++ ['\r', '\n']

def Node.print : Node → List Text
  | .comment c => c.print
  | .unit u => u.print f
  | .library l => l.print f
  | .sprite s => s.print f
  | .stage s => s.print f
  | .definition d => d.print f
  | .trigger t => t.print f
  | .step s => s.print f

end print

/-- The line that closes a construct. -/
def Node.closing : Node → Text
  | .definition (.block d) => Returns.closing d.returns
  | .definition (.context d) => Returns.closing d.returns
  | _ => [']']

/-! ## Contents in lines -/

section lines

variable (f : NumberNotation)

theorem Contents.print_ofSteps (steps : List Step) (comments : List Comment) :
    (ofSteps steps comments).nodes.flatMap (Node.print f) =
      comments.flatMap Comment.print ++ Step.printAll f steps := by
  rw [Step.printAll_eq]
  simp [nodes, ofSteps, empty, Node.print, List.flatMap_map]

theorem Actor.print_contents (a : Actor) :
    a.contents.nodes.flatMap (Node.print f) = a.comments.flatMap Comment.print ++
      (a.definitions.flatMap (BlockDefinition.print f) ++ a.triggers.flatMap (Trigger.print f)) := by
  simp [Contents.nodes, contents, Contents.empty, Node.print, Definition.print, List.flatMap_map]

theorem Library.print_contents (l : Library) :
    (Node.library l).contents.nodes.flatMap (Node.print f) =
      l.comments.flatMap Comment.print ++ l.definitions.flatMap (Definition.print f) := by
  simp [Contents.nodes, Node.contents, Contents.empty, Node.print, List.flatMap_map]

theorem CompilationUnit.print_contents (u : CompilationUnit) :
    (Node.unit u).contents.nodes.flatMap (Node.print f) = u.comments.flatMap Comment.print ++
      (u.libraries.flatMap (Library.print f) ++ u.sprites.flatMap (Sprite.print f) ++
        u.stages.flatMap (Stage.print f)) := by
  simp [Contents.nodes, Node.contents, Contents.empty, Node.print, List.flatMap_map]

end lines

namespace Opening.Finishes

variable {b : Contents} {line : Line} {o : Opening} {node : Node}

/-- The printed lines of a construct. -/
theorem print_eq (f : NumberNotation) {depth : Nat} {header : Line} (h : Finishes b line o node)
    (ho : Says depth header o) :
    node.print f = o.print f :: (node.contents.nodes.flatMap (Node.print f) ++ [node.closing]) := by
  cases h with
  | unit name =>
    rw [CompilationUnit.print_contents]
    rfl
  | library name hue language =>
    rw [Library.print_contents]
    rfl
  | sprite name | stage name =>
    show Actor.print f _ b.actor = _ :: (b.actor.contents.nodes.flatMap _ ++ _)
    rw [Actor.print_contents]
    rfl
  | blockDefinition hr =>
    cases ho with
    | blockDefinition hs hb =>
      rename_i s returns
      obtain ⟨name, params, blockLists⟩ := s
      obtain rfl : blockLists = [] := hb
      show _ = _ :: ((Contents.ofSteps _ _).nodes.flatMap _ ++ _)
      rw [Contents.print_ofSteps]
      rfl
  | contextDefinition hr =>
    show _ = _ :: ((Contents.ofSteps _ _).nodes.flatMap _ ++ _)
    rw [Contents.print_ofSteps]
    rfl
  | triggerDefinition hl =>
    show _ = _ :: ((Contents.ofSteps _ _).nodes.flatMap _ ++ _)
    rw [Contents.print_ofSteps]
    rfl
  | trigger event =>
    show _ = _ :: ((Contents.ofSteps _ _).nodes.flatMap _ ++ _)
    rw [Contents.print_ofSteps]
    rfl
  | contextCall call =>
    show (Step.context _ _ _ _).print f = _ :: ((Contents.ofSteps _ _).nodes.flatMap _ ++ _)
    rw [Contents.print_ofSteps, Step.print]
    rfl

end Opening.Finishes
end BlockText
