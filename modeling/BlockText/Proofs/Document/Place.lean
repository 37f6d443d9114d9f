/-
Places of steps in a document.

A step stands in a definition or a trigger, at an index in its steps or in those of a context call
there, at any depth.  `Document.step?` finds the step at a place, and `Document.recode` puts other
code into the escape there and leaves all else as it is.
-/
import BlockText.Document

namespace BlockText

/-! ## Steps -/

namespace Step

/-- The step at this index in the steps of the context calls at these indices, the outermost one
first. -/
def at? (index : Nat) : List Nat → List Step → Option Step
  | [], steps => steps[index]?
  | i :: contexts, steps =>
    match steps[i]? with
    | some (context _ _ inner _) => at? index contexts inner
    | _ => none

/-- The escape with other code. -/
def recode (code : Text) : Step → Step
  | hosted returns _ => hosted returns code
  | s => s

/-- The context call with other steps. -/
def mapInner (f : List Step → List Step) : Step → Step
  | context name args steps comments => context name args (f steps) comments
  | s => s

/-- The steps with other code in the escape at this place. -/
def recodeAt (index : Nat) (code : Text) : List Nat → List Step → List Step
  | [], steps => steps.modify index (recode code)
  | i :: contexts, steps => steps.modify i (mapInner (recodeAt index code contexts))

theorem at?_recodeAt {index : Nat} {returns : Option Returns} {old : Text} (code : Text)
    {contexts : List Nat} {steps : List Step}
    (h : at? index contexts steps = some (hosted returns old)) :
    at? index contexts (recodeAt index code contexts steps) = some (hosted returns code) := by
  induction contexts generalizing steps with
  | nil =>
    have h : steps[index]? = some (hosted returns old) := h
    show (steps.modify index (recode code))[index]? = _
    rw [List.getElem?_modify_eq, h]
    rfl
  | cons i contexts ih =>
    rw [at?] at h
    split at h
    next name args inner comments hi =>
      rw [recodeAt, at?, List.getElem?_modify_eq, hi]
      exact ih h
    · cases h

end Step

/-! ## What holds steps -/

def BlockDefinition.mapSteps (f : List Step → List Step) (d : BlockDefinition) : BlockDefinition :=
  { d with steps := f d.steps }

def Definition.mapSteps (f : List Step → List Step) : Definition → Definition
  | block d => block (d.mapSteps f)
  | context d => context { d with steps := f d.steps }
  | trigger d => trigger { d with steps := f d.steps }

def Trigger.mapSteps (f : List Step → List Step) (t : Trigger) : Trigger :=
  { t with steps := f t.steps }

/-- What holds steps in a sprite or a stage. -/
inductive ActorPart
  | definition (index : Nat)
  | trigger (index : Nat)
  deriving DecidableEq

/-- What holds steps in a unit. -/
inductive UnitPart
  | library (library definition : Nat)
  | sprite (sprite : Nat) (part : ActorPart)
  | stage (stage : Nat) (part : ActorPart)
  deriving DecidableEq

namespace Actor

def steps? (a : Actor) : ActorPart → Option (List Step)
  | .definition i => a.definitions[i]?.map (·.steps)
  | .trigger i => a.triggers[i]?.map (·.steps)

def mapSteps (f : List Step → List Step) (a : Actor) : ActorPart → Actor
  | .definition i => { a with definitions := a.definitions.modify i (·.mapSteps f) }
  | .trigger i => { a with triggers := a.triggers.modify i (·.mapSteps f) }

end Actor

def Library.mapSteps (f : List Step → List Step) (l : Library) (index : Nat) : Library :=
  { l with definitions := l.definitions.modify index (·.mapSteps f) }

def Sprite.mapSteps (f : List Step → List Step) (s : Sprite) (part : ActorPart) : Sprite :=
  { s with actor := s.actor.mapSteps f part }

def Stage.mapSteps (f : List Step → List Step) (s : Stage) (part : ActorPart) : Stage :=
  { s with actor := s.actor.mapSteps f part }

namespace CompilationUnit

def steps? (u : CompilationUnit) : UnitPart → Option (List Step)
  | .library i j => do (← u.libraries[i]?).definitions[j]?.map (·.steps)
  | .sprite i part => do (← u.sprites[i]?).actor.steps? part
  | .stage i part => do (← u.stages[i]?).actor.steps? part

def mapSteps (f : List Step → List Step) (u : CompilationUnit) : UnitPart → CompilationUnit
  | .library i j => { u with libraries := u.libraries.modify i (·.mapSteps f j) }
  | .sprite i part => { u with sprites := u.sprites.modify i (·.mapSteps f part) }
  | .stage i part => { u with stages := u.stages.modify i (·.mapSteps f part) }

end CompilationUnit

/-! ## Documents -/

/-- A place of a step in a document. -/
structure StepPlace where
  unit : Nat
  part : UnitPart
  /-- The indices of the context calls around the step, the outermost one first. -/
  contexts : List Nat
  index : Nat
  deriving DecidableEq

namespace Document

def step? (d : Document) (p : StepPlace) : Option Step := do
  Step.at? p.index p.contexts (← (← d.units[p.unit]?).steps? p.part)

/-- The document with other code in the escape at this place. -/
def recode (d : Document) (p : StepPlace) (code : Text) : Document :=
  { d with units := d.units.modify p.unit (·.mapSteps (Step.recodeAt p.index code p.contexts) p.part) }

end Document

/-! ## The new code stands where the old code stood -/

theorem Definition.steps_mapSteps (f : List Step → List Step) (d : Definition) :
    (d.mapSteps f).steps = f d.steps := by
  cases d <;> rfl

theorem Actor.steps?_mapSteps (f : List Step → List Step) (a : Actor) (part : ActorPart) :
    (a.mapSteps f part).steps? part = (a.steps? part).map f := by
  cases part with
  | definition i =>
    show ((a.definitions.modify i _)[i]?).map _ = (a.definitions[i]?.map _).map f
    rw [List.getElem?_modify_eq, Option.map_eq_map, Option.map_map, Option.map_map]
    rfl
  | trigger i =>
    show ((a.triggers.modify i _)[i]?).map _ = (a.triggers[i]?.map _).map f
    rw [List.getElem?_modify_eq, Option.map_eq_map, Option.map_map, Option.map_map]
    rfl

theorem CompilationUnit.steps?_mapSteps (f : List Step → List Step) (u : CompilationUnit)
    (part : UnitPart) : (u.mapSteps f part).steps? part = (u.steps? part).map f := by
  cases part with
  | library i j =>
    show ((u.libraries.modify i _)[i]?).bind _ = (u.libraries[i]?.bind _).map f
    rw [List.getElem?_modify_eq]
    cases u.libraries[i]? with
    | none => rfl
    | some l =>
      show ((l.definitions.modify j _)[j]?).map _ = (l.definitions[j]?.map _).map f
      rw [List.getElem?_modify_eq, Option.map_eq_map, Option.map_map, Option.map_map]
      congr 1
      funext d
      exact Definition.steps_mapSteps f d
  | sprite i part =>
    show ((u.sprites.modify i _)[i]?).bind _ = (u.sprites[i]?.bind _).map f
    rw [List.getElem?_modify_eq]
    cases u.sprites[i]? with
    | none => rfl
    | some s => exact Actor.steps?_mapSteps f s.actor part
  | stage i part =>
    show ((u.stages.modify i _)[i]?).bind _ = (u.stages[i]?.bind _).map f
    rw [List.getElem?_modify_eq]
    cases u.stages[i]? with
    | none => rfl
    | some s => exact Actor.steps?_mapSteps f s.actor part

/-- The escape at a place has the code that is put there. -/
theorem Document.step?_recode {d : Document} {p : StepPlace} {returns : Option Returns} {old : Text}
    (h : d.step? p = some (.hosted returns old)) (code : Text) :
    (d.recode p code).step? p = some (.hosted returns code) := by
  obtain ⟨u, hu, h⟩ := Option.bind_eq_some_iff.mp h
  obtain ⟨steps, hsteps, h⟩ := Option.bind_eq_some_iff.mp h
  show ((d.units.modify p.unit _)[p.unit]?).bind _ = _
  rw [List.getElem?_modify_eq, hu]
  show ((u.mapSteps _ p.part).steps? p.part).bind _ = _
  rw [CompilationUnit.steps?_mapSteps, hsteps]
  exact Step.at?_recodeAt code h

end BlockText
