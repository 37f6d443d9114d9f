/-
Contents and the constructs in them.

Contents keep finished constructs by kind.  `Contents.ofNodes` makes them of constructs in any order,
and `Contents.nodes` lists the constructs of contents kind by kind, so it loses nothing
(`ofNodes_nodes`).  `Node.contents` gives what a finished construct holds.
-/
import Mathlib.Data.List.Basic
import BlockText.Reading.Contents

namespace BlockText

/-! ## What contents hold -/

attribute [ext] Contents

/-- The construct is among the contents. -/
def Contents.Holds (b : Contents) : Node → Prop
  | .comment c => c ∈ b.comments
  | .unit u => u ∈ b.units
  | .library l => l ∈ b.libraries
  | .sprite s => s ∈ b.sprites
  | .stage s => s ∈ b.stages
  | .definition d => d ∈ b.definitions
  | .trigger t => t ∈ b.triggers
  | .step s => s ∈ b.steps

theorem Contents.not_holds_empty (n : Node) : ¬ Contents.empty.Holds n := by
  cases n <;> exact List.not_mem_nil

theorem Contents.holds_add {b : Contents} {node n : Node} :
    (b.add node).Holds n ↔ b.Holds n ∨ n = node := by
  cases node <;> cases n <;> simp [Contents.add, Contents.Holds]

/-! ## What contents consist of -/

/-- The contents that consist of these, in this order. -/
def Contents.ofNodes (nodes : List Node) : Contents := nodes.foldl Contents.add .empty

namespace Node

@[simp] def comment? : Node → Option Comment
  | .comment c => some c
  | _ => none

@[simp] def unit? : Node → Option CompilationUnit
  | .unit u => some u
  | _ => none

@[simp] def library? : Node → Option Library
  | .library l => some l
  | _ => none

@[simp] def sprite? : Node → Option Sprite
  | .sprite s => some s
  | _ => none

@[simp] def stage? : Node → Option Stage
  | .stage s => some s
  | _ => none

@[simp] def definition? : Node → Option Definition
  | .definition d => some d
  | _ => none

@[simp] def trigger? : Node → Option Trigger
  | .trigger t => some t
  | _ => none

@[simp] def step? : Node → Option Step
  | .step s => some s
  | _ => none

/-! A selector gives what a construct of its kind was made of. -/

theorem eq_of_unit? {n : Node} {u : CompilationUnit} (h : n.unit? = some u) : n = .unit u := by
  cases n with
  | unit => cases h; rfl
  | _ => cases h

theorem eq_of_library? {n : Node} {l : Library} (h : n.library? = some l) : n = .library l := by
  cases n with
  | library => cases h; rfl
  | _ => cases h

theorem eq_of_sprite? {n : Node} {s : Sprite} (h : n.sprite? = some s) : n = .sprite s := by
  cases n with
  | sprite => cases h; rfl
  | _ => cases h

theorem eq_of_stage? {n : Node} {s : Stage} (h : n.stage? = some s) : n = .stage s := by
  cases n with
  | stage => cases h; rfl
  | _ => cases h

theorem eq_of_definition? {n : Node} {d : Definition} (h : n.definition? = some d) :
    n = .definition d := by
  cases n with
  | definition => cases h; rfl
  | _ => cases h

theorem eq_of_trigger? {n : Node} {t : Trigger} (h : n.trigger? = some t) : n = .trigger t := by
  cases n with
  | trigger => cases h; rfl
  | _ => cases h

theorem eq_of_step? {n : Node} {s : Step} (h : n.step? = some s) : n = .step s := by
  cases n with
  | step => cases h; rfl
  | _ => cases h

theorem eq_of_block? {n : Node} {d : BlockDefinition}
    (h : n.definition?.bind Definition.block? = some d) : n = .definition (.block d) := by
  obtain ⟨d', hn, hd⟩ := Option.bind_eq_some_iff.mp h
  rw [eq_of_definition? hn]
  cases d' with
  | block => cases hd; rfl
  | _ => cases hd

end Node

namespace Contents

theorem ofNodes_append (xs ys : List Node) :
    ofNodes (xs ++ ys) = ys.foldl add (ofNodes xs) :=
  List.foldl_append

/-- Contents hold the constructs of each kind, in order. -/
theorem ofNodes_eq (nodes : List Node) :
    ofNodes nodes = ⟨nodes.filterMap Node.comment?, nodes.filterMap Node.unit?,
      nodes.filterMap Node.library?, nodes.filterMap Node.sprite?, nodes.filterMap Node.stage?,
      nodes.filterMap Node.definition?, nodes.filterMap Node.trigger?,
      nodes.filterMap Node.step?⟩ := by
  have hadd : ∀ (nodes : List Node) (b : Contents), nodes.foldl add b =
      ⟨b.comments ++ nodes.filterMap Node.comment?, b.units ++ nodes.filterMap Node.unit?,
        b.libraries ++ nodes.filterMap Node.library?, b.sprites ++ nodes.filterMap Node.sprite?,
        b.stages ++ nodes.filterMap Node.stage?,
        b.definitions ++ nodes.filterMap Node.definition?,
        b.triggers ++ nodes.filterMap Node.trigger?, b.steps ++ nodes.filterMap Node.step?⟩ := by
    intro nodes
    induction nodes with
    | nil => intro b; simp only [List.foldl_nil, List.filterMap_nil, List.append_nil]
    | cons node nodes ih =>
      intro b
      rw [List.foldl_cons, ih]
      cases node <;> simp [add, List.filterMap_cons]
  exact hadd nodes empty

section projections

variable (nodes : List Node)

@[simp] theorem comments_ofNodes : (ofNodes nodes).comments = nodes.filterMap Node.comment? := by
  rw [ofNodes_eq]

@[simp] theorem units_ofNodes : (ofNodes nodes).units = nodes.filterMap Node.unit? := by
  rw [ofNodes_eq]

@[simp] theorem libraries_ofNodes : (ofNodes nodes).libraries = nodes.filterMap Node.library? := by
  rw [ofNodes_eq]

@[simp] theorem sprites_ofNodes : (ofNodes nodes).sprites = nodes.filterMap Node.sprite? := by
  rw [ofNodes_eq]

@[simp] theorem stages_ofNodes : (ofNodes nodes).stages = nodes.filterMap Node.stage? := by
  rw [ofNodes_eq]

@[simp] theorem definitions_ofNodes :
    (ofNodes nodes).definitions = nodes.filterMap Node.definition? := by
  rw [ofNodes_eq]

@[simp] theorem triggers_ofNodes : (ofNodes nodes).triggers = nodes.filterMap Node.trigger? := by
  rw [ofNodes_eq]

@[simp] theorem steps_ofNodes : (ofNodes nodes).steps = nodes.filterMap Node.step? := by
  rw [ofNodes_eq]

@[simp] theorem blocks_ofNodes : (ofNodes nodes).actor.definitions =
    nodes.filterMap fun n => n.definition?.bind Definition.block? := by
  rw [actor, definitions_ofNodes, List.filterMap_filterMap]

end projections

/-! ## The constructs of contents -/

/-- All constructs of the contents, kind by kind. -/
def nodes (b : Contents) : List Node :=
  b.comments.map .comment ++ b.units.map .unit ++ b.libraries.map .library ++
    b.sprites.map .sprite ++ b.stages.map .stage ++ b.definitions.map .definition ++
    b.triggers.map .trigger ++ b.steps.map .step

theorem mem_nodes_iff {b : Contents} {n : Node} : n ∈ b.nodes ↔ b.Holds n := by
  cases n <;> simp [nodes, Holds]

/-- Contents consist of their constructs. -/
theorem ofNodes_nodes (b : Contents) : ofNodes b.nodes = b := by
  simp [ofNodes_eq, nodes, Function.comp_def]

end Contents

/-! ## What a construct holds -/

/-- What a sprite or a stage holds. -/
def Actor.contents (a : Actor) : Contents :=
  { Contents.empty with
    comments := a.comments, definitions := a.definitions.map .block, triggers := a.triggers }

/-- Steps and comments. -/
def Contents.ofSteps (steps : List Step) (comments : List Comment) : Contents :=
  { Contents.empty with comments := comments, steps := steps }

/-- What a construct holds. -/
def Node.contents : Node → Contents
  | .comment _ => .empty
  | .unit u =>
    { Contents.empty with
      comments := u.comments, libraries := u.libraries, sprites := u.sprites, stages := u.stages }
  | .library l => { Contents.empty with comments := l.comments, definitions := l.definitions }
  | .sprite s => s.actor.contents
  | .stage s => s.actor.contents
  | .definition (.block d) => .ofSteps d.steps d.comments
  | .definition (.context d) => .ofSteps d.steps d.comments
  | .definition (.trigger d) => .ofSteps d.steps d.comments
  | .trigger t => .ofSteps t.steps t.comments
  | .step (.context _ _ steps comments) => .ofSteps steps comments
  | .step _ => .empty

/-- The constructs outside all others. -/
def Document.contents (d : Document) : Contents :=
  { Contents.empty with comments := d.comments, units := d.units }

theorem Actor.actor_contents (a : Actor) : a.contents.actor = a := by
  have hblocks : (a.definitions.map Definition.block).filterMap Definition.block? =
      a.definitions := by
    rw [List.filterMap_map]
    exact List.filterMap_some
  rw [Contents.actor, contents, hblocks]

theorem Definition.mem_of_block? {definitions : List Definition} {d : Definition}
    (h : d ∈ (definitions.filterMap Definition.block?).map Definition.block) : d ∈ definitions := by
  obtain ⟨d', hd', rfl⟩ := List.mem_map.mp h
  obtain ⟨e, he, hblock⟩ := List.mem_filterMap.mp hd'
  cases e with
  | block d =>
    cases hblock
    exact he
  | context | trigger => cases hblock

end BlockText
