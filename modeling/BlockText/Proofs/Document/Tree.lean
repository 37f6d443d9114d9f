/-
All constructs of a document.

`Document.constructs` lists the constructs of a document, at any depth and each as often as it stands
there.  A construct comes with those of its contents (`Node.constructs_eq`), so what is summed over a
document can be summed along the contents of its constructs.
-/
import BlockText.Proofs.Reading.Constructs

namespace BlockText

/-! ## A construct and those inside it -/

def Comment.constructs (c : Comment) : List Node := [.comment c]

mutual

def Step.constructs : Step → List Node
  | .call name args => [.step (.call name args)]
  | .context name args steps comments =>
    .step (.context name args steps comments) ::
      (comments.flatMap Comment.constructs ++ constructsOf steps)
  | .hosted returns code => [.step (.hosted returns code)]

def Step.constructsOf : List Step → List Node
  | [] => []
  | step :: steps => step.constructs ++ constructsOf steps

end

theorem Step.constructsOf_eq (steps : List Step) :
    constructsOf steps = steps.flatMap Step.constructs := by
  induction steps with
  | nil => rfl
  | cons step steps ih => rw [constructsOf, ih, List.flatMap_cons]

def Definition.constructs : Definition → List Node
  | block d =>
    .definition (block d) :: (d.comments.flatMap Comment.constructs ++ Step.constructsOf d.steps)
  | context d =>
    .definition (context d) :: (d.comments.flatMap Comment.constructs ++ Step.constructsOf d.steps)
  | trigger d =>
    .definition (trigger d) :: (d.comments.flatMap Comment.constructs ++ Step.constructsOf d.steps)

def Trigger.constructs (t : Trigger) : List Node :=
  .trigger t :: (t.comments.flatMap Comment.constructs ++ Step.constructsOf t.steps)

/-- The constructs inside a sprite or a stage. -/
def Actor.constructs (a : Actor) : List Node :=
  a.comments.flatMap Comment.constructs ++
    a.definitions.flatMap (fun d => (Definition.block d).constructs) ++
    a.triggers.flatMap Trigger.constructs

def Library.constructs (l : Library) : List Node :=
  .library l ::
    (l.comments.flatMap Comment.constructs ++ l.definitions.flatMap Definition.constructs)

def Sprite.constructs (s : Sprite) : List Node := .sprite s :: s.actor.constructs

def Stage.constructs (s : Stage) : List Node := .stage s :: s.actor.constructs

def CompilationUnit.constructs (u : CompilationUnit) : List Node :=
  .unit u :: (u.comments.flatMap Comment.constructs ++ u.libraries.flatMap Library.constructs ++
    u.sprites.flatMap Sprite.constructs ++ u.stages.flatMap Stage.constructs)

/-- All constructs of the document. -/
def Document.constructs (d : Document) : List Node :=
  d.comments.flatMap Comment.constructs ++ d.units.flatMap CompilationUnit.constructs

def Node.constructs : Node → List Node
  | .comment c => c.constructs
  | .unit u => u.constructs
  | .library l => l.constructs
  | .sprite s => s.constructs
  | .stage s => s.constructs
  | .definition d => d.constructs
  | .trigger t => t.constructs
  | .step s => s.constructs

/-! ## Constructs along contents -/

/-- The constructs of the contents and those inside them. -/
def Contents.constructs (b : Contents) : List Node := b.nodes.flatMap Node.constructs

theorem Contents.constructs_eq (b : Contents) :
    b.constructs = b.comments.flatMap Comment.constructs ++
      b.units.flatMap CompilationUnit.constructs ++ b.libraries.flatMap Library.constructs ++
      b.sprites.flatMap Sprite.constructs ++ b.stages.flatMap Stage.constructs ++
      b.definitions.flatMap Definition.constructs ++ b.triggers.flatMap Trigger.constructs ++
      b.steps.flatMap Step.constructs := by
  simp only [constructs, nodes, List.flatMap_append, List.flatMap_map, Node.constructs]

/-- A construct comes with the constructs of its contents. -/
theorem Node.constructs_eq (n : Node) : n.constructs = n :: n.contents.constructs := by
  rw [Contents.constructs_eq]
  cases n with
  | comment c => rfl
  | unit u =>
    simp [constructs, contents, CompilationUnit.constructs, Contents.empty]
  | library l =>
    simp [constructs, contents, Library.constructs, Contents.empty]
  | sprite s =>
    simp [constructs, contents, Sprite.constructs, Actor.constructs, Actor.contents, Contents.empty,
      List.flatMap_map]
  | stage s =>
    simp [constructs, contents, Stage.constructs, Actor.constructs, Actor.contents, Contents.empty,
      List.flatMap_map]
  | definition d =>
    cases d <;> simp [constructs, contents, Definition.constructs, Contents.ofSteps,
      Contents.empty, Step.constructsOf_eq]
  | trigger t =>
    simp [constructs, contents, Trigger.constructs, Contents.ofSteps, Contents.empty,
      Step.constructsOf_eq]
  | step s =>
    cases s with
    | call name args => rfl
    | context name args steps comments =>
      simp [constructs, contents, Step.constructs, Contents.ofSteps, Contents.empty,
        Step.constructsOf_eq]
    | hosted returns code => rfl

theorem Document.constructs_eq (d : Document) : d.constructs = d.contents.constructs := by
  simp [constructs, Contents.constructs_eq, contents, Contents.empty]

/-! ## Nothing is left out -/

namespace Contents

theorem mem_constructs_iff {b : Contents} {n : Node} :
    n ∈ b.constructs ↔ ∃ m, b.Holds m ∧ n ∈ m.constructs := by
  simp only [constructs, List.mem_flatMap, mem_nodes_iff]

end Contents

namespace Node

theorem mem_constructs_iff {n m : Node} :
    m ∈ n.constructs ↔ m = n ∨ ∃ k, n.contents.Holds k ∧ m ∈ k.constructs := by
  rw [constructs_eq, List.mem_cons, Contents.mem_constructs_iff]

theorem mem_constructs_self (n : Node) : n ∈ n.constructs := mem_constructs_iff.mpr (Or.inl rfl)

theorem length_constructs_lt {n m : Node} (h : n.contents.Holds m) :
    m.constructs.length < n.constructs.length := by
  obtain ⟨before, after, hnodes⟩ := List.append_of_mem (Contents.mem_nodes_iff.mpr h)
  rw [constructs_eq n, Contents.constructs, hnodes, List.flatMap_append, List.flatMap_cons]
  simp only [List.length_cons, List.length_append]
  omega

/-- What holds of a construct if it holds of what that contains, holds of all constructs. -/
theorem contents_induction {P : Node → Prop} (h : ∀ n, (∀ m, n.contents.Holds m → P m) → P n)
    (n : Node) : P n :=
  h n fun m _ => contents_induction h m
termination_by n.constructs.length
decreasing_by exact length_constructs_lt ‹_›

/-- What a construct inside another one holds is inside that too. -/
theorem mem_constructs_of_holds {n m k : Node} (hm : m ∈ n.constructs)
    (hk : m.contents.Holds k) : k ∈ n.constructs := by
  induction n using contents_induction with
  | h n ih =>
    rcases mem_constructs_iff.mp hm with rfl | ⟨l, hl, hml⟩
    · exact mem_constructs_iff.mpr (Or.inr ⟨k, hk, k.mem_constructs_self⟩)
    · exact mem_constructs_iff.mpr (Or.inr ⟨l, hl, ih l hl hml⟩)

end Node

namespace Document

theorem at_of_holds {d : Document} {n : Node} (h : d.contents.Holds n) : d.At [] n := by
  cases n with
  | comment c => exact .comment h
  | unit u => exact .unit h
  | _ => exact absurd h List.not_mem_nil

theorem exists_at_of_mem {d : Document} {around : List Node} {n m : Node} (hn : d.At around n)
    (hm : m ∈ n.constructs) : ∃ around, d.At around m := by
  induction n using Node.contents_induction generalizing around with
  | h n ih =>
    rcases Node.mem_constructs_iff.mp hm with rfl | ⟨k, hk, hmk⟩
    · exact ⟨around, hn⟩
    · exact ih k hk (hn.inside hk) hmk

/-- The constructs that are listed are those that stand in the document. -/
theorem mem_constructs_iff {d : Document} {n : Node} :
    n ∈ d.constructs ↔ ∃ around, d.At around n := by
  constructor
  · intro h
    rw [constructs_eq, Contents.mem_constructs_iff] at h
    obtain ⟨m, hm, hn⟩ := h
    exact exists_at_of_mem (at_of_holds hm) hn
  · rintro ⟨around, h⟩
    have houtside : ∀ {m : Node}, d.contents.Holds m → m ∈ d.constructs := fun hm => by
      rw [constructs_eq, Contents.mem_constructs_iff]
      exact ⟨_, hm, Node.mem_constructs_self _⟩
    induction h with
    | comment h => exact houtside (show d.contents.Holds (.comment _) from h)
    | unit h => exact houtside (show d.contents.Holds (.unit _) from h)
    | inside _ hk ih =>
      rw [constructs_eq, Contents.mem_constructs_iff] at ih ⊢
      obtain ⟨l, hl, hm⟩ := ih
      exact ⟨l, hl, Node.mem_constructs_of_holds hm hk⟩

end Document
end BlockText
