/-
A document is told from its interchange text.

The text tells the value that it writes, so what is left is that the value tells the document.  Each
construct is an object whose members, in a fixed order, are values of its parts; equal objects have
equal members, and the parts are told from these, down to the expressions.  Constructs that may stand
in one list differ in what they name as their type.
-/
import BlockText.Document.Json
import BlockText.Proofs.Json.Text

namespace BlockText

namespace Json

/-! ## Values that are put together -/

@[simp] theorem tagged_inj {type type' : String} {xs ys : List (String × Json)} :
    tagged type xs = tagged type' ys ↔ type = type' ∧
      xs.map (fun (key, x) => (key.toList, x)) = ys.map fun (key, x) => (key.toList, x) := by
  rw [tagged, tagged, object.injEq, List.cons.injEq, Prod.mk.injEq, string.injEq]
  simp only [true_and, String.toList_inj]

@[simp] theorem record_inj {xs ys : List (String × Json)} :
    record xs = record ys ↔
      xs.map (fun (key, x) => (key.toList, x)) = ys.map fun (key, x) => (key.toList, x) := by
  rw [record, record, object.injEq]

theorem typedName_inj {name name' type type' : Text} :
    typedName name type = typedName name' type' ↔ name = name' ∧ type = type' := by
  simp [typedName]

/-- Values in a list tell what they are values of, if each of them does. -/
theorem eq_of_map {α : Type} {f : α → Json} {xs ys : List α}
    (hf : ∀ a ∈ xs, ∀ b, f a = f b → a = b) (h : xs.map f = ys.map f) : xs = ys := by
  induction xs generalizing ys with
  | nil => exact (List.map_eq_nil_iff.mp h.symm).symm
  | cons x xs ih =>
    obtain ⟨y, ys', rfl, hx, hxs⟩ := List.map_eq_cons_iff.mp h.symm
    obtain ⟨hhead, htail⟩ := List.forall_mem_cons.mp hf
    rw [hhead y hx.symm, ih htail hxs.symm]

/-- An array of values tells what these are values of. -/
theorem array_map_inj {α : Type} {f : α → Json} (hf : ∀ a b, f a = f b → a = b) {xs ys : List α} :
    array (xs.map f) = array (ys.map f) ↔ xs = ys := by
  rw [array.injEq]
  exact ⟨eq_of_map fun a _ => hf a, fun h => by rw [h]⟩

/-- A value that may be missing is told, if it is not null. -/
theorem optional_map_inj {α : Type} {f : α → Json} (hf : ∀ a b, f a = f b → a = b)
    (hnull : ∀ a, f a ≠ null) {x y : Option α} :
    optional (x.map f) = optional (y.map f) ↔ x = y := by
  cases x with
  | none =>
    cases y with
    | none => exact ⟨fun _ => rfl, fun _ => rfl⟩
    | some b => exact ⟨fun h => absurd h.symm (hnull b), fun h => by cases h⟩
  | some a =>
    cases y with
    | none => exact ⟨fun h => absurd h (hnull a), fun h => by cases h⟩
    | some b => exact ⟨fun h => congrArg some (hf a b h), fun h => by rw [h]⟩

end Json

/-! ## Parts -/

@[simp] theorem Comment.toJson_inj {a b : Comment} : a.toJson = b.toJson ↔ a = b := by
  cases a
  cases b
  simp [toJson]

@[simp] theorem Parameter.toJson_inj {a b : Parameter} : a.toJson = b.toJson ↔ a = b := by
  cases a
  cases b
  simp [toJson, Json.typedName_inj]

@[simp] theorem Returns.toJson_inj {a b : Returns} : a.toJson = b.toJson ↔ a = b := by
  cases a
  cases b
  simp [toJson, Json.typedName_inj]

@[simp] theorem commentsToJson_inj {xs ys : List Comment} :
    commentsToJson xs = commentsToJson ys ↔ xs = ys :=
  Json.array_map_inj fun _ _ => Comment.toJson_inj.mp

@[simp] theorem parametersToJson_inj {xs ys : List Parameter} :
    parametersToJson xs = parametersToJson ys ↔ xs = ys :=
  Json.array_map_inj fun _ _ => Parameter.toJson_inj.mp

@[simp] theorem returnsToJson_inj {x y : Option Returns} :
    returnsToJson x = returnsToJson y ↔ x = y :=
  Json.optional_map_inj (fun _ _ => Returns.toJson_inj.mp) fun _ h => by cases h

/-! ## Expressions and steps -/

namespace Expression

theorem listToJson_eq_map (xs : List Expression) : listToJson xs = xs.map toJson := by
  induction xs with
  | nil => rfl
  | cons x xs ih => rw [listToJson, ih, List.map_cons]

theorem eq_of_toJson (a : Expression) : ∀ b : Expression, a.toJson = b.toJson → a = b := by
  intro b h
  match a, b with
  | number x, number y =>
    have hnumber : x = y := by simpa [toJson] using h
    rw [hnumber]
  | call name args, call name' args' =>
    have hparts : name = name' ∧ args.map toJson = args'.map toJson := by
      simpa [toJson, listToJson_eq_map] using h
    rw [hparts.1, Json.eq_of_map (fun x _ => eq_of_toJson x) hparts.2]
  | number _, call .. | call .., number _ => simp [toJson] at h

end Expression

@[simp] theorem argumentsToJson_inj {xs ys : List Expression} :
    argumentsToJson xs = argumentsToJson ys ↔ xs = ys := by
  rw [argumentsToJson, argumentsToJson, Expression.listToJson_eq_map, Expression.listToJson_eq_map]
  exact Json.array_map_inj Expression.eq_of_toJson

namespace Step

theorem listToJson_eq_map (xs : List Step) : listToJson xs = xs.map toJson := by
  induction xs with
  | nil => rfl
  | cons x xs ih => rw [listToJson, ih, List.map_cons]

theorem eq_of_toJson (a : Step) : ∀ b : Step, a.toJson = b.toJson → a = b := by
  intro b h
  match a, b with
  | call name args, call name' args' =>
    have hparts : name = name' ∧ args = args' := by simpa [toJson] using h
    rw [hparts.1, hparts.2]
  | context name args steps comments, context name' args' steps' comments' =>
    have hparts : name = name' ∧ args = args' ∧ steps.map toJson = steps'.map toJson ∧
        comments = comments' := by
      simpa [toJson, listToJson_eq_map] using h
    have hsteps : steps = steps' := Json.eq_of_map (fun s _ => eq_of_toJson s) hparts.2.2.1
    rw [hparts.1, hparts.2.1, hsteps, hparts.2.2.2]
  | hosted (some returns) code, hosted (some returns') code' =>
    have hparts : returns = returns' ∧ code = code' := by simpa [toJson] using h
    rw [hparts.1, hparts.2]
  | hosted none code, hosted none code' =>
    have hcode : code = code' := by simpa [toJson] using h
    rw [hcode]
  | call .., context .. | call .., hosted (some _) _ | call .., hosted none _
  | context .., call .. | context .., hosted (some _) _ | context .., hosted none _
  | hosted (some _) _, call .. | hosted (some _) _, context .. | hosted (some _) _, hosted none _
  | hosted none _, call .. | hosted none _, context .. | hosted none _, hosted (some _) _ =>
    simp [toJson] at h

end Step

@[simp] theorem stepsToJson_inj {xs ys : List Step} :
    stepsToJson xs = stepsToJson ys ↔ xs = ys := by
  rw [stepsToJson, stepsToJson, Step.listToJson_eq_map, Step.listToJson_eq_map]
  exact Json.array_map_inj Step.eq_of_toJson

/-! ## Definitions and triggers -/

@[simp] theorem BlockDefinition.toJson_inj {a b : BlockDefinition} :
    a.toJson = b.toJson ↔ a = b := by
  cases a
  cases b
  simp [toJson]

@[simp] theorem ContextDefinition.toJson_inj {a b : ContextDefinition} :
    a.toJson = b.toJson ↔ a = b := by
  cases a
  cases b
  simp [toJson]

@[simp] theorem TriggerDefinition.toJson_inj {a b : TriggerDefinition} :
    a.toJson = b.toJson ↔ a = b := by
  cases a
  cases b
  simp [toJson]

/-- The kinds of definitions differ in their types. -/
theorem Definition.toJson_inj {a b : Definition} : a.toJson = b.toJson ↔ a = b := by
  refine ⟨fun h => ?_, fun h => by rw [h]⟩
  match a, b with
  | block d, block d' => rw [BlockDefinition.toJson_inj.mp h]
  | context d, context d' => rw [ContextDefinition.toJson_inj.mp h]
  | trigger d, trigger d' => rw [TriggerDefinition.toJson_inj.mp h]
  | block _, context _ | block _, trigger _ | context _, block _ | context _, trigger _
  | trigger _, block _ | trigger _, context _ =>
    simp [toJson, BlockDefinition.toJson, ContextDefinition.toJson, TriggerDefinition.toJson] at h

@[simp] theorem Trigger.toJson_inj {a b : Trigger} : a.toJson = b.toJson ↔ a = b := by
  cases a
  cases b
  simp [toJson]

/-! ## Libraries, actors and units -/

/-- The members of an actor in their places tell the actor. -/
@[simp] theorem Actor.members_inj {a b : Actor} :
    (a.members.map fun (key, x) => (key.toList, x)) =
      b.members.map (fun (key, x) => (key.toList, x)) ↔ a = b := by
  cases a
  cases b
  simp [members, Json.array_map_inj fun _ _ => BlockDefinition.toJson_inj.mp,
    Json.array_map_inj fun _ _ => Trigger.toJson_inj.mp]

theorem Sprite.toJson_inj {a b : Sprite} : a.toJson = b.toJson ↔ a = b := by
  cases a
  cases b
  simp [toJson]

theorem Stage.toJson_inj {a b : Stage} : a.toJson = b.toJson ↔ a = b := by
  cases a
  cases b
  simp [toJson, Json.optional_map_inj (f := Json.string) (fun _ _ => Json.string.inj)
    fun _ h => by cases h]

theorem Library.toJson_inj {a b : Library} : a.toJson = b.toJson ↔ a = b := by
  cases a
  cases b
  simp [toJson, Int64.toInt_inj, Json.array_map_inj fun _ _ => Definition.toJson_inj.mp]

theorem CompilationUnit.toJson_inj {a b : CompilationUnit} : a.toJson = b.toJson ↔ a = b := by
  cases a
  cases b
  simp [toJson, Json.array_map_inj fun _ _ => Library.toJson_inj.mp,
    Json.array_map_inj fun _ _ => Sprite.toJson_inj.mp,
    Json.array_map_inj fun _ _ => Stage.toJson_inj.mp]

/-! ## Documents -/

namespace Document

theorem toJson_inj {a b : Document} : a.toJson = b.toJson ↔ a = b := by
  cases a
  cases b
  simp [toJson, Json.array_map_inj fun _ _ => CompilationUnit.toJson_inj.mp]

/-- Documents with one interchange text are equal. -/
theorem interchange_inj {a b : Document} : a.interchange = b.interchange ↔ a = b := by
  rw [interchange, interchange, Json.pretty_inj, toJson_inj]

end Document
end BlockText
