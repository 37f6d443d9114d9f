/-
Where paths lead, and what writing changes.

A path leads to a place only through directories (`FileTree.enclosed_of_locate`), so writing a file
makes no new directories and leaves all paths leading where they led (`FileTree.sameDirectories_set`,
`FileTree.locate_congr`).  What is written stands at its place, and all else stands as it stood
(`FileTree.lookup_set`).
-/
import Mathlib.Data.List.Basic
import Mathlib.Data.List.Infix
import BlockText.FileTree

namespace BlockText
namespace FileTree

/-! ## Directories -/

theorem isDirectory_iff {tree : FileTree} {place : Place} :
    tree.isDirectory place = true ↔
      (∀ name ∈ place, name = parentName) ∨ place = [root] ∨
        (∃ d ∈ tree.directories, place <+: d) ∨
        ∃ f ∈ tree.files, place <+: f.1 ∧ place.length < f.1.length := by
  rw [isDirectory]
  simp only [Bool.or_eq_true, List.all_eq_true, beq_iff_eq, List.any_eq_true,
    List.isPrefixOf_iff_prefix, Bool.and_eq_true, decide_eq_true_eq, or_assoc]

/-- What stands around a directory is a directory. -/
theorem isDirectory_around {tree : FileTree} {p place : Place}
    (h : tree.isDirectory place = true) (hp : p <+: place) : tree.isDirectory p = true := by
  rw [isDirectory_iff] at h ⊢
  rcases h with h | rfl | ⟨d, hd, h⟩ | ⟨f, hf, h, hlt⟩
  · exact Or.inl fun name hn => h name (hp.subset hn)
  · rcases List.prefix_cons_iff.mp hp with rfl | ⟨t, rfl, ht⟩
    · exact Or.inl fun name hn => absurd hn List.not_mem_nil
    · rw [List.prefix_nil.mp ht]
      exact Or.inr (Or.inl rfl)
  · exact Or.inr (Or.inr (Or.inl ⟨d, hd, hp.trans h⟩))
  · exact Or.inr (Or.inr (Or.inr ⟨f, hf, hp.trans h, Nat.lt_of_le_of_lt hp.length_le hlt⟩))

/-- All on the way to the place are directories. -/
def Enclosed (tree : FileTree) (place : Place) : Prop :=
  ∀ p, p <+: place → p ≠ place → tree.isDirectory p = true

theorem enclosed_inside {tree : FileTree} {p place : Place} (h : tree.isDirectory place = true)
    (hp : p <+: place) : tree.Enclosed p :=
  fun _ hq _ => isDirectory_around h (hq.trans hp)

/-! ## Where paths lead -/

/-- A name leads to the place itself, into it, or out of it. -/
theorem enter_cases (place : Place) (name : Text) :
    enter place name = place ∨ enter place name = place ++ [name] ∨
      enter place name = place.dropLast := by
  rw [enter]
  split
  · exact Or.inl rfl
  split
  · exact Or.inr (Or.inl rfl)
  split
  · exact Or.inl rfl
  split
  · exact Or.inr (Or.inl rfl)
  · exact Or.inr (Or.inr rfl)

theorem enclosed_enter {tree : FileTree} {place : Place} (h : tree.isDirectory place = true)
    (name : Text) : tree.Enclosed (enter place name) := by
  rcases enter_cases place name with he | he | he <;> rw [he]
  · exact enclosed_inside h List.prefix_rfl
  · intro p hp hne
    rcases List.prefix_concat_iff.mp hp with rfl | hp
    · exact absurd rfl hne
    · exact isDirectory_around h hp
  · exact enclosed_inside h (List.dropLast_prefix place)

theorem follow_cons_eq_ok_iff {tree : FileTree} {place q : Place} {name : Text}
    {names : List Text} :
    tree.follow place (name :: names) = .ok q ↔
      tree.isDirectory place = true ∧ name.byteLength ≤ nameLimit ∧
        tree.follow (enter place name) names = .ok q := by
  rw [follow]
  split
  next hd =>
    split
    next hlong => simp only [reduceCtorEq, false_iff, not_and, Nat.not_le_of_lt hlong, hd,
        false_and, not_false_eq_true, implies_true]
    next hshort => simp only [hd, Nat.le_of_not_lt hshort, true_and]
  next hd =>
    refine iff_of_false ?_ fun h => hd h.1
    split <;> exact fun h => nomatch h

theorem enclosed_of_follow {tree : FileTree} {place q : Place} {names : List Text}
    (hp : tree.Enclosed place) (h : tree.follow place names = .ok q) : tree.Enclosed q := by
  induction names generalizing place with
  | nil =>
    cases h
    exact hp
  | cons name names ih =>
    obtain ⟨hd, -, h⟩ := follow_cons_eq_ok_iff.mp h
    exact ih (enclosed_enter hd name) h

/-- Where the names of a path are followed from, and the names. -/
def origin (path : Text) : Place × List Text :=
  if path.head? = some '/' then ([root], path.tail.splitOn '/') else ([], path.splitOn '/')

theorem locate_eq_ok_iff {tree : FileTree} {path : Text} {place : Place} :
    tree.locate path = .ok place ↔ isPathTooLong path = false ∧ path ≠ [] ∧
      tree.follow (origin path).1 (origin path).2 = .ok place := by
  unfold locate
  split
  next hlong => rw [hlong]; exact iff_of_false (fun h => nomatch h) fun h => nomatch h.1
  next hshort =>
    rw [eq_false_of_ne_true hshort]
    split
    · exact iff_of_false (fun h => nomatch h) fun h => h.2.1 rfl
    · exact ⟨fun h => ⟨rfl, List.cons_ne_nil _ _, h⟩, fun h => h.2.2⟩
    next hne hslash =>
      have hhead : path.head? ≠ some '/' := by
        intro h
        obtain ⟨rest, rfl⟩ := List.head?_eq_some_iff.mp h
        exact hslash rest rfl
      rw [origin, if_neg hhead]
      exact ⟨fun h => ⟨rfl, hne, h⟩, fun h => h.2.2⟩

/-- Every path starts from a directory. -/
theorem isDirectory_origin (tree : FileTree) (path : Text) :
    tree.isDirectory (origin path).1 = true := by
  have hroot : tree.isDirectory [root] = true := isDirectory_iff.mpr (Or.inr (Or.inl rfl))
  rw [origin]
  split
  · exact hroot
  · exact isDirectory_around hroot List.nil_prefix

/-- A path leads to a place through directories only. -/
theorem enclosed_of_locate {tree : FileTree} {path : Text} {place : Place}
    (h : tree.locate path = .ok place) : tree.Enclosed place :=
  enclosed_of_follow (enclosed_inside (isDirectory_origin tree path) List.prefix_rfl)
    (locate_eq_ok_iff.mp h).2.2

/-- The same places are directories in both trees. -/
def SameDirectories (tree tree' : FileTree) : Prop :=
  ∀ place, tree'.isDirectory place = tree.isDirectory place

theorem SameDirectories.trans {a b c : FileTree} (h : SameDirectories a b)
    (h' : SameDirectories b c) : SameDirectories a c :=
  fun place => (h' place).trans (h place)

theorem follow_congr {tree tree' : FileTree} (h : SameDirectories tree tree') {place q : Place}
    {names : List Text} : tree'.follow place names = .ok q ↔ tree.follow place names = .ok q := by
  induction names generalizing place with
  | nil => rfl
  | cons name names ih => rw [follow_cons_eq_ok_iff, follow_cons_eq_ok_iff, h place, ih]

/-- Paths lead to the same places where the same places are directories. -/
theorem locate_congr {tree tree' : FileTree} (h : SameDirectories tree tree') {path : Text}
    {place : Place} : tree'.locate path = .ok place ↔ tree.locate path = .ok place := by
  rw [locate_eq_ok_iff, locate_eq_ok_iff, follow_congr h]

/-! ## Reading -/

/-- What is read at a path, where it leads to a place. -/
def readAt (tree : FileTree) (place : Place) : Except FileError Text :=
  match tree.files.lookup place with
  | some (.text t) => .ok t
  | some .undecodable => .error .undecodable
  | none => if tree.isDirectory place then .error .isDirectory else .error .notFound

theorem read_of_locate {tree : FileTree} {path : Text} {place : Place}
    (h : tree.locate path = .ok place) : tree.read path = tree.readAt place := by
  rw [read, h]
  rfl

theorem readAt_of_lookup {tree : FileTree} {place : Place} {t : Text}
    (h : tree.files.lookup place = some (.text t)) : tree.readAt place = .ok t := by
  rw [readAt, h]

theorem readAt_congr {tree tree' : FileTree} (h : SameDirectories tree tree') {place : Place}
    (hl : tree'.files.lookup place = tree.files.lookup place) :
    tree'.readAt place = tree.readAt place := by
  rw [readAt, readAt, hl, h place]

theorem exists_locate_of_read {tree : FileTree} {path t : Text} (h : tree.read path = .ok t) :
    ∃ place, tree.locate path = .ok place := by
  cases hp : tree.locate path with
  | ok place => exact ⟨place, rfl⟩
  | error e =>
    rw [read, hp] at h
    cases h

/-! ## Writing -/

/-- What is looked up in changed files is what is looked up in the files, changed. -/
theorem lookup_map (files : List (Place × Content)) (f : Place → Content → Content) (q : Place) :
    (files.map fun (p, c) => (p, f p c)).lookup q = (files.lookup q).map (f q) := by
  induction files with
  | nil => rfl
  | cons file files ih =>
    rw [List.map_cons, List.lookup_cons, List.lookup_cons, ih]
    by_cases hq : q = file.1
    · rw [← hq, beq_self_eq_true]
      rfl
    · rw [beq_eq_false_iff_ne.mpr hq]

/-- What is set stands at its place, and all else stands as it stood. -/
theorem lookup_set (tree : FileTree) (place : Place) (content : Content) (q : Place) :
    (tree.set place content).files.lookup q =
      if q = place then some content else tree.files.lookup q := by
  rw [set]
  split
  next h =>
    show (tree.files.map _).lookup q = _
    rw [lookup_map tree.files fun p c => if p == place then content else c]
    by_cases hq : q = place
    · obtain ⟨c, hc⟩ := Option.isSome_iff_exists.mp h
      rw [if_pos hq, hq, hc, beq_self_eq_true]
      rfl
    · rw [if_neg hq, beq_eq_false_iff_ne.mpr hq]
      exact Option.map_id_fun' ▸ rfl
  next h =>
    have hnone : tree.files.lookup place = none := Option.not_isSome_iff_eq_none.mp h
    rw [List.lookup_append, List.lookup_cons, List.lookup_nil]
    by_cases hq : q = place
    · rw [if_pos hq, hq, hnone, beq_self_eq_true]
      rfl
    · rw [if_neg hq, beq_eq_false_iff_ne.mpr hq]
      exact Option.or_none

/-- Setting a file makes no directories where its place is among directories already. -/
theorem sameDirectories_set {tree : FileTree} {place : Place} (h : tree.Enclosed place)
    (content : Content) : SameDirectories tree (tree.set place content) := by
  intro q
  rw [Bool.eq_iff_iff, isDirectory_iff, isDirectory_iff, set]
  split
  · simp only [List.mem_map, Prod.exists, Prod.mk.injEq]
    refine or_congr_right (or_congr_right (or_congr_right ?_))
    constructor
    · rintro ⟨p, c, ⟨p', c', hm, rfl, -⟩, hp⟩
      exact ⟨p', c', hm, hp⟩
    · rintro ⟨p, c, hm, hp⟩
      exact ⟨p, _, ⟨p, c, hm, rfl, rfl⟩, hp⟩
  · constructor
    · rintro (hq | hq | hq | ⟨f, hf, hq⟩)
      · exact Or.inl hq
      · exact Or.inr (Or.inl hq)
      · exact Or.inr (Or.inr (Or.inl hq))
      · rcases List.mem_append.mp hf with hf | hf
        · exact Or.inr (Or.inr (Or.inr ⟨f, hf, hq⟩))
        · rw [List.mem_singleton.mp hf] at hq
          refine isDirectory_iff.mp (h q hq.1 fun he => ?_)
          rw [he] at hq
          exact absurd hq.2 (Nat.lt_irrefl _)
    · rintro (hq | hq | hq | ⟨f, hf, hq⟩)
      · exact Or.inl hq
      · exact Or.inr (Or.inl hq)
      · exact Or.inr (Or.inr (Or.inl hq))
      · exact Or.inr (Or.inr (Or.inr ⟨f, List.mem_append_left _ hf, hq⟩))

/-- A text can be written where a path leads to a place that is no directory. -/
theorem write_eq_ok_iff {tree tree' : FileTree} {path t : Text} :
    tree.write path t = .ok tree' ↔ ∃ place, tree.locate path = .ok place ∧
      tree.isDirectory place = false ∧ tree' = tree.set place (.text t) := by
  cases hp : tree.locate path with
  | error e =>
    rw [write, hp]
    exact iff_of_false (fun h => nomatch h) fun ⟨_, h, _⟩ => nomatch h
  | ok place =>
    rw [write, hp]
    show (if tree.isDirectory place then Except.error FileError.isDirectory
      else .ok (tree.set place (.text t))) = .ok tree' ↔ _
    split
    next hd =>
      refine iff_of_false (fun h => nomatch h) ?_
      rintro ⟨_, h, hf, -⟩
      cases h
      rw [hd] at hf
      cases hf
    next hd =>
      constructor
      · intro h
        cases h
        exact ⟨place, rfl, eq_false_of_ne_true hd, rfl⟩
      · rintro ⟨_, h, -, rfl⟩
        cases h
        rfl

end FileTree
end BlockText
