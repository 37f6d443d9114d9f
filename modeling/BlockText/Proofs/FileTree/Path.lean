/-
Paths that are put together.

`FileTree.join` puts names behind the path of a directory.  The path that it makes leads from where
the directory is along these names (`FileTree.locate_join`), and names may be put behind it one after
another (`FileTree.join_join`).  Both need that the names are those of files: a name that is empty or
holds a slash would be read as other names.
-/
import Mathlib.Data.List.Nodup
import BlockText.Proofs.FileTree.Locate

namespace BlockText
namespace FileTree

/-! ## Names of files -/

/-- The name of a file or a directory. -/
structure IsName (name : Text) : Prop where
  ne_nil : name ≠ []
  slash : '/' ∉ name
  ne_here : name ≠ ['.']
  ne_parent : name ≠ parentName
  short : name.byteLength ≤ nameLimit

instance (name : Text) : Decidable (IsName name) :=
  decidable_of_iff (name ≠ [] ∧ '/' ∉ name ∧ name ≠ ['.'] ∧ name ≠ parentName ∧
      name.byteLength ≤ nameLimit)
    ⟨fun ⟨a, b, c, d, e⟩ => ⟨a, b, c, d, e⟩, fun ⟨a, b, c, d, e⟩ => ⟨a, b, c, d, e⟩⟩

theorem enter_of_isName {name : Text} (h : IsName name) (place : Place) :
    enter place name = place ++ [name] := by
  have hnil : (name == []) = false := beq_eq_false_iff_ne.mpr h.ne_nil
  have hhere : (name == ['.']) = false := beq_eq_false_iff_ne.mpr h.ne_here
  have hparent : (name != parentName) = true := bne_iff_ne.mpr h.ne_parent
  rw [enter, hnil, hhere, hparent]
  rfl

/-! ## Paths of files -/

/-- The path with a slash at its end. -/
def slashed (path : Text) : Text := if ['/'].isSuffixOf path then path else path ++ ['/']

theorem join_eq (path : Text) (names : List Text) :
    join path names = slashed path ++ ['/'].intercalate names := rfl

theorem slashed_append {name : Text} (h : IsName name) (path : Text) :
    slashed (path ++ name) = path ++ name ++ ['/'] := by
  rw [slashed, if_neg]
  intro hs
  have hs := List.isSuffixOf_iff_suffix.mp hs
  rcases List.suffix_or_suffix_of_suffix hs (List.suffix_append path name) with hs | hs
  · exact h.slash (hs.subset List.mem_cons_self)
  · rcases List.suffix_cons_iff.mp hs with he | he
    · exact h.slash (he ▸ List.mem_cons_self)
    · exact h.ne_nil (List.suffix_nil.mp he)

/-- The path of what is in a directory is made from the path of the directory. -/
theorem join_join {name : Text} (h : IsName name) (path : Text) {names : List Text}
    (hne : names ≠ []) : join (join path [name]) names = join path (name :: names) := by
  obtain ⟨next, names, rfl⟩ := List.exists_cons_of_ne_nil hne
  rw [join_eq, join_eq, join_eq, List.intercalate_singleton, slashed_append h,
    List.intercalate_cons_cons, List.append_assoc, List.append_assoc, List.append_assoc]

/-! ## Where they lead -/

theorem follow_append {tree : FileTree} {place q : Place} {xs ys : List Text} :
    tree.follow place (xs ++ ys) = .ok q ↔
      ∃ r, tree.follow place xs = .ok r ∧ tree.follow r ys = .ok q := by
  induction xs generalizing place with
  | nil => exact ⟨fun h => ⟨place, rfl, h⟩, fun ⟨r, hr, h⟩ => Except.ok.inj hr ▸ h⟩
  | cons name names ih =>
    rw [List.cons_append, follow_cons_eq_ok_iff, ih]
    simp only [follow_cons_eq_ok_iff]
    exact ⟨fun ⟨hd, hs, r, hr, h⟩ => ⟨r, ⟨hd, hs, hr⟩, h⟩,
      fun ⟨r, ⟨hd, hs, hr⟩, h⟩ => ⟨hd, hs, r, hr, h⟩⟩

/-- Names of directories lead down. -/
theorem follow_names {tree : FileTree} {place : Place} {names : List Text}
    (hn : ∀ name ∈ names, IsName name)
    (hd : ∀ p, p <+: names → p ≠ names → tree.isDirectory (place ++ p) = true) :
    tree.follow place names = .ok (place ++ names) := by
  induction names generalizing place with
  | nil =>
    rw [List.append_nil]
    rfl
  | cons name names ih =>
    have hname := hn name List.mem_cons_self
    have hplace := hd [] List.nil_prefix (List.cons_ne_nil _ _).symm
    rw [List.append_nil] at hplace
    refine follow_cons_eq_ok_iff.mpr ⟨hplace, hname.short, ?_⟩
    rw [enter_of_isName hname]
    have hbelow : ∀ p, p <+: names → p ≠ names → tree.isDirectory (place ++ [name] ++ p) = true := by
      intro p hp hne
      rw [List.append_assoc, List.singleton_append]
      exact hd (name :: p) (List.prefix_cons_inj name |>.mpr hp)
        fun he => hne (List.cons.inj he).2
    rw [ih (fun n h => hn n (List.mem_cons_of_mem name h)) hbelow, List.append_assoc,
      List.singleton_append]

/-- Behind a slash the names of the rest are followed from where the front leads. -/
theorem origin_append {path : Text} (h : path ≠ []) (t : Text) :
    origin (path ++ '/' :: t) = ((origin path).1, (origin path).2 ++ t.splitOn '/') := by
  obtain ⟨c, rest, rfl⟩ := List.exists_cons_of_ne_nil h
  rw [List.cons_append, origin, origin, List.head?_cons, List.head?_cons, List.tail_cons,
    List.tail_cons]
  split
  · rw [List.splitOn_append_cons_self]
  · rw [← List.cons_append, List.splitOn_append_cons_self]

theorem origin_root (t : Text) : origin ('/' :: t) = ([root], t.splitOn '/') := rfl

/-- A path leads to the same directory with a slash at its end, and the names behind the slash are
followed from there. -/
theorem follow_slashed {tree : FileTree} {path : Text} {place : Place}
    (hp : tree.locate path = .ok place) (t : Text) :
    ∃ start names, origin (slashed path ++ t) = (start, names ++ t.splitOn '/') ∧
      tree.follow start names = .ok place := by
  obtain ⟨-, hne, hfollow⟩ := locate_eq_ok_iff.mp hp
  rw [slashed]
  split
  next hs =>
    obtain ⟨u, rfl⟩ := List.isSuffixOf_iff_suffix.mp hs
    have hlast : ∀ {start : Place} {names : List Text},
        tree.follow start (names ++ [[]]) = .ok place → tree.follow start names = .ok place := by
      intro start names h
      obtain ⟨r, hr, h⟩ := follow_append.mp h
      obtain ⟨-, -, h⟩ := follow_cons_eq_ok_iff.mp h
      have hplace : r = place := Except.ok.inj h
      rw [hr, hplace]
    rw [List.append_assoc, List.singleton_append]
    by_cases hu : u = []
    · subst hu
      exact ⟨[root], [], origin_root t, hlast hfollow⟩
    · rw [origin_append hu] at hfollow ⊢
      rw [List.splitOn_nil] at hfollow
      exact ⟨_, _, rfl, hlast hfollow⟩
  next =>
    rw [List.append_assoc, List.singleton_append, origin_append hne]
    exact ⟨_, _, rfl, hfollow⟩

/-- The path of a directory with names of files behind it leads to the file of these names. -/
theorem locate_join {tree : FileTree} {path : Text} {place : Place} {names : List Text}
    (hp : tree.locate path = .ok place) (hshort : isPathTooLong (join path names) = false)
    (hne : names ≠ []) (hn : ∀ name ∈ names, IsName name)
    (hd : ∀ p, p <+: names → p ≠ names → tree.isDirectory (place ++ p) = true) :
    tree.locate (join path names) = .ok (place ++ names) := by
  have hsplit : List.splitOn '/' (['/'].intercalate names) = names :=
    List.splitOn_intercalate '/' (fun name h => (hn name h).slash) hne
  have hslashed : slashed path ≠ [] := by
    rw [slashed]
    split
    · exact (locate_eq_ok_iff.mp hp).2.1
    · exact List.append_ne_nil_of_right_ne_nil _ (List.cons_ne_nil _ _)
  obtain ⟨start, before, horigin, hfollow⟩ := follow_slashed hp (['/'].intercalate names)
  refine locate_eq_ok_iff.mpr ⟨hshort, List.append_ne_nil_of_left_ne_nil hslashed _, ?_⟩
  rw [join_eq, horigin, hsplit]
  exact follow_append.mpr ⟨place, hfollow, follow_names hn hd⟩

end FileTree
end BlockText
