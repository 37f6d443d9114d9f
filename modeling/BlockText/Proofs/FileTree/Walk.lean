/-
What a walk through a directory comes to.

`FileTree.Walked` says what a walk takes for a file: what stands below the directory and is no
directory, or is one whose path is too long to see it, behind directories whose paths are short
enough.  `FileTree.mem_below_iff` says that a walk comes to all of these and to nothing else, and
`FileTree.nodup_below` that it comes to each of them once.  What a walk comes to is a file, and is
read at the path that the names from the directory make, unless that path is too long
(`FileTree.Walked.read_join`).
-/
import Mathlib.Data.List.MinMax
import Mathlib.Data.List.Nodup
import BlockText.Proofs.FileTree.Path

namespace BlockText
namespace FileTree

/-! ## What stands at a place -/

/-- Something is known to stand at the place. -/
def Stands (tree : FileTree) (place : Place) : Prop := ∃ p ∈ tree.places, place <+: p

theorem mem_places {tree : FileTree} {p : Place} :
    p ∈ tree.places ↔ (∃ c, (p, c) ∈ tree.files) ∨ p ∈ tree.directories := by
  rw [places, List.mem_append, List.mem_map]
  simp only [Prod.exists, exists_and_right, exists_eq_right]

theorem Stands.around {tree : FileTree} {p place : Place} (h : tree.Stands place)
    (hp : p <+: place) : tree.Stands p := by
  obtain ⟨q, hq, hpq⟩ := h
  exact ⟨q, hq, hp.trans hpq⟩

/-- What something stands in is a directory. -/
theorem Stands.enclosed {tree : FileTree} {place : Place} (h : tree.Stands place) :
    tree.Enclosed place := by
  obtain ⟨q, hq, hplace⟩ := h
  intro p hp hne
  rw [isDirectory_iff]
  rcases mem_places.mp hq with ⟨c, hc⟩ | hd
  · refine Or.inr (Or.inr (Or.inr ⟨_, hc, hp.trans hplace, ?_⟩))
    refine Nat.lt_of_lt_of_le ?_ hplace.length_le
    exact Nat.lt_of_le_of_ne hp.length_le fun he => hne (hp.eq_of_length he)
  · exact Or.inr (Or.inr (Or.inl ⟨q, hd, hp.trans hplace⟩))

theorem mem_entries {tree : FileTree} {place : Place} {name : Text} :
    name ∈ tree.entries place ↔ tree.Stands (place ++ [name]) := by
  rw [entries, List.mem_eraseDups, List.mem_filterMap]
  refine exists_congr fun p => and_congr_right fun _ => ?_
  constructor
  · intro h
    obtain ⟨names, hnames, hhead⟩ := Option.bind_eq_some_iff.mp h
    obtain ⟨rest, rfl⟩ := List.head?_eq_some_iff.mp hhead
    rw [← List.isPrefixOf?_eq_some_iff_append_eq.mp hnames]
    exact ⟨rest, by rw [List.append_assoc, List.singleton_append]⟩
  · rintro ⟨rest, hrest⟩
    rw [List.append_assoc, List.singleton_append] at hrest
    rw [List.isPrefixOf?_eq_some_iff_append_eq.mpr hrest]
    rfl

theorem nodup_eraseDups {α : Type} [BEq α] [LawfulBEq α] (l : List α) : l.eraseDups.Nodup := by
  match l with
  | [] => exact List.nodup_nil
  | a :: l =>
    rw [List.eraseDups_cons, List.nodup_cons, List.mem_eraseDups, List.mem_filter]
    refine ⟨fun h => ?_, nodup_eraseDups _⟩
    rw [beq_self_eq_true] at h
    exact absurd h.2 Bool.false_ne_true
termination_by l.length
decreasing_by exact Nat.lt_succ_of_le (List.length_filter_le _ l)

theorem nodup_entries (tree : FileTree) (place : Place) : (tree.entries place).Nodup :=
  nodup_eraseDups _

/-- No place has more names than the longest one. -/
theorem Stands.length_le {tree : FileTree} {place : Place} (h : tree.Stands place) :
    place.length ≤ tree.depth := by
  obtain ⟨p, hp, hplace⟩ := h
  exact List.le_max_of_le' 0 (List.mem_map_of_mem hp) hplace.length_le

/-- Where each file is listed once, it is looked up as it is listed. -/
theorem lookup_eq_some_iff {files : List (Place × Content)} (h : (files.map (·.1)).Nodup)
    {place : Place} {content : Content} :
    files.lookup place = some content ↔ (place, content) ∈ files := by
  induction files with
  | nil => exact iff_of_false (fun h => nomatch h) List.not_mem_nil
  | cons file files ih =>
    rw [List.map_cons, List.nodup_cons] at h
    rw [List.lookup_cons, List.mem_cons]
    by_cases hp : place = file.1
    · rw [beq_iff_eq.mpr hp]
      refine ⟨fun he => Or.inl ?_, fun he => he.elim (fun he => ?_) fun hm => ?_⟩
      · rw [← Option.some.inj he, hp]
      · rw [← he]
      · exact absurd (List.mem_map_of_mem hm) (hp ▸ h.1)
    · rw [beq_eq_false_iff_ne.mpr hp]
      refine (ih h.2).trans (or_iff_right fun he => hp ?_).symm
      rw [← he]

/-! ## The walk -/

/-- What stands below the place is a tree of files: each file is there once and holds no files, and all
have names of their own. -/
structure IsTree (tree : FileTree) (place : Place) : Prop where
  nodup : (tree.files.map (·.1)).Nodup
  leaf : ∀ f ∈ tree.files, tree.isDirectory f.1 = false
  names : ∀ names, tree.Stands (place ++ names) → ∀ name ∈ names, IsName name

/-- It is enough to look at what is listed. -/
theorem forall_isName {tree : FileTree} (h : ∀ p ∈ tree.places, ∀ name ∈ p, IsName name)
    {place names : List Text} (hs : tree.Stands (place ++ names)) : ∀ name ∈ names, IsName name := by
  obtain ⟨p, hp, hplace⟩ := hs
  exact fun name hn => h p hp name (hplace.subset (List.mem_append_right place hn))

/-- The names lead to what a walk from the directory takes for a file. -/
structure Walked (tree : FileTree) (path : Text) (place : Place) (names : List Text) : Prop where
  ne_nil : names ≠ []
  stands : tree.Stands (place ++ names)
  /-- A directory is taken for a file where its path is too long. -/
  leaf : tree.isDirectory (place ++ names) = true → isPathTooLong (join path names) = true
  /-- The directories on the way are entered. -/
  way : ∀ p, p <+: names → p ≠ [] → p ≠ names → isPathTooLong (join path p) = false

section walk

variable {tree : FileTree} {path : Text} {place : Place} {name : Text} {names : List Text}

theorem walked_singleton : Walked tree path place [name] ↔ tree.Stands (place ++ [name]) ∧
    (tree.isDirectory (place ++ [name]) && !isPathTooLong (join path [name])) = false := by
  rw [Bool.and_eq_false_imp, Bool.not_eq_false']
  constructor
  · exact fun h => ⟨h.stands, h.leaf⟩
  · rintro ⟨hstands, hleaf⟩
    refine ⟨List.cons_ne_nil _ _, hstands, hleaf, fun p hp hne hne' => ?_⟩
    rcases List.prefix_cons_iff.mp hp with rfl | ⟨t, rfl, ht⟩
    · exact absurd rfl hne
    · rw [List.prefix_nil.mp ht] at hne'
      exact absurd rfl hne'

theorem walked_cons (hname : IsName name) (hne : names ≠ []) :
    Walked tree path place (name :: names) ↔
      (tree.isDirectory (place ++ [name]) && !isPathTooLong (join path [name])) = true ∧
        Walked tree (join path [name]) (place ++ [name]) names := by
  have hplace : place ++ name :: names = place ++ [name] ++ names := by
    rw [List.append_assoc, List.singleton_append]
  rw [Bool.and_eq_true, Bool.not_eq_true']
  constructor
  · intro h
    have hstands := h.stands
    rw [hplace] at hstands
    refine ⟨⟨?_, ?_⟩, hne, hstands, fun hd => ?_, fun p hp hnil hwhole => ?_⟩
    · refine hstands.enclosed _ (List.prefix_append _ _) fun he => hne ?_
      exact List.self_eq_append_right.mp he
    · exact h.way [name] ⟨names, rfl⟩ (List.cons_ne_nil _ _) fun he => hne (List.cons.inj he).2.symm
    · rw [join_join hname path hne]
      exact h.leaf (hplace ▸ hd)
    · rw [join_join hname path hnil]
      exact h.way (name :: p) (List.prefix_cons_inj name |>.mpr hp) (List.cons_ne_nil _ _)
        fun he => hwhole (List.cons.inj he).2
  · rintro ⟨⟨-, hshort⟩, h⟩
    refine ⟨List.cons_ne_nil _ _, hplace ▸ h.stands, fun hd => ?_, fun p hp hnil hwhole => ?_⟩
    · rw [← join_join hname path hne]
      exact h.leaf (hplace ▸ hd)
    · rcases List.prefix_cons_iff.mp hp with rfl | ⟨t, rfl, ht⟩
      · exact absurd rfl hnil
      · by_cases htn : t = []
        · rw [htn]
          exact hshort
        · rw [← join_join hname path htn]
          exact h.way t ht htn fun he => hwhole (he ▸ rfl)

/-- A walk that goes down far enough comes to what it takes for a file, and to nothing else. -/
theorem mem_walk_iff {levels : Nat}
    (hnames : ∀ names, tree.Stands (place ++ names) → ∀ name ∈ names, IsName name) :
    names ∈ tree.walk path place levels ↔
      names.length ≤ levels ∧ Walked tree path place names := by
  -- each name that is entered takes one level
  induction levels generalizing path place names with
  | zero =>
    refine iff_of_false List.not_mem_nil fun ⟨hlength, h⟩ => h.ne_nil ?_
    exact List.length_eq_zero_iff.mp (Nat.le_zero.mp hlength)
  | succ levels ih =>
    rw [walk, List.mem_flatMap]
    have hname : ∀ {name}, tree.Stands (place ++ [name]) → IsName name :=
      fun h => hnames _ h _ List.mem_cons_self
    have hbelow : ∀ (name : Text) (ns : List Text), tree.Stands (place ++ [name] ++ ns) →
        ∀ n ∈ ns, IsName n := by
      intro name ns hs n hn
      rw [List.append_assoc] at hs
      exact hnames _ hs n (List.mem_append_right _ hn)
    constructor
    · rintro ⟨name, hentry, hmem⟩
      have hstands := mem_entries.mp hentry
      split at hmem
      next henter =>
        obtain ⟨rest, hrest, rfl⟩ := List.mem_map.mp hmem
        obtain ⟨hlength, hwalked⟩ := (ih (hbelow name)).mp hrest
        exact ⟨Nat.succ_le_succ hlength,
          (walked_cons (hname hstands) hwalked.ne_nil).mpr ⟨henter, hwalked⟩⟩
      next hleaf =>
        rw [List.mem_singleton.mp hmem]
        exact ⟨Nat.succ_le_succ (Nat.zero_le levels),
          walked_singleton.mpr ⟨hstands, eq_false_of_ne_true hleaf⟩⟩
    · rintro ⟨hlength, hwalked⟩
      obtain ⟨name, rest, rfl⟩ := List.exists_cons_of_ne_nil hwalked.ne_nil
      have hstands : tree.Stands (place ++ [name]) := by
        refine hwalked.stands.around ?_
        exact List.prefix_append_right_inj place |>.mpr ⟨rest, rfl⟩
      refine ⟨name, mem_entries.mpr hstands, ?_⟩
      by_cases hrest : rest = []
      · subst hrest
        rw [if_neg]
        · exact List.mem_cons_self
        · rw [(walked_singleton.mp hwalked).2]
          exact Bool.false_ne_true
      · obtain ⟨henter, hwalked⟩ := (walked_cons (hname hstands) hrest).mp hwalked
        rw [if_pos henter]
        exact List.mem_map_of_mem
          ((ih (hbelow name)).mpr ⟨Nat.le_of_succ_le_succ hlength, hwalked⟩)

theorem nodup_walk (tree : FileTree) (path : Text) (place : Place) (levels : Nat) :
    (tree.walk path place levels).Nodup := by
  induction levels generalizing path place with
  | zero => exact List.nodup_nil
  | succ levels ih =>
    rw [walk, List.nodup_flatMap]
    refine ⟨fun name _ => ?_, (nodup_entries tree place).imp fun {a b} hne => ?_⟩
    · split
      · exact (ih _ _).map fun _ _ he => (List.cons.inj he).2
      · exact List.nodup_singleton _
    · -- what is behind one name starts with that name
      have hhead : ∀ {name : Text} {ns : List Text}, ns ∈ (if (tree.isDirectory (place ++ [name]) &&
          !isPathTooLong (join path [name])) = true then
            (tree.walk (join path [name]) (place ++ [name]) levels).map (name :: ·)
          else [[name]]) → ns.head? = some name := by
        intro name ns hns
        split at hns
        · obtain ⟨rest, -, rfl⟩ := List.mem_map.mp hns
          rfl
        · rw [List.mem_singleton.mp hns]
          rfl
      intro ns ha hb
      exact hne (Option.some.inj ((hhead ha).symm.trans (hhead hb)))

/-- The walk through the directory of a path comes to what it takes for files below it, and to nothing
else. -/
theorem mem_below_iff (h : tree.IsTree place) (hp : tree.locate path = .ok place) :
    names ∈ tree.below path ↔ Walked tree path place names := by
  rw [below, hp]
  show names ∈ tree.walk path place tree.depth ↔ _
  rw [mem_walk_iff h.names]
  refine and_iff_right_of_imp fun hw => ?_
  have hlength := hw.stands.length_le
  rw [List.length_append] at hlength
  exact Nat.le_trans (Nat.le_add_left _ _) hlength

theorem nodup_below (tree : FileTree) (path : Text) : (tree.below path).Nodup := by
  rw [below]
  split
  · exact nodup_walk _ _ _ _
  · exact List.nodup_nil

/-- What a walk comes to is a file that can be read at its path, unless the path is too long. -/
theorem Walked.read_join (hw : Walked tree path place names) (h : tree.IsTree place)
    (hp : tree.locate path = .ok place) :
    tree.read (join path names) =
      if isPathTooLong (join path names) then .error .nameTooLong
      else tree.readAt (place ++ names) := by
  split
  next hlong =>
    have hlocate : tree.locate (join path names) = .error .nameTooLong := if_pos hlong
    rw [read, hlocate]
    rfl
  next hshort =>
    have hway : ∀ p, p <+: names → p ≠ names → tree.isDirectory (place ++ p) = true := by
      intro p hprefix hne
      refine hw.stands.enclosed _ (List.prefix_append_right_inj place |>.mpr hprefix) fun he => ?_
      exact hne (List.append_cancel_left he)
    exact read_of_locate (locate_join hp (eq_false_of_ne_true hshort) hw.ne_nil
      (h.names names hw.stands) hway)

/-- What a walk comes to stands there as a file, unless its path is too long to tell. -/
theorem Walked.isFile (hw : Walked tree path place names)
    (hshort : isPathTooLong (join path names) = false) : tree.isFile (place ++ names) = true := by
  obtain ⟨p, hp, hprefix⟩ := hw.stands
  have hdirectory : ¬ tree.isDirectory (place ++ names) = true := by
    intro hd
    rw [hw.leaf hd] at hshort
    cases hshort
  rcases mem_places.mp hp with ⟨c, hc⟩ | hd
  · have hwhole : place ++ names = p := by
      refine hprefix.eq_of_length_le (Nat.le_of_not_lt fun hlt => hdirectory ?_)
      exact isDirectory_iff.mpr (Or.inr (Or.inr (Or.inr ⟨_, hc, hprefix, hlt⟩)))
    rw [FileTree.isFile, hwhole, List.lookup_isSome_iff]
    exact ⟨_, hc, beq_self_eq_true _⟩
  · exact absurd (isDirectory_iff.mpr (Or.inr (Or.inr (Or.inl ⟨p, hd, hprefix⟩)))) hdirectory

/-- Where no path below is too long, a walk comes to the files. -/
theorem walked_iff_isFile (h : tree.IsTree place)
    (hshort : ∀ p, tree.Stands (place ++ p) → isPathTooLong (join path p) = false) :
    Walked tree path place names ↔ names ≠ [] ∧ tree.isFile (place ++ names) = true := by
  constructor
  · exact fun hw => ⟨hw.ne_nil, hw.isFile (hshort names hw.stands)⟩
  · rintro ⟨hne, hfile⟩
    obtain ⟨content, hc⟩ := Option.isSome_iff_exists.mp hfile
    have hmem := (lookup_eq_some_iff h.nodup).mp hc
    have hstands : tree.Stands (place ++ names) :=
      ⟨_, mem_places.mpr (Or.inl ⟨content, hmem⟩), List.prefix_rfl⟩
    refine ⟨hne, hstands, fun hd => ?_, fun p hp _ _ => hshort p ?_⟩
    · rw [h.leaf _ hmem] at hd
      cases hd
    · exact hstands.around (List.prefix_append_right_inj place |>.mpr hp)

end walk

/-! ## The order of what is listed -/

/-- The trees list the same files and directories, perhaps in another order. -/
structure Reorders (tree tree' : FileTree) : Prop where
  files : tree'.files.Perm tree.files
  directories : tree'.directories.Perm tree.directories

namespace Reorders

variable {tree tree' : FileTree} {path : Text} {place : Place} {names : List Text}

theorem sameDirectories (h : Reorders tree tree') : SameDirectories tree tree' := by
  intro place
  rw [Bool.eq_iff_iff, isDirectory_iff, isDirectory_iff]
  simp only [h.files.mem_iff, h.directories.mem_iff]

theorem stands_iff (h : Reorders tree tree') : tree'.Stands place ↔ tree.Stands place := by
  simp only [Stands, mem_places, h.files.mem_iff, h.directories.mem_iff]

theorem isTree (h : Reorders tree tree') (ht : tree.IsTree place) : tree'.IsTree place where
  nodup := (h.files.map (·.1)).nodup_iff.mpr ht.nodup
  leaf f hf := (h.sameDirectories f.1).trans (ht.leaf f (h.files.mem_iff.mp hf))
  names names hs := ht.names names (h.stands_iff.mp hs)

theorem lookup (h : Reorders tree tree') (ht : tree.IsTree place) (q : Place) :
    tree'.files.lookup q = tree.files.lookup q := by
  refine Option.ext fun content => ?_
  rw [lookup_eq_some_iff (h.isTree ht).nodup, lookup_eq_some_iff ht.nodup, h.files.mem_iff]

theorem walked_iff (h : Reorders tree tree') :
    Walked tree' path place names ↔ Walked tree path place names := by
  have hd := h.sameDirectories (place ++ names)
  constructor
  · exact fun w => ⟨w.ne_nil, h.stands_iff.mp w.stands, fun hw => w.leaf (hd.trans hw), w.way⟩
  · exact fun w => ⟨w.ne_nil, h.stands_iff.mpr w.stands, fun hw => w.leaf (hd.symm.trans hw), w.way⟩

/-- A walk comes to the same files in another order. -/
theorem perm_below (h : Reorders tree tree') (ht : tree.IsTree place)
    (hp : tree.locate path = .ok place) : (tree'.below path).Perm (tree.below path) := by
  refine (List.perm_ext_iff_of_nodup (nodup_below _ _) (nodup_below _ _)).mpr fun names => ?_
  rw [mem_below_iff (h.isTree ht) ((locate_congr h.sameDirectories).mpr hp), mem_below_iff ht hp,
    h.walked_iff]

/-- What a walk comes to reads the same. -/
theorem read_join (h : Reorders tree tree') (ht : tree.IsTree place)
    (hp : tree.locate path = .ok place) (hw : Walked tree path place names) :
    tree'.read (join path names) = tree.read (join path names) := by
  rw [hw.read_join ht hp, (h.walked_iff.mpr hw).read_join (h.isTree ht)
    ((locate_congr h.sameDirectories).mpr hp), readAt_congr h.sameDirectories (h.lookup ht _)]

end Reorders

/-- The path of a directory is that of no file. -/
theorem IsTree.isFilePath {tree : FileTree} {path : Text} {place : Place} (h : tree.IsTree place)
    (hp : tree.locate path = .ok place) (hd : tree.isDirectory place = true) :
    tree.isFilePath path = false := by
  rw [FileTree.isFilePath, hp]
  show tree.isFile place = false
  rw [isFile, Option.isSome_eq_false_iff, Option.isNone_iff_eq_none, Option.eq_none_iff_forall_ne_some]
  intro content hc
  have hleaf := h.leaf _ ((lookup_eq_some_iff h.nodup).mp hc)
  rw [hd] at hleaf
  cases hleaf

end FileTree
end BlockText
