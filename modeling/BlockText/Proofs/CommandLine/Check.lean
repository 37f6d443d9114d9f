/-
What checking says of files, and how it agrees with converting them.

`check` looks at every file, `json` ends at the first one that fails, and shows the texts or writes
them.  All of them hang on one predicate of the files, `holdsDocument`: the status tells whether it
holds of all of them (`exit_check`, `json_shown`), and the texts are those of the files in front of
the first one of which it does not hold (`json_shown`, `json_wrote`).
-/
import Mathlib.Data.List.Forall2
import BlockText.Proofs.CommandLine.Convert

namespace BlockText
namespace CommandLine

open FileTree

variable {strict : Bool} {tree : FileTree}

/-! ## Checking -/

/-- The log of the reading of a file. -/
def parsingLog (settings : Settings) (strict : Bool) (path source : Text) : Text :=
  logLine settings .debug "parsing".toList
    [("file", path), ("bytes", Text.decimal (Text.byteLength source))] ++
      readingLog settings strict source

/-- What is shown of a file that is checked: why it cannot be read, where it is no document, or how
many units its document has. -/
inductive Reported (settings : Settings) (strict : Bool) (tree : FileTree) (path : Text) : Text → Prop
  | unread {e : FileError} (hr : tree.read path = .error e) :
    Reported settings strict tree path
      (line ("error: cannot read '".toList ++ path ++ "': ".toList ++ e.message))
  | invalid {source : Text} {e : ParseError} (hr : tree.read path = .ok source)
      (hp : Document.parse strict source = .error e) :
    Reported settings strict tree path
      (parsingLog settings strict path source ++ e.diagnostic.render path)
  | valid {source : Text} {d : Document} (hr : tree.read path = .ok source)
      (hp : Document.parse strict source = .ok d) :
    Reported settings strict tree path
      (parsingLog settings strict path source ++
        line ("ok: ".toList ++ path ++ " parsed successfully (".toList ++
          Text.decimal d.units.length ++ " unit(s))".toList))

theorem reported_checkFile (settings : Settings) (strict : Bool) (tree : FileTree) (path : Text) :
    Reported settings strict tree path (checkFile settings strict tree path).1 := by
  cases hr : tree.read path with
  | error e =>
    simp only [checkFile, readDocument, hr]
    exact .unread hr
  | ok source =>
    cases hp : Document.parse strict source with
    | error e =>
      simp only [checkFile, readDocument, hr, hp]
      exact .invalid hr hp
    | ok d =>
      simp only [checkFile, readDocument, hr, hp]
      exact .valid hr hp

/-- The files that are valid are those that hold documents. -/
theorem checkFile_snd (settings : Settings) (strict : Bool) (tree : FileTree) (path : Text) :
    (checkFile settings strict tree path).2 = holdsDocument strict tree path := by
  rw [holdsDocument, ← readDocument_snd settings, checkFile]
  rcases readDocument settings strict tree path with ⟨err, _ | d⟩ <;> rfl

theorem exit_check (settings : Settings) (strict : Bool) (tree : FileTree) (paths : List Text) :
    (check settings strict tree paths).exit =
      if paths.all (holdsDocument strict tree) then 0 else 1 := by
  have hall : (paths.map (checkFile settings strict tree)).all (·.2) =
      paths.all (holdsDocument strict tree) := by
    rw [List.all_map]
    exact congrArg paths.all (funext (checkFile_snd settings strict tree))
  rw [← hall]
  rfl

/-- All files are reported on, in their order. -/
theorem reported_check (settings : Settings) (strict : Bool) (tree : FileTree) (paths : List Text) :
    ∃ reports, List.Forall₂ (Reported settings strict tree) paths reports ∧
      (check settings strict tree paths).err = reports.flatten := by
  refine ⟨paths.map fun p => (checkFile settings strict tree p).1, ?_, ?_⟩
  · exact List.forall₂_map_right_iff.mpr
      (List.forall₂_same.mpr fun p _ => reported_checkFile settings strict tree p)
  · show (paths.map (checkFile settings strict tree)).flatMap (·.1) = _
    rw [List.flatMap_map, List.flatMap_def]

/-! ## Showing and writing -/

/-- The text is the JSON text of what the file holds, with its line end. -/
def HasText (strict : Bool) (tree : FileTree) (path text : Text) : Prop :=
  ∃ d, document? strict tree path = some d ∧ text = line d.interchange

/-- A run that shows the texts shows those of the files in front of the first one that fails. -/
theorem json_shown (settings : Settings) (strict : Bool) (tree : FileTree) (paths : List Text) :
    (json settings strict true tree paths).exit =
        (if paths.all (holdsDocument strict tree) then 0 else 1) ∧
      ∃ texts, List.Forall₂ (HasText strict tree) (paths.takeWhile (holdsDocument strict tree)) texts ∧
        (json settings strict true tree paths).out = texts.flatten := by
  induction paths with
  | nil => exact ⟨rfl, [], .nil, rfl⟩
  | cons path paths ih =>
    rcases json_cases settings strict true tree path paths with
      ⟨d, tree', err, hd, htakes, hjson⟩ | ⟨err, hjson, hd | ⟨ho, -⟩⟩
    · have hholds : holdsDocument strict tree path = true := by rw [holdsDocument, hd]; rfl
      cases htakes with
      | written ho => cases ho
      | shown =>
        obtain ⟨hexit, texts, htexts, hout⟩ := ih
        rw [hjson, List.all_cons, hholds, Bool.true_and, List.takeWhile_cons_of_pos hholds]
        refine ⟨hexit, line d.interchange :: texts, .cons ⟨d, hd, rfl⟩ htexts, ?_⟩
        rw [List.flatten_cons, ← hout]
        rfl
    · have hfails : holdsDocument strict tree path = false := by rw [holdsDocument, hd]; rfl
      rw [hjson, List.all_cons, hfails, Bool.false_and,
        List.takeWhile_cons_of_neg (ne_true_of_eq_false hfails)]
      exact ⟨rfl, [], .nil, rfl⟩
    · cases ho

/-- The texts were written for the paths, and nothing else was. -/
structure Wrote (tree after : FileTree) (paths texts : List Text) : Prop where
  read : List.Forall₂ (fun p t => after.read (jsonPath p) = .ok t) paths texts
  kept : ∀ place, (∀ p ∈ paths, tree.locate (jsonPath p) ≠ .ok place) →
    after.files.lookup place = tree.files.lookup place

theorem document?_head_dropWhile {paths : List Text} :
    ∀ p ∈ (paths.dropWhile (holdsDocument strict tree)).head?, document? strict tree p = none := by
  intro p hp
  have hhead := List.head?_dropWhile_not (holdsDocument strict tree) paths
  rw [Option.mem_def.mp hp] at hhead
  exact Option.not_isSome_iff_eq_none.mp (Bool.eq_false_iff.mp hhead)

/-- A run that writes the texts writes those of the same files. -/
theorem json_wrote (settings : Settings) {paths texts : List Text} (h : OutputsApart tree paths)
    (ht : List.Forall₂ (HasText strict tree) (paths.takeWhile (holdsDocument strict tree)) texts) :
    (json settings strict false tree paths).exit =
        (if paths.all (holdsDocument strict tree) then 0 else 1) ∧
      Wrote tree (json settings strict false tree paths).tree
        (paths.takeWhile (holdsDocument strict tree)) texts := by
  have hsplit : paths.takeWhile (holdsDocument strict tree) ++
      paths.dropWhile (holdsDocument strict tree) = paths := List.takeWhile_append_dropWhile
  have hrun := json_append settings (hsplit.symm ▸ h) (fun p hp => List.mem_takeWhile_imp hp)
    document?_head_dropWhile
  rw [hsplit] at hrun
  obtain ⟨hexit, hwritten, hkept⟩ := hrun
  refine ⟨?_, ?_, hkept⟩
  · have hall : paths.dropWhile (holdsDocument strict tree) = [] ↔
        paths.all (holdsDocument strict tree) = true := by
      rw [List.all_eq_true]
      exact List.dropWhile_eq_nil_iff
    rw [hexit]
    exact if_congr hall rfl rfl
  · have hmem := (List.forall₂_and_left _ _).mpr
      ⟨fun p hp => (⟨hp, h.writable p ((List.takeWhile_subset _) hp)⟩ : _ ∧ _), ht⟩
    refine hmem.imp ?_
    rintro p t ⟨⟨hp, place, hw⟩, d, hd, rfl⟩
    rw [read_of_locate ((locate_congr (sameDirectories_json settings strict false tree paths)).mpr
      hw.1)]
    exact readAt_of_lookup (hwritten p hp place d hw hd)

end CommandLine
end BlockText
