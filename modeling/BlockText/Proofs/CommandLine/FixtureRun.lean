/-
What a run of the fixtures of a directory comes to.

The fixtures that are run are those that a walk through the directory comes to, whose names end as
those of fixtures, and whose categories are asked for (`CommandLine.mem_running_iff`).  Each is run
once, from the file at its place, and the run succeeds exactly where there is one and all of them
pass (`CommandLine.runs_running`).  Nothing but the warnings about requests tells in which order
files are listed or requests are made (`CommandLine.test_selected`).
-/
import BlockText.Proofs.CommandLine.Discover
import BlockText.Proofs.Fixture.Verdict

namespace BlockText
namespace CommandLine

open FileTree

/-- The path leads to a directory, below which stands a tree of files. -/
structure LeadsToTree (tree : FileTree) (path : Text) (place : Place) : Prop where
  isTree : tree.IsTree place
  locate : tree.locate path = .ok place
  directory : tree.isDirectory place = true

/-- The fixtures that are run, by their names from the directory, in order. -/
def running (tree : FileTree) (path : Text) (requests : List Text) : List Place :=
  (select (categoriesOf tree path) (requestsFor tree path requests)).flatMap fun g =>
    g.2.map (·.place)

/-- What is shown about requests that ask for no category, where there are fixtures. -/
def warned (tree : FileTree) (path : Text) (requests : List Text) : Text :=
  if (categoriesOf tree path).isEmpty then [] else warnings (categoriesOf tree path) requests

/-! ## What is run -/

section run

variable {tree tree' : FileTree} {path : Text} {place : Place} {requests requests' : List Text}
  {names : List Text}

theorem eq_foundAt {f : Found} (h : f ∈ discover tree path) : f = foundAt path f.place := by
  obtain ⟨names, -, rfl⟩ := mem_discover.mp h
  rfl

theorem LeadsToTree.reorder (h : LeadsToTree tree path place) (ho : tree.Reorders tree') :
    LeadsToTree tree' path place where
  isTree := ho.isTree h.isTree
  locate := (locate_congr ho.sameDirectories).mpr h.locate
  directory := (ho.sameDirectories place).trans h.directory

theorem LeadsToTree.categories_eq (h : LeadsToTree tree path place) :
    categoriesOf tree path = groupBy (·.category) (discover tree path) := by
  rw [categoriesOf, h.isTree.isFilePath h.locate h.directory]
  rfl

theorem LeadsToTree.requests_eq (h : LeadsToTree tree path place) (requests : List Text) :
    requestsFor tree path requests = requests := by
  rw [requestsFor, h.isTree.isFilePath h.locate h.directory]
  rfl

theorem LeadsToTree.categories_reorder (h : LeadsToTree tree path place)
    (ho : tree.Reorders tree') : categoriesOf tree' path = categoriesOf tree path := by
  rw [(h.reorder ho).categories_eq, h.categories_eq,
    discover_of_perm (ho.perm_below h.isTree h.locate)]

theorem LeadsToTree.running_eq (h : LeadsToTree tree path place) (requests : List Text) :
    running tree path requests =
      ((discover tree path).filter fun f => isRequested requests f.category).map (·.place) := by
  rw [running, h.categories_eq, h.requests_eq, ← flatMap_select, List.map_flatMap]

/-- The fixtures that are run are the ones that are asked for. -/
theorem mem_running_iff (h : LeadsToTree tree path place) :
    names ∈ running tree path requests ↔
      Walked tree path place names ∧ EndsAsFixture names ∧ Requests requests (categoryOf names) := by
  rw [h.running_eq, List.mem_map]
  constructor
  · rintro ⟨f, hf, rfl⟩
    obtain ⟨hfound, hreq⟩ := List.mem_filter.mp hf
    obtain ⟨names, ⟨hwalk, hend⟩, rfl⟩ := mem_discover.mp hfound
    exact ⟨(mem_below_iff h.isTree h.locate).mp hwalk, hend, isRequested_iff.mp hreq⟩
  · rintro ⟨hwalk, hend, hreq⟩
    refine ⟨foundAt path names, List.mem_filter.mpr ⟨?_, isRequested_iff.mpr hreq⟩, rfl⟩
    exact mem_discover.mpr ⟨names, ⟨(mem_below_iff h.isTree h.locate).mpr hwalk, hend⟩, rfl⟩

/-- Each of them is run once. -/
theorem nodup_running (h : LeadsToTree tree path place) : (running tree path requests).Nodup := by
  rw [h.running_eq]
  refine ((nodup_discover tree path).filter _).map_on fun f hf g hg he => ?_
  rw [eq_foundAt (List.mem_of_mem_filter hf), eq_foundAt (List.mem_of_mem_filter hg), he]

/-- Neither the order of the files nor that of the requests shows in what is run. -/
theorem running_congr (h : LeadsToTree tree path place) (ho : tree.Reorders tree')
    (hr : ∀ r, r ∈ requests' ↔ r ∈ requests) :
    running tree' path requests' = running tree path requests := by
  rw [running, running, h.categories_reorder ho, h.requests_eq, (h.reorder ho).requests_eq,
    select_congr hr]

/-! ## Results -/

/-- What comes of the fixtures that are run. -/
def results (settings : Settings) (tree : FileTree) (path : Text) (requests : List Text) :
    List Result :=
  (running tree path requests).map fun names => runFixture settings tree (join path names)

/-- A fixture passes if and only if its file can be read, its front matter is accepted, and its
source does what this expects. -/
theorem passed_running_iff (settings : Settings) (h : LeadsToTree tree path place)
    (hn : names ∈ running tree path requests) :
    (runFixture settings tree (join path names)).passed = true ↔
      isPathTooLong (join path names) = false ∧ ∃ content f,
        tree.readAt (place ++ names) = .ok content ∧ Fixture.read content = .ok f ∧
          f.config.Meets f.outcome := by
  have hw := ((mem_running_iff h).mp hn).1
  rw [passed_runFixture_iff, hw.read_join h.isTree h.locate]
  split
  next hlong => exact iff_of_false (fun ⟨_, _, hc, _⟩ => nomatch hc) fun hs => nomatch hlong ▸ hs.1
  next hshort => exact (and_iff_right (eq_false_of_ne_true hshort)).symm

/-- What comes of a fixture does not depend on the order of the files. -/
theorem runFixture_reorder (settings : Settings) (h : LeadsToTree tree path place)
    (ho : tree.Reorders tree') (hw : Walked tree path place names) :
    runFixture settings tree' (join path names) = runFixture settings tree (join path names) := by
  rw [runFixture, runFixture, ho.read_join h.isTree h.locate hw]

theorem results_congr (settings : Settings) (h : LeadsToTree tree path place)
    (ho : tree.Reorders tree') (hr : ∀ r, r ∈ requests' ↔ r ∈ requests) :
    results settings tree' path requests' = results settings tree path requests := by
  rw [results, results, running_congr h ho hr]
  refine List.map_congr_left fun names hn => ?_
  exact runFixture_reorder settings h ho ((mem_running_iff h).mp hn).1

/-- The results by category are the results in order. -/
theorem flatMap_runCategories (settings : Settings) (h : LeadsToTree tree path place)
    (requests : List Text) :
    (runCategories settings tree (select (categoriesOf tree path) requests)).flatMap (·.2) =
      results settings tree path requests := by
  have hrun : ∀ f ∈ (discover tree path).filter fun f => isRequested requests f.category,
      runFixture settings tree f.path = runFixture settings tree (join path f.place) := by
    intro f hf
    rw [eq_foundAt (List.mem_of_mem_filter hf)]
    rfl
  calc (runCategories settings tree (select (categoriesOf tree path) requests)).flatMap (·.2)
    _ = (select (categoriesOf tree path) requests).flatMap fun g =>
          g.2.map fun f => runFixture settings tree f.path := List.flatMap_map _ _ _
    _ = ((select (categoriesOf tree path) requests).flatMap (·.2)).map fun f =>
          runFixture settings tree f.path := List.map_flatMap.symm
    _ = ((discover tree path).filter fun f => isRequested requests f.category).map fun f =>
          runFixture settings tree f.path := by rw [h.categories_eq, flatMap_select]
    _ = ((discover tree path).filter fun f => isRequested requests f.category).map fun f =>
          runFixture settings tree (join path f.place) := List.map_congr_left hrun
    _ = results settings tree path requests := by
      rw [results, h.running_eq, List.map_map]
      rfl

/-- Each category that is run has a fixture. -/
theorem ne_nil_of_mem_runCategories {settings : Settings} (h : LeadsToTree tree path place)
    {g : Text × List Result}
    (hg : g ∈ runCategories settings tree (select (categoriesOf tree path) requests)) :
    g.2 ≠ [] := by
  rw [runCategories, h.categories_eq, select_eq] at hg
  obtain ⟨⟨category, found⟩, hfound, rfl⟩ := List.mem_map.mp hg
  exact fun hnil => (mem_groupBy (List.mem_of_mem_filter hfound)).1 (List.map_eq_nil_iff.mp hnil)

theorem runCategories_eq_nil_iff (settings : Settings) (h : LeadsToTree tree path place) :
    runCategories settings tree (select (categoriesOf tree path) requests) = [] ↔
      running tree path requests = [] := by
  rw [← List.map_eq_nil_iff (f := fun names => runFixture settings tree (join path names)),
    ← results, ← flatMap_runCategories settings h]
  constructor
  · intro hnil
    rw [hnil]
    rfl
  · intro hnil
    refine List.eq_nil_iff_forall_not_mem.mpr fun g hg => ?_
    exact ne_nil_of_mem_runCategories h hg (List.flatMap_eq_nil_iff.mp hnil g hg)

/-- Each fixture passes or fails. -/
theorem length_passed_add_failed (rs : List Result) :
    (rs.filter (·.passed)).length + (rs.filter (!·.passed)).length = rs.length :=
  (List.length_eq_length_filter_add _).symm

theorem failed_isEmpty_iff (rs : List Result) :
    (rs.filter (!·.passed)).isEmpty = true ↔ ∀ r ∈ rs, r.passed = true := by
  rw [List.isEmpty_iff, List.filter_eq_nil_iff]
  simp only [Bool.not_eq_true', Bool.not_eq_false]

/-! ## The report -/

/-- What a command shows besides warnings, and whether it has fixtures and all of them passed. -/
def verdict (settings : Settings) (tree : FileTree) (path : Text) (requests : List Text) :
    Text × Bool :=
  if (categoriesOf tree path).isEmpty then (noFixtures path, false)
  else report settings (runCategories settings tree (select (categoriesOf tree path) requests))

theorem test_eq (settings : Settings) (h : LeadsToTree tree path place) (requests : List Text) :
    test settings tree path requests =
      ⟨[], warned tree path requests ++ (verdict settings tree path requests).1, tree,
        if (verdict settings tree path requests).2 then 0 else 1⟩ := by
  rw [test, h.requests_eq, warned, verdict]
  split <;> rfl

theorem verdict_congr (settings : Settings) (h : LeadsToTree tree path place)
    (ho : tree.Reorders tree') (hr : ∀ r, r ∈ requests' ↔ r ∈ requests) :
    verdict settings tree' path requests' = verdict settings tree path requests := by
  have hrun : runCategories settings tree' (select (categoriesOf tree path) requests) =
      runCategories settings tree (select (categoriesOf tree path) requests) := by
    -- the fixtures of each group were found by the walk, so both trees give their contents
    refine List.map_congr_left fun ⟨category, found⟩ hg => ?_
    rw [h.categories_eq, select_eq] at hg
    refine congrArg (Prod.mk category) (List.map_congr_left fun f hf => ?_)
    have hfound : f ∈ discover tree path := by
      rw [← flatMap_groupBy (·.category) (discover tree path)]
      exact List.mem_flatMap_of_mem (List.mem_of_mem_filter hg) hf
    obtain ⟨names, ⟨hwalk, -⟩, rfl⟩ := mem_discover.mp hfound
    exact runFixture_reorder settings h ho ((mem_below_iff h.isTree h.locate).mp hwalk)
  rw [verdict, verdict, h.categories_reorder ho, select_congr hr, hrun]

theorem report_snd_iff {settings : Settings} {run : List (Text × List Result)} :
    (report settings run).2 = true ↔
      run ≠ [] ∧ ∀ r ∈ run.flatMap (·.2), r.passed = true := by
  rw [report, ← failed_isEmpty_iff, ← List.isEmpty_eq_false_iff]
  cases run.isEmpty with
  | true => exact iff_of_false Bool.false_ne_true fun h => nomatch h.1
  | false => exact (and_iff_right rfl).symm

/-- A run succeeds if and only if there are fixtures to run and all of them pass. -/
theorem verdict_snd_iff (settings : Settings) (h : LeadsToTree tree path place) :
    (verdict settings tree path requests).2 = true ↔ running tree path requests ≠ [] ∧
      ∀ r ∈ results settings tree path requests, r.passed = true := by
  rw [verdict, ← flatMap_runCategories settings h, ne_eq, ← runCategories_eq_nil_iff settings h]
  split
  next hnone =>
    rw [List.isEmpty_iff.mp hnone]
    refine iff_of_false Bool.false_ne_true fun hr => hr.1 ?_
    rw [select_eq]
    rfl
  next => exact report_snd_iff

/-- The text that a run of fixtures shows. -/
theorem verdict_fst (settings : Settings) (h : LeadsToTree tree path place)
    (hran : running tree path requests ≠ []) :
    ∃ groups : List (Text × List Result),
      groups.flatMap (·.2) = results settings tree path requests ∧
        (verdict settings tree path requests).1 =
          (groups.flatMap fun g => categoryText settings g.1 g.2) ++
            failuresText ((results settings tree path requests).filter (!·.passed)) ++
              summary settings ((results settings tree path requests).filter (·.passed)).length
                ((results settings tree path requests).filter (!·.passed)).length := by
  refine ⟨_, flatMap_runCategories settings h requests, ?_⟩
  have hrun := mt (runCategories_eq_nil_iff settings h).mp hran
  have hall : (categoriesOf tree path).isEmpty = false := by
    rw [List.isEmpty_eq_false_iff]
    intro hnone
    rw [hnone, select_eq] at hrun
    exact hrun rfl
  rw [verdict, hall, report, List.isEmpty_eq_false_iff.mpr hrun, flatMap_runCategories settings h]
  rfl

end run

/-! ## The command -/

/-- The command `test` runs these fixtures of a directory, each given by its names from there. -/
structure Runs (settings : Settings) (tree : FileTree) (path : Text) (place : Place)
    (requests : List Text) (ran : List Place) : Prop where
  /-- No fixture is run twice. -/
  nodup : ran.Nodup
  /-- The fixtures below the directory are run whose categories are asked for. -/
  selected : ∀ names, names ∈ ran ↔
    Walked tree path place names ∧ EndsAsFixture names ∧ Requests requests (categoryOf names)
  /-- Those below it are the files, unless a path is too long. -/
  files : (∀ p, tree.Stands (place ++ p) → isPathTooLong (join path p) = false) →
    ∀ names, Walked tree path place names ↔ names ≠ [] ∧ tree.isFile (place ++ names) = true
  /-- Each passes that can be read, has its front matter accepted, and does what this expects. -/
  passes : ∀ names ∈ ran, (runFixture settings tree (join path names)).passed = true ↔
    isPathTooLong (join path names) = false ∧ ∃ content f,
      tree.readAt (place ++ names) = .ok content ∧ Fixture.read content = .ok f ∧
        f.config.Meets f.outcome
  /-- All results are shown and counted, if there are any. -/
  shown : ran ≠ [] → ∃ (groups : List (Text × List Result)) (passed failed : List Result),
    groups.flatMap (·.2) = ran.map (fun names => runFixture settings tree (join path names)) ∧
      passed = (groups.flatMap (·.2)).filter (·.passed) ∧
      failed = (groups.flatMap (·.2)).filter (!·.passed) ∧
      passed.length + failed.length = ran.length ∧
      (test settings tree path requests).err = warned tree path requests ++
        ((groups.flatMap fun g => categoryText settings g.1 g.2) ++ failuresText failed ++
          summary settings passed.length failed.length)
  /-- The run succeeds where there is a fixture and all of them pass. -/
  exit : (test settings tree path requests).exit = 0 ↔
    ran ≠ [] ∧ ∀ names ∈ ran, (runFixture settings tree (join path names)).passed = true

theorem runs_running (settings : Settings) {tree : FileTree} {path : Text} {place : Place}
    (h : LeadsToTree tree path place) (requests : List Text) :
    Runs settings tree path place requests (running tree path requests) where
  nodup := nodup_running h
  selected _ := mem_running_iff h
  files hshort _ := walked_iff_isFile h.isTree hshort
  passes _ hn := passed_running_iff settings h hn
  shown hran := by
    obtain ⟨groups, hgroups, hshown⟩ := verdict_fst settings h hran
    refine ⟨groups, _, _, hgroups, rfl, rfl, ?_, ?_⟩
    · rw [length_passed_add_failed, hgroups, results, List.length_map]
    · rw [test_eq settings h, hshown, hgroups]
  exit := by
    have hexit : ∀ passed : Bool, (if passed then 0 else 1) = 0 ↔ passed = true := by decide
    rw [test_eq settings h]
    refine (hexit _).trans ?_
    rw [verdict_snd_iff settings h, results, List.forall_mem_map]

/-- The command runs the fixtures that are selected, and fails unless there are some and all of them
pass.  In which order files are listed and requests are made, and how often the same request is made,
shows in nothing but the warnings. -/
theorem test_selected (settings : Settings) {tree : FileTree} {path : Text} {place : Place}
    (h : LeadsToTree tree path place) (requests : List Text) :
    Runs settings tree path place requests (running tree path requests) ∧
      ∃ text, ∀ tree' requests', tree.Reorders tree' → (∀ r, r ∈ requests' ↔ r ∈ requests) →
        running tree' path requests' = running tree path requests ∧
        results settings tree' path requests' = results settings tree path requests ∧
        test settings tree' path requests' = ⟨[], warned tree path requests' ++ text, tree',
          (test settings tree path requests).exit⟩ := by
  refine ⟨runs_running settings h requests, (verdict settings tree path requests).1, ?_⟩
  intro tree' requests' ho hr
  refine ⟨running_congr h ho hr, results_congr settings h ho hr, ?_⟩
  rw [test_eq settings (h.reorder ho), test_eq settings h, verdict_congr settings h ho hr, warned,
    warned, h.categories_reorder ho]

/-- Two fixtures of three are run, though one of them is asked for twice, and both pass; listed and
requested in another order, they pass as well. -/
theorem test_selected_twice :
    ∃ (tree tree' : FileTree) (requests requests' : List Text),
      LeadsToTree tree ".".toList [] ∧ tree.Reorders tree' ∧ (∀ r, r ∈ requests' ↔ r ∈ requests) ∧
      (∀ names, names ∈ running tree ".".toList requests ↔
        names = ["a".toList, "x.test.moon".toList] ∨
          names = ["a".toList, "b".toList, "y.test.moon".toList]) ∧
      (test ⟨false, 0⟩ tree ".".toList requests).exit = 0 ∧
      (test ⟨false, 0⟩ tree' ".".toList requests').exit = 0 := by
  let x : Place × Content := (["a".toList, "x.test.moon".toList], .text "---\n---\n".toList)
  let y : Place × Content := (["a".toList, "b".toList, "y.test.moon".toList],
    .text "---\nexpect_error_line=1\n---\n]".toList)
  let z : Place × Content := (["ab".toList, "z.test.moon".toList], .text [])
  let tree : FileTree := ⟨[x, y, z], [["a".toList]]⟩
  let tree' : FileTree := ⟨[z, x, y], [["a".toList]]⟩
  let requests := ["/a/".toList, "a/b".toList]
  let requests' := ["a/b".toList, "/a/".toList, "a/b".toList]
  have htree : LeadsToTree tree ".".toList [] :=
    ⟨⟨by decide, by decide, fun _ => forall_isName (by decide)⟩, rfl, rfl⟩
  have horder : tree.Reorders tree' := ⟨by decide, List.Perm.rfl⟩
  have hrequests : ∀ r, r ∈ requests' ↔ r ∈ requests := fun r =>
    ⟨fun h => List.mem_of_mem_cons_of_mem h (by decide), fun h => List.mem_cons_of_mem _ h⟩
  obtain ⟨hruns, text, hsame⟩ := test_selected ⟨false, 0⟩ htree requests
  have hbelow : tree.below ".".toList = [x.1, y.1, z.1] := by decide
  have hran : ∀ names, names ∈ running tree ".".toList requests ↔ names = x.1 ∨ names = y.1 := by
    intro names
    rw [hruns.selected, ← mem_below_iff htree.isTree htree.locate, hbelow, ← endsAsFixture_iff,
      ← isRequested_iff]
    constructor
    · rintro ⟨hm, -, hr⟩
      simp only [List.mem_cons, List.not_mem_nil, or_false] at hm
      rcases hm with rfl | rfl | rfl
      · exact Or.inl rfl
      · exact Or.inr rfl
      · exact absurd hr (by decide)
    · rintro (rfl | rfl) <;> decide
  have hexit : (test ⟨false, 0⟩ tree ".".toList requests).exit = 0 := by
    refine hruns.exit.mpr ⟨List.ne_nil_of_mem ((hran x.1).mpr (Or.inl rfl)), fun names hn => ?_⟩
    rcases (hran names).mp hn with rfl | rfl
    · decide
    · decide
  refine ⟨tree, tree', requests, requests', htree, horder, hrequests, hran, hexit, ?_⟩
  rw [(hsame tree' requests' horder hrequests).2.2, hexit]

/-- A fixture in a directory with a backslash in its name is run for a request that is none for the
names on its way; and one in a directory whose path is too long is not run where nothing is
requested. -/
theorem running_backslash :
    (∃ (tree : FileTree) (names : Place), LeadsToTree tree ".".toList [] ∧
      tree.isFile names = true ∧ EndsAsFixture names ∧
      names ∈ running tree ".".toList ["a".toList] ∧
      ¬ Requests ["a".toList] (['/'].intercalate names.dropLast)) ∧
    ∃ (tree : FileTree) (names : Place), LeadsToTree tree ".".toList [] ∧
      tree.isFile names = true ∧ EndsAsFixture names ∧ names ∉ running tree ".".toList [] := by
  constructor
  · let names : Place := ["a\\b".toList, "x.test.moon".toList]
    let tree : FileTree := ⟨[(names, .text "---\n---\n".toList)], []⟩
    have htree : LeadsToTree tree ".".toList [] :=
      ⟨⟨by decide, by decide, fun _ => forall_isName (by decide)⟩, rfl, rfl⟩
    have hend : EndsAsFixture names := endsAsFixture_iff.mp (by decide)
    refine ⟨tree, names, htree, by decide, hend, (mem_running_iff htree).mpr ⟨?_, hend, ?_⟩, ?_⟩
    · exact (mem_below_iff htree.isTree htree.locate).mp (by decide)
    · exact isRequested_iff.mp (by decide)
    · exact fun h => absurd (isRequested_iff.mpr h) (by decide)
  · -- a character of four bytes keeps the names short
    let way : Place := List.replicate 17 (List.replicate 63 (Char.ofNat 0x10000))
    let names : Place := way ++ ["x.test.moon".toList]
    let tree : FileTree := ⟨[(names, .text "---\n---\n".toList)], []⟩
    have htree : LeadsToTree tree ".".toList [] :=
      ⟨⟨by decide +kernel, by decide +kernel, fun _ => forall_isName (by decide +kernel)⟩, rfl, rfl⟩
    have hlong : isPathTooLong (join ".".toList way) = true := by decide +kernel
    have hend : EndsAsFixture names := endsAsFixture_iff.mp (by decide +kernel)
    refine ⟨tree, names, htree, by decide +kernel, hend, fun h => ?_⟩
    have hshort := ((mem_running_iff htree).mp h).1.way way (List.prefix_append _ _) (by decide)
      (by decide +kernel)
    rw [hlong] at hshort
    cases hshort

end CommandLine
end BlockText
