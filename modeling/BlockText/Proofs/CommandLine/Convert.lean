/-
What converting files changes.

`CommandLine.json_cases` says all that one file of the list can do: it fails and ends the run, or its
document is shown or written and the rest is taken from what there is then.  Two statements on whole
runs follow.  Where the texts have places of their own, a run writes the texts of the files before the
first one that fails and changes nothing else (`json_failStop`).  In general a place that a run changes
is one that the JSON text of a listed file goes to, and holds such a text afterwards
(`lookup_json`), so that a listed file is kept unless such a text goes to its own place
(`json_source_kept`).

Paths are told apart by where they lead, since two of them may lead to one file.
-/
import Mathlib.Data.List.TakeDrop
import Mathlib.Data.List.TakeWhile
import BlockText.CommandLine.Convert
import BlockText.Proofs.FileTree.Locate

namespace BlockText
namespace CommandLine

open FileTree

/-! ## Taking one file -/

/-- The document that a file holds, if it can be read and is one. -/
def document? (strict : Bool) (tree : FileTree) (path : Text) : Option Document :=
  (tree.read path).toOption.bind fun source => (Document.parse strict source).toOption

def holdsDocument (strict : Bool) (tree : FileTree) (path : Text) : Bool :=
  (document? strict tree path).isSome

variable {strict toOutput : Bool} {tree tree' : FileTree}

theorem readDocument_snd (settings : Settings) (strict : Bool) (tree : FileTree) (path : Text) :
    (readDocument settings strict tree path).2 = document? strict tree path := by
  unfold readDocument document?
  cases tree.read path with
  | error e => rfl
  | ok source =>
    simp only [Except.toOption, Option.bind_some]
    cases Document.parse strict source <;> rfl

@[simp] theorem tree_after (o : Outcome) (out err : Text) : (o.after out err).tree = o.tree := rfl

@[simp] theorem exit_after (o : Outcome) (out err : Text) : (o.after out err).exit = o.exit := rfl

/-- The place that the JSON text of a file can be written to. -/
def WritesTo (tree : FileTree) (path : Text) (place : Place) : Prop :=
  tree.locate (jsonPath path) = .ok place ∧ tree.isDirectory place = false

theorem WritesTo.unique {path : Text} {a b : Place} (ha : WritesTo tree path a)
    (hb : WritesTo tree path b) : a = b :=
  Except.ok.inj (ha.1.symm.trans hb.1)

/-- What the files are after a document of this path was taken. -/
inductive Takes (toOutput : Bool) (tree : FileTree) (path : Text) (d : Document) : FileTree → Prop
  | shown (h : toOutput = true) : Takes toOutput tree path d tree
  | written (h : toOutput = false) {place : Place} (hw : WritesTo tree path place) :
    Takes toOutput tree path d (tree.set place (.text (line d.interchange)))

/-- A file is taken and then the rest, or it ends the run. -/
theorem json_cases (settings : Settings) (strict toOutput : Bool) (tree : FileTree) (path : Text)
    (paths : List Text) :
    (∃ d tree' err, document? strict tree path = some d ∧ Takes toOutput tree path d tree' ∧
      json settings strict toOutput tree (path :: paths) =
        (json settings strict toOutput tree' paths).after
          (if toOutput then line d.interchange else []) err) ∨
    (∃ err, json settings strict toOutput tree (path :: paths) = ⟨[], err, tree, 1⟩ ∧
      (document? strict tree path = none ∨
        toOutput = false ∧ ∀ place, ¬ WritesTo tree path place)) := by
  have hsnd := readDocument_snd settings strict tree path
  rcases hread : readDocument settings strict tree path with ⟨err, _ | d⟩ <;> rw [hread] at hsnd
  · refine Or.inr ⟨err, ?_, Or.inl hsnd.symm⟩
    rw [json, hread]
  cases toOutput with
  | true =>
    refine Or.inl ⟨d, tree, err, hsnd.symm, .shown rfl, ?_⟩
    rw [json, hread]
    rfl
  | false =>
    cases hwrite : tree.write (jsonPath path) (line d.interchange) with
    | error e =>
      refine Or.inr ⟨err ++ line ("error: cannot write '".toList ++ jsonPath path ++ "': ".toList ++
        e.message), ?_, Or.inr ⟨rfl, fun place hw => ?_⟩⟩
      · rw [json, hread]
        simp only [Bool.false_eq_true, if_false, hwrite]
      · rw [write_eq_ok_iff.mpr ⟨place, hw.1, hw.2, rfl⟩] at hwrite
        cases hwrite
    | ok tree' =>
      obtain ⟨place, hp, hd, rfl⟩ := write_eq_ok_iff.mp hwrite
      refine Or.inl ⟨d, _, err ++ line ("wrote ".toList ++ jsonPath path), hsnd.symm,
        .written rfl ⟨hp, hd⟩, ?_⟩
      rw [json, hread]
      simp only [Bool.false_eq_true, if_false, hwrite]

/-- A file that holds no document ends the run. -/
theorem json_of_none (settings : Settings) {path : Text} (paths : List Text)
    (h : document? strict tree path = none) :
    ∃ err, json settings strict toOutput tree (path :: paths) = ⟨[], err, tree, 1⟩ := by
  rcases json_cases settings strict toOutput tree path paths with
    ⟨d, -, -, hd, -, -⟩ | ⟨err, hjson, -⟩
  · rw [h] at hd
    cases hd
  · exact ⟨err, hjson⟩

/-- A file that holds a document has its text written, and the rest is taken from there. -/
theorem json_of_some (settings : Settings) {path : Text} (paths : List Text) {d : Document}
    {place : Place} (h : document? strict tree path = some d) (hw : WritesTo tree path place) :
    ∃ err, json settings strict false tree (path :: paths) =
      (json settings strict false (tree.set place (.text (line d.interchange))) paths).after
        [] err := by
  rcases json_cases settings strict false tree path paths with
    ⟨d', tree', err, hd, htakes, hjson⟩ | ⟨err, -, hnone | ⟨-, hnone⟩⟩
  · obtain rfl : d' = d := Option.some.inj (hd.symm.trans h)
    cases htakes with
    | shown ho => cases ho
    | written _ hplace =>
      obtain rfl := hplace.unique hw
      exact ⟨err, hjson⟩
  · rw [h] at hnone
    cases hnone
  · exact absurd hw (hnone place)

/-- Taking a file makes no directories. -/
theorem Takes.sameDirectories {path : Text} {d : Document} (h : Takes toOutput tree path d tree') :
    SameDirectories tree tree' := by
  cases h with
  | shown => exact fun _ => rfl
  | written _ hw => exact sameDirectories_set (enclosed_of_locate hw.1) _

/-- What is read and where texts can be written hangs on the files only through their directories and
what stands at the places in question. -/
theorem writesTo_congr (h : SameDirectories tree tree') {path : Text} {place : Place} :
    WritesTo tree' path place ↔ WritesTo tree path place := by
  rw [WritesTo, WritesTo, locate_congr h, h place]

theorem document?_congr (h : SameDirectories tree tree') {path : Text}
    (hl : ∀ place, tree.locate path = .ok place →
      tree'.files.lookup place = tree.files.lookup place) :
    document? strict tree' path = document? strict tree path := by
  have hread : (tree'.read path).toOption = (tree.read path).toOption := by
    cases hp : tree.locate path with
    | ok place =>
      rw [read_of_locate hp, read_of_locate ((locate_congr h).mpr hp), readAt_congr h (hl place hp)]
    | error e =>
      have hnone : ∀ {t : FileTree}, (∀ place, t.locate path ≠ .ok place) →
          (t.read path).toOption = none := by
        intro t hne
        cases ht : t.read path with
        | error e => rfl
        | ok text =>
          obtain ⟨place, hplace⟩ := exists_locate_of_read ht
          exact absurd hplace (hne place)
      have hne : ∀ place, tree.locate path ≠ .ok place := fun place h => nomatch hp.symm.trans h
      rw [hnone hne, hnone fun place hplace => hne place ((locate_congr h).mp hplace)]
  rw [document?, document?, hread]

/-! ## What a run changes -/

/-- A run makes no directories. -/
theorem sameDirectories_json (settings : Settings) (strict toOutput : Bool) (tree : FileTree)
    (paths : List Text) :
    SameDirectories tree (json settings strict toOutput tree paths).tree := by
  induction paths generalizing tree with
  | nil => exact fun _ => rfl
  | cons path paths ih =>
    rcases json_cases settings strict toOutput tree path paths with
      ⟨d, tree', err, -, htakes, hjson⟩ | ⟨err, hjson, -⟩ <;> rw [hjson]
    · exact htakes.sameDirectories.trans (ih tree')
    · exact fun _ => rfl

/-- What a run changes is a place that the JSON text of a listed file goes to, and holds such a text
afterwards. -/
theorem lookup_json (settings : Settings) (strict toOutput : Bool) (tree : FileTree)
    (paths : List Text) (place : Place) :
    (json settings strict toOutput tree paths).tree.files.lookup place = tree.files.lookup place ∨
      toOutput = false ∧ ∃ path ∈ paths, WritesTo tree path place ∧ ∃ d : Document,
        (json settings strict toOutput tree paths).tree.files.lookup place =
          some (.text (line d.interchange)) := by
  induction paths generalizing tree with
  | nil => exact Or.inl rfl
  | cons path paths ih =>
    rcases json_cases settings strict toOutput tree path paths with
      ⟨d, tree', err, -, htakes, hjson⟩ | ⟨err, hjson, -⟩ <;> rw [hjson]
    · rw [tree_after]
      rcases ih tree' with hsame | ⟨ho, p, hp, hw, d', hd⟩
      · rw [hsame]
        cases htakes with
        | shown => exact Or.inl rfl
        | @written ho target hw =>
          rw [lookup_set]
          split
          next he => exact Or.inr ⟨ho, path, List.mem_cons_self, he ▸ hw, d, rfl⟩
          next => exact Or.inl rfl
      · exact Or.inr ⟨ho, p, List.mem_cons_of_mem path hp,
          (writesTo_congr htakes.sameDirectories).mp hw, d', hd⟩
    · exact Or.inl rfl

/-! ## Texts with places of their own -/

/-- The JSON texts of the files can be written, to places of their own where none of the files is.
What is compared is where the paths lead and not how they are spelled: `a.json` and `./a.json` are
not apart. -/
structure OutputsApart (tree : FileTree) (paths : List Text) : Prop where
  writable : ∀ p ∈ paths, ∃ place, WritesTo tree p place
  distinct : paths.Pairwise fun p q => tree.locate (jsonPath p) ≠ tree.locate (jsonPath q)
  sources : ∀ p ∈ paths, ∀ q ∈ paths, tree.locate (jsonPath p) ≠ tree.locate q

theorem locate_ne_congr (h : SameDirectories tree tree') {p q : Text} {place : Place}
    (hp : tree.locate p = .ok place) (hne : tree.locate p ≠ tree.locate q) :
    tree'.locate p ≠ tree'.locate q := by
  intro he
  rw [(locate_congr h).mpr hp] at he
  rw [hp, (locate_congr h).mp he.symm] at hne
  exact hne rfl

/-- When the first text is written, the texts of the rest still have places of their own, and the rest
holds the documents that it held. -/
theorem OutputsApart.set {path : Text} {paths : List Text} (h : OutputsApart tree (path :: paths))
    {place : Place} (hw : WritesTo tree path place) (content : Content) :
    OutputsApart (tree.set place content) paths ∧ ∀ strict, ∀ q ∈ paths,
      document? strict (tree.set place content) q = document? strict tree q := by
  have hsame : SameDirectories tree (tree.set place content) :=
    sameDirectories_set (enclosed_of_locate hw.1) content
  have hmem : ∀ {q}, q ∈ paths → q ∈ path :: paths := fun hq => List.mem_cons_of_mem path hq
  have hwritable : ∀ p ∈ paths, ∃ place, WritesTo tree p place := fun p hp =>
    h.writable p (hmem hp)
  refine ⟨⟨fun p hp => ?_, ?_, fun p hp q hq => ?_⟩, fun strict q hq => ?_⟩
  · obtain ⟨target, ht⟩ := hwritable p hp
    exact ⟨target, (writesTo_congr hsame).mpr ht⟩
  · refine (List.pairwise_cons.mp h.distinct).2.imp_of_mem fun {p q} hp _ hne => ?_
    obtain ⟨target, ht⟩ := hwritable p hp
    exact locate_ne_congr hsame ht.1 hne
  · obtain ⟨target, ht⟩ := hwritable p hp
    exact locate_ne_congr hsame ht.1 (h.sources p (hmem hp) q (hmem hq))
  · refine document?_congr hsame fun target ht => ?_
    have hne : target ≠ place := by
      rintro rfl
      exact h.sources path List.mem_cons_self q (hmem hq) (hw.1.trans ht.symm)
    rw [lookup_set, if_neg hne]

/-- A run takes the files in front of one that holds no document, and writes their texts only. -/
theorem json_append (settings : Settings) {done rest : List Text}
    (h : OutputsApart tree (done ++ rest))
    (hdone : ∀ p ∈ done, holdsDocument strict tree p = true)
    (hrest : ∀ p ∈ rest.head?, document? strict tree p = none) :
    (json settings strict false tree (done ++ rest)).exit = (if rest = [] then 0 else 1) ∧
      (∀ p ∈ done, ∀ place d, WritesTo tree p place → document? strict tree p = some d →
        (json settings strict false tree (done ++ rest)).tree.files.lookup place =
          some (.text (line d.interchange))) ∧
      ∀ place, (∀ p ∈ done, tree.locate (jsonPath p) ≠ .ok place) →
        (json settings strict false tree (done ++ rest)).tree.files.lookup place =
          tree.files.lookup place := by
  induction done generalizing tree with
  | nil =>
    rw [List.nil_append]
    have hend : (json settings strict false tree rest).exit = (if rest = [] then 0 else 1) ∧
        (json settings strict false tree rest).tree = tree := by
      cases rest with
      | nil => exact ⟨rfl, rfl⟩
      | cons path paths =>
        obtain ⟨err, hjson⟩ := json_of_none settings paths (hrest path rfl)
        rw [hjson]
        exact ⟨rfl, rfl⟩
    refine ⟨hend.1, fun p hp => absurd hp List.not_mem_nil, fun place _ => ?_⟩
    rw [hend.2]
  | cons path done ih =>
    rw [List.cons_append] at h ⊢
    obtain ⟨place, hw⟩ := h.writable path List.mem_cons_self
    obtain ⟨d, hd⟩ := Option.isSome_iff_exists.mp (hdone path List.mem_cons_self)
    obtain ⟨err, hjson⟩ := json_of_some settings (done ++ rest) hd hw
    have hsame : SameDirectories tree (tree.set place (.text (line d.interchange))) :=
      sameDirectories_set (enclosed_of_locate hw.1) _
    obtain ⟨happart, hdocument⟩ := h.set hw (.text (line d.interchange))
    obtain ⟨hexit, hwritten, hkept⟩ := ih happart
      (fun p hp => by
        rw [holdsDocument, hdocument strict p (List.mem_append_left rest hp)]
        exact hdone p (List.mem_cons_of_mem path hp))
      (fun p hp => by
        rw [hdocument strict p (List.mem_append_right done (List.mem_of_mem_head? hp))]
        exact hrest p hp)
    -- no later text goes to the place of the first one
    have hother : ∀ p ∈ done, tree.locate (jsonPath p) ≠ .ok place := by
      intro p hp he
      refine (List.pairwise_cons.mp h.distinct).1 p (List.mem_append_left rest hp) ?_
      rw [hw.1, he]
    rw [hjson, exit_after, tree_after]
    refine ⟨hexit, fun p hp q d' hq hd' => ?_, fun q hq => ?_⟩
    · rcases List.mem_cons.mp hp with rfl | hp
      · obtain rfl := hq.unique hw
        obtain rfl : d' = d := Option.some.inj (hd'.symm.trans hd)
        rw [hkept q fun p hp hl => hother p hp ((locate_congr hsame).mp hl), lookup_set, if_pos rfl]
      · refine hwritten p hp q d' ((writesTo_congr hsame).mpr hq) ?_
        rw [hdocument strict p (List.mem_append_left rest hp), hd']
    · have hne : q ≠ place := fun he => hq path List.mem_cons_self (he ▸ hw.1)
      rw [hkept q fun p hp hl => hq p (List.mem_cons_of_mem path hp) ((locate_congr hsame).mp hl),
        lookup_set, if_neg hne]

/-- A file is read afterwards as before, where documents are shown and not written, and where no JSON
text of a listed file goes to its place.  Listed or not, a file that is read otherwise holds such a
text: that of a listed file whose text goes to its place. -/
theorem json_source_kept (settings : Settings) (strict toOutput : Bool) {tree : FileTree}
    {paths : List Text} {q : Text} {place : Place} (hplace : tree.locate q = .ok place) :
    let after := (json settings strict toOutput tree paths).tree
    (toOutput = true ∨ (∀ p ∈ paths, tree.locate (jsonPath p) ≠ .ok place) →
      after.read q = tree.read q) ∧
    (after.read q = tree.read q ∨ toOutput = false ∧ ∃ p ∈ paths,
      tree.locate (jsonPath p) = .ok place ∧ ∃ d : Document, after.read q = .ok (line d.interchange)) := by
  intro after
  have hsame : SameDirectories tree after := sameDirectories_json settings strict toOutput tree paths
  have hafter : after.read q = after.readAt place :=
    read_of_locate ((locate_congr hsame).mpr hplace)
  rw [hafter, read_of_locate hplace]
  rcases lookup_json settings strict toOutput tree paths place with hl | ⟨ho, p, hp, hw, d, hd⟩
  · have hread := readAt_congr hsame hl
    exact ⟨fun _ => hread, Or.inl hread⟩
  · refine ⟨fun h => ?_, Or.inr ⟨ho, p, hp, hw.1, d, readAt_of_lookup hd⟩⟩
    rcases h with h | h
    · rw [h] at ho
      cases ho
    · exact absurd hw.1 (h p hp)

/-- A file that stands beside the converted one is kept. -/
theorem json_source_kept_beside :
    ∃ (tree : FileTree) (paths : List Text) (place : Place),
      paths = ["a.moon".toList, "./d/../b.json.moon".toList] ∧
      tree.locate "./d/../b.json.moon".toList = .ok place ∧
      (∀ p ∈ paths, tree.locate (jsonPath p) ≠ .ok place) ∧
      (json ⟨false, 0⟩ false false tree paths).tree.read "./d/../b.json.moon".toList =
        tree.read "./d/../b.json.moon".toList ∧
      (json ⟨false, 0⟩ false false tree paths).exit = 0 := by
  let tree : FileTree :=
    ⟨[(["a.moon".toList], .text "unit A [\n]".toList), (["b.json.moon".toList], .text [])],
      [["d".toList]]⟩
  let paths := ["a.moon".toList, "./d/../b.json.moon".toList]
  have hplace : tree.locate "./d/../b.json.moon".toList = .ok ["b.json.moon".toList] := rfl
  have hapart : ∀ p ∈ paths, tree.locate (jsonPath p) ≠ .ok ["b.json.moon".toList] := by decide
  exact ⟨tree, paths, _, rfl, hplace, hapart,
    (json_source_kept ⟨false, 0⟩ false false hplace).1 (Or.inr hapart), rfl⟩

/-- A file whose JSON text goes to its own place is overwritten with it, and the run succeeds. -/
theorem json_overwrites (settings : Settings) {path : Text} {place : Place} {d : Document}
    (hd : document? strict tree path = some d) (hp : tree.locate path = .ok place)
    (hw : WritesTo tree path place) :
    (json settings strict false tree [path]).tree.read path = .ok (line d.interchange) ∧
      (json settings strict false tree [path]).exit = 0 := by
  obtain ⟨err, hjson⟩ := json_of_some settings [] hd hw
  rw [hjson, tree_after, exit_after]
  refine ⟨?_, rfl⟩
  have hsame : SameDirectories tree (tree.set place (.text (line d.interchange))) :=
    sameDirectories_set (enclosed_of_locate hp) _
  show (tree.set place (.text (line d.interchange))).read path = _
  rw [read_of_locate ((locate_congr hsame).mpr hp)]
  exact readAt_of_lookup (by rw [lookup_set, if_pos rfl])

/-- A source with the name of a JSON text is lost. -/
theorem json_source_lost :
    ∃ (tree : FileTree) (path : Text), path = "a.json".toList ∧
      tree.read path = .ok "unit A [\n]\n".toList ∧
      (json ⟨false, 0⟩ false false tree [path]).exit = 0 ∧
      (json ⟨false, 0⟩ false false tree [path]).tree.read path ≠ tree.read path := by
  let tree : FileTree := ⟨[(["a.json".toList], .text "unit A [\n]\n".toList)], []⟩
  have hd : document? false tree "a.json".toList =
      some ⟨[], [⟨"A".toList, [], [], [], []⟩]⟩ := rfl
  obtain ⟨hread, hexit⟩ := json_overwrites ⟨false, 0⟩ hd rfl ⟨rfl, rfl⟩
  refine ⟨tree, "a.json".toList, rfl, rfl, hexit, ?_⟩
  rw [hread]
  intro h
  have hhead := congrArg List.head? (Except.ok.inj h)
  exact absurd hhead (by decide)

end CommandLine
end BlockText
