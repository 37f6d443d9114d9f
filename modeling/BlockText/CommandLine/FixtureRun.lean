/-
Running fixtures: the command `test`.

The fixtures of a directory are the files below it with the ending `.test.moon`.  The way from the
directory to a fixture is the fixture's category, and a run may be confined to some categories and
those below them.  Categories and the fixtures in them are taken in the order of their names, so the
order in which a directory lists its files does not show.
-/
import BlockText.CommandLine.Report
import BlockText.Fixture

namespace BlockText
namespace CommandLine

def fixtureEnding : Text := ".test.moon".toList

/-! ## Order -/

/-- Whether the first list comes before the second or is the same, item by item. -/
def listLe {α : Type} (le : α → α → Bool) : List α → List α → Bool
  | [], _ => true
  | _ :: _, [] => false
  | x :: xs, y :: ys => le x y && (!le y x || listLe le xs ys)

/-- The order of texts by their characters. -/
def textLe : Text → Text → Bool := listLe fun a b => decide (a.toNat ≤ b.toNat)

/-- The order of paths by their names. -/
def placeLe : Place → Place → Bool := listLe textLe

/-! ## Finding fixtures -/

/-- A fixture's category, where it is below the directory, and its path. -/
structure Found where
  category : Text
  place : Place
  path : Text

/-- The names on the way to a file. -/
def categoryOf (place : Place) : Text :=
  (['/'].intercalate place.dropLast).map fun c => if c == '\\' then '/' else c

def isFixtureName (name : Text) : Bool := fixtureEnding.isSuffixOf name

/-- What is found at a place below the directory of a path. -/
def foundAt (path : Text) (place : Place) : Found :=
  ⟨categoryOf place, place, FileTree.join path place⟩

/-- The order by category and place. -/
def foundLe (a b : Found) : Bool :=
  textLe a.category b.category &&
    (!textLe b.category a.category || placeLe a.place b.place)

/-- The fixtures below a directory, by category and path. -/
def discover (tree : FileTree) (path : Text) : List Found :=
  let places := (tree.below path).filter fun p => isFixtureName (p.getLast?.getD [])
  (places.map (foundAt path)).mergeSort foundLe

/-- Items of which neighbours with the same key are put together under it. -/
def groupBy {α : Type} (key : α → Text) : List α → List (Text × List α)
  | [] => []
  | x :: xs =>
    match groupBy key xs with
    | (k, ys) :: groups =>
      if k == key x then (k, x :: ys) :: groups else (key x, [x]) :: (k, ys) :: groups
    | [] => [(key x, [x])]

/-- Fixtures by category. -/
abbrev Categories := List (Text × List Found)

/-- The fixtures that a path leads to: a file by itself, or all below a directory. -/
def categoriesOf (tree : FileTree) (path : Text) : Categories :=
  if tree.isFilePath path then [([], [⟨[], [], path⟩])]
  else groupBy (·.category) (discover tree path)

def categoryLabel (category : Text) : Text :=
  if category.isEmpty then "(root)".toList else category

/-! ## Selecting categories -/

/-- A requested category without slashes around it. -/
def requested (request : Text) : Text :=
  let slash := fun c => c == '/'
  ((request.dropWhile slash).reverse.dropWhile slash).reverse

/-- Whether a request, without slashes around it, asks for a category. -/
def asksFor (request category : Text) : Bool :=
  category == request || (request ++ ['/']).isPrefixOf category

/-- The requested categories, or all where none is requested. -/
def select (all : Categories) (requests : List Text) : Categories :=
  if requests.isEmpty then all
  else all.filter fun (category, _) => requests.any fun r => asksFor (requested r) category

/-- A line for each request that asks for no category. -/
def warnings (all : Categories) (requests : List Text) : Text :=
  requests.flatMap fun r =>
    let r := requested r
    if all.any fun (category, _) => asksFor r category then []
    else line ("warning: category '".toList ++ r ++ "' not found (available: ".toList ++
      ", ".toList.intercalate (all.map fun (category, _) => categoryLabel category) ++ [')'])

/-! ## Running a fixture -/

/-- What came of a fixture. -/
structure Result where
  path : Text
  description : Option Text
  /-- What was shown about the reading. -/
  log : Text
  /-- Why the fixture failed, if it did. -/
  failure : Option Text

def runFixture (settings : Settings) (tree : FileTree) (path : Text) : Result :=
  match tree.read path with
  | .error e => ⟨path, none, [], some ("cannot read file: ".toList ++ e.message)⟩
  | .ok content =>
    match Fixture.read content with
    | .error e => ⟨path, none, [], some ("front matter error: ".toList ++ e.message)⟩
    | .ok f =>
      ⟨path, f.config.description, readingLog settings f.config.strict f.source,
        f.mismatch?.map Mismatch.message⟩

namespace Result

def passed (r : Result) : Bool := r.failure.isNone

/-- The description, or else the name of the file. -/
def label (r : Result) : Text :=
  match r.description with
  | some description => description
  | none => (fixtureEnding.isSuffixOf? (FileTree.fileName r.path)).getD ['?']

def render (settings : Settings) (r : Result) : Text :=
  let mark := if r.passed then paint settings "32" "PASS".toList
    else paint settings "31" "FAIL".toList
  r.log ++ line (' ' :: ' ' :: mark ++ ' ' :: ' ' :: r.label)

end Result

/-! ## The report -/

/-- The lines of a text, without their ends.  What follows the last line end is a line unless it is
empty. -/
def endedLines (t : Text) : List Text :=
  let pieces := t.pieces
  let last := pieces.getLast?.getD []
  pieces.dropLast.map (Text.dropSuffix ['\r']) ++ (if last.isEmpty then [] else [last])

/-- A failed fixture with its reason. -/
def failureText (r : Result) : Text :=
  line [] ++ line ("  --- ".toList ++ r.path ++ " ---".toList) ++
    (endedLines (r.failure.getD [])).flatMap fun l => line (' ' :: ' ' :: l)

def failuresText (failed : List Result) : Text :=
  if failed.isEmpty then []
  else line [] ++ line "failures:".toList ++ failed.flatMap failureText

def summary (settings : Settings) (passed failed : Nat) : Text :=
  line [] ++
    if failed == 0 then
      line ("test result: ".toList ++ paint settings "32" "ok".toList ++ ". ".toList ++
        Text.decimal passed ++ " passed, 0 failed".toList)
    else
      line ("test result: ".toList ++ paint settings "31" "FAILED".toList ++ ". ".toList ++
        Text.decimal passed ++ " passed, ".toList ++ Text.decimal failed ++
        " failed (of ".toList ++ Text.decimal (passed + failed) ++ [')'])

/-- A category's heading and its results. -/
def categoryText (settings : Settings) (category : Text) (results : List Result) : Text :=
  line [] ++ line (paint settings "1" (categoryLabel category)) ++
    results.flatMap (Result.render settings)

/-- The results by category. -/
def runCategories (settings : Settings) (tree : FileTree) (selected : Categories) :
    List (Text × List Result) :=
  selected.map fun (category, found) =>
    (category, found.map fun f => runFixture settings tree f.path)

/-- What a run shows, and whether it has fixtures and all of them passed. -/
def report (settings : Settings) (run : List (Text × List Result)) : Text × Bool :=
  if run.isEmpty then (line "no matching categories found".toList, false)
  else
    let results := run.flatMap (·.2)
    let passed := results.filter (·.passed)
    let failed := results.filter (!·.passed)
    ((run.flatMap fun (category, results) => categoryText settings category results) ++
      failuresText failed ++ summary settings passed.length failed.length, failed.isEmpty)

def noFixtures (path : Text) : Text :=
  line ("no ".toList ++ fixtureEnding ++ " files found in ".toList ++ path)

/-- A file that is run by itself has no category to ask for. -/
def requestsFor (tree : FileTree) (path : Text) (requests : List Text) : List Text :=
  if tree.isFilePath path then [] else requests

def test (settings : Settings) (tree : FileTree) (path : Text) (requests : List Text) : Outcome :=
  let all := categoriesOf tree path
  let requests := requestsFor tree path requests
  if all.isEmpty then ⟨[], noFixtures path, tree, 1⟩
  else
    let (text, passed) := report settings (runCategories settings tree (select all requests))
    ⟨[], warnings all requests ++ text, tree, if passed then 0 else 1⟩

def listCategories (tree : FileTree) (path : Text) : Outcome :=
  let all := categoriesOf tree path
  let text :=
    if tree.isFilePath path then line "(single file, no categories)".toList
    else if all.isEmpty then noFixtures path
    else line "available categories:".toList ++ all.flatMap fun (category, found) =>
      line (' ' :: ' ' :: categoryLabel category ++ " (".toList ++ Text.decimal found.length ++
        " fixtures)".toList)
  ⟨[], text, tree, 0⟩

end CommandLine
end BlockText
