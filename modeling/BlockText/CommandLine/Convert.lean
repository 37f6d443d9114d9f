/-
The commands that read documents: `json`, `check` and `tree`.

`json` stops at the first file that fails; what it has written stays.  `check` looks at all files.
-/
import BlockText.CommandLine.Report
import BlockText.Document.Json
import BlockText.Document.Outline

namespace BlockText
namespace CommandLine

/-- Where the JSON text of a file is written. -/
def jsonPath (path : Text) : Text := FileTree.withExtension "json".toList path

/-- Converts files one after another.  A file that has been written is read as such by what comes
after it. -/
def json (settings : Settings) (strict toOutput : Bool) (tree : FileTree) :
    List Text → Outcome
  | [] => ⟨[], [], tree, 0⟩
  | path :: paths =>
    match readDocument settings strict tree path with
    | (err, none) => ⟨[], err, tree, 1⟩
    | (err, some d) =>
      if toOutput then (json settings strict toOutput tree paths).after (line d.interchange) err
      else
        let target := jsonPath path
        match tree.write target (line d.interchange) with
        | .error e =>
          ⟨[], err ++ line ("error: cannot write '".toList ++ target ++ "': ".toList ++ e.message),
            tree, 1⟩
        | .ok tree =>
          (json settings strict toOutput tree paths).after []
            (err ++ line ("wrote ".toList ++ target))

/-- What `check` shows of a file, and whether the file is valid. -/
def checkFile (settings : Settings) (strict : Bool) (tree : FileTree) (path : Text) :
    Text × Bool :=
  match readDocument settings strict tree path with
  | (err, none) => (err, false)
  | (err, some d) =>
    (err ++ line ("ok: ".toList ++ path ++ " parsed successfully (".toList ++
      Text.decimal d.units.length ++ " unit(s))".toList), true)

def check (settings : Settings) (strict : Bool) (tree : FileTree) (paths : List Text) : Outcome :=
  let reports := paths.map (checkFile settings strict tree)
  ⟨[], reports.flatMap (·.1), tree, if reports.all (·.2) then 0 else 1⟩

def showTree (settings : Settings) (strict : Bool) (tree : FileTree) (path : Text) : Outcome :=
  match readDocument settings strict tree path with
  | (err, none) => ⟨[], err, tree, 1⟩
  | (err, some d) => ⟨line d.tree, err, tree, 0⟩

end CommandLine
end BlockText
