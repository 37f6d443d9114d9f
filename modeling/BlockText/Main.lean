/-
The program on a real file system.

The files that a command may read or write are loaded, the command is run on them, and what it shows
and changes is carried out.  A file that cannot be loaded counts as missing.
-/
import BlockText.CommandLine.Run

namespace BlockText
namespace CommandLine

/-- The content of a file. -/
def loadContent (path : String) : IO Content := do
  match String.fromUTF8? (← IO.FS.readBinFile path) with
  | some s => return .text s.toList
  | none => return .undecodable

/-- Adds what stands at a path, under the place that the path leads to.  With `deep`, all below a
directory is added too. -/
partial def loadPath (deep : Bool) (tree : FileTree) (path : String) : IO FileTree := do
  let place := FileTree.placeOf path.toList
  let entry := (← IO.currentDir) / path
  if ← entry.isDir then
    let tree := { tree with directories := tree.directories ++ [place] }
    if deep then
      let names := (← entry.readDir).toList.map fun e => [e.fileName.toList]
      names.foldlM (fun tree name =>
        loadPath deep tree (String.ofList (FileTree.join path.toList name))) tree
    else return tree
  else if tree.isFile place then return tree
  else
    try return tree.set place (← loadContent path)
    catch _ => return tree

/-- Adds a path, the directories on the way to it, and the place that its JSON text would have. -/
def loadArgument (deep : Bool) (tree : FileTree) (path : Text) : IO FileTree := do
  let tree ← (FileTree.ancestors path).foldlM
    (fun tree path => loadPath false tree (String.ofList path)) tree
  let tree ← loadPath deep tree (String.ofList path)
  loadPath false tree (String.ofList (jsonPath path))

def loadCommand (command : Command) : IO FileTree :=
  let deep := command matches .test .. | .listCategories _
  command.paths.foldlM (loadArgument deep) ⟨[], []⟩

def load (args : List Text) : IO FileTree :=
  match parseArguments args with
  | .ok (_, command) => loadCommand command
  | .error _ => return ⟨[], []⟩

/-- Writes a changed file. -/
def store (place : Place) : Content → IO Unit
  | .text t => IO.FS.writeFile (String.ofList (['/'].intercalate place)) (String.ofList t)
  | .undecodable => return ()

end CommandLine
end BlockText

open BlockText in
def main (args : List String) : IO UInt32 := do
  let args := args.map String.toList
  let tree ← CommandLine.load args
  let outcome := CommandLine.run tree args
  for (place, content) in CommandLine.changed tree outcome.tree do
    CommandLine.store place content
  IO.print (String.ofList outcome.out)
  IO.eprint (String.ofList outcome.err)
  return UInt32.ofNat outcome.exit
