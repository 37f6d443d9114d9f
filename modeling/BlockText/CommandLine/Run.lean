/-
The program: arguments and files in, an outcome out.
-/
import BlockText.CommandLine.Convert
import BlockText.CommandLine.FixtureRun

namespace BlockText
namespace CommandLine

def runCommand (settings : Settings) (tree : FileTree) : Command → Outcome
  | .json paths strict toOutput => json settings strict toOutput tree paths
  | .check paths strict => check settings strict tree paths
  | .tree path strict => showTree settings strict tree path
  | .test path categories => test settings tree path categories
  | .listCategories path => listCategories tree path

def usage : Text :=
  ("usage: moon [json] [--strict] [--stdout] FILE...\n" ++
    "       moon check [--strict] FILE...\n" ++
    "       moon tree [--strict] FILE\n" ++
    "       moon test [--category CATEGORY]... [--list-categories] PATH\n" ++
    "options: --no-color, --verbose, --help, --version\n").toList

def versionText : Text := "moon 0.1.0\n".toList

/-- Where no command is run, the program shows its usage or its version. -/
def runStop (tree : FileTree) : Stop → Outcome
  | .help => ⟨usage, [], tree, 0⟩
  | .version => ⟨versionText, [], tree, 0⟩
  | .invalid => ⟨[], usage, tree, 2⟩

def run (tree : FileTree) (args : List Text) : Outcome :=
  match parseArguments args with
  | .ok (settings, command) => runCommand settings tree command
  | .error stop => runStop tree stop

/-- The files of a tree that differ from those of another tree. -/
def changed (before after : FileTree) : List (Place × Content) :=
  after.files.filter fun (place, content) => before.files.lookup place != some content

end CommandLine
end BlockText
