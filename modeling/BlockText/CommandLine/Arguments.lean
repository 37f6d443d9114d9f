/-
The arguments of the program.

The first argument that is no option names a command; where it does not, `json` is meant and the
argument is a file.  Options stand before the command or behind it, long or short, and short ones
may be run together.  Two dashes alone end the options.  Arguments are taken from left to right, and
the first one that cannot be, or that asks for help or for the version, ends the reading.
-/
import BlockText.Text.Basic

namespace BlockText
namespace CommandLine

inductive CommandName
  | json | check | tree | test
  deriving DecidableEq

def CommandName.ofText? (t : Text) : Option CommandName :=
  match String.ofList t with
  | "json" => some .json
  | "check" => some .check
  | "tree" => some .tree
  | "test" => some .test
  | _ => none

def helpName : Text := "help".toList

inductive Flag
  | noColor | verbose | strict | stdout | listCategories | category | help | version
  deriving DecidableEq

namespace Flag

def ofLong? (name : Text) : Option Flag :=
  match String.ofList name with
  | "no-color" => some noColor
  | "verbose" => some verbose
  | "strict" => some strict
  | "stdout" => some stdout
  | "list-categories" => some listCategories
  | "category" => some category
  | "help" => some help
  | "version" => some version
  | _ => none

def ofShort? : Char → Option Flag
  | 'v' => some verbose
  | 'c' => some category
  | 'h' => some help
  | 'V' => some version
  | _ => none

/-- Whether a command takes the option; no command is what stands before one. -/
def allowed (command : Option CommandName) : Flag → Bool
  | noColor | verbose | help => true
  | version => command == none
  | strict => command == some .json || command == some .check || command == some .tree
  | stdout => command == some .json
  | listCategories | category => command == some .test

end Flag

/-- Why the reading of arguments ends early. -/
inductive Stop
  | help
  | version
  | invalid
  deriving DecidableEq

/-- What stands before a command or behind it. -/
structure Options where
  noColor : Bool
  /-- How often more detail was asked for. -/
  verbose : Nat
  strict : Bool
  stdout : Bool
  listCategories : Bool
  categories : List Text
  paths : List Text

namespace Options

def start : Options := ⟨false, 0, false, false, false, [], []⟩

/-- Sets an option that takes no value.  Only a request for detail may be repeated. -/
def set (o : Options) : Flag → Except Stop Options
  | .noColor => if o.noColor then .error .invalid else .ok { o with noColor := true }
  | .verbose => .ok { o with verbose := o.verbose + 1 }
  | .strict => if o.strict then .error .invalid else .ok { o with strict := true }
  | .stdout => if o.stdout then .error .invalid else .ok { o with stdout := true }
  | .listCategories =>
    if o.listCategories then .error .invalid else .ok { o with listCategories := true }
  | .category => .error .invalid
  | .help => .error .help
  | .version => .error .version

def addCategory (o : Options) (value : Text) : Options :=
  { o with categories := o.categories ++ [value] }

/-- Takes an argument that is no option.  Paths are not empty, and two commands take one only. -/
def addPath (o : Options) (command : CommandName) (path : Text) : Except Stop Options :=
  if path.isEmpty then .error .invalid
  else if (command == .tree || command == .test) && !o.paths.isEmpty then .error .invalid
  else .ok { o with paths := o.paths ++ [path] }

end Options

/-- What an option argument comes to: all of it is taken, or the next argument is its value. -/
inductive Taken
  | done (o : Options)
  | needsValue (o : Options)

/-- Takes an option by its long name, with the value behind an equals sign. -/
def takeLong (command : Option CommandName) (o : Options) (body : Text) : Except Stop Taken :=
  let (name, value) := body.span (· != '=')
  match (Flag.ofLong? name).filter (·.allowed command), value with
  | none, _ => .error .invalid
  | some .category, [] => .ok (.needsValue o)
  | some .category, _ :: value => .ok (.done (o.addCategory value))
  | some flag, [] => do return .done (← o.set flag)
  | some _, _ :: _ => .error .invalid

/-- Takes options by their letters.  What follows the letter of an option with a value is the
value. -/
def takeShort (command : Option CommandName) (o : Options) : Text → Except Stop Taken
  | [] => .ok (.done o)
  | c :: rest =>
    match (Flag.ofShort? c).filter (·.allowed command) with
    | none => .error .invalid
    | some .category =>
      match rest with
      | [] => .ok (.needsValue o)
      | '=' :: value => .ok (.done (o.addCategory value))
      | value => .ok (.done (o.addCategory value))
    | some flag => do takeShort command (← o.set flag) rest

/-- An argument that starts with a dash and is not the dash alone. -/
def isOption (arg : Text) : Bool := ['-'].isPrefixOf arg && arg != ['-']

def takeOption (command : Option CommandName) (o : Options) (arg : Text) : Except Stop Taken :=
  match arg with
  | '-' :: '-' :: body => takeLong command o body
  | _ :: letters => takeShort command o letters
  | [] => .ok (.done o)

def endOfOptions : Text := ['-', '-']

/-- Takes the arguments behind a command. -/
def takeArguments (command : CommandName) (o : Options) : List Text → Except Stop Options
  | [] => .ok o
  | arg :: rest =>
    if arg == endOfOptions then rest.foldlM (fun o path => o.addPath command path) o
    else if isOption arg then
      match takeOption (some command) o arg with
      | .error stop => .error stop
      | .ok (.done o) => takeArguments command o rest
      | .ok (.needsValue o) =>
        match rest with
        | value :: rest =>
          if isOption value then .error .invalid
          else takeArguments command (o.addCategory value) rest
        | [] => .error .invalid
    else
      match o.addPath command arg with
      | .error stop => .error stop
      | .ok o => takeArguments command o rest

/-- How much is shown, and whether in color. -/
structure Settings where
  color : Bool
  verbosity : Nat

inductive Command
  | json (paths : List Text) (strict toOutput : Bool)
  | check (paths : List Text) (strict : Bool)
  | tree (path : Text) (strict : Bool)
  | test (path : Text) (categories : List Text)
  | listCategories (path : Text)

/-- The paths that a command reads. -/
def Command.paths : Command → List Text
  | json paths .. | check paths _ => paths
  | tree path _ | test path _ | listCategories path => [path]

/-- The command that a name and its options make.  Every command needs a path. -/
def command? (name : CommandName) (o : Options) : Except Stop Command :=
  match o.paths with
  | [] => .error .invalid
  | path :: paths =>
    match name with
    | .json => .ok (.json (path :: paths) o.strict o.stdout)
    | .check => .ok (.check (path :: paths) o.strict)
    | .tree => .ok (.tree path o.strict)
    | .test => .ok (if o.listCategories then .listCategories path else .test path o.categories)

/-- Detail that is asked for behind the command counts instead of detail asked for before it. -/
def settings (before behind : Options) : Settings :=
  ⟨!(before.noColor || behind.noColor),
    if behind.verbose == 0 then before.verbose else behind.verbose⟩

/-- The answer to the command `help`, which takes at most the name of a command. -/
def helpFor : List Text → Stop
  | [] => .help
  | [name] => if name == helpName || (CommandName.ofText? name).isSome then .help else .invalid
  | _ => .invalid

/-- Takes the arguments up to a command, and the command with all behind it. -/
def takeAll (o : Options) : List Text → Except Stop (Settings × Command)
  | [] => .error .invalid
  | arg :: rest =>
    if arg == endOfOptions then .error .invalid
    else if isOption arg then
      match takeOption none o arg with
      | .ok (.done o) => takeAll o rest
      | .ok (.needsValue _) => .error .invalid
      | .error stop => .error stop
    else if arg == helpName then .error (helpFor rest)
    else
      match CommandName.ofText? arg with
      | none => .error .invalid
      | some name => do
        let behind ← takeArguments name .start rest
        return (settings o behind, ← command? name behind)

/-- The arguments with `json` in front of the first that is no option and names no command. -/
def withCommand : List Text → List Text
  | [] => []
  | arg :: rest =>
    if ['-'].isPrefixOf arg then arg :: withCommand rest
    else if arg == helpName || (CommandName.ofText? arg).isSome then arg :: rest
    else "json".toList :: arg :: rest

def parseArguments (args : List Text) : Except Stop (Settings × Command) :=
  takeAll .start (withCommand args)

end CommandLine
end BlockText
