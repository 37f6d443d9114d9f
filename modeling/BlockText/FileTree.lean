/-
Files by path.

A file tree maps places to contents.  A place is a list of names from the directory in which a
program runs; `FileTree.locate` finds the place of a path, and fails where the path goes through
something that is no directory.  Directories are those that are listed and those that something lies
in.  Parents of the starting directory and the root of all paths are directories whose contents are
not known, unless they are listed.

Places are compared by their names alone.  The tree does not know the names of the starting directory
and of what it lies in, and it has no links: an absolute path, a path through `..` back into the
starting directory, or a link has a place of its own, never that of a relative path.  So distinct
places stand for distinct files as long as none of these leads to a file that a relative path leads
to as well.

Names and paths have a greatest size in bytes.  A path that is too long leads nowhere; a name that
is too long fails where it is looked up, so only behind what is known to be a directory.
-/
import BlockText.Text.Basic

namespace BlockText

/-- The names on the way to a file. -/
abbrev Place := List Text

inductive Content
  | text (t : Text)
  /-- Bytes that are no text in UTF-8. -/
  | undecodable
  deriving DecidableEq

/-- Why a file cannot be read or written. -/
inductive FileError
  | notFound
  | notDirectory
  | isDirectory
  | nameTooLong
  | undecodable
  deriving DecidableEq

def FileError.message : FileError → Text
  | notFound => "No such file or directory (os error 2)".toList
  | notDirectory => "Not a directory (os error 20)".toList
  | isDirectory => "Is a directory (os error 21)".toList
  | nameTooLong => "File name too long (os error 36)".toList
  | undecodable => "stream did not contain valid UTF-8".toList

structure FileTree where
  files : List (Place × Content)
  directories : List Place

namespace FileTree

def isFile (tree : FileTree) (place : Place) : Bool := (tree.files.lookup place).isSome

/-- The place of all absolute paths. -/
def root : Text := ['/']

def parentName : Text := ['.', '.']

def isDirectory (tree : FileTree) (place : Place) : Bool :=
  place.all (· == parentName) || place == [root] || tree.directories.any place.isPrefixOf ||
    tree.files.any fun (p, _) => place.isPrefixOf p && place.length < p.length

/-! ## Paths -/

/-- The most bytes of a name. -/
def nameLimit : Nat := 255

/-- The most bytes of a path. -/
def pathLimit : Nat := 4095

def isPathTooLong (path : Text) : Bool := pathLimit < path.byteLength

/-- The place that a name leads to from another place.  The root of all paths is its own parent. -/
def enter (place : Place) (name : Text) : Place :=
  if name == [] || name == ['.'] then place
  else if name != parentName then place ++ [name]
  else if place == [root] then place
  else if place.all (· == parentName) then place ++ [name]
  else place.dropLast

/-- Follows names.  Each one needs a directory to be looked up in. -/
def follow (tree : FileTree) (place : Place) : List Text → Except FileError Place
  | [] => .ok place
  | name :: names =>
    if tree.isDirectory place then
      if nameLimit < name.byteLength then .error .nameTooLong
      else follow tree (enter place name) names
    else if tree.isFile place then .error .notDirectory
    else .error .notFound

def locate (tree : FileTree) (path : Text) : Except FileError Place :=
  if isPathTooLong path then .error .nameTooLong
  else match path with
    | [] => .error .notFound
    | '/' :: rest => tree.follow [root] (rest.splitOn '/')
    | path => tree.follow [] (path.splitOn '/')

/-- The place that the names of a path lead to, whatever stands on the way. -/
def placeOf (path : Text) : Place :=
  match path with
  | '/' :: rest => (rest.splitOn '/').foldl enter [root]
  | path => (path.splitOn '/').foldl enter []

/-- The paths in front of the slashes of a path. -/
def ancestors (path : Text) : List Text :=
  (List.range path.length).filterMap fun n =>
    if path[n]? == some '/' && n != 0 then some (path.take n) else none

/-- The last name of a path. -/
def fileName (path : Text) : Text := (path.reverse.takeWhile (· != '/')).reverse

/-- The path with another extension on its last name.  What follows the last point of a name is its
extension, unless nothing stands before the point.  A name that is two points without its extension
takes no other one, as it then names the parent directory. -/
def withExtension (extension path : Text) : Text :=
  let name := fileName path
  let directory := path.take (path.length - name.length)
  let stem := (name.reverse.dropWhile (· != '.')).tail.reverse
  directory ++
    if stem == ['.'] then parentName
    else (if stem.isEmpty then name else stem) ++ '.' :: extension

/-- A path with more names behind it. -/
def join (path : Text) (names : List Text) : Text :=
  (if ['/'].isSuffixOf path then path else path ++ ['/']) ++ ['/'].intercalate names

/-! ## Reading and writing -/

def read (tree : FileTree) (path : Text) : Except FileError Text := do
  let place ← tree.locate path
  match tree.files.lookup place with
  | some (.text t) => .ok t
  | some .undecodable => .error .undecodable
  | none => if tree.isDirectory place then .error .isDirectory else .error .notFound

/-- The tree with this content at a place. -/
def set (tree : FileTree) (place : Place) (content : Content) : FileTree :=
  if tree.isFile place then
    { tree with files := tree.files.map fun (p, c) => (p, if p == place then content else c) }
  else { tree with files := tree.files ++ [(place, content)] }

def write (tree : FileTree) (path content : Text) : Except FileError FileTree := do
  let place ← tree.locate path
  if tree.isDirectory place then .error .isDirectory
  else .ok (tree.set place (.text content))

/-! ## Listing -/

def isFilePath (tree : FileTree) (path : Text) : Bool :=
  match tree.locate path with
  | .ok place => tree.isFile place
  | .error _ => false

/-- The places of all files and listed directories. -/
def places (tree : FileTree) : List Place := tree.files.map (·.1) ++ tree.directories

/-- The names of what lies in a directory. -/
def entries (tree : FileTree) (place : Place) : List Text :=
  (tree.places.filterMap fun p => (place.isPrefixOf? p).bind List.head?).eraseDups

/-- The number of names in the longest place. -/
def depth (tree : FileTree) : Nat := (tree.places.map List.length).foldr max 0

/-- What a walk through the directory at a place takes for files, each by its names from there.  It
goes down at most so many levels.  It enters the directories in the directory, but what stands at a
path that is too long does not show that it is a directory, and is taken for a file. -/
def walk (tree : FileTree) (path : Text) (place : Place) : Nat → List Place
  | 0 => []
  | levels + 1 =>
    (tree.entries place).flatMap fun name =>
      if tree.isDirectory (place ++ [name]) && !isPathTooLong (join path [name]) then
        (walk tree (join path [name]) (place ++ [name]) levels).map (name :: ·)
      else [[name]]

/-- What a walk through the directory of a path takes for files. -/
def below (tree : FileTree) (path : Text) : List Place :=
  match tree.locate path with
  | .ok place => tree.walk path place tree.depth
  | .error _ => []

end FileTree
end BlockText
