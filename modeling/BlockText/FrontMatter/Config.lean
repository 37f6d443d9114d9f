/-
What the front matter of a fixture says.

`FrontMatter.entries?` reads the keys and values of a table, and `Config.ofText?` puts them into a
record.  Each key may stand once, with a value of its kind; any other key, or a key of a table
inside the table, is refused.
-/
import BlockText.FrontMatter.Value

namespace BlockText
namespace FrontMatter

def isBareKey (c : Char) : Bool := c.isAlphanum || c == '_' || c == '-'

/-- A key, which may be quoted. -/
def key? : Text → Option (Text × Text)
  | '"' :: rest => basic rest
  | '\'' :: rest => literal rest
  | t =>
    let (key, rest) := t.span isBareKey
    if key.isEmpty then none else some (key, rest)

/-- A key, its value, and the end of the line. -/
def entry? (t : Text) : Option ((Text × Value) × Text) := do
  let (key, rest) ← key? t
  match skipGap rest with
  | '=' :: rest =>
    let (value, rest) ← value? (skipGap rest)
    return ((key, value), ← lineEnd rest)
  | _ => none

/-- The entries in order.  Each round reads one, so the length of the text bounds them. -/
def entriesFrom : Nat → Text → Option (List (Text × Value))
  | 0, _ => none
  | fuel + 1, t => do
    match ← skip false t with
    | [] => return []
    | t =>
      let (entry, rest) ← entry? t
      return entry :: (← entriesFrom fuel rest)

/-- The entries of a text, which may start with a byte order mark. -/
def entries? (t : Text) : Option (List (Text × Value)) :=
  entriesFrom t.length.succ (Text.dropPrefix ['\uFEFF'] t)

end FrontMatter

/-- What a fixture expects of its source. -/
structure Config where
  description : Option Text
  /-- Whether the source is read strictly. -/
  strict : Bool
  expectParseError : Bool
  /-- A text that the error is to contain. -/
  expectError : Option Text
  /-- The line that the error is to be found on. -/
  expectErrorLine : Option Nat
  /-- The names of the units, in order. -/
  expectUnits : Option (List Text)

namespace Config

open FrontMatter

def default : Config := ⟨none, false, false, none, none, none⟩

/-- Sets the field of a key. -/
def set? (c : Config) (key : Text) (value : Value) : Option Config :=
  match String.ofList key, value with
  | "description", .string t => some { c with description := some t }
  | "strict", .boolean b => some { c with strict := b }
  | "expect_parse_error", .boolean b => some { c with expectParseError := b }
  | "expect_error", .string t => some { c with expectError := some t }
  | "expect_error_line", .integer n =>
    if n < 0 then none else some { c with expectErrorLine := some n.toNat }
  | "expect_units", .strings ts => some { c with expectUnits := some ts }
  | _, _ => none

def ofEntries? (entries : List (Text × Value)) : Option Config :=
  if (entries.map (·.1)).Nodup then
    entries.foldlM (fun c (key, value) => c.set? key value) default
  else none

def ofText? (t : Text) : Option Config := do ofEntries? (← entries? t)

/-- Whether the source is to be refused. -/
def expectsFailure (c : Config) : Bool :=
  c.expectParseError || c.expectError.isSome || c.expectErrorLine.isSome

end Config
end BlockText
