/-
Values of front matter, and how they are written.

Front matter is a table in TOML whose values are strings, integers, booleans, and arrays of strings.
The other values of TOML have no use in it, so a text that holds one is no front matter.  Each
reader gives its value with the text behind it.
-/
import BlockText.Text.Basic

namespace BlockText
namespace FrontMatter

inductive Value
  | string (t : Text)
  | integer (n : Int)
  | boolean (b : Bool)
  | strings (ts : List Text)
  deriving DecidableEq

/-! ## Between values -/

/-- A tab, or a character that is no control. -/
def isPlain (c : Char) : Bool := c == '\t' || (0x20 ≤ c.toNat && c.toNat != 0x7F)

/-- White space inside a line. -/
def isGap (c : Char) : Bool := c == ' ' || c == '\t'

def skipGap (t : Text) : Text := t.dropWhile isGap

/-- Skips white space, line ends and comments.  `inComment` tells whether a comment has begun.  A
carriage return is a line end only with a line feed behind it. -/
def skip (inComment : Bool) : Text → Option Text
  | [] => some []
  | '\n' :: rest => skip false rest
  | '\r' :: '\n' :: rest => skip false rest
  | c :: rest =>
    if inComment then if isPlain c then skip true rest else none
    else if isGap c then skip false rest
    else if c == '#' then skip true rest
    else some (c :: rest)

/-- Skips the end of a line, with a comment in front of it or without. -/
def lineEnd (t : Text) : Option Text :=
  match skipGap t with
  | [] => some []
  | '\n' :: rest => some rest
  | '\r' :: '\n' :: rest => some rest
  | '#' :: rest =>
    match rest.dropWhile isPlain with
    | [] => some []
    | '\n' :: rest => some rest
    | '\r' :: '\n' :: rest => some rest
    | _ => none
  | _ => none

/-! ## Strings -/

def hexValue? (c : Char) : Option Nat :=
  if Text.isDigit c then some (Text.digitValue c)
  else if 'a' ≤ c && c ≤ 'f' then some (c.toNat - 'a'.toNat + 10)
  else if 'A' ≤ c && c ≤ 'F' then some (c.toNat - 'A'.toNat + 10)
  else none

/-- The character that hexadecimal digits number. -/
def numbered? (digits : List Char) : Option Char := do
  let values ← digits.mapM hexValue?
  let n := values.foldl (16 * · + ·) 0
  if h : n.isValidChar then some (Char.ofNatAux n h) else none

/-- A character behind a backslash, where one letter tells it. -/
def escaped? : Char → Option Char
  | 'b' => some '\x08'
  | 't' => some '\t'
  | 'n' => some '\n'
  | 'f' => some '\x0c'
  | 'r' => some '\r'
  | '"' => some '"'
  | '\\' => some '\\'
  | _ => none

/-- Puts a character in front of what is read behind it. -/
def before (c : Option Char) (read : Option (Text × Text)) : Option (Text × Text) := do
  let c ← c
  let (t, rest) ← read
  return (c :: t, rest)

/-- The rest of a string in double quotes. -/
def basic : Text → Option (Text × Text)
  | [] => none
  | '"' :: rest => some ([], rest)
  | '\\' :: 'u' :: a :: b :: c :: d :: rest => before (numbered? [a, b, c, d]) (basic rest)
  | '\\' :: 'U' :: a :: b :: c :: d :: e :: f :: g :: h :: rest =>
    before (numbered? [a, b, c, d, e, f, g, h]) (basic rest)
  | '\\' :: c :: rest => before (escaped? c) (basic rest)
  | c :: rest => if isPlain c then before (some c) (basic rest) else none

/-- The rest of a string in single quotes. -/
def literal : Text → Option (Text × Text)
  | [] => none
  | '\'' :: rest => some ([], rest)
  | c :: rest => if isPlain c then before (some c) (literal rest) else none

/-- The number of quotes that stand in front, up to five. -/
def quoteRun (quote : Char) (t : Text) : Nat := ((t.take 5).takeWhile (· == quote)).length

/-- Only white space stands between here and the end of the line. -/
def endsLine (t : Text) : Bool :=
  match skipGap t with
  | '\n' :: _ => true
  | '\r' :: '\n' :: _ => true
  | _ => false

/-- The rest of a string between triple quotes.  Up to two quotes before the closing ones belong to
the string.  A carriage return and a line feed are one line feed.  With `escapes`, a backslash at
the end of a line joins the next text to it: `joining` tells that white space and line ends are
being dropped. -/
def multiline (quote : Char) (escapes joining : Bool) : Text → Option (Text × Text)
  | [] => none
  | '\r' :: '\n' :: rest =>
    if joining then multiline quote escapes true rest
    else before (some '\n') (multiline quote escapes false rest)
  | '\n' :: rest =>
    if joining then multiline quote escapes true rest
    else before (some '\n') (multiline quote escapes false rest)
  | '\\' :: c :: rest =>
    if !escapes then before (some '\\') (multiline quote escapes false (c :: rest))
    else if endsLine (c :: rest) then multiline quote escapes true (c :: rest)
    else match c, rest with
      | 'u', a :: b :: c :: d :: rest =>
        before (numbered? [a, b, c, d]) (multiline quote escapes false rest)
      | 'U', a :: b :: c :: d :: e :: f :: g :: h :: rest =>
        before (numbered? [a, b, c, d, e, f, g, h]) (multiline quote escapes false rest)
      | c, rest => before (escaped? c) (multiline quote escapes false rest)
  | c :: rest =>
    if joining && isGap c then multiline quote escapes true rest
    else
      let run := quoteRun quote (c :: rest)
      if 3 ≤ run then some (List.replicate (run - 3) quote, rest.drop (run - 1))
      else if isPlain c then before (some c) (multiline quote escapes false rest)
      else none

/-- A line end right behind the opening quotes is no part of the string. -/
def dropFirstLineEnd : Text → Text
  | '\n' :: rest => rest
  | '\r' :: '\n' :: rest => rest
  | t => t

def string? : Text → Option (Text × Text)
  | '"' :: '"' :: '"' :: rest => multiline '"' true false (dropFirstLineEnd rest)
  | '\'' :: '\'' :: '\'' :: rest => multiline '\'' false false (dropFirstLineEnd rest)
  | '"' :: rest => basic rest
  | '\'' :: rest => literal rest
  | _ => none

/-! ## Integers -/

/-- Digits of a base, in groups with a single underscore between them. -/
def grouped? (base : Nat) (t : Text) : Option Nat := do
  let groups := t.splitOn '_'
  if groups.any List.isEmpty then none
  else
    let values ← groups.flatten.mapM hexValue?
    if values.all (· < base) then some (values.foldl (base * · + ·) 0) else none

/-- A decimal number is written without leading zeros. -/
def decimal? (t : Text) : Option Nat :=
  if 1 < t.length && t.head? == some '0' then none else grouped? 10 t

def unbounded? : Text → Option Int
  | '0' :: 'x' :: rest => (grouped? 16 rest).map Int.ofNat
  | '0' :: 'o' :: rest => (grouped? 8 rest).map Int.ofNat
  | '0' :: 'b' :: rest => (grouped? 2 rest).map Int.ofNat
  | '-' :: rest => (decimal? rest).map fun n => -(n : Int)
  | '+' :: rest => (decimal? rest).map Int.ofNat
  | t => (decimal? t).map Int.ofNat

/-- An integer of 64 bits. -/
def integer? (t : Text) : Option Int := do
  let n ← unbounded? t
  if Int64.minValue.toInt ≤ n ∧ n ≤ Int64.maxValue.toInt then some n else none

/-! ## Values -/

/-- The characters of a word: a boolean or a number. -/
def isWord (c : Char) : Bool := c.isAlphanum || c == '_' || c == '+' || c == '-' || c == '.'

def word? (t : Text) : Option Value :=
  if t == "true".toList then some (.boolean true)
  else if t == "false".toList then some (.boolean false)
  else (integer? t).map .integer

/-- The rest of an array.  Each round reads a string, so the length of the text bounds them. -/
def items : Nat → Text → Option (List Text × Text)
  | 0, _ => none
  | fuel + 1, t => do
    match ← skip false t with
    | ']' :: rest => return ([], rest)
    | t =>
      let (item, rest) ← string? t
      match ← skip false rest with
      | ',' :: rest =>
        let (more, rest) ← items fuel rest
        return (item :: more, rest)
      | ']' :: rest => return ([item], rest)
      | _ => none

def value? (t : Text) : Option (Value × Text) :=
  match t with
  | '[' :: rest => (items rest.length.succ rest).map fun (ts, rest) => (.strings ts, rest)
  | c :: _ =>
    if c == '"' || c == '\'' then (string? t).map fun (s, rest) => (.string s, rest)
    else
      let (word, rest) := t.span isWord
      (word? word).map fun v => (v, rest)
  | [] => none

end FrontMatter
end BlockText
