/-
Text and the cuts made in it.

A text is the list of its characters, so that every reader in this library recurses on what it
reads and every statement about a reader is a statement about lists.  Widths in bytes are functions
of the characters: `byteLength` counts the bytes that the text takes in UTF-8.

Blankness is the Unicode property White_Space throughout: what is trimmed, what separates words and
what a header may hold between its parts are the same characters.
-/
namespace BlockText

/-- A text: its characters, which are Unicode scalar values, in order. -/
abbrev Text := List Char

namespace Text

/-! ## White space -/

/-- The characters with the property White_Space. -/
def isSpace (c : Char) : Bool :=
  let n := c.toNat
  (0x9 ≤ n && n ≤ 0xD) || n == 0x20 || n == 0x85 || n == 0xA0 || n == 0x1680 ||
    (0x2000 ≤ n && n ≤ 0x200A) || n == 0x2028 || n == 0x2029 || n == 0x202F || n == 0x205F ||
    n == 0x3000

/-- A text of white space only, the empty text included. -/
def isBlank (t : Text) : Bool := t.all isSpace

def trimStart (t : Text) : Text := t.dropWhile isSpace

def trimEnd (t : Text) : Text := (t.reverse.dropWhile isSpace).reverse

def trim (t : Text) : Text := trimEnd (trimStart t)

/-- The maximal runs of characters that are not white space. -/
def words (t : Text) : List Text := (t.splitOnP isSpace).filter fun w => !w.isEmpty

/-- The words of a text with one space between them. -/
def collapse (t : Text) : Text := [' '].intercalate (words t)

/-! ## Searching and measuring -/

/-- The number of bytes that the text takes in UTF-8. -/
def byteLength (t : Text) : Nat := t.foldr (fun c n => c.utf8Size + n) 0

/-- The number of characters before the first occurrence of `needle`. -/
def indexOf? (needle : Text) : Text → Option Nat
  | [] => if needle.isEmpty then some 0 else none
  | c :: rest =>
    if needle.isPrefixOf (c :: rest) then some 0 else (indexOf? needle rest).map (· + 1)

def hasInfix (needle hay : Text) : Bool := (indexOf? needle hay).isSome

/-- The text without `p` in front, or the text itself where `p` does not stand in front. -/
def dropPrefix (p t : Text) : Text := (p.isPrefixOf? t).getD t

/-- The text without `p` at its end, or the text itself where `p` does not stand there. -/
def dropSuffix (p t : Text) : Text := (p.isSuffixOf? t).getD t

/-! ## Lines -/

/-- The pieces between line feeds.  There is always one more piece than there are line feeds. -/
def pieces (t : Text) : List Text := t.splitOn '\n'

/-- The inverse of `pieces` on lists of pieces that hold no line feed. -/
def joinLines (ts : List Text) : Text := ['\n'].intercalate ts

/-! ## Numerals -/

/-- Decimal digits, without leading zeros. -/
def decimal (n : Nat) : Text := Nat.toDigits 10 n

def signedDecimal (n : Int) : Text :=
  if n < 0 then '-' :: decimal n.natAbs else decimal n.natAbs

/-- Hexadecimal digits in lower case, without leading zeros. -/
def hexadecimal (n : Nat) : Text := Nat.toDigits 16 n

def isDigit (c : Char) : Bool := '0' ≤ c && c ≤ '9'

def digitValue (c : Char) : Nat := c.toNat - '0'.toNat

/-- The number that decimal digits write, most significant digit first. -/
def ofDigits (t : Text) : Nat := t.foldl (fun n c => 10 * n + digitValue c) 0

end Text
end BlockText
