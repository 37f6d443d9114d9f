/-
JSON values and their text.

Objects keep the order of their members.  A number that stands for a quantity is a `Number` and is
written with a point or a power of ten; a count is an integer and is written without.
-/
import BlockText.Number.Notation

namespace BlockText

inductive Json
  | null
  | bool (b : Bool)
  | integer (n : Int)
  | number (x : Number)
  | string (t : Text)
  | array (items : List Json)
  | object (members : List (Text × Json))

namespace Json

/-- Numbers have a point between the exponents -5 and 15, and a signed power of ten outside. -/
def numbers : NumberNotation := ⟨-5, 16, true, .toEven⟩

/-- One character of a string. -/
def escape (c : Char) : Text :=
  match c with
  | '"' => ['\\', '"']
  | '\\' => ['\\', '\\']
  | '\x08' => ['\\', 'b']
  | '\x0c' => ['\\', 'f']
  | '\n' => ['\\', 'n']
  | '\r' => ['\\', 'r']
  | '\t' => ['\\', 't']
  | c =>
    if c.toNat < 0x20 then
      let digits := Text.hexadecimal c.toNat
      '\\' :: 'u' :: List.replicate (4 - digits.length) '0' ++ digits
    else [c]

/-- A string in quotes. -/
def quoted (t : Text) : Text := '"' :: (t.flatMap escape ++ ['"'])

/-! ## Text with one value a line

Each item of an array and each member of an object stands on a line of its own, two columns further
in than the brackets around it.  Empty arrays and objects are written on one line.

The writers put a value in front of what follows it, so that no part is copied into a larger one,
and so that where a value ends can be told from its text alone. -/

/-- The start of a line at this depth. -/
def indent (depth : Nat) : Text := '\n' :: List.replicate (2 * depth) ' '

mutual

/-- Writes a value whose brackets stand at this depth in front of `rest`. -/
def writeBefore (rest : Text) (depth : Nat) : Json → Text
  | null => "null".toList ++ rest
  | bool true => "true".toList ++ rest
  | bool false => "false".toList ++ rest
  | integer n => Text.signedDecimal n ++ rest
  | number x => numbers.write x ++ rest
  | string t => quoted t ++ rest
  | array [] => '[' :: ']' :: rest
  | array (x :: xs) =>
    '[' :: (indent (depth + 1) ++
      writeBefore (writeItems (indent depth ++ ']' :: rest) depth xs) (depth + 1) x)
  | object [] => '\x7b' :: '\x7d' :: rest
  | object ((key, x) :: members) =>
    '\x7b' :: (indent (depth + 1) ++ (quoted key ++ (": ".toList ++
      writeBefore (writeMembers (indent depth ++ '\x7d' :: rest) depth members) (depth + 1) x)))

/-- Writes the items after the first one in front of `rest`. -/
def writeItems (rest : Text) (depth : Nat) : List Json → Text
  | [] => rest
  | x :: xs =>
    ',' :: (indent (depth + 1) ++ writeBefore (writeItems rest depth xs) (depth + 1) x)

/-- Writes the members after the first one in front of `rest`. -/
def writeMembers (rest : Text) (depth : Nat) : List (Text × Json) → Text
  | [] => rest
  | (key, x) :: members =>
    ',' :: (indent (depth + 1) ++ (quoted key ++ (": ".toList ++
      writeBefore (writeMembers rest depth members) (depth + 1) x)))

end

/-- The text of a value. -/
def pretty (x : Json) : Text := x.writeBefore [] 0

end Json
end BlockText
