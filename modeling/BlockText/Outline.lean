/-
Outlines: values listed for a reader, one part a line.

An outline shows how a value is built: records with named fields, wrapped values, and lists.  Parts
stand four columns further in than what they are part of, and each ends its line with a comma.
-/
import BlockText.Number.Notation
import BlockText.Text.Quoted

namespace BlockText

inductive Outline
  /-- A part that is shown as it stands. -/
  | leaf (t : Text)
  | list (items : List Outline)
  /-- A named wrapper around one value. -/
  | wrap (name : Text) (item : Outline)
  | record (name : Text) (fields : List (Text × Outline))

namespace Outline

/-- Numbers have a point between the exponents -4 and 15, and a power of ten outside. -/
def numbers : NumberNotation := ⟨-4, 16, false, .up⟩

def text (t : Text) : Outline := leaf (Text.quoted t)

def number (x : Number) : Outline := leaf (numbers.write x)

def integer (n : Int) : Outline := leaf (Text.signedDecimal n)

/-- A value that may be missing. -/
def optional : Option Outline → Outline
  | none => leaf "None".toList
  | some item => wrap "Some".toList item

/-- The start of a line at this depth. -/
def indent (depth : Nat) : Text := '\n' :: List.replicate (4 * depth) ' '

mutual

/-- Writes an outline whose brackets stand at this depth in front of `rest`. -/
def writeBefore (rest : Text) (depth : Nat) : Outline → Text
  | leaf t => t ++ rest
  | list [] => '[' :: ']' :: rest
  | list (x :: xs) => '[' :: writeItems (indent depth ++ ']' :: rest) (depth + 1) (x :: xs)
  | wrap name item =>
    name ++ '(' :: (indent (depth + 1) ++
      writeBefore (',' :: (indent depth ++ ')' :: rest)) (depth + 1) item)
  | record name fields =>
    name ++ ' ' :: '\x7b' :: writeFields (indent depth ++ '\x7d' :: rest) (depth + 1) fields

/-- Writes items, each on a line of its own, in front of `rest`. -/
def writeItems (rest : Text) (depth : Nat) : List Outline → Text
  | [] => rest
  | x :: xs => indent depth ++ writeBefore (',' :: writeItems rest depth xs) depth x

/-- Writes fields, each on a line of its own, in front of `rest`. -/
def writeFields (rest : Text) (depth : Nat) : List (Text × Outline) → Text
  | [] => rest
  | (name, x) :: fields =>
    indent depth ++ (name ++ (": ".toList ++
      writeBefore (',' :: writeFields rest depth fields) depth x))

end

/-- The text of an outline. -/
def render (x : Outline) : Text := x.writeBefore [] 0

end Outline
end BlockText
