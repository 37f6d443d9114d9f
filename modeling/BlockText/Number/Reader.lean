/-
Reading numbers.

A numeral is an optional sign, decimal digits with at most one point among or beside them, and an
optional power of ten.  `Numeral.ofText?` takes it apart and `Number.ofText?` rounds it to the
nearest finite number.  White space around the numeral is allowed.  A numeral that rounds past the
largest finite number is no number, and neither are words for infinity.
-/
import BlockText.Text.Basic
import BlockText.Number.Basic

namespace BlockText

/-- A numeral taken apart: its digits without the point, and the power of ten of the last one. -/
structure Numeral where
  negative : Bool
  digits : Text
  place : Int

namespace Numeral

/-- An optional sign and what follows it. -/
def splitSign : Text → Bool × Text
  | '-' :: rest => (true, rest)
  | '+' :: rest => (false, rest)
  | rest => (false, rest)

/-- A whole number with an optional sign, all of the text. -/
def integer? (t : Text) : Option Int :=
  let (negative, ds) := splitSign t
  if ds.isEmpty || !ds.all Text.isDigit then none
  else some (if negative then -(Text.ofDigits ds : Int) else Text.ofDigits ds)

/-- The power of ten that follows the digits: none, or a letter and a whole number. -/
def power? : Text → Option Int
  | [] => some 0
  | c :: rest => if c == 'e' || c == 'E' then integer? rest else none

/-- The digits behind a point, and what follows them. -/
def fraction : Text → Text × Text
  | '.' :: rest => rest.span Text.isDigit
  | rest => ([], rest)

def ofText? (t : Text) : Option Numeral :=
  let (negative, unsigned) := splitSign t
  let (whole, rest) := unsigned.span Text.isDigit
  let (part, rest) := fraction rest
  if whole.isEmpty && part.isEmpty then none
  else (power? rest).map fun power => ⟨negative, whole ++ part, power - part.length⟩

/-- The rank of the nearest magnitude.  Magnitudes are below `10 ^ 309` and above `10 ^ (-324)`, so
a numeral far outside these bounds needs no power of ten. -/
def rank (n : Numeral) : Nat :=
  let ds := n.digits.dropWhile (· == '0')
  let top := ds.length + n.place
  if ds.isEmpty || top < -400 then 0
  else if 400 < top then 2047 * Number.binade
  else Number.rankOfDecimal (Text.ofDigits ds) n.place

end Numeral

namespace Number

/-- The number that a text is nearest to. -/
def ofText? (t : Text) : Option Number := do
  let n ← Numeral.ofText? t.trim
  if h : n.rank < 2047 * Nat.pow 2 52 then some ⟨n.negative, n.rank, h⟩ else none

/-- The texts that write a number, and so cannot be names. -/
def isNumeral (t : Text) : Bool := (ofText? t).isSome

end Number
end BlockText
