/-
Writing numbers.

The digits of a number are the same everywhere, up to ties; a notation says how they are laid out:
for which decimal exponents the point is placed among the digits, and how a power of ten is written
for the others.  A number always shows that it is one of a continuum: it has a point or a power.
-/
import BlockText.Number.Shortest

namespace BlockText

/-- The layout of a number's digits. -/
structure NumberNotation where
  /-- The smallest decimal exponent that is written with a point only. -/
  lowest : Int
  /-- The smallest decimal exponent, of those above it, that is written with a power of ten. -/
  scientificFrom : Int
  /-- Whether a power of ten that is not negative shows its sign. -/
  plusSign : Bool
  tie : Tie

namespace NumberNotation

/-- Digits with a point behind the first `whole` of them, filled up with zeros on either side. -/
def positional (ds : Text) (exponent : Int) : Text :=
  if exponent < 0 then
    "0.".toList ++ List.replicate ((-exponent).toNat - 1) '0' ++ ds
  else
    let whole := exponent.toNat + 1
    let part := ds.drop whole
    ds.take whole ++ List.replicate (whole - ds.length) '0' ++
      '.' :: (if part.isEmpty then ['0'] else part)

/-- One digit, the others behind a point, and the power of ten. -/
def scientific (f : NumberNotation) (ds : Text) (exponent : Int) : Text :=
  let part := ds.drop 1
  ds.take 1 ++ (if part.isEmpty then [] else '.' :: part) ++
    'e' :: (if f.plusSign && 0 ≤ exponent then ['+'] else []) ++ Text.signedDecimal exponent

def unsigned (f : NumberNotation) (x : Number) : Text :=
  let d := x.shortest f.tie
  let ds := Text.decimal d.digits
  let exponent := d.place + ds.length - 1
  if x.rank == 0 || (f.lowest ≤ exponent && exponent < f.scientificFrom) then
    positional ds exponent
  else f.scientific ds exponent

def write (f : NumberNotation) (x : Number) : Text :=
  if x.negative then '-' :: f.unsigned x else f.unsigned x

end NumberNotation
end BlockText
