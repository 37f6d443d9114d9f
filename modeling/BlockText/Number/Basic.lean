/-
Finite binary64 numbers, exactly.

A number is a sign and the rank of its magnitude: the finite magnitudes of the format in increasing
order are numbered 0, 1, 2, ….  The rank is also the magnitude's bit pattern, so the fields of the
format are a quotient and a remainder by `2 ^ 52`, and neighbouring numbers have neighbouring ranks.

`magnitude x` is `significand x * 2 ^ shift x` in units of `2 ^ (-1074)`, the smallest positive
magnitude.  Both zeros are kept, since they are written differently.
-/
namespace BlockText

structure Number where
  negative : Bool
  rank : Nat
  finite : rank < 2047 * Nat.pow 2 52
  deriving DecidableEq

namespace Number

/-- How many magnitudes share one spacing. -/
def binade : Nat := Nat.pow 2 52

/-- The integer that the format scales by a power of two. -/
def significand (x : Number) : Nat :=
  if x.rank < binade then x.rank else binade + x.rank % binade

/-- The power of two, counted from the smallest magnitude. -/
def shift (x : Number) : Nat := x.rank / binade - 1

/-- The magnitude in units of the smallest positive magnitude. -/
def magnitude (x : Number) : Nat := x.significand * Nat.pow 2 x.shift

/-- The power of two by which `magnitude` is to be divided. -/
def unitExponent : Nat := 1074

/-! ## Rounding

A quotient is rounded to the nearest magnitude, and of two that are equally near to the one of even
significand.  The spacing around a quotient is found from its whole part, so that the division is
made once, by the spacing. -/

/-- `num / den` rounded to the nearest integer, a half to the even one. -/
def divNearest (num den : Nat) : Nat :=
  let q := num / den
  let r := num % den
  if 2 * r < den then q else if den < 2 * r then q + 1 else q + q % 2

/-- The rank nearest to `num / den` in units of the smallest magnitude.  Ranks past the last finite
magnitude stand for what the format cannot hold. -/
def nearestRank (num den : Nat) : Nat :=
  let shift := (num / den).log2 - 52
  shift * binade + divNearest num (den * Nat.pow 2 shift)

/-- The rank nearest to `digits * 10 ^ place`. -/
def rankOfDecimal (digits : Nat) (place : Int) : Nat :=
  nearestRank (digits * Nat.pow 10 place.toNat * Nat.pow 2 unitExponent)
    (Nat.pow 10 (-place).toNat)

end Number
end BlockText
