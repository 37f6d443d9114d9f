/-
The fewest digits that read back.

`Number.shortest` tries one digit, two digits, and so on up to seventeen, which always suffice.  On
each decimal grid the two neighbours of the magnitude are tried: if any point of the grid reads back
as the number, one of its neighbours does, because the numerals that read back form an interval.  Of
two neighbours that both read back the nearer is taken, and `Tie` says which one where they are
equally near.

Every grid point that is taken has been read back.  Where no grid had one, the magnitude itself is
the answer, which is a decimal because ten is even.
-/
import BlockText.Text.Basic
import BlockText.Number.Basic

namespace BlockText

/-- Which of two equally near decimals is taken. -/
inductive Tie
  | toEven
  | up
  deriving DecidableEq

/-- The magnitude `digits * 10 ^ place`. -/
structure Decimal where
  digits : Nat
  place : Int
  deriving DecidableEq

namespace Decimal

/-- Zeros at the end moved into the place, at most `count` of them. -/
def strip : Nat → Decimal → Decimal
  | 0, d => d
  | count + 1, d =>
    if d.digits % 10 == 0 then strip count ⟨d.digits / 10, d.place + 1⟩ else d

end Decimal

namespace Number

/-- A number of decimal places below which no magnitude but zero lies. -/
def depth : Nat := 400

/-- The exponent `e` with `10 ^ e ≤ x < 10 ^ (e + 1)`, for a magnitude that is not zero. -/
def decimalExponent (x : Number) : Int :=
  let scaled := x.magnitude * Nat.pow 10 depth / Nat.pow 2 unitExponent
  ((Text.decimal scaled).length : Int) - 1 - depth

/-- Of a grid point and the next one, between which a magnitude lies `rest / den` of the way, the one
that is to be written, if one reads back. -/
def neighbour (tie : Tie) (readsBack : Nat → Bool) (low rest den : Nat) : Option Nat :=
  match readsBack low, readsBack (low + 1) with
  | false, false => none
  | true, false => some low
  | false, true => some (low + 1)
  | true, true =>
    if 2 * rest < den then some low
    else if den < 2 * rest then some (low + 1)
    else match tie with
      | .up => some (low + 1)
      | .toEven => some (low + low % 2)

/-- The neighbour of the magnitude on the grid of multiples of `10 ^ place` that is to be written,
if one reads back. -/
def onGrid (x : Number) (tie : Tie) (place : Int) : Option Nat :=
  let num := x.magnitude * Nat.pow 10 (-place).toNat
  let den := Nat.pow 2 unitExponent * Nat.pow 10 place.toNat
  neighbour tie (fun n => rankOfDecimal n place == x.rank) (num / den) (num % den) den

/-- The magnitude with all its digits. -/
def exact (x : Number) : Decimal := ⟨x.magnitude * Nat.pow 5 unitExponent, -unitExponent⟩

/-- What the first grid that has something has, from `count` digits on. -/
def search (onGrid : Int → Option Nat) (otherwise : Decimal) (top : Int) (count : Nat) :
    Nat → Decimal
  | 0 => otherwise
  | fuel + 1 =>
    let place := top + 1 - count
    match onGrid place with
    | some n => ⟨n, place⟩
    | none => search onGrid otherwise top (count + 1) fuel

/-- The magnitude with the fewest digits that read back, and no zero at the end. -/
def shortest (x : Number) (tie : Tie) : Decimal :=
  if x.rank == 0 then ⟨0, 0⟩ else (search (x.onGrid tie) x.exact x.decimalExponent 1 17).strip 17

end Number
end BlockText
