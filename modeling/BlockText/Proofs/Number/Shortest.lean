/-
The digits of a number read back.

Whatever grid `Number.search` stops on, it stops on a decimal that has the number's own rank, and
moving zeros into the place changes nothing about that: `shortest_readsBack`.  Which of the decimals
that read back is taken does not matter here.
-/
import BlockText.Proofs.Number.Rank

namespace BlockText

/-- The decimal has this rank. -/
def Decimal.HasRank (d : Decimal) (rank : Nat) : Prop := Number.rankOfDecimal d.digits d.place = rank

theorem Decimal.hasRank_strip {rank : Nat} (count : Nat) {d : Decimal} (h : d.HasRank rank) :
    (d.strip count).HasRank rank := by
  induction count generalizing d with
  | zero => exact h
  | succ count ih =>
    rw [strip]
    split
    next hten =>
      refine ih ?_
      have hdigits : d.digits = d.digits / 10 * 10 := by
        have := beq_iff_eq.mp hten
        omega
      rw [HasRank, hdigits, Number.rankOfDecimal_mul_ten] at h
      exact h
    · exact h

namespace Number

/-- A neighbour that is taken has been read back. -/
theorem readsBack_neighbour {tie : Tie} {readsBack : Nat → Bool} {low rest den n : Nat}
    (h : neighbour tie readsBack low rest den = some n) : readsBack n = true := by
  have heven : low + low % 2 = low ∨ low + low % 2 = low + 1 := by omega
  unfold neighbour at h
  split at h
  · cases h
  next hlow _ =>
    cases h
    exact hlow
  next _ hhigh =>
    cases h
    exact hhigh
  next hlow hhigh =>
    split at h
    · cases h
      exact hlow
    · split at h
      · cases h
        exact hhigh
      · split at h
        · cases h
          exact hhigh
        · cases h
          rcases heven with he | he
          · rw [he]
            exact hlow
          · rw [he]
            exact hhigh

theorem onGrid_readsBack {x : Number} {tie : Tie} {place : Int} {n : Nat}
    (h : x.onGrid tie place = some n) : rankOfDecimal n place = x.rank := by
  unfold onGrid at h
  have hread := readsBack_neighbour h
  exact beq_iff_eq.mp hread

/-- The magnitude itself is a decimal, because ten is even. -/
theorem exact_readsBack (x : Number) : x.exact.HasRank x.rank := by
  have hplace : (-(unitExponent : Int)).toNat = 0 := by omega
  have hplace' : (- -(unitExponent : Int)).toNat = unitExponent := by omega
  have hnum : x.magnitude * 5 ^ unitExponent * 10 ^ 0 * 2 ^ unitExponent =
      10 ^ unitExponent * x.magnitude := by
    rw [Nat.pow_zero, Nat.mul_one, Nat.mul_assoc, ← Nat.mul_pow, Nat.mul_comm]
  rw [Decimal.HasRank, exact, rankOfDecimal, hplace, hplace', Nat.pow_eq, Nat.pow_eq, Nat.pow_eq,
    Nat.pow_eq, hnum]
  have hscale := nearestRank_scale (a := 10 ^ unitExponent) (Nat.pow_pos (by decide)) x.magnitude 1
  rw [Nat.mul_one] at hscale
  rw [hscale, nearestRank_magnitude]

/-- What holds of all that the grids have and of the last resort holds of what is found. -/
theorem hasRank_search {onGrid : Int → Option Nat} {otherwise : Decimal} {rank : Nat}
    (hgrid : ∀ place n, onGrid place = some n → rankOfDecimal n place = rank)
    (hlast : otherwise.HasRank rank) (top : Int) (count fuel : Nat) :
    (search onGrid otherwise top count fuel).HasRank rank := by
  induction fuel generalizing count with
  | zero => exact hlast
  | succ fuel ih =>
    rw [search]
    cases h : onGrid (top + 1 - count) with
    | some n => exact hgrid _ n h
    | none => exact ih (count + 1)

/-- The digits of a number read back as the number. -/
theorem shortest_readsBack {x : Number} (hx : x.rank ≠ 0) (tie : Tie) :
    (x.shortest tie).HasRank x.rank := by
  have hzero : (x.rank == 0) = false := beq_eq_false_iff_ne.mpr hx
  have hgrid : ∀ place n, x.onGrid tie place = some n → rankOfDecimal n place = x.rank :=
    fun place n h => onGrid_readsBack h
  have hsearch := hasRank_search hgrid (exact_readsBack x) x.decimalExponent 1 17
  have hstrip := Decimal.hasRank_strip 17 hsearch
  simp only [shortest, hzero, Bool.false_eq_true, if_false]
  exact hstrip

theorem shortest_of_zero {x : Number} (hx : x.rank = 0) (tie : Tie) :
    x.shortest tie = ⟨0, 0⟩ := by
  simp only [shortest, hx, BEq.rfl, if_true]

theorem rankOfDecimal_zero (place : Int) : rankOfDecimal 0 place = 0 := by
  have hzero : 0 * Nat.pow 10 place.toNat * Nat.pow 2 unitExponent = 0 := by
    rw [Nat.zero_mul, Nat.zero_mul]
  have hpos : 0 < 10 ^ (-place).toNat := Nat.pow_pos (by decide)
  rw [rankOfDecimal, hzero]
  exact nearestRank_tiny hpos

theorem shortest_digits_ne_zero {x : Number} (hx : x.rank ≠ 0) (tie : Tie) :
    (x.shortest tie).digits ≠ 0 := by
  intro hzero
  have h := shortest_readsBack hx tie
  rw [Decimal.HasRank, hzero, rankOfDecimal_zero] at h
  exact hx h.symm

end Number
end BlockText
