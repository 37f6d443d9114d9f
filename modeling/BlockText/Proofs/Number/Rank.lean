/-
Rounding.

`nearestRank` depends on a quotient and not on how it is written (`nearestRank_scale`), and gives
every magnitude its own rank (`nearestRank_magnitude`).  A decimal whose rank is that of a finite
number other than zero is neither huge nor tiny (`decimal_bounds`), so the reader's shortcuts for
such numerals are out of its way.
-/
import Mathlib.Algebra.Order.Ring.Nat
import BlockText.Proofs.Text.Words
import BlockText.Number.Shortest

namespace BlockText
namespace Number

/-! ## Quotients -/

theorem divNearest_scale {a : Nat} (ha : 0 < a) (num den : Nat) :
    divNearest (a * num) (a * den) = divNearest num den := by
  have hq : a * num / (a * den) = num / den := Nat.mul_div_mul_left num den ha
  have hr : a * num % (a * den) = a * (num % den) := Nat.mul_mod_mul_left a num den
  have hleft : 2 * (a * (num % den)) < a * den ↔ 2 * (num % den) < den := by
    rw [Nat.mul_left_comm]
    exact Nat.mul_lt_mul_left ha
  have hright : a * den < 2 * (a * (num % den)) ↔ den < 2 * (num % den) := by
    rw [Nat.mul_left_comm]
    exact Nat.mul_lt_mul_left ha
  simp only [divNearest, hq, hr, hleft, hright]

/-- A quotient has the rank that it has in any other terms. -/
theorem nearestRank_scale {a : Nat} (ha : 0 < a) (num den : Nat) :
    nearestRank (a * num) (a * den) = nearestRank num den := by
  have hq : a * num / (a * den) = num / den := Nat.mul_div_mul_left num den ha
  simp only [nearestRank, hq, Nat.mul_assoc, divNearest_scale ha]

theorem le_divNearest (num den : Nat) : num / den ≤ divNearest num den := by
  simp only [divNearest]
  split
  · exact Nat.le_refl _
  · split <;> omega

/-- An exact quotient is not rounded. -/
theorem divNearest_mul {k : Nat} (hk : 0 < k) (n : Nat) : divNearest (n * k) k = n := by
  have hq : n * k / k = n := Nat.mul_div_cancel n hk
  have hr : n * k % k = 0 := Nat.mul_mod_left n k
  simp only [divNearest, hq, hr]
  rw [if_pos (by omega)]

/-! ## Magnitudes -/

theorem binade_pos : 0 < binade := by
  rw [binade]
  decide

/-- A significand with its power of two has the rank that they make up. -/
theorem nearestRank_normal {m k : Nat} (hlow : binade ≤ m) (hhigh : m < 2 * binade) :
    nearestRank (m * 2 ^ k) 1 = k * binade + m := by
  have hb : binade = 2 ^ 52 := rfl
  have hpow : (0 : Nat) < 2 ^ k := Nat.two_pow_pos k
  have hne : m * 2 ^ k ≠ 0 := by
    have hm : 0 < m := Nat.lt_of_lt_of_le binade_pos hlow
    exact Nat.ne_of_gt (Nat.mul_pos hm hpow)
  have hlog : (m * 2 ^ k).log2 = 52 + k := by
    rw [Nat.log2_eq_iff hne]
    constructor
    · rw [Nat.pow_add, ← hb]
      exact Nat.mul_le_mul_right _ hlow
    · rw [show 52 + k + 1 = 1 + 52 + k by omega, Nat.pow_add, Nat.pow_add, ← hb, Nat.pow_one]
      exact Nat.mul_lt_mul_of_pos_right hhigh hpow
  have hshift : (m * 2 ^ k / 1).log2 - 52 = k := by
    rw [Nat.div_one, hlog]
    omega
  simp only [nearestRank, hshift]
  rw [Nat.one_mul, show Nat.pow 2 k = 2 ^ k from rfl, divNearest_mul hpow]

theorem nearestRank_subnormal {m : Nat} (h : m < binade) : nearestRank m 1 = m := by
  have hlog : m.log2 - 52 = 0 := by
    by_cases hm : m = 0
    · rw [hm, Nat.log2_zero]
    · have := (Nat.log2_lt hm).mpr (show m < 2 ^ 52 from h)
      omega
  have hdiv := divNearest_mul (k := 1) (by decide) m
  rw [Nat.mul_one] at hdiv
  simp only [nearestRank, Nat.div_one, hlog]
  rw [Nat.zero_mul, Nat.zero_add, Nat.one_mul]
  exact hdiv

/-- Every magnitude has its own rank. -/
theorem nearestRank_magnitude (x : Number) : nearestRank x.magnitude 1 = x.rank := by
  by_cases hsmall : x.rank < binade
  · have hm : x.magnitude = x.rank := by
      rw [magnitude, significand, if_pos hsmall, shift, Nat.div_eq_of_lt hsmall]
      exact Nat.mul_one x.rank
    rw [hm, nearestRank_subnormal hsmall]
  · have hrest : x.rank % binade < binade := Nat.mod_lt _ binade_pos
    have hquot : 1 ≤ x.rank / binade := (Nat.one_le_div_iff binade_pos).mpr (by omega)
    have hsplit : binade * (x.rank / binade) + x.rank % binade = x.rank :=
      Nat.div_add_mod x.rank binade
    have hshift : x.rank / binade = x.shift + 1 := by
      rw [shift]
      omega
    have hm : x.magnitude = (binade + x.rank % binade) * 2 ^ x.shift := by
      rw [magnitude, significand, if_neg hsmall]
      rfl
    rw [hm, nearestRank_normal (by omega) (by omega)]
    rw [hshift, Nat.mul_add, Nat.mul_one, Nat.mul_comm] at hsplit
    omega

/-! ## Decimals -/

theorem rankOfDecimal_mul_ten (m : Nat) (place : Int) :
    rankOfDecimal (m * 10) place = rankOfDecimal m (place + 1) := by
  simp only [rankOfDecimal, Nat.pow_eq]
  by_cases hp : 0 ≤ place
  · have hup : (place + 1).toNat = place.toNat + 1 := by omega
    have hzero : (-place).toNat = 0 := by omega
    have hzero' : (-(place + 1)).toNat = 0 := by omega
    rw [hup, hzero, hzero', Nat.pow_succ, Nat.mul_assoc m, Nat.mul_comm 10]
  · have hup : (-place).toNat = (-(place + 1)).toNat + 1 := by omega
    have hzero : place.toNat = 0 := by omega
    have hzero' : (place + 1).toNat = 0 := by omega
    rw [hup, hzero, hzero', Nat.pow_zero, Nat.mul_one, Nat.mul_one, Nat.pow_succ, Nat.mul_comm m,
      Nat.mul_assoc, Nat.mul_comm _ 10]
    exact nearestRank_scale (by decide) _ _

/-- Zeros at the end are a matter of the place. -/
theorem rankOfDecimal_mul_pow (m k : Nat) (place : Int) :
    rankOfDecimal (m * 10 ^ k) place = rankOfDecimal m (place + k) := by
  induction k generalizing place with
  | zero => rw [Nat.pow_zero, Nat.mul_one, Int.natCast_zero, Int.add_zero]
  | succ k ih =>
    rw [Nat.pow_succ, ← Nat.mul_assoc, rankOfDecimal_mul_ten, ih]
    have hplace : place + 1 + (k : Int) = place + ((k + 1 : Nat) : Int) := by omega
    rw [hplace]

theorem two_pow_le_ten_pow {a b : Nat} (h : a ≤ 3 * b) : 2 ^ a ≤ 10 ^ b :=
  calc 2 ^ a ≤ 2 ^ (3 * b) := Nat.pow_le_pow_right (by decide) h
    _ = 8 ^ b := by rw [Nat.pow_mul]
    _ ≤ 10 ^ b := Nat.pow_le_pow_left (by decide) b

theorem nearestRank_huge {num den : Nat} (h : 2 ^ 2098 ≤ num / den) :
    2047 * binade ≤ nearestRank num den := by
  have hq : num / den ≠ 0 := by
    have := Nat.two_pow_pos 2098
    omega
  have hlog : 2098 ≤ (num / den).log2 := (Nat.le_log2 hq).mpr h
  obtain ⟨k, hk⟩ : ∃ k, (num / den).log2 = 52 + k := ⟨(num / den).log2 - 52, by omega⟩
  have hself : 2 ^ (52 + k) ≤ num / den := by
    have := Nat.log2_self_le hq
    rwa [hk] at this
  have hshift : (num / den).log2 - 52 = k := by omega
  have hdiv : binade ≤ divNearest num (den * 2 ^ k) := by
    refine Nat.le_trans ?_ (le_divNearest num (den * 2 ^ k))
    rw [← Nat.div_div_eq_div_mul, Nat.le_div_iff_mul_le (Nat.two_pow_pos k)]
    rwa [Nat.pow_add] at hself
  simp only [nearestRank, hshift, Nat.pow_eq]
  have hmul : 2046 * binade ≤ k * binade := Nat.mul_le_mul_right binade (by omega)
  omega

theorem nearestRank_tiny {num den : Nat} (h : 2 * num < den) : nearestRank num den = 0 := by
  have hq : num / den = 0 := Nat.div_eq_of_lt (by omega)
  have hr : num % den = num := Nat.mod_eq_of_lt (by omega)
  have hone : den * Nat.pow 2 0 = den := Nat.mul_one den
  simp only [nearestRank, hq, Nat.log2_zero, Nat.zero_sub, hone, divNearest, hr]
  rw [if_pos h]
  rfl

theorem rankOfDecimal_huge {m a : Nat} {place : Int} (hm : 10 ^ a ≤ m) (h : 400 ≤ a + place) :
    2047 * binade ≤ rankOfDecimal m place := by
  simp only [rankOfDecimal, Nat.pow_eq]
  refine nearestRank_huge ?_
  have hden : 0 < 10 ^ (-place).toNat := Nat.pow_pos (by decide)
  rw [Nat.le_div_iff_mul_le hden]
  calc 2 ^ 2098 * 10 ^ (-place).toNat
      = 2 ^ 1024 * 2 ^ unitExponent * 10 ^ (-place).toNat := by
        rw [show 2098 = 1024 + unitExponent from rfl, Nat.pow_add]
    _ ≤ 10 ^ 400 * 2 ^ unitExponent * 10 ^ (-place).toNat :=
        Nat.mul_le_mul_right _ (Nat.mul_le_mul_right _ (two_pow_le_ten_pow (by decide)))
    _ = 10 ^ (400 + (-place).toNat) * 2 ^ unitExponent := by
        rw [Nat.pow_add, Nat.mul_right_comm]
    _ ≤ 10 ^ (a + place.toNat) * 2 ^ unitExponent :=
        Nat.mul_le_mul_right _ (Nat.pow_le_pow_right (by decide) (by omega))
    _ = 10 ^ a * 10 ^ place.toNat * 2 ^ unitExponent := by rw [Nat.pow_add]
    _ ≤ m * 10 ^ place.toNat * 2 ^ unitExponent :=
        Nat.mul_le_mul_right _ (Nat.mul_le_mul_right _ hm)

theorem rankOfDecimal_tiny {m b : Nat} {place : Int} (hm : m < 10 ^ b) (h : b + place < -400) :
    rankOfDecimal m place = 0 := by
  simp only [rankOfDecimal, Nat.pow_eq]
  refine nearestRank_tiny ?_
  have hzero : place.toNat = 0 := by omega
  rw [hzero, Nat.pow_zero, Nat.mul_one]
  calc 2 * (m * 2 ^ unitExponent) = 2 ^ (unitExponent + 1) * m := by
        rw [Nat.pow_succ, Nat.mul_comm m, ← Nat.mul_assoc, Nat.mul_comm 2]
    _ < 2 ^ (unitExponent + 1) * 10 ^ b := Nat.mul_lt_mul_of_pos_left hm (Nat.two_pow_pos _)
    _ ≤ 10 ^ 401 * 10 ^ b := Nat.mul_le_mul_right _ (two_pow_le_ten_pow (by decide))
    _ = 10 ^ (401 + b) := by rw [Nat.pow_add]
    _ ≤ 10 ^ (-place).toNat := Nat.pow_le_pow_right (by decide) (by omega)

/-! ## Digits -/

theorem length_decimal_pos (m : Nat) : 0 < (Text.decimal m).length := Nat.length_toDigits_pos

theorem lt_pow_length_decimal (m : Nat) : m < 10 ^ (Text.decimal m).length :=
  (Nat.length_toDigits_le_iff (by decide) (length_decimal_pos m)).mp (Nat.le_refl _)

theorem pow_length_decimal_le {m : Nat} (hm : m ≠ 0) : 10 ^ ((Text.decimal m).length - 1) ≤ m := by
  by_cases hone : (Text.decimal m).length = 1
  · rw [hone]
    exact Nat.one_le_iff_ne_zero.mpr hm
  · have hpos := length_decimal_pos m
    by_contra hlt
    have hle := (Nat.length_toDigits_le_iff (b := 10) (n := m) (by decide)
      (show 0 < (Text.decimal m).length - 1 by omega)).mpr (by omega)
    rw [Text.decimal] at hle hpos
    omega

/-- A decimal that has the rank of a finite number other than zero is neither huge nor tiny. -/
theorem decimal_bounds {m : Nat} {place : Int} (hm : m ≠ 0)
    (hfinite : rankOfDecimal m place < 2047 * binade) (hne : rankOfDecimal m place ≠ 0) :
    -400 ≤ (Text.decimal m).length + place ∧ (Text.decimal m).length + place ≤ 400 := by
  have hpos := length_decimal_pos m
  constructor
  · by_contra h
    exact hne (rankOfDecimal_tiny (lt_pow_length_decimal m) (by omega))
  · by_contra h
    have hhuge : 2047 * binade ≤ rankOfDecimal m place :=
      rankOfDecimal_huge (pow_length_decimal_le hm) (by omega)
    omega

end Number
end BlockText
