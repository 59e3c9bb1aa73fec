import LineScript.Decimal
import LineScript.Proofs.Rounding
import Mathlib.Algebra.Order.Field.Power
import Mathlib.Data.Rat.Cast.Order
import Mathlib.Tactic.Positivity
import Mathlib.Tactic.SplitIfs

/-!
# LineScript.Proofs.Magnitude — which double is near a decimal

The largest finite double is `2 ^ 1024 - 2 ^ 971`, and the next magnitude would be `2 ^ 1024`.  The number halfway between
them goes to the even neighbour, which is the one that is too large.

* `Binary64.nearest_lt_infinity_iff`: a quotient is near a finite double exactly when it lies below that halfway point.
* `Decimal.magnitude`: the number that a decimal stands for; `Decimal.numerator` and `Decimal.denominator` make it a
  quotient.
* `Decimal.pattern_eq_nearest`: the shortcuts for far exponents make no difference, except beyond all doubles.
* `Decimal.pattern_lt_infinity_iff`: which decimals are near a finite double.
* `Decimal.pattern_mono`, `Decimal.pattern_congr`: the nearest double depends on the number only, and monotonically.
* `Decimal.pattern_of_large`, `pattern_of_tiny`: decimals so far out that their digits do not matter.
-/

namespace LineScript

namespace Binary64

/-! ### Quotients -/

/-- The limit `2 ^ (a + 54) - 2 ^ a` in units of `2 ^ -b`. -/
theorem limit_mul (den a b : Nat) : (2 ^ (a + 54) - 2 ^ a) * den * 2 ^ b = (2 ^ 54 - 1) * (den * 2 ^ (a + b)) := by
  have hsub : 2 ^ (a + 54) - 2 ^ a = (2 ^ 54 - 1) * 2 ^ a := by
    rw [Nat.sub_mul, Nat.one_mul, Nat.pow_add, Nat.mul_comm]
  rw [hsub, Nat.pow_add 2 a b]
  ring

theorem one_eq : one = 2 ^ 1074 := by
  decide +kernel

/-- **A quotient is near a finite double exactly when it is below `2 ^ 1024 - 2 ^ 970`.** -/
theorem nearest_lt_infinity_iff {num den : Nat} (hden : 0 < den) :
    nearest num den < infinity ↔ num < (2 ^ 1024 - 2 ^ 970) * den := by
  have hlast : nearest num den < infinity ↔ nearest num den ≤ infinity - 1 := by
    have hinfinity : infinity = 2047 * 2 ^ 52 := rfl
    omega
  have hshift : shift (infinity - 1) = 2045 := by decide
  have hsignificand : significand (infinity - 1) = 2 ^ 53 - 1 := by decide
  -- the largest significand is odd, so that the half goes up
  have hrounds : RoundsDown (num * one) (den * 2 ^ 2045) (2 ^ 53 - 1) ↔
      2 * (num * one) < (2 ^ 54 - 1) * (den * 2 ^ 2045) :=
    ⟨fun h => h.resolve_right fun ⟨_, heven⟩ => absurd heven (by decide), .inl⟩
  have hlimit := limit_mul den 970 1075
  rw [show 970 + 54 = 1024 from rfl, show 970 + 1075 = 2045 from rfl] at hlimit
  have hnum : 2 * (num * one) = num * 2 ^ 1075 := by
    rw [one_eq, Nat.pow_succ 2 1074, Nat.mul_left_comm, Nat.mul_comm 2]
  rw [hlast, nearest_le_iff hden, hshift, hsignificand, hrounds, hnum, ← hlimit]
  exact Nat.mul_lt_mul_right (pow_pos two_pos _)

/-- A quotient below half a grain is nearest to zero. -/
theorem nearest_of_tiny {num den : Nat} (h : 2 * (num * one) < den) : nearest num den = 0 := by
  have hzero : shift 0 = 0 ∧ significand 0 = 0 := by decide
  have hdown : nearest num den ≤ 0 := by
    rw [nearest_le_iff (by omega), hzero.1, hzero.2, Nat.pow_zero, Nat.mul_one]
    exact .inl (by omega)
  exact Nat.le_zero.mp hdown

end Binary64

namespace Decimal

open Binary64

/-! ### Decimals as quotients -/

/-- The number that a decimal stands for. -/
def magnitude (d : Decimal) : ℚ :=
  d.coefficient * 10 ^ d.exponent

/-- The numerator of the number that a decimal stands for. -/
def numerator (d : Decimal) : Nat :=
  d.coefficient * 10 ^ d.exponent.toNat

/-- The denominator of the number that a decimal stands for. -/
def denominator (d : Decimal) : Nat :=
  10 ^ (-d.exponent).toNat

variable {d d' : Decimal}

theorem denominator_pos (d : Decimal) : 0 < d.denominator :=
  Nat.pow_pos (by decide)

theorem magnitude_mul_denominator (d : Decimal) : d.magnitude * d.denominator = d.numerator := by
  have hten : (10 : ℚ) ≠ 0 := by norm_num
  have hexponent : d.exponent + ((-d.exponent).toNat : ℤ) = (d.exponent.toNat : ℤ) := by omega
  rw [magnitude, denominator, numerator]
  push_cast
  rw [← zpow_natCast, ← zpow_natCast, mul_assoc, ← zpow_add₀ hten, hexponent]

theorem magnitude_le_iff : d.magnitude ≤ d'.magnitude ↔ d.numerator * d'.denominator ≤ d'.numerator * d.denominator := by
  have hd : (0 : ℚ) < d.denominator := by exact_mod_cast d.denominator_pos
  have hd' : (0 : ℚ) < d'.denominator := by exact_mod_cast d'.denominator_pos
  rw [← mul_le_mul_iff_left₀ (mul_pos hd hd'), ← Nat.cast_le (α := ℚ), Nat.cast_mul, Nat.cast_mul,
    ← magnitude_mul_denominator, ← magnitude_mul_denominator, mul_assoc, mul_assoc, mul_comm (d'.denominator : ℚ)]

/-! ### The limits -/

theorem cast_sub_pow {a b : ℕ} (h : a ≤ b) : ((2 ^ b - 2 ^ a : ℕ) : ℚ) = 2 ^ b - 2 ^ a := by
  rw [Nat.cast_sub (Nat.pow_le_pow_right (by decide) h)]
  push_cast
  rfl

/-- All whole numbers of 32 bits are below the limit. -/
theorem natCast_lt_limit {n : ℕ} (h : n ≤ 2 ^ 31) : (n : ℚ) < 2 ^ 1024 - 2 ^ 970 := by
  have hlt : 2 ^ 31 < 2 ^ 1024 - 2 ^ 970 := by decide +kernel
  rw [← cast_sub_pow (by decide), Nat.cast_lt]
  exact Nat.lt_of_le_of_lt h hlt

theorem limit_lt_ten_pow : (2 ^ 1024 - 2 ^ 970 : ℚ) < 10 ^ 400 := by
  have hlt : 2 ^ 1024 - 2 ^ 970 < 10 ^ 400 := by decide +kernel
  rw [← cast_sub_pow (by decide)]
  exact_mod_cast hlt

theorem magnitude_of_large (hc : d.coefficient ≠ 0) (he : 400 < d.exponent) : (10 : ℚ) ^ 400 ≤ d.magnitude := by
  have hone : (1 : ℚ) ≤ d.coefficient := by exact_mod_cast Nat.one_le_iff_ne_zero.mpr hc
  have hpow : (10 : ℚ) ^ 400 ≤ 10 ^ d.exponent := by
    rw [← zpow_natCast]
    exact zpow_le_zpow_right₀ (by norm_num) (by exact_mod_cast he.le)
  calc (10 : ℚ) ^ 400 ≤ 10 ^ d.exponent := hpow
    _ ≤ d.coefficient * 10 ^ d.exponent := le_mul_of_one_le_left (by positivity) hone

/-- A decimal whose exponent outweighs the `k` digits of its coefficient by far is less than half a grain. -/
theorem numerator_of_tiny {k : Nat} (hc : d.coefficient < 10 ^ k) (he : d.exponent + k ≤ -330) :
    2 * (d.numerator * one) < d.denominator := by
  have hgrain : 2 * one ≤ 10 ^ 330 := by decide +kernel
  have hpos : 0 < 10 ^ 330 := by positivity
  have hnumerator : d.numerator = d.coefficient := by
    rw [numerator, show d.exponent.toNat = 0 by omega, Nat.pow_zero, Nat.mul_one]
  have hden : 10 ^ k * 10 ^ 330 ≤ d.denominator := by
    rw [← Nat.pow_add]
    exact Nat.pow_le_pow_right (by decide) (by omega)
  calc 2 * (d.numerator * one) = d.coefficient * (2 * one) := by rw [hnumerator, Nat.mul_left_comm]
    _ ≤ d.coefficient * 10 ^ 330 := Nat.mul_le_mul_left _ hgrain
    _ < 10 ^ k * 10 ^ 330 := Nat.mul_lt_mul_of_pos_right hc hpos
    _ ≤ d.denominator := hden

/-! ### The nearest double -/

theorem pattern_of_large (hc : d.coefficient ≠ 0) (he : 400 < d.exponent) : d.pattern = infinity := by
  rw [pattern, if_neg hc, if_pos he]

/-- Only beyond all doubles the shortcuts make a difference. -/
theorem pattern_eq_nearest (h : d.coefficient = 0 ∨ d.exponent ≤ 400) :
    d.pattern = nearest d.numerator d.denominator := by
  unfold pattern
  split_ifs with hc hlarge hsmall hsign
  · have hnumerator : d.numerator = 0 := by rw [numerator, hc, Nat.zero_mul]
    rw [hnumerator, nearest_of_tiny (by rw [Nat.zero_mul]; exact d.denominator_pos)]
  · omega
  · have hcoefficient : d.coefficient < 10 ^ (d.coefficient.log2 + 1) :=
      Nat.lt_of_lt_of_le Nat.lt_log2_self (Nat.pow_le_pow_left (by decide) _)
    exact (nearest_of_tiny (numerator_of_tiny hcoefficient (by push_cast; omega))).symm
  · rw [denominator, show (-d.exponent).toNat = 0 by omega, Nat.pow_zero]
    rfl
  · rw [numerator, show d.exponent.toNat = 0 by omega, Nat.pow_zero, Nat.mul_one]
    rfl

/-- A decimal whose exponent outweighs the `k` digits of its coefficient by far is nearest to zero. -/
theorem pattern_of_tiny {k : Nat} (hc : d.coefficient < 10 ^ k) (he : d.exponent ≤ -(k + 400 : ℕ)) :
    d.pattern = 0 := by
  rw [pattern_eq_nearest (.inr (by omega))]
  exact nearest_of_tiny (numerator_of_tiny hc (by omega))

/-- **A decimal is near a finite double exactly when it is below `2 ^ 1024 - 2 ^ 970`.** -/
theorem pattern_lt_infinity_iff (d : Decimal) : d.pattern < infinity ↔ d.magnitude < 2 ^ 1024 - 2 ^ 970 := by
  by_cases hfar : d.coefficient ≠ 0 ∧ 400 < d.exponent
  · rw [pattern_of_large hfar.1 hfar.2]
    exact iff_of_false (Nat.lt_irrefl _)
      (not_lt.mpr (limit_lt_ten_pow.le.trans (magnitude_of_large hfar.1 hfar.2)))
  · have hpos : (0 : ℚ) < d.denominator := by exact_mod_cast d.denominator_pos
    rw [pattern_eq_nearest (by omega), nearest_lt_infinity_iff d.denominator_pos, ← Nat.cast_lt (α := ℚ),
      ← magnitude_mul_denominator, Nat.cast_mul, cast_sub_pow (by decide)]
    exact mul_lt_mul_iff_left₀ hpos

theorem pattern_eq_nearest_of_lt (h : d.pattern < infinity) : d.pattern = nearest d.numerator d.denominator := by
  refine pattern_eq_nearest ?_
  by_contra hfar
  rw [not_or, not_le] at hfar
  rw [pattern_of_large hfar.1 hfar.2] at h
  exact Nat.lt_irrefl _ h

/-- The nearest double grows with the number. -/
theorem pattern_mono (h : d.magnitude ≤ d'.magnitude) (hfinite : d'.pattern < infinity) : d.pattern ≤ d'.pattern := by
  have hfinite' : d.pattern < infinity :=
    (pattern_lt_infinity_iff d).mpr (h.trans_lt ((pattern_lt_infinity_iff d').mp hfinite))
  rw [pattern_eq_nearest_of_lt hfinite, pattern_eq_nearest_of_lt hfinite']
  exact nearest_mono d.denominator_pos d'.denominator_pos (magnitude_le_iff.mp h)

/-- The nearest double depends on the number only. -/
theorem pattern_congr (h : d.magnitude = d'.magnitude) (hfinite : d.pattern < infinity) : d'.pattern = d.pattern := by
  have hfinite' : d'.pattern < infinity := by rwa [pattern_lt_infinity_iff, ← h, ← pattern_lt_infinity_iff]
  exact Nat.le_antisymm (pattern_mono h.ge hfinite) (pattern_mono h.le hfinite')

end Decimal

end LineScript
