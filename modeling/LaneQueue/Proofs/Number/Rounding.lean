import Mathlib.Algebra.Order.Field.Power
import Mathlib.Algebra.Order.Field.Rat
import Mathlib.Data.Nat.Cast.Order.Field
import Mathlib.Tactic.Linarith
import Mathlib.Tactic.Positivity
import Mathlib.Tactic.FieldSimp
import LaneQueue.Number.Decimal
/-!
# Rounding does not lead far away

The nearest point of a grid is at most one unit beyond a number, and a unit is not greater than the
number or one (`BinaryFormat.roundAbs_le`). So whole numbers of 64 bits stay far below the greatest
double-precision number, however they are scaled by a power of ten that is one.
-/
namespace LaneQueue

theorem twoPow_eq_zpow (e : Int) : twoPow e = (2 : Rat) ^ e := by
  unfold twoPow
  split
  · rename_i h
    obtain ⟨n, rfl⟩ := Int.eq_ofNat_of_zero_le h
    simp
  · rename_i h
    obtain ⟨n, hn⟩ := Int.eq_ofNat_of_zero_le (a := -e) (by omega)
    obtain rfl : e = -(n : Int) := by omega
    simp

theorem twoPow_pos (e : Int) : 0 < twoPow e := by
  rw [twoPow_eq_zpow]
  positivity

theorem twoPow_le_twoPow {d e : Int} (h : d ≤ e) : twoPow d ≤ twoPow e := by
  rw [twoPow_eq_zpow, twoPow_eq_zpow]
  exact zpow_le_zpow_right₀ (by norm_num) h

theorem natAbs_div_den {x : Rat} (hx : 0 ≤ x) : (x.num.natAbs : Rat) / x.den = x := by
  have habs : (x.num.natAbs : Rat) = (x.num : Rat) := by
    rw [← Int.cast_natCast, Int.natAbs_of_nonneg (Rat.num_nonneg.2 hx)]
  rw [habs, Rat.num_div_den]

/-- The greatest power of two that is at most a number is at most that number. -/
theorem twoPow_floorLog2_le {x : Rat} (hx : 0 < x) : twoPow (floorLog2 x) ≤ x := by
  have hnum : 0 < x.num := Rat.num_pos.2 hx
  have hn : x.num.natAbs ≠ 0 := by omega
  unfold floorLog2
  simp only
  split
  · assumption
  · have hlow : (2 : Rat) ^ x.num.natAbs.log2 ≤ x.num.natAbs := by
      exact_mod_cast Nat.log2_self_le hn
    have hhigh : (x.den : Rat) ≤ 2 ^ (x.den.log2 + 1) := by
      exact_mod_cast Nat.lt_log2_self.le
    have hden : (0 : Rat) < x.den := by exact_mod_cast x.den_pos
    have hpower : twoPow ((x.num.natAbs.log2 : Int) - x.den.log2 - 1) =
        2 ^ x.num.natAbs.log2 / 2 ^ (x.den.log2 + 1) := by
      rw [twoPow_eq_zpow, sub_sub, zpow_sub₀ two_ne_zero]
      norm_cast
    rw [hpower]
    conv_rhs => rw [← natAbs_div_den hx.le]
    exact div_le_div₀ (by positivity) hlow hden hhigh

/-- The nearest integer is at most one beyond a number. -/
theorem divNearestEven_le {x : Rat} (hx : 0 ≤ x) :
    (divNearestEven x.num.natAbs x.den : Rat) ≤ x + 1 := by
  have hnat : divNearestEven x.num.natAbs x.den ≤ x.num.natAbs / x.den + 1 := by
    simp only [divNearestEven]
    split
    · exact Nat.le_refl _
    · split <;> omega
  calc (divNearestEven x.num.natAbs x.den : Rat)
      ≤ ((x.num.natAbs / x.den : Nat) : Rat) + 1 := by exact_mod_cast hnat
    _ ≤ (x.num.natAbs : Rat) / x.den + 1 := by gcongr; exact Nat.cast_div_le
    _ = x + 1 := by rw [natAbs_div_den hx]

namespace BinaryFormat

variable {f : BinaryFormat}

/-- A unit is not greater than the number around which it is taken, or one. -/
theorem twoPow_unitOf_le (hp : 1 ≤ f.precision) (hu : f.minUnit ≤ 0) {x : Rat} (hx : 0 < x) :
    twoPow (f.unitOf x) ≤ x + 1 := by
  have hone : twoPow 0 = 1 := by rw [twoPow_eq_zpow, zpow_zero]
  have hmin : twoPow f.minUnit ≤ 1 := hone ▸ twoPow_le_twoPow hu
  have hlog : twoPow (floorLog2 x - (f.precision - 1)) ≤ x :=
    (twoPow_le_twoPow (by omega)).trans (twoPow_floorLog2_le hx)
  unfold unitOf
  rcases max_choice (floorLog2 x - ((f.precision : Int) - 1)) f.minUnit with h | h <;> rw [h] <;>
    linarith

/-- **The nearest point of a grid** is at most twice as far from zero and one. -/
theorem roundAbs_le (hp : 1 ≤ f.precision) (hu : f.minUnit ≤ 0) {x : Rat} (hx : 0 ≤ x) :
    f.roundAbs x ≤ 2 * x + 1 := by
  rcases hx.eq_or_lt with rfl | hx
  · simp [roundAbs, nearest]
  · have hunit := twoPow_unitOf_le hp hu hx
    have hpos := twoPow_pos (f.unitOf x)
    simp only [roundAbs, nearest, if_neg (not_le.2 hx)]
    generalize twoPow (f.unitOf x) = u at hunit hpos
    calc (divNearestEven (x / u).num.natAbs (x / u).den : Rat) * u
        ≤ (x / u + 1) * u := by gcongr; exact divNearestEven_le (by positivity)
      _ = x + u := by field_simp
      _ ≤ 2 * x + 1 := by linarith

theorem roundAbs_nonneg (x : Rat) : 0 ≤ f.roundAbs x := by
  simp only [roundAbs]
  exact mul_nonneg (Nat.cast_nonneg _) (twoPow_pos _).le

/-- Small numbers are finite in double precision. -/
theorem double_fits {x : Rat} (hx : 0 ≤ x) (hle : x ≤ 2 ^ 90) : double.fits x = true := by
  have hround : double.roundAbs x ≤ 2 * x + 1 := roundAbs_le (by decide) (by decide) hx
  have hlimit : (2 : Rat) ^ 100 ≤ twoPow double.limit := by
    have hpow : twoPow 100 = (2 : Rat) ^ 100 := by
      rw [twoPow_eq_zpow]
      norm_cast
    exact hpow ▸ twoPow_le_twoPow (by decide)
  have hlt : double.roundAbs x < 2 ^ 100 := by
    refine lt_of_le_of_lt hround ?_
    norm_num at hle ⊢
    linarith
  exact decide_eq_true (hlt.trans_le hlimit)

end BinaryFormat

/-- Digits that fit a 64-bit word are no number that is too great. -/
theorem Decimal.quickDouble?_isSome {n : Nat} (h : n < UInt64.size) :
    (Decimal.quickDouble? ⟨n, 0⟩).isSome := by
  have hn : (n : Rat) ≤ 18446744073709551616 := by exact_mod_cast h.le
  have hdigits : BinaryFormat.double.roundAbs (n : Rat) ≤ 2 * n + 1 :=
    BinaryFormat.roundAbs_le (by decide) (by decide) (Nat.cast_nonneg n)
  have hpower : BinaryFormat.double.roundAbs (Decimal.tenPow 0) ≤ 3 := by
    have hten : Decimal.tenPow 0 = 1 := by norm_num [Decimal.tenPow]
    rw [hten]
    have hone := BinaryFormat.roundAbs_le (f := BinaryFormat.double) (x := 1) (by decide) (by decide)
      zero_le_one
    linarith
  have hfits : BinaryFormat.double.fits
      (BinaryFormat.double.roundAbs (n : Rat) * BinaryFormat.double.roundAbs (Decimal.tenPow 0)) =
        true := by
    refine BinaryFormat.double_fits
      (mul_nonneg (BinaryFormat.roundAbs_nonneg _) (BinaryFormat.roundAbs_nonneg _)) ?_
    calc _ ≤ (2 * (n : Rat) + 1) * 3 :=
          mul_le_mul hdigits hpower (BinaryFormat.roundAbs_nonneg _) (by positivity)
      _ ≤ 2 ^ 90 := by
          norm_num
          linarith
  have hscale : Decimal.quickDouble? ⟨n, 0⟩ = some (BinaryFormat.double.roundAbs
      (BinaryFormat.double.roundAbs (n : Rat) *
        BinaryFormat.double.roundAbs (Decimal.tenPow 0))) := by
    simp [Decimal.quickDouble?, Decimal.scale, hfits]
  rw [hscale]
  rfl

end LaneQueue
