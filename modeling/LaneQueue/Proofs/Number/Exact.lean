import Mathlib.Tactic.Ring
import LaneQueue.Proofs.Number.Rounding
/-!
# Numbers that rounding leaves alone

A number with no more significant bits than a format keeps is a point of its grid: the unit around it
divides it (`BinaryFormat.unitOf_le`), so it is its own rounding (`BinaryFormat.round_scaled`). The whole
numbers up to `2 ^ 53` are such numbers in double precision, and stay so when they are doubled a few times
(`BinaryFormat.double_has_doubled`).
-/
namespace LaneQueue

theorem twoPow_natCast (k : Nat) : twoPow k = 2 ^ k := by
  rw [twoPow_eq_zpow, zpow_natCast]

theorem twoPow_add (d e : Int) : twoPow (d + e) = twoPow d * twoPow e := by
  simp only [twoPow_eq_zpow]
  exact zpow_add₀ two_ne_zero d e

theorem twoPow_le_twoPow_iff {d e : Int} : twoPow d ≤ twoPow e ↔ d ≤ e := by
  rw [twoPow_eq_zpow, twoPow_eq_zpow]
  exact zpow_le_zpow_iff_right₀ (by norm_num)

@[simp] theorem divNearestEven_one (n : Nat) : divNearestEven n 1 = n := by
  simp [divNearestEven, Nat.mod_one]

namespace BinaryFormat

variable {f : BinaryFormat}

/-- A multiple of the unit around it is its own rounding. -/
theorem roundAbs_of_multiple {x : Rat} {n : Nat} (hx : 0 < x) (h : x = n * twoPow (f.unitOf x)) :
    f.roundAbs x = x := by
  have hunit : x / twoPow (f.unitOf x) = n := by
    rw [div_eq_iff (twoPow_pos _).ne', ← h]
  simp only [roundAbs, nearest, if_neg (not_le.2 hx), hunit]
  simpa using h.symm

/-- Around a number of few bits the unit is the least of them, or one more when all bits but the first are
zero. -/
theorem unitOf_le {m : Nat} {k : Int} (hm : 0 < m) (hle : m ≤ 2 ^ f.precision) (hk : f.minUnit ≤ k) :
    f.unitOf (m * twoPow k) ≤ k ∨
      (m = 2 ^ f.precision ∧ f.unitOf (m * twoPow k) = k + 1) := by
  have hx : (0 : Rat) < m * twoPow k := mul_pos (by exact_mod_cast hm) (twoPow_pos k)
  have hbits : (m : Rat) ≤ twoPow f.precision := by
    rw [twoPow_natCast]
    exact_mod_cast hle
  have hlow : twoPow (floorLog2 (m * twoPow k)) ≤ m * twoPow k := twoPow_floorLog2_le hx
  have hlog : floorLog2 (m * twoPow k) ≤ f.precision + k := by
    rw [← twoPow_le_twoPow_iff, twoPow_add]
    exact hlow.trans (mul_le_mul_of_nonneg_right hbits (twoPow_pos k).le)
  by_cases htop : floorLog2 (m * twoPow k) = f.precision + k
  · -- only the power of two itself reaches that far
    rw [htop, twoPow_add, mul_le_mul_iff_left₀ (twoPow_pos k), twoPow_natCast] at hlow
    have heq : m = 2 ^ f.precision := le_antisymm hle (by exact_mod_cast hlow)
    have hunit : f.unitOf (m * twoPow k) = k + 1 := by
      rw [unitOf, htop]
      omega
    exact .inr ⟨heq, hunit⟩
  · left
    unfold unitOf
    omega

/-- **A number with few bits is its own rounding.** -/
theorem round_scaled (hp : 1 ≤ f.precision) {m : Nat} {k : Int} (hle : m ≤ 2 ^ f.precision)
    (hk : f.minUnit ≤ k) : f.round (m * twoPow k) = m * twoPow k := by
  have hnonneg : (0 : Rat) ≤ m * twoPow k := mul_nonneg m.cast_nonneg (twoPow_pos k).le
  rw [round, if_neg (not_lt.2 hnonneg)]
  rcases m.eq_zero_or_pos with rfl | hm
  · simp [roundAbs, nearest]
  · have hx : (0 : Rat) < m * twoPow k := mul_pos (by exact_mod_cast hm) (twoPow_pos k)
    rcases unitOf_le hm hle hk with hunit | ⟨hpower, hunit⟩
    · obtain ⟨d, hd⟩ := Int.le.dest hunit
      apply roundAbs_of_multiple (n := m * 2 ^ d) hx
      calc (m : Rat) * twoPow k = m * (twoPow d * twoPow (f.unitOf (m * twoPow k))) := by
            rw [← twoPow_add, add_comm, hd]
        _ = (m * 2 ^ d : Nat) * twoPow (f.unitOf (m * twoPow k)) := by
            rw [twoPow_natCast]
            push_cast
            ring
    · apply roundAbs_of_multiple (n := 2 ^ (f.precision - 1)) hx
      have hbits : m = 2 ^ (f.precision - 1) * 2 := by
        rw [hpower, ← pow_succ, Nat.sub_add_cancel hp]
      have htwo : twoPow 1 = 2 := by
        rw [twoPow_eq_zpow, zpow_one]
      rw [hunit, twoPow_add, htwo, hbits]
      push_cast
      ring

/-- A number of a format: it is not rounded, and it is finite. -/
structure Has (f : BinaryFormat) (x : Rat) : Prop where
  round_eq : f.round x = x
  fits : f.fits x = true

/-- A whole number of at most 53 bits doubled a few times is a double-precision number. -/
theorem double_has_doubled {m k : Nat} (hm : m ≤ 2 ^ 53) (hk : k ≤ 37) :
    double.Has (m * 2 ^ k) where
  round_eq := by
    have h := round_scaled (f := double) (k := (k : Int)) (by decide) hm
      (by change (-1074 : Int) ≤ k; omega)
    rwa [twoPow_natCast] at h
  fits := by
    refine double_fits (by positivity) ?_
    calc (m : Rat) * 2 ^ k ≤ 2 ^ 53 * 2 ^ 37 := by
          gcongr
          · exact_mod_cast hm
          · norm_num
      _ = 2 ^ 90 := by norm_num

theorem double_has_natCast {m : Nat} (hm : m ≤ 2 ^ 53) : double.Has m := by
  simpa using double_has_doubled hm (Nat.zero_le 37)

end BinaryFormat

end LaneQueue
