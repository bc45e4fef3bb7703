import LaneQueue.Proofs.Number.Exact
import LaneQueue.Retry
/-!
# How the waits grow

The wait before jitter is computed in double precision. As long as both settings are at most `2 ^ 53`, every
number on the way is one of the format, so that nothing is rounded, overflows or is cut
(`RetryConfig.baseDelayMs_eq`), and what is true of the whole numbers is true of the waits: they never fall
from one attempt to the next, and double until they meet the cap or have been doubled thirty times.
-/
namespace LaneQueue

theorem atMost_natCast (bound n : Nat) : atMost (bound : Rat) n = (min n bound : Nat) := by
  unfold atMost
  by_cases h : n ≤ bound
  · rw [if_pos (by exact_mod_cast h), Nat.min_eq_left h]
  · rw [if_neg (by exact_mod_cast h), Nat.min_eq_right (Nat.le_of_not_le h)]

namespace RetryConfig

open BinaryFormat (double)

theorem toMillis_natCast {n : Nat} (h : n ≤ wordMax) : toMillis n = n := by
  rw [toMillis, ← Int.cast_natCast, Rat.floor_intCast, Int.toNat_natCast, Nat.min_eq_left h]

variable {c : RetryConfig} {attempt : Nat}

/-- The base after as many doublings as an attempt brings. -/
def doubled (c : RetryConfig) (attempt : Nat) : Nat :=
  c.backoffBaseMs.toNat * 2 ^ min (attempt - 1) 30

theorem doubled_mono (c : RetryConfig) : Monotone c.doubled := by
  intro a b hab
  exact Nat.mul_le_mul_left _ (Nat.pow_le_pow_right (by decide) (by omega))

theorem doubled_succ (hpos : 1 ≤ attempt) (hlt : attempt < 31) :
    c.doubled (attempt + 1) = 2 * c.doubled attempt := by
  have hexp : min (attempt + 1 - 1) 30 = min (attempt - 1) 30 + 1 := by omega
  rw [doubled, doubled, hexp, pow_succ]
  ring

theorem doubled_of_le (h : 31 ≤ attempt) : c.doubled attempt = c.doubled 31 := by
  have hexp : min (attempt - 1) 30 = min (31 - 1) 30 := by omega
  rw [doubled, doubled, hexp]

/-- The numbers that lead to a wait are numbers of double precision, and the wait is the least of the last
two, whole. -/
structure Exact (c : RetryConfig) (attempt : Nat) : Prop where
  base : double.Has c.backoffBaseMs.toNat
  power : double.Has (2 ^ min (attempt - 1) 30)
  scaled : double.Has (c.backoffBaseMs.toNat * 2 ^ min (attempt - 1) 30)
  cap : double.Has c.backoffMaxMs.toNat
  uncut : atMost (c.backoffMaxMs.toNat : Rat) (c.backoffBaseMs.toNat * 2 ^ min (attempt - 1) 30) =
    c.baseDelayMs attempt

section Small

variable (hbase : c.backoffBaseMs.toNat ≤ 2 ^ 53) (hmax : c.backoffMaxMs.toNat ≤ 2 ^ 53)
include hbase hmax

/-- **The wait before jitter** of settings that double precision holds. -/
theorem baseDelayMs_eq (hpos : 1 ≤ attempt) :
    c.baseDelayMs attempt = min (c.doubled attempt) c.backoffMaxMs.toNat := by
  have hscaled : double.round (double.round c.backoffBaseMs.toNat *
      (Nat.pow 2 (min (attempt - 1) 30) : Nat)) = c.doubled attempt := by
    rw [(BinaryFormat.double_has_natCast hbase).round_eq, doubled]
    push_cast [Nat.pow_eq]
    exact (BinaryFormat.double_has_doubled hbase (by omega)).round_eq
  have hword : min (c.doubled attempt) c.backoffMaxMs.toNat ≤ wordMax :=
    (Nat.min_le_right _ _).trans (hmax.trans (by decide))
  rw [baseDelayMs, if_neg (by omega)]
  change toMillis (atMost (double.round c.backoffMaxMs.toNat) (double.round
    (double.round c.backoffBaseMs.toNat * (Nat.pow 2 (min (attempt - 1) 30) : Nat)))) = _
  rw [hscaled, (BinaryFormat.double_has_natCast hmax).round_eq, atMost_natCast,
    toMillis_natCast hword]

theorem exact_of_le (hpos : 1 ≤ attempt) : c.Exact attempt where
  base := BinaryFormat.double_has_natCast hbase
  power := by
    have h := BinaryFormat.double_has_doubled (m := 1) (k := min (attempt - 1) 30) (by decide) (by omega)
    rwa [Nat.cast_one, one_mul] at h
  scaled := BinaryFormat.double_has_doubled hbase (by omega)
  cap := BinaryFormat.double_has_natCast hmax
  uncut := by
    rw [baseDelayMs_eq hbase hmax hpos, ← atMost_natCast, doubled]
    push_cast
    rfl

theorem baseDelayMs_le (attempt : Nat) : c.baseDelayMs attempt ≤ c.backoffMaxMs.toNat := by
  rcases attempt.eq_zero_or_pos with rfl | hpos
  · simp [baseDelayMs]
  · rw [baseDelayMs_eq hbase hmax hpos]
    exact Nat.min_le_right _ _

theorem baseDelayMs_mono : Monotone c.baseDelayMs := by
  intro a b hab
  rcases a.eq_zero_or_pos with rfl | hpos
  · simp [baseDelayMs]
  · rw [baseDelayMs_eq hbase hmax hpos, baseDelayMs_eq hbase hmax (hpos.trans_le hab)]
    exact min_le_min_right _ (c.doubled_mono hab)

theorem baseDelayMs_succ (hpos : 1 ≤ attempt) (hlt : attempt < 31) :
    c.baseDelayMs (attempt + 1) = min (2 * c.baseDelayMs attempt) c.backoffMaxMs.toNat := by
  rw [baseDelayMs_eq hbase hmax hpos, baseDelayMs_eq hbase hmax (by omega), doubled_succ hpos hlt]
  omega

theorem baseDelayMs_of_le (h : 31 ≤ attempt) : c.baseDelayMs attempt = c.baseDelayMs 31 := by
  rw [baseDelayMs_eq hbase hmax (by omega), baseDelayMs_eq hbase hmax (by decide), doubled_of_le h]

end Small

/-- **The waits double under the cap**: with settings of at most `2 ^ 53` milliseconds the wait before jitter
is exactly the base doubled for each attempt after the first, thirty times at most, or the cap if that is
less. So the waits never exceed the cap, never fall, and double until they meet it or the thirty-first
attempt; and no number on the way is rounded, infinite or cut. -/
theorem waits_double_under_cap (c : RetryConfig) (hbase : c.backoffBaseMs.toNat ≤ 2 ^ 53)
    (hmax : c.backoffMaxMs.toNat ≤ 2 ^ 53) :
    (∀ attempt, 1 ≤ attempt → c.baseDelayMs attempt =
      min (c.backoffBaseMs.toNat * 2 ^ min (attempt - 1) 30) c.backoffMaxMs.toNat) ∧
    (∀ attempt, 1 ≤ attempt → c.Exact attempt) ∧
    (∀ attempt, c.baseDelayMs attempt ≤ c.backoffMaxMs.toNat) ∧
    Monotone c.baseDelayMs ∧
    (∀ attempt, 1 ≤ attempt → attempt < 31 → c.baseDelayMs (attempt + 1) =
      min (2 * c.baseDelayMs attempt) c.backoffMaxMs.toNat) ∧
    ∀ attempt, 31 ≤ attempt → c.baseDelayMs attempt = c.baseDelayMs 31 :=
  ⟨fun _ => baseDelayMs_eq hbase hmax, fun _ => exact_of_le hbase hmax, baseDelayMs_le hbase hmax,
    baseDelayMs_mono hbase hmax, fun _ => baseDelayMs_succ hbase hmax,
    fun _ => baseDelayMs_of_le hbase hmax⟩

/-- The greatest settings of the range, where the second doubling meets the cap. -/
theorem waits_of_greatest_settings :
    let c : RetryConfig := { backoffBaseMs := 0x8000000000000, backoffMaxMs := 0x20000000000000 }
    (c.backoffBaseMs.toNat ≤ 2 ^ 53 ∧ c.backoffMaxMs.toNat ≤ 2 ^ 53) ∧
      c.baseDelayMs 2 = 2 ^ 52 ∧ c.baseDelayMs 3 = 2 ^ 53 ∧ c.baseDelayMs 4294967295 = 2 ^ 53 := by
  have h := waits_double_under_cap
    { backoffBaseMs := 0x8000000000000, backoffMaxMs := 0x20000000000000 } (by decide) (by decide)
  refine ⟨⟨by decide, by decide⟩, ?_, ?_, ?_⟩ <;> rw [h.1 _ (by decide)] <;> decide

end RetryConfig

end LaneQueue
