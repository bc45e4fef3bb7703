/-!
# Decimal digits

Digits as numbers, and numbers in a fixed number of digits.
-/
namespace LaneQueue

def digitValue? (c : Char) : Option Nat :=
  if 48 ≤ c.toNat ∧ c.toNat ≤ 57 then some (c.toNat - 48) else none

def digitChar (d : Nat) : Char := Char.ofNat (48 + d % 10)

/-- At most `most` digits in front as a number with their count, and what follows them. -/
def takeNumber : Nat → List Char → (Nat × Nat) × List Char
  | most, cs => go most cs 0 0
where
  go : Nat → List Char → Nat → Nat → (Nat × Nat) × List Char
    | 0, cs, n, k => ((n, k), cs)
    | _ + 1, [], n, k => ((n, k), [])
    | m + 1, c :: cs, n, k =>
      match digitValue? c with
      | some d => go m cs (n * 10 + d) (k + 1)
      | none => ((n, k), c :: cs)

/-- The last `width` digits of a number, with leading zeros. -/
def padded : Nat → Nat → List Char
  | 0, _ => []
  | width + 1, n => padded width (n / 10) ++ [digitChar n]

theorem digitValue?_digitChar (d : Nat) (h : d < 10) : digitValue? (digitChar d) = some d := by
  have : ∀ d : Fin 10, digitValue? (digitChar d.1) = some d.1 := by decide
  exact this ⟨d, h⟩

theorem length_padded (w n : Nat) : (padded w n).length = w := by
  induction w generalizing n with
  | zero => rfl
  | succ w ih => simp [padded, ih]

end LaneQueue
