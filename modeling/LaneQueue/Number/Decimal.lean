import LaneQueue.Number.Binary
/-!
# Reading decimal numbers

A written number is a whole number of powers of ten. `Decimal.toDouble?` is the nearest
double-precision number; `Decimal.quickDouble?` is the cheaper reading that scales by one power
of ten after the other and rounds at each step, which may miss the nearest one by a unit.
-/
namespace LaneQueue

/-- The number `digits * 10 ^ exponent`. -/
structure Decimal where
  digits : Nat
  exponent : Int
  deriving DecidableEq, Repr

namespace Decimal

/-- The power of ten, also below one. -/
def tenPow (e : Int) : Rat :=
  if 0 ≤ e then (Nat.pow 10 e.toNat : Rat) else 1 / (Nat.pow 10 (-e).toNat : Rat)

def value (d : Decimal) : Rat := (d.digits : Rat) * tenPow d.exponent

/-- The number of digits before the decimal point, negative when zeros follow it. -/
def magnitude (d : Decimal) : Int := (toString d.digits).length + d.exponent

/-- The nearest double-precision number, none when it is too great. Numbers far outside the
range are settled by their magnitude alone. -/
def toDouble? (d : Decimal) : Option Rat :=
  if d.digits = 0 ∨ d.magnitude < -400 then some 0
  else if 400 < d.magnitude then none
  else if BinaryFormat.double.fits d.value then some (BinaryFormat.double.roundAbs d.value)
  else none

/-- Scaling by powers of ten within the range of double precision, `steps` times at most. -/
def scale (f : Rat) (exponent : Int) : Nat → Option Rat
  | 0 => some f
  | steps + 1 =>
    let double := BinaryFormat.double
    if exponent.natAbs ≤ 308 then
      let power := double.roundAbs (tenPow exponent.natAbs)
      if 0 ≤ exponent then
        let g := f * power
        if double.fits g then some (double.roundAbs g) else none
      else some (double.roundAbs (f / power))
    else if f = 0 then some f
    else if 0 ≤ exponent then none
    else scale (double.roundAbs (f / double.roundAbs (tenPow 308))) (exponent + 308) steps

/-- The double-precision number reached by scaling the rounded digits; none when that is too
great. Four steps down bring every number to zero. -/
def quickDouble? (d : Decimal) : Option Rat :=
  scale (BinaryFormat.double.roundAbs (d.digits : Rat)) (max d.exponent (-2000)) 8

end Decimal

end LaneQueue
