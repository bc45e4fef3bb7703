/-!
# Binary floating point, by value

A finite binary floating-point number is a rational on a grid. `BinaryFormat.round` sends a
rational to the nearest point of the grid, a tie to the even neighbour, so every arithmetic step
of a format is "exact, then rounded". `Binary32` is the 32-bit word itself.
-/
namespace LaneQueue

/-- `n / d` to the nearest integer, a half to the even neighbour. -/
def divNearestEven (n d : Nat) : Nat :=
  let q := n / d
  let r := n % d
  if d < 2 * r then q + 1
  else if 2 * r = d ∧ q % 2 = 1 then q + 1
  else q

/-- The power of two, also below one. -/
def twoPow (e : Int) : Rat :=
  if 0 ≤ e then (Nat.pow 2 e.toNat : Rat) else 1 / (Nat.pow 2 (-e).toNat : Rat)

/-- The exponent of the greatest power of two that is at most a positive rational. -/
def floorLog2 (x : Rat) : Int :=
  let n := x.num.natAbs
  let guess : Int := (n.log2 : Int) - (x.den.log2 : Int)
  if twoPow guess ≤ x then guess else guess - 1

/-- A number cut at a bound. -/
def atMost (bound x : Rat) : Rat := if x ≤ bound then x else bound

/-- A grid of `precision` significant bits whose finest unit is `2 ^ minUnit` and whose numbers
stay below `2 ^ limit`. -/
structure BinaryFormat where
  precision : Nat
  minUnit : Int
  limit : Int
  deriving Repr

namespace BinaryFormat

def double : BinaryFormat := ⟨53, -1074, 1024⟩

def single : BinaryFormat := ⟨24, -149, 128⟩

/-- The exponent of the unit in the last place around a positive rational. -/
def unitOf (f : BinaryFormat) (x : Rat) : Int := max (floorLog2 x - (f.precision - 1)) f.minUnit

/-- The unit and the number of units nearest to a rational that is not negative. -/
def nearest (f : BinaryFormat) (x : Rat) : Nat × Int :=
  if x ≤ 0 then (0, f.minUnit)
  else
    let u := f.unitOf x
    let y := x / twoPow u
    (divNearestEven y.num.natAbs y.den, u)

/-- The nearest point of the grid, for rationals that are not negative. -/
def roundAbs (f : BinaryFormat) (x : Rat) : Rat :=
  let (n, u) := f.nearest x
  (n : Rat) * twoPow u

/-- The nearest point of the grid. -/
def round (f : BinaryFormat) (x : Rat) : Rat := if x < 0 then -(f.roundAbs (-x)) else f.roundAbs x

/-- Whether a rational that is not negative rounds to a finite number of the format. -/
def fits (f : BinaryFormat) (x : Rat) : Bool := f.roundAbs x < twoPow f.limit

end BinaryFormat

/-- A single-precision number as its 32 bits. -/
structure Binary32 where
  bits : UInt32
  deriving DecidableEq, Repr, Inhabited

namespace Binary32

/-- The eight bits of the exponent. -/
def exponentField (x : Binary32) : Nat := (x.bits.toNat >>> 23) % 256

/-- The 23 low bits. -/
def fraction (x : Binary32) : Nat := x.bits.toNat % 0x800000

def isNegative (x : Binary32) : Bool := 0x80000000 ≤ x.bits.toNat

def isFinite (x : Binary32) : Bool := x.exponentField != 255

def isNaN (x : Binary32) : Bool := x.exponentField == 255 && x.fraction != 0

/-- The significand of a finite number. -/
def significand (x : Binary32) : Nat :=
  if x.exponentField = 0 then x.fraction else x.fraction + 0x800000

/-- The exponent of the unit of a finite number. -/
def unit (x : Binary32) : Int := if x.exponentField = 0 then -149 else (x.exponentField : Int) - 150

/-- The absolute value of a finite number. -/
def magnitude (x : Binary32) : Rat := (x.significand : Rat) * twoPow x.unit

/-- The value of a finite number. -/
def value (x : Binary32) : Rat := if x.isNegative then -x.magnitude else x.magnitude

def nan : Binary32 := ⟨0x7FC00000⟩

def infinity (negative : Bool) : Binary32 := if negative then ⟨0xFF800000⟩ else ⟨0x7F800000⟩

/-- The nearest single-precision number to a magnitude under a sign; infinite when it is too
great. -/
def ofMagnitude (negative : Bool) (x : Rat) : Binary32 :=
  if BinaryFormat.single.fits x then
    let (n, u) := BinaryFormat.single.nearest x
    let body :=
      if n < 0x800000 then n
      else if n = 0x1000000 then (u + 151).toNat * 0x800000
      else (u + 150).toNat * 0x800000 + (n - 0x800000)
    ⟨UInt32.ofNat (body + if negative then 0x80000000 else 0)⟩
  else infinity negative

/-- The value held between zero and one; none for NaN, which no bound holds. -/
def unitInterval? (x : Binary32) : Option Rat :=
  if x.isNaN then none
  else if x.isNegative then some 0
  else if x.isFinite then some (atMost 1 x.magnitude)
  else some 1

end Binary32

end LaneQueue
