import LaneQueue.Number.Decimal
/-!
# Shortest decimal text

The fewest digits that read back as the same single-precision number, of those the nearest, and
their layout: positional for magnitudes from `1e-6` to below `1e13`, always with a digit after
the point, and with an exponent outside that range.
-/
namespace LaneQueue

namespace Binary32

/-- Half a unit down to the neighbour below; the gap narrows below a power of two. -/
def halfGapBelow (x : Binary32) : Rat :=
  let half := twoPow (x.unit - 1)
  if x.fraction = 0 ∧ 1 < x.exponentField then half / 2 else half

/-- Whether a positive rational reads as the magnitude of `x`: it lies between the middles to
the neighbours, which count when the significand is even. -/
def readsAs (x : Binary32) (y : Rat) : Bool :=
  let lower := x.magnitude - x.halfGapBelow
  let upper := x.magnitude + twoPow (x.unit - 1)
  if x.significand % 2 = 0 then lower ≤ y && y ≤ upper else lower < y && y < upper

/-- The exponent `k` with `10 ^ k ≤ y < 10 ^ (k + 1)`, found near an estimate. -/
def floorLog10 (y : Rat) : Int :=
  let guess := Int.fdiv (floorLog2 y * 30103) 100000
  if Decimal.tenPow (guess + 1) ≤ y then guess + 1
  else if Decimal.tenPow guess ≤ y then guess
  else guess - 1

/-- The neighbour of `y` among the multiples of `10 ^ k` that reads as `x`, the nearer of two. -/
def onGrid (x : Binary32) (y : Rat) (k : Int) : Option Decimal :=
  let unit := Decimal.tenPow k
  let q := (y / unit).floor.toNat
  let below := (q : Rat) * unit
  let above := ((q + 1 : Nat) : Rat) * unit
  match x.readsAs below && q != 0, x.readsAs above with
  | false, false => none
  | true, false => some ⟨q, k⟩
  | false, true => some ⟨q + 1, k⟩
  | true, true =>
    if y - below < above - y then some ⟨q, k⟩
    else if above - y < y - below then some ⟨q + 1, k⟩
    else if q % 2 = 0 then some ⟨q, k⟩ else some ⟨q + 1, k⟩

/-- The shortest decimal that reads as a finite magnitude; nine digits always suffice. -/
def shortest (x : Binary32) : Decimal :=
  let y := x.magnitude
  if x.significand = 0 then ⟨0, 0⟩
  else
    let top := floorLog10 y
    match (List.range 10).findSome? (fun (n : Nat) => x.onGrid y (top - (n : Int))) with
    | some d => d
    | none => ⟨y.floor.toNat, 0⟩

end Binary32

/-- The magnitudes that are written without an exponent. -/
structure Positional where
  /-- The least power of ten, as the place of the first digit. -/
  least : Int
  /-- The most digits before the point. -/
  most : Int

/-- Numbers from `1e-6` up to thirteen digits before the point are written out. -/
def Positional.json : Positional := ⟨-5, 13⟩

/-- A number without trailing zeros in its digits. -/
def Decimal.strip (d : Decimal) : Nat → Decimal
  | 0 => d
  | n + 1 => if d.digits ≠ 0 ∧ d.digits % 10 = 0 then strip ⟨d.digits / 10, d.exponent + 1⟩ n else d

/-- The text of a decimal; `point` is the place of the decimal point, counted from the first
digit. -/
def Decimal.render (d : Decimal) (range : Positional) : String :=
  let ds := toString d.digits
  let point : Int := ds.length + d.exponent
  if d.digits = 0 then "0.0"
  else if 0 ≤ d.exponent ∧ point ≤ range.most then
    ds ++ String.ofList (List.replicate d.exponent.toNat '0') ++ ".0"
  else if 0 < point ∧ point ≤ range.most then
    String.ofList (ds.toList.take point.toNat) ++ "." ++ String.ofList (ds.toList.drop point.toNat)
  else if range.least ≤ point ∧ point ≤ 0 then
    "0." ++ String.ofList (List.replicate (-point).toNat '0') ++ ds
  else
    let tail := ds.toList.drop 1
    String.ofList (ds.toList.take 1) ++ (if tail = [] then "" else "." ++ String.ofList tail) ++
      "e" ++ toString (point - 1)

/-- The shortest text of a finite single-precision number. -/
def Binary32.render (x : Binary32) : String :=
  (if x.isNegative then "-" else "") ++ (x.shortest.strip 60).render .json

end LaneQueue
