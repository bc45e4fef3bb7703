import LaneQueue.Number.Binary
import LaneQueue.Hash.Sip
/-!
# Retrying a failed command

How many executions a command gets and how long it waits between them. The wait doubles with
every failure up to a cap and is then spread by a jitter that depends on the identity and the
attempt alone, so that a restart does not change it. The arithmetic is that of double-precision
numbers: each step is exact and then rounded.
-/
namespace LaneQueue

/-- The greatest 64-bit word. -/
def wordMax : Nat := UInt64.size - 1

structure RetryConfig where
  /-- Executions, the first one included, before a command is given up. -/
  maxAttempts : UInt32 := 5
  /-- The wait before the first retry. -/
  backoffBaseMs : UInt64 := 2000
  /-- The greatest wait, before jitter. -/
  backoffMaxMs : UInt64 := 300000
  /-- The share of the wait by which it is spread in both directions. -/
  jitterRatio : Binary32 := ⟨0x3E800000⟩
  deriving DecidableEq, Repr

namespace RetryConfig

/-- The bound on executions; a configured zero counts as one. -/
def bound (c : RetryConfig) : Nat := max c.maxAttempts.toNat 1

/-- Whether the executions are used up after `attempt` of them. -/
def exhausted (c : RetryConfig) (attempt : Nat) : Bool := c.bound ≤ attempt

/-- A number of milliseconds as a word, cut at the greatest one. -/
def toMillis (x : Rat) : Nat := min x.floor.toNat wordMax

/-- The nearest whole number of milliseconds, a half going up. -/
def roundMillis (x : Rat) : Nat := toMillis (x + 1 / 2)

private def dbl (x : Rat) : Rat := BinaryFormat.double.round x

/-- The wait before jitter: the base doubled for each failure after the first (thirty times at
most), under the cap. -/
def baseDelayMs (c : RetryConfig) (attempt : Nat) : Nat :=
  if attempt = 0 then 0
  else
    let doublings := min (attempt - 1) 30
    let scaled := dbl (dbl (c.backoffBaseMs.toNat : Rat) * (Nat.pow 2 doublings : Rat))
    toMillis (atMost (dbl (c.backoffMaxMs.toNat : Rat)) scaled)

/-- The bytes that settle a jitter: the identity, a byte that no text holds, and the attempt. -/
def jitterSeed (identity : String) (attempt : Nat) : List UInt8 :=
  identity.toUTF8.toList ++
    [0xFF, UInt8.ofNat attempt, UInt8.ofNat (attempt / 0x100), UInt8.ofNat (attempt / 0x10000),
      UInt8.ofNat (attempt / 0x1000000)]

/-- Where in the range of waits a retry falls, from zero to one. -/
def jitterUnit (identity : String) (attempt : Nat) : Rat :=
  dbl ((Sip.hash (jitterSeed identity attempt)).toNat : Rat) / (UInt64.size : Rat)

/-- The least and the greatest wait around an anchor. A ratio that is no number spreads over the
whole range below the cap. -/
def delayRange (c : RetryConfig) (anchor : Nat) : Rat × Rat :=
  let a := dbl (anchor : Rat)
  let cap := dbl (c.backoffMaxMs.toNat : Rat)
  match c.jitterRatio.unitInterval? with
  | none => (0, cap)
  | some ratio =>
    let span := dbl (a * ratio)
    (if 0 ≤ dbl (a - span) then dbl (a - span) else 0, atMost cap (dbl (a + span)))

/-- The wait after the `attempt`-th failure of `identity`, in milliseconds. -/
def delayMs (c : RetryConfig) (identity : String) (attempt : Nat) : Nat :=
  let anchor := c.baseDelayMs attempt
  if anchor = 0 then 0
  else
    let (lower, upper) := c.delayRange anchor
    if upper ≤ lower then roundMillis lower
    else roundMillis (dbl (lower + dbl (dbl (upper - lower) * jitterUnit identity attempt)))

end RetryConfig

end LaneQueue
