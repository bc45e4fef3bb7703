import LaneQueue.Json.Read
import LaneQueue.Json.Write
/-!
# Priorities

A command with a lower number is served first within its lane.
-/
namespace LaneQueue

structure Priority where
  value : UInt8
  deriving DecidableEq, Repr, Inhabited

namespace Priority

/-- The priority of a class that declares none. -/
def default : Priority := ⟨5⟩

def ofNat (n : Nat) : Priority := ⟨UInt8.ofNat n⟩

def toNat (p : Priority) : Nat := p.value.toNat

/-- How a priority is shown to people. -/
def label (p : Priority) : String := "P" ++ toString p.toNat

def toJson (p : Priority) : Json.Value := .nat p.toNat

def reader : Json.Reader Priority := fun t => (Json.Reader.below UInt8.size t).map ofNat

end Priority

namespace Json.Reader

def word8 : Reader UInt8 := fun t => (below UInt8.size t).map UInt8.ofNat

def word16 : Reader UInt16 := fun t => (below UInt16.size t).map UInt16.ofNat

def word32 : Reader UInt32 := fun t => (below UInt32.size t).map UInt32.ofNat

def word64 : Reader UInt64 := fun t => (below UInt64.size t).map UInt64.ofNat

end Json.Reader

end LaneQueue
