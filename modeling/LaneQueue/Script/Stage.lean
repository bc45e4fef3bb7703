import LaneQueue.Lane
/-!
# The stage of scripted commands

The world that scripted bodies live in: what has been performed, and the gates at which bodies
wait. A gate is opened for one body at a time; an opening that finds nobody there is kept.
-/
namespace LaneQueue.Script

/-- One execution of a scripted command. -/
structure Performance where
  lane : Lane
  identity : String
  attempt : UInt32
  key : String
  payload : String
  deriving DecidableEq, Repr

structure Stage where
  /-- The executions that have begun, in their order. -/
  performed : List Performance := []
  /-- The identities whose gates are open, once for each body that may pass. -/
  opened : List String := []
  /-- The identities of the bodies at their gates. -/
  waiting : List String := []
  deriving DecidableEq, Repr

namespace Stage

def perform (p : Performance) (s : Stage) : Stage := { s with performed := s.performed ++ [p] }

/-- A body comes to its gate. -/
def arrive (identity : String) (s : Stage) : Stage :=
  { s with waiting := identity :: s.waiting }

/-- A body goes through its gate, if that is open. -/
def pass? (identity : String) (s : Stage) : Option Stage :=
  if identity ∈ s.opened then
    some { s with opened := s.opened.erase identity, waiting := s.waiting.erase identity }
  else none

/-- Opens a gate for one body; says whether one was waiting there. -/
def openGate (identity : String) (s : Stage) : Bool × Stage :=
  (s.waiting.contains identity, { s with opened := identity :: s.opened })

end Stage

end LaneQueue.Script
