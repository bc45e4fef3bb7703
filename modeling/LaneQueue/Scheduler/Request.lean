import LaneQueue.Command.Draft
import LaneQueue.Status
/-!
# Requests to the scheduler

What producers, operators and command bodies ask of the scheduler, and what it answers.
-/
namespace LaneQueue

inductive Request where
  /-- Start the lanes. -/
  | start
  | submit (draft : Draft) (options : SubmitOptions)
  /-- Stop claiming work; the command in flight finishes. -/
  | pause (lane : Lane)
  | resume (lane : Lane)
  /-- Remove the waiting commands of a lane. -/
  | clear (lane : Lane)
  | status (lane : Lane)
  | statusAll
  /-- Let the commands in flight finish and stop the lanes. -/
  | shutdown

inductive RejectReason where
  /-- The identity is queued and the class refuses duplicates. -/
  | duplicate
  /-- Nobody registered the class. -/
  | unregistered (tag : String)
  deriving DecidableEq, Repr

def RejectReason.message : RejectReason → String
  | duplicate => "duplicate"
  | unregistered tag => "unregistered command type " ++ tag

/-- What became of a submission. -/
inductive SubmitOutcome where
  /-- Stored as new work. -/
  | accepted
  /-- Stored in place of a queued command with its identity. -/
  | replaced
  /-- Dropped, as its identity is queued. -/
  | alreadyQueued
  | rejected (reason : RejectReason)
  deriving DecidableEq, Repr

namespace SubmitOutcome

/-- Whether the submitted payload is the queued one now. -/
def isQueued : SubmitOutcome → Bool
  | accepted | replaced => true
  | alreadyQueued | rejected _ => false

def message : SubmitOutcome → String
  | accepted => "Accepted"
  | replaced => "Replaced"
  | alreadyQueued => "AlreadyQueued"
  | rejected r => "Rejected: " ++ r.message

end SubmitOutcome

inductive Reply where
  /-- The lanes run; so many commands were found. -/
  | started (found : PerLane Nat)
  | submitted (outcome : SubmitOutcome)
  | cleared (removed : Nat)
  | status (s : LaneStatus)
  | statuses (s : List LaneStatus)
  | done
  | failed (e : QueueError)

end LaneQueue
