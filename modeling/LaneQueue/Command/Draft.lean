import LaneQueue.Error
import LaneQueue.Store.Record
/-!
# Command classes and submissions

What a class fixes for all its commands, and a command on its way into the queue. A forced
submission goes under an identity of its own, so that it never meets a passive one.
-/
namespace LaneQueue

/-- What all commands of a class share. -/
structure Descriptor where
  /-- Names the class in stored records. -/
  tag : String
  lane : Lane
  /-- The priority of a submission that gives none. -/
  priority : Priority := .default
  /-- Whether recoverable failures are retried. -/
  bubbles : Bool := false
  conflict : ConflictPolicy := .rejectDuplicate
  deriving DecidableEq, Repr

/-- A command as its producer hands it over. -/
structure Draft where
  tag : String
  identity : String
  /-- The bytes to store, or the reason why the command has no stored form. -/
  payload : Except QueueError Bytes

/-- How one submission departs from its class. -/
structure SubmitOptions where
  priority : Option Priority := none
  forced : Bool := false
  deriving DecidableEq, Repr

/-- Follows the identity of a forced submission. -/
def forcedSuffix : String := "_Forced"

/-- The identity under which a submission is queued. -/
def SubmitOptions.identity (o : SubmitOptions) (identity : String) : String :=
  if o.forced then identity ++ forcedSuffix else identity

/-- The command to be stored for a submission to a class. -/
def Draft.toCommand (d : Draft) (k : Descriptor) (o : SubmitOptions) :
    Except QueueError NewCommand :=
  d.payload.map fun payload =>
    { identity := o.identity d.identity
      tag := k.tag
      lane := k.lane
      priority := o.priority.getD k.priority
      payload := payload
      bubbles := k.bubbles }

end LaneQueue
