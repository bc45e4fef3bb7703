/-!
# What the queue reports to its callers

Every refusal is a cause with its parts; `QueueError.message` is the wording shown to people and
`QueueError.chain` the wording inside a failure reason, where a cause that wraps another one is
followed by the wrapped text.
-/
namespace LaneQueue

inductive QueueError where
  /-- The storage medium is unavailable for the moment; one more attempt is worth it. -/
  | transientStorage (text : String)
  /-- A storage failure that another attempt will not fix. -/
  | storage (text : String)
  /-- A value that has no stored form. -/
  | serialization (reason : String)
  /-- Stored bytes that are no command of their class. -/
  | malformedPayload (tag identity reason : String)
  /-- A record whose class nobody registered. -/
  | unknownCommandType (tag : String)
  /-- A second class under a tag that is taken. -/
  | duplicateRegistration (tag : String)
  /-- A lane name or index that names no lane. -/
  | invalidLane (name : String)
  /-- Misuse of the scheduler. -/
  | internal (text : String)
  deriving DecidableEq, Repr, Inhabited

namespace QueueError

/-- Whether the failed call is worth one more attempt. -/
def isTransient : QueueError → Bool
  | transientStorage _ => true
  | _ => false

def message : QueueError → String
  | transientStorage t => "Transient storage error: " ++ t
  | storage t => "Storage error: " ++ t
  | serialization r => "Serialization error: " ++ r
  | malformedPayload tag identity r =>
    "Malformed payload for " ++ tag ++ " (" ++ identity ++ "): " ++ r
  | unknownCommandType tag => "Unknown command type: " ++ tag
  | duplicateRegistration tag => "Command type already registered: " ++ tag
  | invalidLane name => "Invalid lane: " ++ name
  | internal t => "Internal error: " ++ t

/-- The message followed by the cause it wraps, outermost first. -/
def chain : QueueError → String
  | serialization r => message (serialization r) ++ ": " ++ r
  | e => e.message

end QueueError

end LaneQueue
