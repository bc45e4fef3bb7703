import LaneQueue.Error
import LaneQueue.Http.StatusCode
import LaneQueue.Json.Write
/-!
# Errors as HTTP answers

A lane that does not exist is the client's fault, a medium that is unavailable may be tried again
later, and everything else is a fault of the server.
-/
namespace LaneQueue

structure HttpFailure where
  status : HttpStatus
  message : String
  deriving DecidableEq, Repr

namespace HttpFailure

def ofQueueError : QueueError → HttpFailure
  | .invalidLane name => ⟨400, "unknown lane: " ++ name⟩
  | .transientStorage text => ⟨503, text⟩
  | e => ⟨500, e.message⟩

/-- An error that was wrapped in a context shows the context alone. -/
def ofContext (context : String) : HttpFailure := ⟨500, context⟩

def toJson (f : HttpFailure) : Json.Value :=
  .object [("error", .object [("message", .text f.message), ("status", .nat f.status)])]

end HttpFailure

end LaneQueue
