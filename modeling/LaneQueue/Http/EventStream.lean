import LaneQueue.Event
/-!
# Server-sent events

A queue event as it goes over the wire: a name and one line of data, with an empty line behind. The
names are a table of the server's own.
-/
namespace LaneQueue.Http

structure SentEvent where
  name : String
  data : String
  deriving DecidableEq, Repr

namespace SentEvent

/-- The name under which an event is sent. -/
def nameOf : EventBody → String
  | .queued .. => "queued"
  | .replaced .. => "replaced"
  | .started .. => "started"
  | .completed .. => "completed"
  | .retrying .. => "retrying"
  | .failureSwallowed .. => "failure_swallowed"
  | .deadLettered .. => "dead_lettered"
  | .dropped .. => "dropped"
  | .lanePaused => "lane_paused"
  | .laneResumed => "lane_resumed"
  | .laneCleared .. => "lane_cleared"

def ofEvent (e : Event) : SentEvent := ⟨nameOf e.body, e.toJson.render⟩

/-- The lines of an event. -/
def render (e : SentEvent) : String := "event: " ++ e.name ++ "\ndata: " ++ e.data ++ "\n\n"

end SentEvent

end LaneQueue.Http
