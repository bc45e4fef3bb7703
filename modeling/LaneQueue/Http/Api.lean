import LaneQueue.Http.Failure
import LaneQueue.Http.Route
import LaneQueue.Http.StatusCode
import LaneQueue.Scheduler.Request
/-!
# The HTTP interface

Every endpoint is a list of requests to the scheduler, made one after the other until one fails,
and an answer formed from the last reply. A request for the head alone is answered without a body.
-/
namespace LaneQueue.Http

inductive Content where
  | none
  | text (s : String)
  | json (v : Json.Value)
  /-- The queue events from now on. -/
  | stream

structure Response where
  status : HttpStatus
  content : Content

namespace Content

/-- The media type of some content. -/
def type? : Content → Option String
  | none => Option.none
  | text _ => some "text/plain; charset=utf-8"
  | json _ => some "application/json"
  | stream => some "text/event-stream"

end Content

/-- The version that the server reports. -/
def version : String := "0.1.0"

def Response.ofFailure (f : HttpFailure) : Response := ⟨f.status, .json f.toJson⟩

def Response.ofError (e : QueueError) : Response := .ofFailure (.ofQueueError e)

/-- The lane that a segment names. -/
def laneOf (segment : String) : Except Response Lane :=
  match (Bytes.percentDecode (Bytes.ofText segment)).text? with
  | none => .error ⟨400, .text "Invalid URL: Invalid UTF-8 in \x60lane\x60"⟩
  | some name =>
    match Lane.parse name with
    | .ok l => .ok l
    | .error e => .error (.ofError e)

/-- The requests that an endpoint makes. -/
def Endpoint.requests : Endpoint → Except Response (List Request)
  | health | lanes => .ok [.statusAll]
  | events => .ok []
  | lane s => (laneOf s).map fun l => [.status l]
  | clear s => (laneOf s).map fun l => [.clear l]
  | pause s => (laneOf s).map fun l => [.pause l, .status l]
  | resume s => (laneOf s).map fun l => [.resume l, .status l]

def ok (v : Json.Value) : Response := ⟨200, .json v⟩

/-- Liveness and a summary of the lanes. -/
def healthOf (lanes : List LaneStatus) : Json.Value :=
  .object [("status", .text "ok"), ("version", .text version),
    ("pending", .nat (lanes.foldl (fun n l => n + l.pendingCount.toNat) 0)),
    ("paused", .array ((lanes.filter (·.isPaused)).map fun l => l.lane.toJson))]

/-- The answer of an endpoint, by the reply to its last request. -/
def Endpoint.respond : Endpoint → Reply → Response
  | _, .failed e => .ofError e
  | health, .statuses ls => ok (healthOf ls)
  | lanes, .statuses ls => ok (.array (ls.map LaneStatus.toJson))
  | lane _, .status s | pause _, .status s | resume _, .status s => ok s.toJson
  | clear segment, .cleared n =>
    match laneOf segment with
    | .ok l => ok (.object [("lane", l.toJson), ("removed", .nat n)])
    | .error r => r
  | events, _ => ⟨200, .stream⟩
  | _, _ => .ofError (.internal "unexpected reply")

/-- How a request is served. -/
structure Service where
  /-- An answer at once, or an endpoint with its requests to the scheduler. -/
  plan : Except Response (Endpoint × List Request)
  /-- The answer goes out without its body. -/
  headOnly : Bool := false

/-- Finds out how a request is served. -/
def serve (method address : String) : Service :=
  match find? address with
  | none => { plan := .error ⟨404, .none⟩ }
  | some methods =>
    match methods.select? method with
    | none => { plan := .error ⟨405, .none⟩ }
    | some (e, headOnly) => { plan := e.requests.map fun rs => (e, rs), headOnly := headOnly }

/-- The answer once the requests have been made, by the last reply. -/
def Service.respond (s : Service) (last : Reply) : Response :=
  match s.plan with
  | .error r => r
  | .ok (e, _) => e.respond last

end LaneQueue.Http
