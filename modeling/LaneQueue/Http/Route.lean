import LaneQueue.Text.Bytes
/-!
# Routes

The addresses that the server knows and the methods that each of them takes. A lane is named by a
segment of the address, percent-encoded; a fixed segment goes before it. Where a reading method is
taken, so is the one that asks for the head alone.
-/
namespace LaneQueue.Http

inductive Endpoint where
  | health
  /-- The statuses of all lanes. -/
  | lanes
  /-- The stream of queue events. -/
  | events
  | lane (segment : String)
  | clear (segment : String)
  | pause (segment : String)
  | resume (segment : String)
  deriving DecidableEq, Repr

/-- What a known address offers, by method. -/
abbrev Methods := List (String × Endpoint)

/-- The path of an address, without a query or a fragment. -/
def pathOf (address : String) : List Char :=
  address.toList.takeWhile fun c => c != '?' && c != '#'

/-- The segments between the slashes of a path. -/
def segments (path : List Char) : List String := (path.splitOn '/').map String.ofList

/-- What an address offers. -/
def find? (address : String) : Option Methods :=
  match segments (pathOf address) with
  | ["", "health"] => some [("GET", .health)]
  | ["", "api", "v1", "queue"] => some [("GET", .lanes)]
  | ["", "api", "v1", "queue", "events"] => some [("GET", .events)]
  | ["", "api", "v1", "queue", lane] =>
    if lane.isEmpty then none else some [("GET", .lane lane), ("DELETE", .clear lane)]
  | ["", "api", "v1", "queue", lane, "pause"] =>
    if lane.isEmpty then none else some [("POST", .pause lane)]
  | ["", "api", "v1", "queue", lane, "resume"] =>
    if lane.isEmpty then none else some [("POST", .resume lane)]
  | _ => none

/-- What a method asks of an address, and whether it asks for the head alone. -/
def Methods.select? (ms : Methods) (method : String) : Option (Endpoint × Bool) :=
  match ms.lookup method with
  | some e => some (e, false)
  | none => if method = "HEAD" then (ms.lookup "GET").map (·, true) else none

end LaneQueue.Http
