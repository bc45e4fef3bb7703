import LaneQueue.Event
/-!
# The state of a lane as it is shown

The life of a lane's worker and the snapshot that status queries answer.
-/
namespace LaneQueue

inductive LaneState where
  /-- Nothing to run; waiting for a wake-up or the end of a backoff. -/
  | idle
  /-- Executing a command. -/
  | running
  /-- Not claiming work. -/
  | paused
  /-- Shutting down; the command in flight finishes. -/
  | draining
  /-- The worker is gone. -/
  | stopped
  deriving DecidableEq, Repr, Inhabited

namespace LaneState

def all : List LaneState := [idle, running, paused, draining, stopped]

def name : LaneState → String
  | idle => "idle"
  | running => "running"
  | paused => "paused"
  | draining => "draining"
  | stopped => "stopped"

def ofName? (s : String) : Option LaneState := all.find? (fun x => x.name == s)

/-- Whether the worker is shutting down or gone. -/
def isTerminal : LaneState → Bool
  | draining | stopped => true
  | _ => false

def toJson (s : LaneState) : Json.Value := .text s.name

def reader : Json.Reader LaneState := Json.Reader.oneOf ofName?

end LaneState

/-- The command that a lane executes. -/
structure CurrentCommand where
  identity : String
  tag : String
  description : String
  attempt : UInt32
  startedAt : Timestamp
  deriving DecidableEq, Repr

namespace CurrentCommand

def toJson (c : CurrentCommand) : Json.Value :=
  .object [("identity", .text c.identity), ("type_tag", .text c.tag),
    ("description", .text c.description), ("attempt", .nat c.attempt.toNat),
    ("started_at", c.startedAt.toJson)]

open Json (Fields Reader) in
def fields : Fields CurrentCommand :=
  (fun i t d a s => ⟨i, t, d, a, s⟩) <$> .field "identity" Reader.text <*>
    .field "type_tag" Reader.text <*> .field "description" Reader.text <*>
    .field "attempt" Reader.word32 <*> .field "started_at" Timestamp.reader

def reader : Json.Reader CurrentCommand := fields.reader

end CurrentCommand

/-- A lane at one moment. -/
structure LaneStatus where
  lane : Lane
  /-- Stored commands of the lane, the one that is executed included. -/
  pendingCount : UInt64
  isRunning : Bool
  isPaused : Bool
  state : LaneState
  current : Option CurrentCommand
  deriving DecidableEq, Repr

namespace LaneStatus

def toJson (s : LaneStatus) : Json.Value :=
  .object ([("lane", s.lane.toJson), ("pending_count", .nat s.pendingCount.toNat),
    ("is_running", .bool s.isRunning), ("is_paused", .bool s.isPaused),
    ("state", s.state.toJson)] ++
    match s.current with
    | some c => [("current", c.toJson)]
    | none => [])

open Json (Fields Reader) in
def fields : Fields LaneStatus :=
  (fun l n r p s c => ⟨l, n, r, p, s, c⟩) <$> .field "lane" Lane.reader <*>
    .field "pending_count" Reader.word64 <*> .field "is_running" Reader.bool <*>
    .field "is_paused" Reader.bool <*> .field "state" LaneState.reader <*>
    .maybe "current" CurrentCommand.reader

def reader : Json.Reader LaneStatus := fields.reader

end LaneStatus

end LaneQueue
