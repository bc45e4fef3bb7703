import LaneQueue.Lane
import LaneQueue.Priority
import LaneQueue.Timestamp
/-!
# Queue events

What happens to commands and lanes, as it is told to subscribers: an event has a lane, the moment
it was sent, and a tagged body. The body's tag and fields stand beside the lane and the moment in
the JSON form.
-/
namespace LaneQueue

inductive EventBody where
  /-- A new command was stored. -/
  | queued (identity tag : String) (priority : Priority)
  /-- A queued command gave way to a newer submission. -/
  | replaced (identity tag : String) (priority : Priority)
  /-- A lane began to execute the command. -/
  | started (identity tag : String) (attempt : UInt32)
  /-- The command succeeded and left the queue. -/
  | completed (identity tag : String) (attempt : UInt32)
  /-- The command failed and waits for its next attempt. -/
  | retrying (identity tag : String) (attempt : UInt32) (delayMs : UInt64) (reason : String)
  /-- The command failed and left the queue, as its class does not retry. -/
  | failureSwallowed (identity tag : String) (reason : String)
  /-- The command left the queue after a fatal outcome or its last attempt. -/
  | deadLettered (identity tag : String) (attempts : UInt32) (reason : String)
  /-- The stored bytes are no command of their class. -/
  | dropped (identity tag : String) (reason : String)
  | lanePaused
  | laneResumed
  /-- The waiting commands of the lane were removed. -/
  | laneCleared (removed : UInt64)
  deriving DecidableEq, Repr, Inhabited

namespace EventBody

/-- The command an event is about; lane events are about none. -/
def identity? : EventBody → Option String
  | queued i _ _ | replaced i _ _ | started i _ _ | completed i _ _ | retrying i _ _ _ _
  | failureSwallowed i _ _ | deadLettered i _ _ _ | dropped i _ _ => some i
  | lanePaused | laneResumed | laneCleared _ => none

/-- Whether the command has left the queue. -/
def isTerminal : EventBody → Bool
  | completed .. | failureSwallowed .. | deadLettered .. | dropped .. => true
  | _ => false

/-- The name of the kind of event. -/
def tag : EventBody → String
  | queued .. => "queued"
  | replaced .. => "replaced"
  | started .. => "started"
  | completed .. => "completed"
  | retrying .. => "retrying"
  | failureSwallowed .. => "failure_swallowed"
  | deadLettered .. => "dead_lettered"
  | dropped .. => "dropped"
  | lanePaused => "lane_paused"
  | laneResumed => "lane_resumed"
  | laneCleared .. => "lane_cleared"

/-- The members after the tag. -/
def members : EventBody → List (String × Json.Value)
  | queued i t p | replaced i t p =>
    [("identity", .text i), ("type_tag", .text t), ("priority", p.toJson)]
  | started i t a | completed i t a =>
    [("identity", .text i), ("type_tag", .text t), ("attempt", .nat a.toNat)]
  | retrying i t a d r =>
    [("identity", .text i), ("type_tag", .text t), ("attempt", .nat a.toNat),
      ("delay_ms", .nat d.toNat), ("reason", .text r)]
  | failureSwallowed i t r | dropped i t r =>
    [("identity", .text i), ("type_tag", .text t), ("reason", .text r)]
  | deadLettered i t a r =>
    [("identity", .text i), ("type_tag", .text t), ("attempts", .nat a.toNat), ("reason", .text r)]
  | lanePaused | laneResumed => []
  | laneCleared n => [("removed", .nat n.toNat)]

def taggedMembers (b : EventBody) : List (String × Json.Value) :=
  ("event", .text b.tag) :: b.members

def toJson (b : EventBody) : Json.Value := .object b.taggedMembers

open Json (Fields Reader) in
/-- The bodies by their tag, in declaration order. -/
def family : Json.Tagged EventBody where
  tag := "event"
  variants :=
    [("queued", queued <$> identity <*> typeTag <*> .field "priority" Priority.reader),
      ("replaced", replaced <$> identity <*> typeTag <*> .field "priority" Priority.reader),
      ("started", started <$> identity <*> typeTag <*> .field "attempt" Reader.word32),
      ("completed", completed <$> identity <*> typeTag <*> .field "attempt" Reader.word32),
      ("retrying", retrying <$> identity <*> typeTag <*> .field "attempt" Reader.word32 <*>
        .field "delay_ms" Reader.word64 <*> .field "reason" Reader.text),
      ("failure_swallowed",
        failureSwallowed <$> identity <*> typeTag <*> .field "reason" Reader.text),
      ("dead_lettered", deadLettered <$> identity <*> typeTag <*>
        .field "attempts" Reader.word32 <*> .field "reason" Reader.text),
      ("dropped", dropped <$> identity <*> typeTag <*> .field "reason" Reader.text),
      ("lane_paused", pure lanePaused),
      ("lane_resumed", pure laneResumed),
      ("lane_cleared", laneCleared <$> .field "removed" Reader.word64)]
where
  identity : Fields String := .field "identity" Reader.text
  typeTag : Fields String := .field "type_tag" Reader.text

def reader : Json.Reader EventBody := family.reader

end EventBody

def Lane.toJson (l : Lane) : Json.Value := .text l.name

def Lane.reader : Json.Reader Lane := Json.Reader.oneOf Lane.ofName?

def Timestamp.toJson (t : Timestamp) : Json.Value := .text t.render

def Timestamp.reader : Json.Reader Timestamp :=
  Json.Reader.text.mapExcept fun s =>
    match Timestamp.parse? s with
    | some t => .ok t
    | none => .error .invalid

structure Event where
  lane : Lane
  emittedAt : Timestamp
  body : EventBody
  deriving DecidableEq, Repr

namespace Event

def toJson (e : Event) : Json.Value :=
  .object (("lane", e.lane.toJson) :: ("emitted_at", e.emittedAt.toJson) :: e.body.taggedMembers)

def reader : Json.Reader Event :=
  EventBody.family.within
    ((fun l t b => ⟨l, t, b⟩) <$> .field "lane" Lane.reader <*> .field "emitted_at" Timestamp.reader)

end Event

end LaneQueue
