import LaneQueue.Outcome
import LaneQueue.Scheduler.Request
/-!
# Command bodies

What the execution of a command does, one step at a time: it reads and changes the world around
the queue, asks the scheduler for something, waits for the world to be ready, or ends. A body that
fails or panics has failed recoverably.
-/
namespace LaneQueue

/-- How a body ends. -/
inductive Finish where
  | outcome (o : Outcome)
  /-- An error, with the text of its causes, outermost first. -/
  | error (chain : String)
  | panic (message : String)
  deriving DecidableEq, Repr

def Finish.toOutcome : Finish → Outcome
  | outcome o => o
  | error chain => .recoverable chain
  | panic message => .recoverable ("command panicked: " ++ message)

inductive Body (W : Type) where
  | done (finish : Finish)
  /-- Changes the world; what comes next depends on the world before. -/
  | act (effect : W → W) (next : W → Body W)
  | ask (request : Request) (next : Reply → Body W)
  /-- Waits until the world allows the change. -/
  | await (effect? : W → Option W) (next : Body W)

namespace Body

variable {V W : Type}

def succeed : Body W := .done (.outcome .success)

/-- The body on a part of a larger world. -/
def on (get : W → V) (set : V → W → W) : Body V → Body W
  | .done f => .done f
  | .act effect next =>
    .act (fun w => set (effect (get w)) w) (fun w => (next (get w)).on get set)
  | .ask r next => .ask r (fun a => (next a).on get set)
  | .await effect? next => .await (fun w => (effect? (get w)).map (set · w)) (next.on get set)

end Body

/-- What a body knows of its execution. -/
structure Execution where
  lane : Lane
  identity : String
  attempt : UInt32
  deriving DecidableEq, Repr

end LaneQueue
