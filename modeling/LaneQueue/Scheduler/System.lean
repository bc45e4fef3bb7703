import LaneQueue.Scheduler.Worker
/-!
# The scheduler as a whole

The shared state, the worker of every lane, and the requests under way. An action lets one of them
make one step, brings a request, or lets time pass; every order of actions is a run. A storage call
may fail before it does anything, and the action says so.
-/
namespace LaneQueue

structure System (σ W : Type) where
  shared : Shared σ W
  workers : PerLane (Point W)
  /-- The requests so far; an answered one stays. -/
  calls : List Call := []

inductive Action where
  | request (r : Request)
  /-- One step of a request, by its place among all. -/
  | advance (call : Nat) (fault : Option QueueError)
  /-- One step of a worker. -/
  | work (lane : Lane) (signal : Signal) (fault : Option QueueError)
  /-- Time passes. -/
  | tick (elapsedMs : Nat)

namespace System

variable {σ W : Type}

/-- A scheduler that has not been started. -/
def init (config : QueueConfig) (store : σ) (now : Instant) (world : W) : System σ W where
  shared := .init config store now world
  workers := .ofFn fun _ => .top

/-- The worker of a lane has made a step. -/
def setWorker (s : System σ W) (l : Lane) (p : Point W) (shared : Shared σ W) : System σ W :=
  { s with shared := shared, workers := s.workers.set l p }

variable [QueueStore σ]

/-- One step of the worker of a lane, once it has been started. -/
def work (w : Wiring W) (l : Lane) (signal : Signal) (fault : Option QueueError)
    (s : System σ W) : Option (System σ W) :=
  if (s.shared.cell l).spawned then
    ((s.workers.get l).step w l signal fault s.shared).map fun (p, shared) =>
      s.setWorker l p shared
  else none

/-- One step of a request. -/
def advance (w : Wiring W) (i : Nat) (fault : Option QueueError) (s : System σ W) :
    Option (System σ W) :=
  match s.calls[i]? with
  | none => none
  | some call =>
    (call.step w fault s.shared).map fun (call, shared) =>
      { s with shared := shared, calls := s.calls.set i call }

/-- One action; none when it is not possible. -/
def step (w : Wiring W) (action : Action) (s : System σ W) : Option (System σ W) :=
  match action, s with
  | .request r, s => some { s with calls := s.calls ++ [.ofRequest r] }
  | .advance i fault, s => s.advance w i fault
  | .work l signal fault, s => s.work w l signal fault
  | .tick n, s => some { s with shared := { s.shared with now := s.shared.now + n } }

/-- The system after some actions, if all of them are possible. -/
def steps (w : Wiring W) : List Action → System σ W → Option (System σ W)
  | [], s => some s
  | a :: actions, s =>
    match s.step w a with
    | none => none
    | some s => steps w actions s

theorem steps_append (w : Wiring W) (as bs : List Action) (s : System σ W) :
    s.steps w (as ++ bs) = (s.steps w as).bind (steps w bs) := by
  induction as generalizing s with
  | nil => rfl
  | cons a as ih =>
    rw [List.cons_append, steps, steps]
    split
    · rfl
    · exact ih _

end System

end LaneQueue
