import LaneQueue.Scheduler.System
/-!
# Building a scheduler

Gathers the store, the classes and the settings. Only the store has no default.
-/
namespace LaneQueue

structure SchedulerBuilder (σ W : Type) where
  store : Option σ := none
  registry : Registry W := {}
  config : QueueConfig := {}

namespace SchedulerBuilder

variable {σ W : Type}

def register (b : SchedulerBuilder σ W) (k : Registration W) :
    Except QueueError (SchedulerBuilder σ W) :=
  (b.registry.register k).map fun r => { b with registry := r }

def registerAll (b : SchedulerBuilder σ W) (ks : List (Registration W)) :
    Except QueueError (SchedulerBuilder σ W) :=
  ks.foldlM register b

/-- The scheduler at an instant, in a world. -/
def build (b : SchedulerBuilder σ W) (now : Instant) (world : W) :
    Except QueueError (Wiring W × System σ W) :=
  match b.store with
  | none => .error (.internal "queue store dependency missing")
  | some store => .ok (⟨b.config, b.registry⟩, .init b.config store now world)

end SchedulerBuilder

end LaneQueue
