import LaneQueue.Command.Registry
import LaneQueue.EventBus
import LaneQueue.QueueConfig
import LaneQueue.Status
import LaneQueue.Store.Contract
/-!
# What the parts of a running scheduler share

The store, a control cell for every lane, the event bus, the clock and the world of the commands.
Lane workers and callers change it in single steps, and any of them may come between two steps of
another.
-/
namespace LaneQueue

/-- What a scheduler is built with. -/
structure Wiring (W : Type) where
  config : QueueConfig := {}
  registry : Registry W := {}

/-- The control cell of one lane. -/
structure LaneCell where
  paused : Bool := false
  /-- The flag has been set since the worker last looked at it. -/
  changed : Bool := false
  /-- A wake-up waits for the worker; several count as one. -/
  permit : Bool := false
  state : LaneState := .idle
  current : Option CurrentCommand := none
  /-- The worker has been started. -/
  spawned : Bool := false
  /-- The worker is gone. -/
  exited : Bool := false
  deriving DecidableEq, Repr

/-- A lane that shuts down can only stop. -/
def LaneCell.setState (c : LaneCell) (s : LaneState) : LaneCell :=
  if c.state.isTerminal && s != .stopped then c else { c with state := s }

theorem LaneCell.state_setState_of_terminal {c : LaneCell} (h : c.state.isTerminal = true)
    (s : LaneState) : (c.setState s).state = if s = .stopped then .stopped else c.state := by
  by_cases hs : s = .stopped <;> simp [setState, h, hs]

theorem LaneCell.state_setState_of_not_terminal {c : LaneCell}
    (h : c.state.isTerminal = false) (s : LaneState) : (c.setState s).state = s := by
  simp [setState, h]

structure Shared (σ W : Type) where
  store : σ
  lanes : PerLane LaneCell
  bus : EventBus Event
  /-- A start has been asked for. -/
  started : Bool := false
  /-- The workers are told to end. -/
  cancelled : Bool := false
  /-- Lanes whose workers no shutdown has waited for yet. -/
  handles : List Lane := []
  now : Instant
  world : W

namespace Shared

variable {σ W : Type}

/-- Nothing has been started; some lanes are paused. -/
def init (config : QueueConfig) (store : σ) (now : Instant) (world : W) : Shared σ W where
  store := store
  lanes := .ofFn fun l => { paused := config.pausedLanes.contains l }
  bus := .ofCapacity config.eventChannelCapacity.toNat
  now := now
  world := world

def cell (s : Shared σ W) (l : Lane) : LaneCell := s.lanes.get l

def modifyCell (s : Shared σ W) (l : Lane) (f : LaneCell → LaneCell) : Shared σ W :=
  { s with lanes := s.lanes.modify l f }

def setState (s : Shared σ W) (l : Lane) (state : LaneState) : Shared σ W :=
  s.modifyCell l (·.setState state)

/-- Sets the pause flag. The worker is told even when it was set that way before. -/
def setPaused (s : Shared σ W) (l : Lane) (paused : Bool) : Shared σ W :=
  s.modifyCell l fun c => { c with paused := paused, changed := true }

def wake (s : Shared σ W) (l : Lane) : Shared σ W :=
  s.modifyCell l fun c => { c with permit := true }

def publish (s : Shared σ W) (l : Lane) (body : EventBody) : Shared σ W :=
  { s with bus := s.bus.publish ⟨l, .ofMillis s.now, body⟩ }

theorem cell_modifyCell (s : Shared σ W) (l m : Lane) (f : LaneCell → LaneCell) :
    (s.modifyCell l f).cell m = if l = m then f (s.cell m) else s.cell m :=
  PerLane.get_modify s.lanes l m f

@[simp] theorem store_modifyCell (s : Shared σ W) (l : Lane) (f : LaneCell → LaneCell) :
    (s.modifyCell l f).store = s.store := rfl

@[simp] theorem published_modifyCell (s : Shared σ W) (l : Lane) (f : LaneCell → LaneCell) :
    (s.modifyCell l f).bus.published = s.bus.published := rfl

@[simp] theorem published_publish (s : Shared σ W) (l : Lane) (body : EventBody) :
    (s.publish l body).bus.published = s.bus.published ++ [⟨l, .ofMillis s.now, body⟩] :=
  EventBus.published_publish s.bus _

@[simp] theorem cell_publish (s : Shared σ W) (l m : Lane) (body : EventBody) :
    (s.publish l body).cell m = s.cell m := rfl

/-- Makes a call on the store, unless that fails before it does anything. -/
def access {α : Type} (s : Shared σ W) (fault : Option QueueError) (call : σ → Result σ α) :
    Except QueueError α × Shared σ W :=
  match fault with
  | some e => (.error e, s)
  | none => ((call s.store).1, { s with store := (call s.store).2 })

/-- The lane as a status query shows it, with a count of stored commands taken before. -/
def status (s : Shared σ W) (l : Lane) (pending : Nat) : LaneStatus :=
  let c := s.cell l
  { lane := l
    pendingCount := .ofNat pending
    isRunning := c.current.isSome
    isPaused := c.paused
    state := c.state
    current := c.current }

end Shared

/-- The stages of a storage call that gets a second try after a transient failure. -/
inductive Try where
  | first
  /-- The pause before the second try. -/
  | pause (deadline : Instant)
  | second
  deriving DecidableEq, Repr

/-- What a step of such a call leads to. -/
inductive Tried (α : Type) where
  | onward (stage : Try)
  | settled (result : Except QueueError α)

/-- One step of a storage call with a second try; none before the pause is over. -/
def Try.step {σ W α : Type} (config : QueueConfig) (fault : Option QueueError)
    (call : σ → Result σ α) (stage : Try) (s : Shared σ W) : Option (Tried α × Shared σ W) :=
  match stage with
  | .pause deadline => if deadline ≤ s.now then some (.onward .second, s) else none
  | .second =>
    let (r, s) := s.access fault call
    some (.settled r, s)
  | .first =>
    let (r, s) := s.access fault call
    match r with
    | .ok a => some (.settled (.ok a), s)
    | .error e =>
      if e.isTransient then some (.onward (.pause (s.now + config.storeRetryDelayMs.toNat)), s)
      else some (.settled (.error e), s)

end LaneQueue
