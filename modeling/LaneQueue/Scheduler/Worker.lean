import LaneQueue.Scheduler.Call
/-!
# Lane workers

A worker serves one lane: it claims a record, executes its command, settles the record by the
outcome, and begins again. A claim is given up in every settlement, also when the storage fails,
so that the record can be claimed once more. A retry that would fall behind the end of the calendar
is not settled: the worker breaks down over it with the record in hand. The worker looks at the
cancellation and at the pause flag only between two commands, and sleeps while there is nothing to
do, for a time that it has measured before.
-/
namespace LaneQueue

/-- What becomes of a claimed record. -/
structure Fate where
  /-- The failed attempts and the next instant of a record that stays; otherwise it is removed. -/
  retry : Option (UInt32 × Instant)
  /-- What subscribers are told. -/
  event : EventBody
  deriving DecidableEq, Repr

namespace Fate

/-- The longest delay that an instant can be moved by, in milliseconds. -/
def maxDelayMs : Nat := 9223372036854775807

/-- A longer delay than that is none at all. -/
def availableAt (now : Instant) (delayMs : Nat) : Instant :=
  if delayMs ≤ maxDelayMs then now + delayMs else now

/-- Whether the next instant of a record that stays is one of the calendar. -/
def isDated (f : Fate) : Bool := f.retry.all fun retry => retry.2.isDated

/-- The end of a record whose payload cannot be read. -/
def dropped (r : Record) (e : QueueError) : Fate := ⟨none, .dropped r.identity r.tag e.message⟩

/-- What the outcome of an execution means for its record. -/
def ofOutcome (c : RetryConfig) (now : Instant) (r : Record) : Outcome → Fate
  | .success => ⟨none, .completed r.identity r.tag r.attempt⟩
  | .fatal reason => ⟨none, .deadLettered r.identity r.tag r.attempt reason⟩
  | .recoverable reason =>
    if !r.bubbles then ⟨none, .failureSwallowed r.identity r.tag reason⟩
    else if c.exhausted r.attempt.toNat then
      ⟨none, .deadLettered r.identity r.tag r.attempt reason⟩
    else
      let delay := c.delayMs r.identity r.attempt.toNat
      ⟨some (r.attempt, availableAt now delay),
        .retrying r.identity r.tag r.attempt (.ofNat delay) reason⟩

end Fate

/-- Where a worker stands. -/
inductive Point (W : Type) where
  /-- Look whether the lane shuts down. -/
  | top
  /-- Look at the pause flag. -/
  | readPause
  | showPaused
  /-- Wait for the flag to change. -/
  | paused
  | claim (stage : Try)
  /-- The pause after a claim that failed. -/
  | claimFailed (deadline : Instant)
  | showIdle
  /-- Ask when the next record falls due. -/
  | askWake
  /-- Measure how long it is to an instant. -/
  | measure (wakeAt : Option Instant)
  /-- Set the timer. -/
  | arm (sleepMs : Option Nat)
  /-- Wait for a wake-up, for the flag or for an instant. -/
  | idle (deadline : Option Instant)
  | decode (record : Record)
  /-- Show the command as the current one. -/
  | begin (record : Record) (command : Command W)
  | announce (record : Record) (command : Command W)
  | run (record : Record) (body : Body W)
  /-- The body waits for the answer to a request. -/
  | asking (record : Record) (call : Call) (next : Reply → Body W)
  | settle (record : Record) (fate : Fate) (stage : Try)
  /-- The record's next instant is none of the calendar. -/
  | collapsed (record : Record)
  /-- Give up the claim of a record that could not be settled. -/
  | release (record : Record) (fate : Fate)
  | publish (lane : Lane) (event : EventBody)
  /-- Nothing is executed any more. -/
  | finish
  | stop
  | exited

/-- What a waiting worker takes notice of. -/
inductive Signal where
  | cancellation
  | permit
  | flag
  | timer
  deriving DecidableEq, Repr

namespace Signal

def all : List Signal := [cancellation, permit, flag, timer]

/-- Whether a signal has come. -/
def isReady {σ W : Type} (s : Shared σ W) (l : Lane) (deadline : Option Instant) : Signal → Bool
  | cancellation => s.cancelled
  | permit => (s.cell l).permit
  | flag => (s.cell l).changed
  | timer => deadline.any (· ≤ s.now)

end Signal

namespace Point

/-- The instant at which a waiting worker goes on of itself. -/
def wakesAt? {W : Type} : Point W → Option Instant
  | claim (.pause t) | claimFailed t | settle _ _ (.pause t) => some t
  | idle t => t
  | asking _ call _ => call.wakesAt?
  | _ => none

variable {σ W : Type} [QueueStore σ]

/-- Wakes up by a signal that has come and takes it away. -/
def heed (l : Lane) (s : Shared σ W) : Signal → Point W × Shared σ W
  | .cancellation => (stop, s)
  | .permit => (top, s.modifyCell l fun c => { c with permit := false })
  | .flag => (top, s.modifyCell l fun c => { c with changed := false })
  | .timer => (top, s)

/-- Waits for one of some signals. -/
def wait (l : Lane) (signals : List Signal) (deadline : Option Instant) (signal : Signal)
    (s : Shared σ W) : Option (Point W × Shared σ W) :=
  if signals.contains signal && signal.isReady s l deadline then some (heed l s signal) else none

/-- The call that settles a record. -/
def settling (r : Record) (f : Fate) : σ → Result σ Bool :=
  match f.retry with
  | none => QueueStore.retire r
  | some (attempts, readyAt) => QueueStore.reschedule r attempts readyAt

/-- What follows when a body has come to its end. The worker's task is over when the fate has no
date; what the lane shows stays as it is, and the record stays claimed. -/
def conclude (l : Lane) (r : Record) (f : Fate) (s : Shared σ W) : Point W × Shared σ W :=
  if f.isDated then (settle r f .first, s)
  else (collapsed r, s.modifyCell l fun c => { c with exited := true })

/-- One step of a body. -/
def runBody (w : Wiring W) (l : Lane) (r : Record) (s : Shared σ W) :
    Body W → Option (Point W × Shared σ W)
  | .done f => some (conclude l r (.ofOutcome w.config.retry s.now r f.toOutcome) s)
  | .act effect next => some (run r (next s.world), { s with world := effect s.world })
  | .ask request next => some (asking r (.ofRequest request) next, s)
  | .await effect? next =>
    (effect? s.world).map fun world => (run r next, { s with world := world })

/-- The next step of the worker of a lane; none while it has to wait. The signal counts where the
worker waits, the fault where it calls the store. -/
def step (w : Wiring W) (l : Lane) (signal : Signal) (fault : Option QueueError) :
    Point W → Shared σ W → Option (Point W × Shared σ W)
  | top, s => some (if s.cancelled then stop else readPause, s)
  | readPause, s =>
    some (if (s.cell l).paused then showPaused else claim .first,
      s.modifyCell l fun c => { c with changed := false })
  | showPaused, s => some (paused, s.setState l .paused)
  | paused, s => wait l [.cancellation, .flag] none signal s
  | claim t, s =>
    match t.step w.config fault (QueueStore.nextEligible l s.now) s with
    | none => none
    | some (.onward t, s) => some (claim t, s)
    | some (.settled (.ok (some r)), s) => some (decode r, s)
    | some (.settled (.ok none), s) => some (showIdle, s)
    | some (.settled (.error _), s) =>
      some (claimFailed (s.now + w.config.storeRetryDelayMs.toNat), s)
  | claimFailed t, s => wait l [.cancellation, .timer] (some t) signal s
  | showIdle, s => some (askWake, s.setState l .idle)
  | askWake, s =>
    match (s.access fault fun store => (QueueStore.nextWakeAt l s.now store, store)).1 with
    | .ok t => some (measure t, s)
    | .error _ => some (arm (some w.config.storeRetryDelayMs.toNat), s)
  | measure t, s => some (arm (t.map fun t => (t - s.now).toNat), s)
  | arm d, s => some (idle (d.map fun ms => s.now + ms), s)
  | idle t, s => wait l Signal.all t signal s
  | decode r, s =>
    match w.registry.decode r with
    | .ok c => some (begin r c, s)
    | .error e => some (settle r (.dropped r e) .first, s)
  | begin r c, s =>
    some (announce r c, (s.setState l .running).modifyCell l fun cell =>
      { cell with
        current := some ⟨r.identity, r.tag, c.description, r.attempt, .ofMillis s.now⟩ })
  | announce r c, s =>
    some (run r (c.body ⟨r.lane, r.identity, r.attempt⟩),
      s.publish l (.started r.identity r.tag r.attempt))
  | run r b, s => runBody w l r s b
  | asking r call next, s =>
    match call.reply? with
    | some reply => some (run r (next reply), s)
    | none => (call.step w fault s).map fun (call, s) => (asking r call next, s)
  | settle r f t, s =>
    match t.step w.config fault (settling r f) s with
    | none => none
    | some (.onward t, s) => some (settle r f t, s)
    | some (.settled (.ok _), s) => some (publish r.lane f.event, s)
    | some (.settled (.error _), s) => some (release r f, s)
  | release r f, s =>
    some (publish r.lane f.event, { s with store := QueueStore.release r s.store })
  | publish lane e, s => some (finish, s.publish lane e)
  | finish, s => some (top, s.modifyCell l fun c => { c with current := none })
  | stop, s => some (exited, (s.setState l .stopped).modifyCell l fun c => { c with exited := true })
  | collapsed _, _ => none
  | exited, _ => none

end Point

end LaneQueue
