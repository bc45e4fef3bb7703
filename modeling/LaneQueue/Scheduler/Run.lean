import LaneQueue.Scheduler.System
/-!
# Running a scheduler to rest

A deterministic run: a request is answered before any lane moves, except that a shutdown waits for
them; then the lanes take turns until all of them wait, and the clock goes on to the next instant
at which something happens, as long as that is near. Storage failures can be planned ahead.
-/
namespace LaneQueue

/-- The storage calls that can be made to fail. -/
inductive StoreCall where
  | insert
  | submit
  | findByIdentity
  | nextEligible
  | retire
  | reschedule
  | pendingCount
  | nextWakeAt
  | purgeLane
  | recover
  deriving DecidableEq, Repr

/-- The call that a stage is about to make. -/
def Try.making (stage : Try) (call : StoreCall) : Option StoreCall :=
  match stage with
  | .pause _ => none
  | .first | .second => some call

/-- The call that a request makes in its next step. -/
def Call.storeCall? : Call → Option StoreCall
  | recover t => t.making .recover
  | store _ _ t => t.making .submit
  | purge _ t => t.making .purgeLane
  | count _ _ t => t.making .pendingCount
  | _ => none

/-- The call that a worker makes in its next step. -/
def Point.storeCall? {W : Type} : Point W → Option StoreCall
  | claim t => t.making .nextEligible
  | askWake => some .nextWakeAt
  | settle _ f t => t.making (if f.retry.isSome then .reschedule else .retire)
  | asking _ call _ => call.storeCall?
  | _ => none

/-- Whether a worker is executing a body. -/
def Point.isInBody {W : Type} : Point W → Bool
  | run .. | asking .. => true
  | _ => false

/-- A scheduler with the failures that its next storage calls meet. -/
structure Run (σ W : Type) where
  wiring : Wiring W
  system : System σ W
  faults : List (StoreCall × QueueError) := []

namespace Run

variable {σ W : Type}

/-- Instants at least so far ahead, in milliseconds, are not waited for. -/
def horizonMs : Nat := 1500

/-- The failure that a storage call meets, and the failures behind it. -/
def takeFault (r : Run σ W) (call : Option StoreCall) : Option QueueError × Run σ W :=
  match r.faults.find? fun f => some f.1 == call with
  | none => (none, r)
  | some f =>
    (some f.2, { r with faults := r.faults.eraseP fun f => some f.1 == call })

def shared (r : Run σ W) : Shared σ W := r.system.shared

def setShared (r : Run σ W) (s : Shared σ W) : Run σ W :=
  { r with system := { r.system with shared := s } }

def now (r : Run σ W) : Instant := r.system.shared.now

/-- Lets the time go on to an instant. -/
def goOnTo (r : Run σ W) (t : Instant) : Run σ W :=
  r.setShared { r.shared with now := max r.now t }

/-- The next instant at which a waiting worker goes on. -/
def nextTimer? (r : Run σ W) : Option Instant :=
  (Lane.all.filterMap fun l =>
    if (r.shared.cell l).spawned then (r.system.workers.get l).wakesAt? else none).min?

variable [QueueStore σ]

/-- One step of the worker of a lane, if it can make one. A planned failure is used up by the step
that meets it. -/
def work? (r : Run σ W) (l : Lane) : Option (Run σ W) :=
  let p := r.system.workers.get l
  let (fault, after) := r.takeFault p.storeCall?
  Signal.all.findSome? fun signal =>
    (r.system.work r.wiring l signal fault).map fun s => { after with system := s }

/-- One step of the first lane that can make one. -/
def workAny? (r : Run σ W) : Option (Run σ W) := Lane.all.findSome? r.work?

/-- Whether the worker of a lane can make a step. -/
def canMove (r : Run σ W) (l : Lane) : Bool := (r.work? l).isSome

/-- The lanes after the turn of one of them: those that were waiting for their turn, those that can
move now, and that lane itself. -/
def nextTurns (r : Run σ W) (waiting : List Lane) (l : Lane) : List Lane :=
  waiting ++ (Lane.all.filter fun k => k != l && !waiting.contains k && r.canMove k) ++
    (if r.canMove l then [l] else [])

/-- Lets the lanes run until they rest. They take turns: a turn ends where the lane has to wait,
and where a body begins or ends. -/
def settle : Nat → List Lane → Run σ W → Run σ W
  | 0, _, r => r
  | fuel + 1, [], r =>
    match Lane.all.filter r.canMove with
    | [] =>
      match r.nextTimer? with
      | none => r
      | some t => if t - r.now < horizonMs then settle fuel [] (r.goOnTo t) else r
    | lanes => settle fuel lanes r
  | fuel + 1, l :: waiting, r =>
    match r.work? l with
    | none => settle fuel (r.nextTurns waiting l) r
    | some after =>
      if (r.system.workers.get l).isInBody == (after.system.workers.get l).isInBody then
        settle fuel (l :: waiting) after
      else settle fuel (after.nextTurns waiting l) after

/-- Answers a request. Lanes move only while a shutdown waits for them. -/
def answer : Nat → Call → Run σ W → Option Reply × Run σ W
  | 0, _, r => (none, r)
  | fuel + 1, call, r =>
    match call.reply? with
    | some reply => (some reply, r)
    | none =>
      let (fault, after) := r.takeFault call.storeCall?
      match call.step r.wiring fault r.shared with
      | some (call, s) => answer fuel call (after.setShared s)
      | none =>
        match call with
        | .await _ t =>
          match r.workAny? with
          | some r => answer fuel call r
          | none => answer fuel call (r.goOnTo (min t ((r.nextTimer?).getD t)))
        | _ =>
          match call.wakesAt? with
          | none => (none, r)
          | some t => answer fuel call (r.goOnTo t)

/-- Steps that are enough for any run of a reasonable length. -/
def patience : Nat := 1000000

/-- Answers a request that is made now. -/
def perform (r : Run σ W) (request : Request) : Option Reply × Run σ W :=
  r.answer patience (.ofRequest request)

/-- Makes some requests until one fails, and gives the last reply. -/
def performAll (r : Run σ W) : List Request → Reply × Run σ W
  | [] => (.done, r)
  | [q] =>
    let (a, r) := r.perform q
    (a.getD .done, r)
  | q :: qs =>
    match r.perform q with
    | (some (.failed e), r) => (.failed e, r)
    | (_, r) => r.performAll qs

/-- Lets the lanes run until they rest, in as many steps as any reasonable run takes. -/
def rest (r : Run σ W) : Run σ W := r.settle patience []

end Run

end LaneQueue
