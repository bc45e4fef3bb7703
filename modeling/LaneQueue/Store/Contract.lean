import LaneQueue.Store.Record
/-!
# What a store offers

The operations that the scheduler needs of a store, over any type of states. An operation answers
a result or an error together with the state after it, as a failed call may have taken part of its
effect. Claims live with the store and not with its records: a claimed record stays stored until
it is retired or rescheduled.
-/
namespace LaneQueue

/-- The outcome of a call and the state it leaves. -/
abbrev Result (σ α : Type) := Except QueueError α × σ

class QueueStore (σ : Type) where
  /-- Stores a command whose identity is free. -/
  insert : NewCommand → Instant → σ → Result σ Record
  /-- Stores a command, or settles the conflict with the record that has its identity. -/
  submit : NewCommand → ConflictPolicy → Instant → σ → Result σ Submission
  /-- Removes the record of an identity, claimed or not; says whether there was one. -/
  deleteByIdentity : String → σ → Result σ Bool
  findByIdentity : String → σ → Except QueueError (Option Record)
  /-- Claims the first record of a lane, in the order of service, that is due and not claimed. -/
  nextEligible : Lane → Instant → σ → Result σ (Option Record)
  /-- Drops a claim and removes its record; says whether that was still stored. -/
  retire : Record → σ → Result σ Bool
  /-- Drops a claim and sets the record's failed attempts and next instant; says whether it was
  still stored. -/
  reschedule : Record → UInt32 → Instant → σ → Result σ Bool
  /-- Drops a claim and leaves the record alone. -/
  release : Record → σ → σ
  /-- The number of stored records of a lane. -/
  pendingCount : Lane → σ → Except QueueError Nat
  /-- The first instant after now at which an unclaimed record of a lane falls due. -/
  nextWakeAt : Lane → Instant → σ → Except QueueError (Option Instant)
  /-- Removes the unclaimed records of a lane; says how many there were. -/
  purgeLane : Lane → σ → Result σ Nat
  /-- Forgets all claims and counts the stored records by lane. -/
  recover : σ → Result σ (PerLane Nat)

/-- One call on a store. -/
inductive Operation where
  | insert (command : NewCommand)
  | submit (command : NewCommand) (policy : ConflictPolicy)
  | deleteByIdentity (identity : String)
  | findByIdentity (identity : String)
  | nextEligible (lane : Lane)
  | retire (claimed : Record)
  | reschedule (claimed : Record) (retryCount : UInt32) (availableAt : Instant)
  | release (claimed : Record)
  | pendingCount (lane : Lane)
  | nextWakeAt (lane : Lane)
  | purgeLane (lane : Lane)
  | recover
  deriving DecidableEq, Repr

/-- The result of one call. -/
inductive Answer where
  | record (r : Record)
  | submission (s : Submission)
  | flag (b : Bool)
  | found (r : Option Record)
  | count (n : Nat)
  | wake (t : Option Instant)
  | recovered (n : PerLane Nat)
  | done
  deriving DecidableEq, Repr

namespace Operation

variable {σ : Type} [QueueStore σ]

private def answer {α : Type} (f : α → Answer) (r : Result σ α) : Result σ Answer :=
  (r.1.map f, r.2)

/-- Makes a call at an instant. -/
def run (op : Operation) (now : Instant) (s : σ) : Result σ Answer :=
  match op with
  | insert c => answer .record (QueueStore.insert c now s)
  | submit c p => answer .submission (QueueStore.submit c p now s)
  | deleteByIdentity i => answer .flag (QueueStore.deleteByIdentity i s)
  | findByIdentity i => ((QueueStore.findByIdentity i s).map .found, s)
  | nextEligible l => answer .found (QueueStore.nextEligible l now s)
  | retire r => answer .flag (QueueStore.retire r s)
  | reschedule r n t => answer .flag (QueueStore.reschedule r n t s)
  | release r => (.ok .done, QueueStore.release r s)
  | pendingCount l => ((QueueStore.pendingCount l s).map .count, s)
  | nextWakeAt l => ((QueueStore.nextWakeAt l now s).map .wake, s)
  | purgeLane l => answer .count (QueueStore.purgeLane l s)
  | recover => answer .recovered (QueueStore.recover s)

end Operation

/-- The records that count for a lane. -/
def PerLane.count (lanes : List Lane) : PerLane Nat := .ofFn fun l => lanes.count l

end LaneQueue
