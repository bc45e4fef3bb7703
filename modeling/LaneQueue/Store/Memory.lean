import LaneQueue.Store.Contract
/-!
# The store in memory

Records in the order in which they came, the claimed places of the order of submissions, and the
last place given out. Nothing outlives the process.
-/
namespace LaneQueue

structure MemoryStore where
  records : List Record := []
  /-- The `seq` of every claimed record; it may outlive the record. -/
  claimed : List Int := []
  lastSeq : Int := 0
  deriving DecidableEq, Repr

namespace MemoryStore

def empty : MemoryStore := {}

def find? (s : MemoryStore) (identity : String) : Option Record :=
  s.records.find? (fun r => r.identity == identity)

/-- The record that a command would become. -/
def fresh (s : MemoryStore) (c : NewCommand) (now : Instant) : Record :=
  .ofCommand c (s.lastSeq + 1) now

/-- Stores a command under the next place in the order. -/
def add (s : MemoryStore) (c : NewCommand) (now : Instant) : MemoryStore :=
  { s with records := s.records ++ [s.fresh c now], lastSeq := s.lastSeq + 1 }

def without (s : MemoryStore) (identity : String) : MemoryStore :=
  { s with records := s.records.filter (fun r => r.identity != identity) }

def drop (s : MemoryStore) (seq : Int) : MemoryStore :=
  { s with claimed := s.claimed.filter (· != seq) }

/-- Whether the very record of a claim is still stored. -/
def owns (s : MemoryStore) (claimed : Record) : Bool :=
  match s.find? claimed.identity with
  | some r => r.seq == claimed.seq
  | none => false

def isClaimed (s : MemoryStore) (r : Record) : Bool := s.claimed.contains r.seq

/-- The unclaimed records of a lane. -/
def waiting (s : MemoryStore) (lane : Lane) : List Record :=
  s.records.filter fun r => r.lane == lane && !s.isClaimed r

def insert (c : NewCommand) (now : Instant) (s : MemoryStore) : Result MemoryStore Record :=
  match s.find? c.identity with
  | some _ => (.error (.storage ("identity " ++ c.identity ++ " already queued")), s)
  | none => (.ok (s.fresh c now), s.add c now)

def submit (c : NewCommand) (policy : ConflictPolicy) (now : Instant) (s : MemoryStore) :
    Result MemoryStore Submission :=
  match s.find? c.identity with
  | none => (.ok (.inserted (s.fresh c now)), s.add c now)
  | some existing =>
    match policy.resolve true with
    | .keepExisting => (.ok (.kept existing), s)
    | .refuseDuplicate => (.ok (.refused existing), s)
    | .replaceExisting =>
      (.ok (.replaced existing (s.fresh c now)), (s.without c.identity).add c now)
    | .insert => (.ok (.inserted (s.fresh c now)), s.add c now)

def deleteByIdentity (identity : String) (s : MemoryStore) : Result MemoryStore Bool :=
  (.ok (s.find? identity).isSome, s.without identity)

def nextEligible (lane : Lane) (now : Instant) (s : MemoryStore) :
    Result MemoryStore (Option Record) :=
  match Record.first? ((s.waiting lane).filter fun r => r.availableAt ≤ now) with
  | none => (.ok none, s)
  | some r => (.ok (some r), { s with claimed := r.seq :: s.claimed })

def retire (claimed : Record) (s : MemoryStore) : Result MemoryStore Bool :=
  let s := s.drop claimed.seq
  if s.owns claimed then (.ok true, s.without claimed.identity) else (.ok false, s)

def reschedule (claimed : Record) (retryCount : UInt32) (availableAt : Instant) (s : MemoryStore) :
    Result MemoryStore Bool :=
  let s := s.drop claimed.seq
  if s.owns claimed then
    (.ok true, { s with records := s.records.map fun r =>
      if r.identity == claimed.identity then
        { r with retryCount := retryCount, availableAt := availableAt }
      else r })
  else (.ok false, s)

def nextWakeAt (lane : Lane) (now : Instant) (s : MemoryStore) : Option Instant :=
  ((s.waiting lane).map (·.availableAt)).filter (now < ·) |>.min?

def purgeLane (lane : Lane) (s : MemoryStore) : Result MemoryStore Nat :=
  (.ok (s.waiting lane).length,
    { s with records := s.records.filter fun r => r.lane != lane || s.isClaimed r })

instance : QueueStore MemoryStore where
  insert := insert
  submit := submit
  deleteByIdentity := deleteByIdentity
  findByIdentity identity s := .ok (s.find? identity)
  nextEligible := nextEligible
  retire := retire
  reschedule := reschedule
  release r s := s.drop r.seq
  pendingCount lane s := .ok (s.records.countP fun r => r.lane == lane)
  nextWakeAt lane now s := .ok (nextWakeAt lane now s)
  purgeLane := purgeLane
  recover s := (.ok (.count (s.records.map (·.lane))), { s with claimed := [] })

end MemoryStore

end LaneQueue
