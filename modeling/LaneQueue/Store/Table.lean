import LaneQueue.Store.Contract
import LaneQueue.Store.Medium
/-!
# The store in a database table

One row per queued command, in a table with integer columns that may hold anything, and the
statements on it. Claims and the last place in the order are kept beside the table and do not
outlive the process. A row becomes a record only when its columns are in range.
-/
namespace LaneQueue

/-- A row of the command table, without the columns `created_at` and `updated_at`, which decide nothing
and are taken to hold instants. -/
structure Row where
  identity : String
  tag : String
  lane : Int
  priority : Int
  payload : Bytes
  bubbles : Int
  retryCount : Int
  seq : Int
  availableAt : Int
  deriving DecidableEq, Repr

namespace Row

def ofRecord (r : Record) : Row where
  identity := r.identity
  tag := r.tag
  lane := r.lane.index
  priority := r.priority.toNat
  payload := r.payload
  bubbles := if r.bubbles then 1 else 0
  retryCount := r.retryCount.toNat
  seq := r.seq
  availableAt := r.availableAt

/-- Whether a column holds an instant of the calendar. -/
def isInstant (ms : Int) : Bool := Instant.isDated ms

/-- A row as a record. A count of retries that is out of range reads as zero. -/
def toRecord (r : Row) : Except QueueError Record :=
  if r.priority < 0 ∨ 255 < r.priority then
    .error (.storage ("priority " ++ toString r.priority ++ " out of range for " ++ r.identity))
  else if !isInstant r.availableAt then
    .error (.storage
      ("available_at " ++ toString r.availableAt ++ " out of range for " ++ r.identity))
  else do
    let lane ← Lane.ofIndex r.lane
    return {
      identity := r.identity
      tag := r.tag
      lane := lane
      priority := .ofNat r.priority.toNat
      payload := r.payload
      bubbles := r.bubbles != 0
      retryCount :=
        if 0 ≤ r.retryCount ∧ r.retryCount < (UInt32.size : Int) then UInt32.ofNat r.retryCount.toNat else 0
      seq := r.seq
      availableAt := r.availableAt }

/-- By priority, then by place in the order. -/
def servesBefore (a b : Row) : Bool :=
  a.priority < b.priority || (a.priority == b.priority && decide (a.seq ≤ b.seq))

end Row

/-- The command table. Identities are its primary key and places in the order are unique. -/
structure CommandTable where
  rows : List Row := []
  deriving DecidableEq, Repr

namespace CommandTable

/-- Inserts a row; the unique columns are checked before the primary key. -/
def insert (t : CommandTable) (r : Row) : Except MediumFault CommandTable :=
  if t.rows.any (fun x => x.seq == r.seq) then .error (.unique "command_queue.seq")
  else if t.rows.any (fun x => x.identity == r.identity) then
    .error (.primaryKey "command_queue.identity")
  else .ok { t with rows := t.rows ++ [r] }

/-- Deletes the rows that satisfy a condition and counts them. -/
def delete (t : CommandTable) (p : Row → Bool) : Nat × CommandTable :=
  (t.rows.countP p, { t with rows := t.rows.filter (!p ·) })

/-- Changes the rows that satisfy a condition and counts them. -/
def update (t : CommandTable) (p : Row → Bool) (f : Row → Row) : Nat × CommandTable :=
  (t.rows.countP p, { t with rows := t.rows.map fun r => if p r then f r else r })

/-- The row with an identity. -/
def find? (t : CommandTable) (identity : String) : Option Row :=
  t.rows.find? (fun r => r.identity == identity)

/-- The first `limit` rows that satisfy a condition, in the order of service. -/
def select (t : CommandTable) (p : Row → Bool) (limit : Nat) : List Row :=
  ((t.rows.filter p).mergeSort Row.servesBefore).take limit

/-- The greatest place in the order, zero for an empty table. -/
def maxSeq (t : CommandTable) : Int := ((t.rows.map (·.seq)).max?).getD 0

/-- The integer columns. -/
inductive Column where
  | lane
  | priority
  | bubbles
  | retryCount
  | seq
  | availableAt
  deriving DecidableEq, Repr

/-- Sets an integer column of the row with an identity, as an outside edit would. -/
def edit (t : CommandTable) (identity : String) (column : Column) (value : Int) :
    Except MediumFault (Nat × CommandTable) :=
  let p : Row → Bool := fun r => r.identity == identity
  if column = .seq ∧ t.rows.any p ∧ t.rows.any (fun r => !p r && r.seq == value) then
    .error (.unique "command_queue.seq")
  else
    .ok (t.update p fun r =>
      match column with
      | .lane => { r with lane := value }
      | .priority => { r with priority := value }
      | .bubbles => { r with bubbles := value }
      | .retryCount => { r with retryCount := value }
      | .seq => { r with seq := value }
      | .availableAt => { r with availableAt := value })

end CommandTable

structure TableStore where
  table : CommandTable := {}
  /-- The `seq` of every claimed row; it may outlive the row. -/
  claimed : List Int := []
  lastSeq : Int := 0
  /-- A closed store refuses every statement. -/
  isOpen : Bool := true
  deriving DecidableEq, Repr

namespace TableStore

/-- Opens a table. Whatever was claimed before is free again. -/
def ofTable (t : CommandTable) : TableStore := { table := t, lastSeq := t.maxSeq }

def empty : TableStore := ofTable {}

def close (s : TableStore) : TableStore := { s with isOpen := false }

def drop (s : TableStore) (seq : Int) : TableStore :=
  { s with claimed := s.claimed.filter (· != seq) }

/-- Refuses every statement once the store is closed. -/
def connected {α : Type} (s : TableStore) (r : Except QueueError α) : Except QueueError α :=
  if s.isOpen then r else .error MediumFault.poolClosed.toQueueError

def findByIdentity (identity : String) (s : TableStore) : Except QueueError (Option Record) :=
  s.connected
    (match s.table.find? identity with
    | none => .ok none
    | some row => row.toRecord.map some)

/-- The record that a command would become. -/
def fresh (s : TableStore) (c : NewCommand) (now : Instant) : Record :=
  .ofCommand c (s.lastSeq + 1) now

/-- Inserts a fresh row into a table and takes the next place in the order, or neither. -/
def addTo (s : TableStore) (t : CommandTable) (c : NewCommand) (now : Instant)
    {α : Type} (result : Record → α) : Result TableStore α :=
  match t.insert (.ofRecord (s.fresh c now)) with
  | .error e => (.error e.toQueueError, s)
  | .ok t => (.ok (result (s.fresh c now)), { s with table := t, lastSeq := s.lastSeq + 1 })

def insert (c : NewCommand) (now : Instant) (s : TableStore) : Result TableStore Record :=
  if s.isOpen then s.addTo s.table c now id else (.error MediumFault.poolClosed.toQueueError, s)

/-- Look-up, deletion and insertion are one transaction: an error leaves the table as it was. -/
def submit (c : NewCommand) (policy : ConflictPolicy) (now : Instant) (s : TableStore) :
    Result TableStore Submission :=
  match s.findByIdentity c.identity with
  | .error e => (.error e, s)
  | .ok none => s.addTo s.table c now .inserted
  | .ok (some existing) =>
    match policy.resolve true with
    | .keepExisting => (.ok (.kept existing), s)
    | .refuseDuplicate => (.ok (.refused existing), s)
    | .replaceExisting =>
      s.addTo (s.table.delete fun r => r.identity == c.identity).2 c now (.replaced existing)
    | .insert => s.addTo s.table c now .inserted

/-- Runs a statement that counts the rows it changes. -/
def execute (s : TableStore) (statement : CommandTable → Nat × CommandTable) :
    Result TableStore Nat :=
  if s.isOpen then
    let (n, t) := statement s.table
    (.ok n, { s with table := t })
  else (.error MediumFault.poolClosed.toQueueError, s)

def deleteByIdentity (identity : String) (s : TableStore) : Result TableStore Bool :=
  let (r, s) := s.execute fun t => t.delete fun row => row.identity == identity
  (r.map (0 < ·), s)

/-- Claimed rows stand before the first unclaimed one at most as often as there are claims, so
one row more than that is enough. -/
def nextEligible (lane : Lane) (now : Instant) (s : TableStore) :
    Result TableStore (Option Record) :=
  if !s.isOpen then (.error MediumFault.poolClosed.toQueueError, s)
  else
    let due := s.table.select (fun r => r.lane == (lane.index : Int) && r.availableAt ≤ now)
      (s.claimed.length + 1)
    match due.find? (fun r => !s.claimed.contains r.seq) with
    | none => (.ok none, s)
    | some row =>
      match row.toRecord with
      | .error e => (.error e, s)
      | .ok r => (.ok (some r), { s with claimed := r.seq :: s.claimed })

/-- Whether a row is the one that was claimed as a record. -/
def isRowOf (claimed : Record) (row : Row) : Bool :=
  row.identity == claimed.identity && row.seq == claimed.seq

def retire (claimed : Record) (s : TableStore) : Result TableStore Bool :=
  let (r, s) := (s.drop claimed.seq).execute fun t => t.delete (isRowOf claimed)
  (r.map (0 < ·), s)

def reschedule (claimed : Record) (retryCount : UInt32) (availableAt : Instant)
    (s : TableStore) : Result TableStore Bool :=
  let (r, s) := (s.drop claimed.seq).execute fun t => t.update (isRowOf claimed) fun row =>
    { row with retryCount := retryCount.toNat, availableAt := availableAt }
  (r.map (0 < ·), s)

/-- Whether a row is of a lane and not claimed. -/
def isWaiting (s : TableStore) (lane : Lane) (row : Row) : Bool :=
  row.lane == (lane.index : Int) && !s.claimed.contains row.seq

def pendingCount (lane : Lane) (s : TableStore) : Except QueueError Nat :=
  s.connected (.ok (s.table.rows.countP fun r => r.lane == (lane.index : Int)))

/-- The least instant after now among the waiting rows, unless no calendar has it. -/
def nextWakeAt (lane : Lane) (now : Instant) (s : TableStore) :
    Except QueueError (Option Instant) :=
  let future := s.table.rows.filter fun r => s.isWaiting lane r && now < r.availableAt
  s.connected (.ok (((future.map (·.availableAt)).min?).filter Row.isInstant))

def purgeLane (lane : Lane) (s : TableStore) : Result TableStore Nat :=
  s.execute fun t => t.delete (s.isWaiting lane)

/-- Claims are forgotten before the table is read, and the order goes on after its greatest
place. -/
def recover (s : TableStore) : Result TableStore (PerLane Nat) :=
  let s := { s with claimed := [] }
  if !s.isOpen then (.error MediumFault.poolClosed.toQueueError, s)
  else
    let s := { s with lastSeq := s.table.maxSeq }
    let lanes := (s.table.rows.map (·.lane)).mergeSort (· ≤ ·)
    ((lanes.mapM Lane.ofIndex).map .count, s)

instance : QueueStore TableStore where
  insert := insert
  submit := submit
  deleteByIdentity := deleteByIdentity
  findByIdentity := findByIdentity
  nextEligible := nextEligible
  retire := retire
  reschedule := reschedule
  release r s := s.drop r.seq
  pendingCount := pendingCount
  nextWakeAt := nextWakeAt
  purgeLane := purgeLane
  recover := recover

end TableStore

end LaneQueue
