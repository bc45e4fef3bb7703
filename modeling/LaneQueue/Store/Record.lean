import LaneQueue.Lane
import LaneQueue.Priority
import LaneQueue.Conflict
import LaneQueue.Text.Bytes
/-!
# Queued records

What a producer hands to a store, what the store keeps, and the order in which a lane serves its
records. Instants are milliseconds since the start of 1970. The two instants at which a record was made
and last changed are written and handed back but decide nothing, and are left out.
-/
namespace LaneQueue

/-- Milliseconds since the start of 1970. -/
abbrev Instant := Int

/-- Whether an instant is one of the calendar's, which has the years -262143 to 262142. -/
def Instant.isDated (t : Instant) : Bool := -8334601228800000 ≤ t && t ≤ 8210266876799999

/-- A command as it is submitted. -/
structure NewCommand where
  /-- Two commands with the same identity are never queued together. -/
  identity : String
  /-- The class that reads the payload. -/
  tag : String
  lane : Lane
  priority : Priority
  payload : Bytes
  /-- Whether recoverable failures are retried. -/
  bubbles : Bool
  deriving DecidableEq, Repr

/-- A command in a store. -/
structure Record extends NewCommand where
  /-- Failed attempts so far. -/
  retryCount : UInt32
  /-- The place in the order of submissions; it also tells one record of an identity from a later
  one. -/
  seq : Int
  /-- Not to be claimed before this instant. -/
  availableAt : Instant
  deriving DecidableEq, Repr

namespace Record

/-- A fresh record of a command. -/
def ofCommand (c : NewCommand) (seq : Int) (now : Instant) : Record :=
  { c with retryCount := 0, seq := seq, availableAt := now }

/-- Lower priority numbers first, and older records first among equals. -/
def servesBefore (a b : Record) : Bool :=
  a.priority.toNat < b.priority.toNat ||
    (a.priority.toNat == b.priority.toNat && decide (a.seq ≤ b.seq))

/-- The record of a list that is served first. -/
def first? : List Record → Option Record
  | [] => none
  | r :: rs =>
    match first? rs with
    | none => some r
    | some b => if r.servesBefore b then some r else some b

/-- A list in the order of service. -/
def inOrder (rs : List Record) : List Record := rs.mergeSort servesBefore

/-- The number of the execution that a claim begins, cut at the greatest word. -/
def attempt (r : Record) : UInt32 :=
  if r.retryCount = 0xFFFFFFFF then r.retryCount else r.retryCount + 1

end Record

/-- What a store did with a submission. -/
inductive Submission where
  | inserted (current : Record)
  | replaced (previous current : Record)
  /-- The submission was dropped in favour of the queued record. -/
  | kept (existing : Record)
  | refused (existing : Record)
  deriving DecidableEq, Repr

end LaneQueue
