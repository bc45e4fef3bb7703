import LaneQueue.Error
/-!
# Failures of the storage medium

What a database reports, its wording, and which failures are worth another attempt: a medium that
cannot be reached for the moment, and a database that is busy or locked.
-/
namespace LaneQueue

inductive MediumFault where
  /-- No connection became free in time. -/
  | poolTimedOut
  | io (text : String)
  /-- A query that promised a row gave none. -/
  | rowNotFound
  /-- The store was closed. -/
  | poolClosed
  /-- The database refused a statement; the low byte of the code is its kind. -/
  | database (code : Nat) (text : String)
  deriving DecidableEq, Repr

namespace MediumFault

def message : MediumFault → String
  | poolTimedOut => "pool timed out while waiting for an open connection"
  | io text => "error communicating with database: " ++ text
  | rowNotFound => "no rows returned by a query that expected to return at least one row"
  | poolClosed => "attempted to acquire a connection on a closed pool"
  | database code text => "error returned from database: (code: " ++ toString code ++ ") " ++ text

/-- Kind 5 is a busy database and kind 6 a locked table. -/
def isTransient : MediumFault → Bool
  | poolTimedOut | io _ => true
  | database code _ => code % 256 == 5 || code % 256 == 6
  | rowNotFound | poolClosed => false

def toQueueError (f : MediumFault) : QueueError :=
  if f.isTransient then .transientStorage f.message else .storage f.message

/-- A second row with the value of a primary key. -/
def primaryKey (column : String) : MediumFault :=
  .database 1555 ("UNIQUE constraint failed: " ++ column)

/-- A second row with the value of a unique column. -/
def unique (column : String) : MediumFault :=
  .database 2067 ("UNIQUE constraint failed: " ++ column)

end MediumFault

end LaneQueue
