import LaneQueue.QueueConfig
import LaneQueue.Toml.Document
/-!
# Configuration files

What a file may say: the listener, the database and the queue, each in part. A file is JSON or
TOML; both know the same fields.
-/
namespace LaneQueue

structure FileServer where
  host : Option String := none
  port : Option UInt16 := none
  deriving DecidableEq, Repr

structure FileDatabase where
  url : Option String := none
  deriving DecidableEq, Repr

structure FileConfig where
  server : FileServer := {}
  database : FileDatabase := {}
  queue : Option QueueConfig := none
  deriving DecidableEq, Repr

namespace FileConfig

open Json (Fields Reader) in
def fields : Fields FileConfig :=
  (fun s d q => ⟨s, d, q⟩) <$> .field "server" server.reader (.ok {}) <*>
    .field "database" database.reader (.ok {}) <*> .maybe "queue" QueueConfig.reader
where
  server : Fields FileServer :=
    (fun h p => ⟨h, p⟩) <$> .maybe "host" Reader.text <*> .maybe "port" Reader.word16
  database : Fields FileDatabase := (fun u => ⟨u⟩) <$> .maybe "url" Reader.text

def reader : Json.Reader FileConfig := fields.reader

def toJson (c : FileConfig) : Json.Value :=
  .object [("server", .object (present [("host", c.server.host.map .text),
      ("port", c.server.port.map fun p => .nat p.toNat)])),
    ("database", .object (present [("url", c.database.url.map .text)])),
    ("queue", match c.queue with
      | some q => q.toJson
      | none => .null)]
where
  /-- The members that are there. -/
  present (ms : List (String × Option Json.Value)) : List (String × Json.Value) :=
    ms.filterMap fun (k, v) => v.map (k, ·)

end FileConfig

namespace Toml

abbrev Read (α : Type) := Value → Option α

namespace Read

variable {α : Type}

def text : Read String
  | .text s => some s
  | _ => none

def below (bound : Nat) : Read Nat
  | .integer i => if 0 ≤ i ∧ i < bound then some i.toNat else none
  | _ => none

/-- A number of single precision; an integer has at most 64 bits. -/
def single : Read Binary32
  | .integer i =>
    if hasBits 64 i then some (Binary32.ofMagnitude (i < 0) (i.natAbs : Rat)) else none
  | .finite negative x => some (Binary32.ofMagnitude negative x)
  | .infinite negative => some (Binary32.infinity negative)
  | .nan => some Binary32.nan
  | _ => none

def list (r : Read α) : Read (List α)
  | .array vs => vs.mapM r
  | _ => none

/-- One of several names, as a string or as the only key of a table with nothing under it. -/
def oneOf (find? : String → Option α) : Read α
  | .text s => find? s
  | .table [(s, .table [])] => find? s
  | .table [(s, .array [])] => find? s
  | _ => none

end Read

/-- The fields of a record, which may be written as a table or as an array of the fields. Unknown
keys and items behind the last field are passed over. -/
structure Record (α : Type) where
  ofTable : List (String × Value) → Option α
  ofItems : List Value → Option (α × List Value)

namespace Record

variable {α β : Type}

instance : Applicative Record where
  pure a := ⟨fun _ => some a, fun vs => some (a, vs)⟩
  seq f x :=
    { ofTable := fun es => do
        let g ← f.ofTable es
        let a ← (x ()).ofTable es
        return g a
      ofItems := fun vs => do
        let (g, vs) ← f.ofItems vs
        let (a, vs) ← (x ()).ofItems vs
        return (g a, vs) }

/-- A field with a default for the case that it is absent. -/
def field (name : String) (r : Read α) (absent : α) : Record α where
  ofTable es :=
    match es.lookup name with
    | some v => r v
    | none => some absent
  ofItems
    | v :: vs => (r v).map (·, vs)
    | [] => some (absent, [])

/-- A field that a table may leave out and an array may not. -/
def maybe (name : String) (r : Read α) : Record (Option α) where
  ofTable es :=
    match es.lookup name with
    | some v => (r v).map some
    | none => some none
  ofItems
    | v :: vs => (r v).map fun a => (some a, vs)
    | [] => none

/-- A moment has no fields that a record knows. -/
def read (f : Record α) : Read α
  | .table es => f.ofTable es
  | .array vs => (f.ofItems vs).map (·.1)
  | .moment => f.ofTable []
  | _ => none

end Record

/-- The retry settings of a table. -/
def retry : Record RetryConfig :=
  let d : RetryConfig := {}
  (fun a b m j => ⟨UInt32.ofNat a, UInt64.ofNat b, UInt64.ofNat m, j⟩) <$>
    .field "max_attempts" (Read.below UInt32.size) d.maxAttempts.toNat <*>
    .field "backoff_base_ms" (Read.below UInt64.size) d.backoffBaseMs.toNat <*>
    .field "backoff_max_ms" (Read.below UInt64.size) d.backoffMaxMs.toNat <*>
    .field "jitter_ratio" Read.single d.jitterRatio

/-- The queue settings of a table. -/
def queue : Record QueueConfig :=
  let d : QueueConfig := {}
  (fun r e g s p => ⟨r, UInt64.ofNat e, UInt64.ofNat g, UInt64.ofNat s, p⟩) <$>
    .field "retry" retry.read d.retry <*>
    .field "event_channel_capacity" (Read.below UInt64.size) d.eventChannelCapacity.toNat <*>
    .field "shutdown_grace_ms" (Read.below UInt64.size) d.shutdownGraceMs.toNat <*>
    .field "store_retry_delay_ms" (Read.below UInt64.size) d.storeRetryDelayMs.toNat <*>
    .field "paused_lanes" (Read.list (Read.oneOf Lane.ofName?)) d.pausedLanes

/-- The configuration of a whole text. -/
def fileConfig : Record FileConfig :=
  (fun s d q => ⟨s, d, q⟩) <$> .field "server" server.read {} <*>
    .field "database" database.read {} <*> .maybe "queue" queue.read
where
  server : Record FileServer :=
    (fun h p => ⟨h, p.map UInt16.ofNat⟩) <$> .maybe "host" Read.text <*>
      .maybe "port" (Read.below UInt16.size)
  database : Record FileDatabase := (fun u => ⟨u⟩) <$> .maybe "url" Read.text

end Toml

/-- The configuration that a TOML text gives. -/
def FileConfig.ofToml? (text : String) : Option FileConfig :=
  (Toml.parse? text).bind Toml.fileConfig.read

/-- The configuration that a JSON text gives, or its first fault. -/
def FileConfig.ofJson (text : String) : Except Json.Fault FileConfig :=
  Json.read FileConfig.reader text.toUTF8.toList

end LaneQueue
