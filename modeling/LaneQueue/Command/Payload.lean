import LaneQueue.Priority
import LaneQueue.Text.Bytes
/-!
# Stored payloads

The stored bytes of a command are a JSON record of a schema version and the command's own fields.
Every version up to the current one can be read, as later versions only add fields with defaults;
a newer one is refused.
-/
namespace LaneQueue

/-- Why bytes are no command of a class. -/
inductive PayloadFault where
  | malformed (fault : Json.Fault)
  /-- Written by a newer program. -/
  | newerSchema (version : UInt16)
  deriving DecidableEq, Repr

namespace Payload

/-- The schema version that is written. -/
def schemaVersion : UInt16 := 1

def encode (body : Json.Value) : Bytes :=
  (Json.Value.object [("v", .nat schemaVersion.toNat), ("body", body)]).bytes

open Json (Fields Reader) in
def fields {α : Type} (body : Reader α) : Fields (UInt16 × α) :=
  (fun v b => (v, b)) <$> .field "v" Reader.word16 <*> .field "body" body

/-- The command in some bytes. The version counts once the whole text has been read. -/
def decode {α : Type} (body : Json.Reader α) (bytes : Bytes) : Except PayloadFault α :=
  match Json.read (fields body).reader bytes with
  | .error e => .error (.malformed e)
  | .ok (v, a) => if schemaVersion < v then .error (.newerSchema v) else .ok a

end Payload

def PayloadFault.message : PayloadFault → String
  | malformed f => f.message
  | newerSchema v =>
    "payload schema v" ++ toString v.toNat ++ " is newer than supported v" ++
      toString Payload.schemaVersion.toNat

end LaneQueue
