import LaneQueue.Command.Body
import LaneQueue.Command.Payload
/-!
# Classes of commands

A class says of its commands what they are called, how they are stored and what their execution
does.
-/
namespace LaneQueue

/-- A class of commands of type `C`, whose bodies live in a world `W`. -/
structure CommandClass (W C : Type) where
  descriptor : Descriptor
  identity : C → String
  /-- What an operator reads while the command runs. -/
  description : C → String
  /-- The command's fields, or why they cannot be written. -/
  encode : C → Except String Json.Value
  reader : Json.Reader C
  body : C → Execution → Body W

/-- A command that has been read back and may run. -/
structure Command (W : Type) where
  identity : String
  description : String
  /-- The bytes that would be stored for it. -/
  payload : Except QueueError Bytes
  body : Execution → Body W

/-- The command with a body that lives in a part of a larger world. -/
def Command.on {V W : Type} (c : Command V) (get : W → V) (set : V → W → W) : Command W :=
  ⟨c.identity, c.description, c.payload, fun x => (c.body x).on get set⟩

namespace CommandClass

variable {W C : Type}

def payload (k : CommandClass W C) (c : C) : Except QueueError Bytes :=
  match k.encode c with
  | .ok body => .ok (Payload.encode body)
  | .error reason => .error (.serialization reason)

def draft (k : CommandClass W C) (c : C) : Draft :=
  ⟨k.descriptor.tag, k.identity c, k.payload c⟩

def decode (k : CommandClass W C) (bytes : Bytes) : Except PayloadFault C :=
  Payload.decode k.reader bytes

def command (k : CommandClass W C) (c : C) : Command W :=
  ⟨k.identity c, k.description c, k.payload c, k.body c⟩

end CommandClass

end LaneQueue
