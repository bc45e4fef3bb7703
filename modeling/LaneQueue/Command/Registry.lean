import LaneQueue.Command.Class
/-!
# The registry

The registry turns stored records back into commands by the tag of their class. It holds one class
for each tag.
-/
namespace LaneQueue

/-- What the registry keeps of a class. -/
structure Registration (W : Type) where
  descriptor : Descriptor
  decode : Bytes → Except PayloadFault (Command W)

def CommandClass.registration {W C : Type} (k : CommandClass W C) : Registration W :=
  ⟨k.descriptor, fun bytes => (k.decode bytes).map k.command⟩

/-- A registration with bodies that live in a part of a larger world. -/
def Registration.on {V W : Type} (k : Registration V) (get : W → V) (set : V → W → W) :
    Registration W :=
  ⟨k.descriptor, fun bytes => (k.decode bytes).map (·.on get set)⟩

structure Registry (W : Type) where
  registrations : List (Registration W) := []

namespace Registry

variable {W : Type}

def find? (r : Registry W) (tag : String) : Option (Registration W) :=
  r.registrations.find? (fun k => k.descriptor.tag == tag)

def descriptor? (r : Registry W) (tag : String) : Option Descriptor :=
  (r.find? tag).map (·.descriptor)

def knows (r : Registry W) (tag : String) : Bool := (r.find? tag).isSome

/-- Adds a class whose tag is free. -/
def register (r : Registry W) (k : Registration W) : Except QueueError (Registry W) :=
  if r.knows k.descriptor.tag then .error (.duplicateRegistration k.descriptor.tag)
  else .ok ⟨r.registrations ++ [k]⟩

def registerAll (r : Registry W) (ks : List (Registration W)) : Except QueueError (Registry W) :=
  ks.foldlM register r

/-- The command that a record stands for. -/
def decode (r : Registry W) (record : Record) : Except QueueError (Command W) :=
  match r.find? record.tag with
  | none => .error (.unknownCommandType record.tag)
  | some k =>
    match k.decode record.payload with
    | .ok c => .ok c
    | .error e => .error (.malformedPayload record.tag record.identity e.message)

def size (r : Registry W) : Nat := r.registrations.length

/-- The tags in alphabetical order. -/
def tags (r : Registry W) : List String :=
  (r.registrations.map (·.descriptor.tag)).mergeSort (fun a b => decide (a ≤ b))

end Registry

end LaneQueue
