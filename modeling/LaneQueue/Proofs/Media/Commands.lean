import LaneQueue.Media.Builtin
import LaneQueue.Proofs.Text.Utf8
/-!
# The commands that a server offers

`MediaCommand` is any command of the classes in `Media.classes`, and `Registry.OffersMedia` says of a
registry that it holds these classes. A command has a stored form just when its path, or its
destination, is a text.
-/
namespace LaneQueue

inductive MediaCommand where
  | scanFolder (c : ScanFolder)
  | hashFile (c : HashFile)
  | fetchImage (c : FetchImage)
  deriving DecidableEq, Repr

namespace MediaCommand

/-- What tells a command from the others of its class. -/
def place : MediaCommand → Bytes
  | scanFolder c => c.path
  | hashFile c => c.path
  | fetchImage c => c.dest

def descriptor : MediaCommand → Descriptor
  | scanFolder _ => ScanFolder.commands.descriptor
  | hashFile _ => HashFile.commands.descriptor
  | fetchImage _ => FetchImage.commands.descriptor

/-- The class of a command as a registry keeps it. -/
def registration : MediaCommand → Registration Media
  | scanFolder _ => ScanFolder.commands.registration
  | hashFile _ => HashFile.commands.registration
  | fetchImage _ => FetchImage.commands.registration

/-- A command as it runs. -/
def command : MediaCommand → Command Media
  | scanFolder c => ScanFolder.commands.command c
  | hashFile c => HashFile.commands.command c
  | fetchImage c => FetchImage.commands.command c

/-- A command as its producer hands it over. -/
def draft : MediaCommand → Draft
  | scanFolder c => ScanFolder.commands.draft c
  | hashFile c => HashFile.commands.draft c
  | fetchImage c => FetchImage.commands.draft c

/-- The fields of a command as they are stored, if its place is a text. -/
def fields (c : MediaCommand) (place : String) : Json.Value :=
  match c with
  | scanFolder _ | hashFile _ => .object [("path", .text place)]
  | fetchImage c => .object [("url", .text c.url), ("dest", .text place)]

theorem registration_mem (c : MediaCommand) : c.registration ∈ Media.classes := by
  cases c <;> simp [registration, Media.classes]

theorem descriptor_registration (c : MediaCommand) : c.registration.descriptor = c.descriptor := by
  cases c <;> rfl

theorem tag_draft (c : MediaCommand) : c.draft.tag = c.descriptor.tag := by cases c <;> rfl

theorem identity_draft (c : MediaCommand) :
    c.draft.identity = c.descriptor.tag ++ ":" ++ c.place.shown := by cases c <;> rfl

theorem identity_command (c : MediaCommand) : c.command.identity = c.draft.identity := by cases c <;> rfl

theorem payload_command (c : MediaCommand) : c.command.payload = c.draft.payload := by cases c <;> rfl

theorem payload_draft {c : MediaCommand} {s : String} (h : c.place.text? = some s) :
    c.draft.payload = .ok (Payload.encode (c.fields s)) := by
  cases c <;> simp only [place] at h <;>
    simp [draft, CommandClass.draft, CommandClass.payload, ScanFolder.commands, HashFile.commands,
      FetchImage.commands, Path.toJson, h, Except.map, fields]

end MediaCommand

/-- A registry that holds the classes of the server; their bodies live in a part of its world. -/
def Registry.OffersMedia {W : Type} (r : Registry W) (get : W → Media) (set : Media → W → W) : Prop :=
  ∀ k ∈ Media.classes, r.find? k.descriptor.tag = some (k.on get set)

theorem Registry.OffersMedia.descriptor? {W : Type} {r : Registry W} {get : W → Media}
    {set : Media → W → W} (h : r.OffersMedia get set) (c : MediaCommand) :
    r.descriptor? c.descriptor.tag = some c.descriptor := by
  rw [← c.descriptor_registration, Registry.descriptor?, h _ c.registration_mem]
  rfl

/-- A body on the whole of its world is the body itself. -/
theorem Body.on_id {V : Type} (b : Body V) : b.on id (fun v _ => v) = b := by
  induction b with
  | done f => rfl
  | act effect next ih => exact congrArg (Body.act effect) (funext ih)
  | ask r next ih => exact congrArg (Body.ask r) (funext ih)
  | await effect? next ih =>
    simp only [Body.on, ih, id_eq, Option.map_id']

theorem Registration.on_id {V : Type} (k : Registration V) : k.on id (fun v _ => v) = k := by
  have hon : ∀ c : Command V, c.on id (fun v _ => v) = c := fun c => by
    simp only [Command.on, Body.on_id]
  have hdecode : ∀ bytes, (k.decode bytes).map (fun c => c.on id fun v _ => v) = k.decode bytes := by
    intro bytes
    cases hk : k.decode bytes with
    | ok c => exact congrArg Except.ok (hon c)
    | error e => rfl
  simp only [Registration.on, hdecode]

/-- The registry of the server itself. -/
theorem offersMedia_classes :
    (⟨Media.classes⟩ : Registry Media).OffersMedia id fun m _ => m := by
  intro k hk
  rw [k.on_id]
  simp only [Media.classes, List.mem_cons, List.not_mem_nil, or_false] at hk
  rcases hk with rfl | rfl | rfl <;> rfl

end LaneQueue
