import LaneQueue.Command.Registry
import LaneQueue.Script.Stage
import LaneQueue.Script.Verb
/-!
# Classes of scripted commands

Commands that carry a plan of verbs, one for each execution, in classes that differ in lane,
priority, failure handling and conflict policy. One more class carries a number and only succeeds.
-/
namespace LaneQueue.Script

/-- A scripted command. -/
structure Play where
  key : String
  payload : String
  /-- One verb for each execution; the last one serves all later ones. -/
  plan : List String := []
  deriving DecidableEq, Repr

/-- A class of scripted commands. -/
structure Kind where
  name : String
  descriptor : Descriptor
  /-- What stands before the key in a description; the tag alone is shown without it. -/
  doing : Option String := none

def kinds : List Kind :=
  [{ name := "Probe"
     descriptor := { tag := "Probe", lane := Resource.database.lane }
     doing := some "Probing" },
    { name := "Replacing"
      descriptor := { tag := "Replacing", lane := Resource.database.lane, conflict := .replace } },
    { name := "Strict"
      descriptor := { tag := "Strict", lane := Resource.database.lane, conflict := .error } },
    { name := "Flaky"
      descriptor := { tag := "Flaky", lane := Resource.metadata.lane, bubbles := true }
      doing := some "Retrying" },
    { name := "Urgent"
      descriptor := { tag := "Urgent", lane := Resource.metadata.lane, priority := ⟨1⟩ } },
    { name := "Hash"
      descriptor := { tag := "Hash", lane := Resource.fileHash.lane, priority := ⟨3⟩ }
      doing := some "Hashing" },
    { name := "Image"
      descriptor :=
        { tag := "Image"
          lane := Resource.imageFetch.lane
          bubbles := true
          conflict := .replace }
      doing := some "Fetching" },
    { name := "Ghost"
      descriptor := { tag := "Ghost", lane := Resource.imageFetch.lane } },
    { name := "Impostor"
      descriptor :=
        { tag := "Probe"
          lane := Resource.imageFetch.lane
          priority := ⟨9⟩
          bubbles := true
          conflict := .replace } }]

def kind? (name : String) : Option Kind := kinds.find? (fun k => k.name == name)

def identity (d : Descriptor) (c : Play) : String := d.tag ++ ":" ++ c.key

def encode (c : Play) : Json.Value :=
  .object [("key", .text c.key), ("payload", .text c.payload),
    ("plan", .array (c.plan.map .text))]

/-- A scripted command on its way into the queue. -/
def draft (d : Descriptor) (c : Play) : Draft :=
  ⟨d.tag, identity d c, .ok (Payload.encode (encode c))⟩

/-- The verb of an execution. -/
def verb (c : Play) (attempt : UInt32) : Verb :=
  match c.plan[min (attempt.toNat - 1) (c.plan.length - 1)]? with
  | some s => .parse s
  | none => .succeed

/-- Goes on with the answer to a request, unless that failed. -/
def afterwards (next : Reply → Body Stage) : Reply → Body Stage
  | .failed e => .done (.error e.chain)
  | r => next r

/-- Asks something about a lane that is given by name. -/
def askLane (name : String) (request : Lane → Request) (next : Reply → Body Stage) : Body Stage :=
  match Lane.parse name with
  | .error e => .done (.error e.chain)
  | .ok l => .ask (request l) (afterwards next)

/-- Ends well if the submission was queued. -/
def afterSubmission : Reply → Body Stage :=
  afterwards fun
    | .submitted o =>
      if o.isQueued then .succeed else .done (.outcome (.recoverable ("follow-up " ++ o.message)))
    | _ => .succeed

def perform (x : Execution) : Verb → Body Stage
  | .succeed => .succeed
  | .fail r => .done (.outcome (.recoverable r))
  | .fatal r => .done (.outcome (.fatal r))
  | .error causes => .done (.error (": ".intercalate causes))
  | .panic m => .done (.panic m)
  | .require => .done (.error "resource u64 not registered")
  | .pause name => askLane name .pause fun _ => .succeed
  | .resume name => askLane name .resume fun _ => .succeed
  | .clear name => askLane name .clear fun
      | .cleared n => .done (.outcome (.recoverable ("cleared " ++ toString n)))
      | _ => .succeed
  | .submit className key forced =>
    match kind? className with
    | none => .done (.error ("no class " ++ className))
    | some k => .ask (.submit (draft k.descriptor ⟨key, "follow-up", []⟩) { forced := forced })
        afterSubmission
  | .gate next =>
    .act (Stage.arrive x.identity) fun _ => .await (Stage.pass? x.identity) (perform x next)
  | .unknown name => .done (.error ("bad step " ++ name))

def body (c : Play) (x : Execution) : Body Stage :=
  .act (Stage.perform ⟨x.lane, x.identity, x.attempt, c.key, c.payload⟩)
    fun _ => perform x (verb c x.attempt)

open Json (Fields Reader) in
def Kind.commands (k : Kind) : CommandClass Stage Play where
  descriptor := k.descriptor
  identity := identity k.descriptor
  description c :=
    match k.doing with
    | some s => s ++ " " ++ c.key
    | none => k.descriptor.tag
  encode c := .ok (encode c)
  reader := (Play.mk <$> Fields.field "key" Reader.text <*> Fields.field "payload" Reader.text <*>
    Fields.field "plan" (Reader.list Reader.text) (.ok [])).reader
  body := body

/-- A command with a number. -/
structure Bare where
  n : UInt32
  force : Bool := false
  deriving DecidableEq, Repr

open Json (Fields Reader) in
def Bare.commands : CommandClass Stage Bare where
  descriptor := { tag := "Bare", lane := Resource.metadata.lane }
  identity c := "Bare:" ++ toString c.n.toNat
  description _ := "Bare"
  encode c := .ok (.object [("n", .nat c.n.toNat), ("force", .bool c.force)])
  reader := (Bare.mk <$> Fields.field "n" Reader.word32 <*>
    Fields.field "force" Reader.bool (.ok false)).reader
  body _ _ := .succeed

/-- The class with a name. -/
def class? (name : String) : Option (Registration Stage) :=
  if name = "Bare" then some Bare.commands.registration
  else (kind? name).map fun k => k.commands.registration

/-- The names of the classes whose tags differ, in the order of registration. -/
def classNames : List String :=
  ["Probe", "Replacing", "Strict", "Flaky", "Urgent", "Hash", "Image", "Bare"]

end LaneQueue.Script
