import LaneQueue.Config.Load
import LaneQueue.Media.Builtin
import LaneQueue.Scheduler.Builder
import LaneQueue.Scheduler.Run
import LaneQueue.Server.Arguments
import LaneQueue.Store.Address
/-!
# The life of the server

From the command line to the listening server: the settings, the database, the lanes, the folder
scans and the address; then down again. What an operator reads on the way is a list of lines, and
a failure says at which of these it happened.
-/
namespace LaneQueue.Server

/-- What the program finds around it. -/
structure Machine where
  environment : EnvFile.Variables := []
  files : Files := {}
  now : Instant
  /-- Whether the machine can listen on a host's name or address. -/
  listens : String → Bool

/-- How the program ends, and the files it leaves. -/
structure Report where
  code : Nat
  log : List String := []
  error : Option String := none
  files : Files

/-- A server that listens. -/
structure Running where
  log : List String
  run : Run TableStore Media
  /-- Where the rows of the database are kept. -/
  place : Option Place

def title : Lane → String
  | .general => "General"
  | .hasher => "Hasher"
  | .images => "Images"

def failed (log : List String) (what : String) (files : Files) : Report :=
  ⟨1, log, some ("Error: " ++ what), files⟩

/-- The files with the rows of the database in them. -/
def filesWith (place : Option Place) (r : Run TableStore Media) : Files :=
  let files := r.shared.world.files
  match place with
  | some kept => files.fill kept (.database r.shared.store.table)
  | none => files

/-- The settings, those of the command line last. -/
def settings (a : Arguments) (m : Machine) : Except ConfigFault Config :=
  (({ envFile := a.envFile } : ConfigLoader).load m.files m.environment).map fun c =>
    { c with
      port := a.port.getD c.port
      host := a.host.getD c.host
      databaseUrl := a.databaseUrl.getD c.databaseUrl }

def describeSource : ConfigSource → String
  | .default => "no config file found, using defaults"
  | .envInline => "config loaded from MEDIAQ_CONFIG_JSON"
  | .envPath path | .file path => "config loaded from file path=" ++ path

/-- The settings as an operator reads them. -/
def describe (c : Config) : List String :=
  (match c.envFile with
    | some path => ["loaded env file path=" ++ path]
    | none => []) ++
  [describeSource c.source,
    "queue configuration in effect queue.max_attempts=" ++ toString c.queue.retry.maxAttempts.toNat ++
      " queue.backoff_base_ms=" ++ toString c.queue.retry.backoffBaseMs.toNat ++
      " queue.backoff_max_ms=" ++ toString c.queue.retry.backoffMaxMs.toNat ++
      " queue.paused_lanes=[" ++ ", ".intercalate (c.queue.pausedLanes.map title) ++ "]"]

def describeFound (found : PerLane Nat) : List String :=
  (Lane.all.filter fun l => found.get l != 0).map fun l =>
    "recovered queued commands lane=" ++ l.name ++ " pending=" ++ toString (found.get l)

/-- Submits one scan after the other; a failed submission is the last. -/
def submitScans (forced : Bool) : List String → Running → Running × Option QueueError
  | [], s => (s, none)
  | path :: rest, s =>
    let draft := ScanFolder.commands.draft ⟨Bytes.ofText path⟩
    match s.run.perform (.submit draft { forced := forced }) with
    | (some (.submitted o), r) =>
      submitScans forced rest
        { s with
          run := r
          log := s.log ++ ["folder scan submitted path=" ++ path ++ " outcome=" ++ o.message] }
    | (some (.failed e), r) => ({ s with run := r }, some e)
    | (_, r) => submitScans forced rest { s with run := r }

/-- Opens the database and starts the lanes. -/
def startLanes (c : Config) (m : Machine) (log : List String) : Except Report Running :=
  match TableStore.connect c.databaseUrl m.files with
  | .error _ => .error (failed log ("failed to open queue database " ++ c.databaseUrl) m.files)
  | .ok (place, store) =>
    let b : SchedulerBuilder TableStore Media := { store := some store, config := c.queue }
    match (b.registerAll Media.classes).bind fun b => b.build m.now { files := m.files } with
    | .error e => .error (failed log e.message m.files)
    | .ok (wiring, system) =>
      match ({ wiring := wiring, system := system } : Run TableStore Media).perform .start with
      | (some (.started found), r) => .ok ⟨log ++ describeFound found, r, place⟩
      | (some (.failed e), r) => .error (failed log e.message (filesWith place r))
      | (_, r) => .ok ⟨log, r, place⟩

/-- Everything up to the listening server. -/
def start (args : List String) (m : Machine) : Except Report Running :=
  match Arguments.ofList args with
  | .error .help => .error { code := 0, files := m.files }
  | .error .misuse => .error { code := 2, files := m.files }
  | .ok a =>
    match settings a m with
    | .error _ => .error (failed [] "failed to load configuration" m.files)
    | .ok c => do
      let s ← startLanes c m (describe c)
      match submitScans a.forceScan a.scan s with
      | (s, some e) => .error (failed s.log e.message (filesWith s.place s.run))
      | (s, none) =>
        if m.listens c.host then
          return { s with
            log := s.log ++ ["Starting mediaq server (HTTP) on " ++ c.bindAddress]
            run := s.run.rest }
        else .error (failed s.log ("failed to bind " ++ c.bindAddress) (filesWith s.place s.run))

/-- Stops the lanes and closes the database. -/
def Running.stop (s : Running) : Report :=
  let (_, r) := s.run.perform .shutdown
  { code := 0
    log := s.log ++ ["shutdown signal received, draining lanes", "mediaq server stopped"]
    files := filesWith s.place r }

/-- The names and addresses of a machine without a network. -/
def isLoopback (host : String) : Bool :=
  ["localhost", "0.0.0.0", "::", "[::]", "::1", "[::1]"].contains host ||
    match (host.splitOn ".").map String.toNat? with
    | [some 127, some b, some c, some d] => b < 256 && c < 256 && d < 256
    | _ => false

end LaneQueue.Server
