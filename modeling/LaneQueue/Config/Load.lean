import LaneQueue.Config.Environment
import LaneQueue.Config.EnvFile
import LaneQueue.Config.File
import LaneQueue.Files.Tree
import LaneQueue.Text.Quoted
/-!
# Layers of configuration

Settings come from the environment, else from one configuration file, else from defaults. The
file is the one that a variable names, else a text in a variable, else the first of a few names
that exists; a layer that is there but unreadable is an error and never skipped. Before that a
file of variables may add to the environment.
-/
namespace LaneQueue

/-- Where the file layer came from. -/
inductive ConfigSource where
  | default
  /-- The file that a variable names. -/
  | envPath (path : String)
  /-- The text in a variable. -/
  | envInline
  /-- A file under one of the usual names. -/
  | file (path : String)
  deriving DecidableEq, Repr

structure Config where
  host : String
  port : UInt16
  databaseUrl : String
  queue : QueueConfig
  source : ConfigSource
  /-- The file of variables that was read. -/
  envFile : Option String
  /-- The variables that settled a setting. -/
  overrides : List String
  deriving DecidableEq, Repr

def Config.bindAddress (c : Config) : String := c.host ++ ":" ++ toString c.port.toNat

/-- Why there is no configuration. -/
inductive ConfigFault where
  | envFile (path : String) (isMissing : Bool)
  | io (path : String) (cause : FileFault)
  | toml (origin : String)
  | json (origin : String) (cause : Json.Fault)
  /-- A text of no known kind that is neither TOML nor JSON. -/
  | unrecognized (origin : String) (cause : Json.Fault)
  | invalidPort (value : String)
  | invalidLane (value : String)
  | emptyDatabaseUrl
  deriving DecidableEq, Repr

def ConfigFault.message : ConfigFault → String
  | .envFile p isMissing =>
    "failed to read .env file " ++ p ++ ": " ++ if isMissing then "not found" else "other"
  | .io p e => "failed to read config file " ++ p ++ ": " ++ e.message
  | .toml o => "invalid TOML in " ++ o
  | .json o e => "invalid JSON in " ++ o ++ ": " ++ e.message
  | .unrecognized o e => "failed to parse config " ++ o ++ "; json error: " ++ e.message
  | .invalidPort v => "MEDIAQ_PORT must be a port number, got " ++ quoted v
  | .invalidLane v => "MEDIAQ_PAUSED_LANES lists an unknown lane: " ++ quoted v
  | .emptyDatabaseUrl => "database url must not be empty"

/-- What to load, and from where. -/
structure ConfigLoader where
  /-- A file of variables that has to be there, in place of one that is searched for. -/
  envFile : Option String := none
  readsEnvFile : Bool := true
  /-- Settings in place of those of the process; then no file of variables is read. -/
  environment : Option Environment := none
  /-- The directory of the usual names. -/
  searchRoot : String := "."

namespace ConfigLoader

/-- The usual names, in the order in which they are tried. -/
def defaultFiles : List String :=
  ["mediaq.toml", "mediaq.json", "config/mediaq.toml", "config/mediaq.json"]

def joinText (dir name : String) : String :=
  if dir.isEmpty || dir.endsWith "/" then dir ++ name else dir ++ "/" ++ name

/-- The path of a place. -/
def placePath (p : Place) : Bytes := p.flatMap fun name => Path.slash :: name

/-- A directory and all that it lies in, from the inside out. -/
def upward (dir : Place) : List Place :=
  (List.range (dir.length + 1)).map fun n => dir.take (dir.length - n)

/-- The first file of variables in some directories. A directory of that name is passed over. -/
def findEnvFile (fs : Files) : List Place → Except FileFault (Option Bytes)
  | [] => .ok none
  | dir :: rest =>
    let candidate := placePath dir ++ Path.slash :: Bytes.ofText ".env"
    match fs.find candidate with
    | .ok .directory => findEnvFile fs rest
    | .ok _ => .ok (some candidate)
    | .error .notFound => findEnvFile fs rest
    | .error e => .error e

/-- Adds the variables of a file to those of the process. -/
def addVariables (fs : Files) (path shown : String) (process : EnvFile.Variables) :
    Except ConfigFault EnvFile.Variables :=
  match fs.readText (Bytes.ofText path) with
  | .error e => .error (.envFile shown (e = .notFound))
  | .ok text =>
    match EnvFile.load text process with
    | some vars => .ok vars
    | none => .error (.envFile shown false)

/-- The file of variables that was read, and all variables after it. -/
def loadVariables (l : ConfigLoader) (fs : Files) (process : EnvFile.Variables) :
    Except ConfigFault (Option String × EnvFile.Variables) :=
  if !l.readsEnvFile || l.environment.isSome then .ok (none, process)
  else
    match l.envFile with
    | some path => (addVariables fs path path process).map fun vars => (some path, vars)
    | none =>
      match findEnvFile fs (upward fs.workingDirectory) with
      | .error _ => .error (.envFile ".env" false)
      | .ok none => .ok (none, process)
      | .ok (some path) =>
        match path.text? with
        | none => .error (.envFile ".env" false)
        | some path => (addVariables fs path ".env" process).map fun vars => (some path, vars)

/-- The configuration in a text: TOML, or JSON when it is no TOML. -/
def parseEither (text origin : String) : Except ConfigFault FileConfig :=
  match FileConfig.ofToml? text with
  | some c => .ok c
  | none =>
    match FileConfig.ofJson text with
    | .ok c => .ok c
    | .error e => .error (.unrecognized origin e)

def parseJson (text origin : String) : Except ConfigFault FileConfig :=
  match FileConfig.ofJson text with
  | .ok c => .ok c
  | .error e => .error (.json origin e)

def parseToml (text origin : String) : Except ConfigFault FileConfig :=
  match FileConfig.ofToml? text with
  | some c => .ok c
  | none => .error (.toml origin)

/-- The configuration in a file; the extension of its name says how to read it. -/
def loadFile (fs : Files) (path : String) : Except ConfigFault FileConfig :=
  match fs.readText (Bytes.ofText path) with
  | .error e => .error (.io path e)
  | .ok text =>
    match (Path.extension? (Bytes.ofText path)).bind Bytes.text? with
    | some "json" => parseJson text path
    | some "toml" => parseToml text path
    | some "tml" => parseToml text path
    | _ => parseEither text path

/-- The file layer. -/
def resolveFile (l : ConfigLoader) (env : Environment) (fs : Files) :
    Except ConfigFault (FileConfig × ConfigSource) :=
  match env.configPath, env.configJson with
  | some path, _ => (loadFile fs path).map (·, .envPath path)
  | none, some text => (parseJson text "MEDIAQ_CONFIG_JSON").map (·, .envInline)
  | none, none =>
    match (defaultFiles.map (joinText l.searchRoot)).find? fun p => fs.leads (Bytes.ofText p) with
    | some path => (loadFile fs path).map (·, .file path)
    | none => .ok ({}, .default)

/-- A port as people write it: decimal digits after an optional plus. -/
def parsePort (s : String) : Option UInt16 :=
  let cs := match s.toList with
    | '+' :: rest => rest
    | cs => cs
  if cs.isEmpty || !cs.all (fun c => (digitValue? c).isSome) then none
  else
    let n := Toml.ofDigits 10 cs
    if n < UInt16.size then some (UInt16.ofNat n) else none

def defaultHost : String := "0.0.0.0"

def defaultPort : UInt16 := 3000

def defaultDatabaseUrl : String := "sqlite://mediaq-queue.db"

def resolveHost (env : Environment) (file : FileConfig) : String :=
  match env.host with
  | some h => trim h
  | none => file.server.host.getD defaultHost

def resolvePort (env : Environment) (file : FileConfig) : Except ConfigFault UInt16 :=
  match env.port with
  | some raw =>
    match parsePort (trim raw) with
    | some p => .ok p
    | none => .error (.invalidPort raw)
  | none => .ok (file.server.port.getD defaultPort)

def resolveDatabaseUrl (env : Environment) (file : FileConfig) : Except ConfigFault String :=
  match env.databaseUrl with
  | some url => .ok (trim url)
  | none =>
    match file.database.url with
    | some url => if isBlankText url then .error .emptyDatabaseUrl else .ok (trim url)
    | none => .ok defaultDatabaseUrl

def resolveLane (name : String) : Except ConfigFault Lane :=
  match Lane.parse name with
  | .ok l => .ok l
  | .error _ => .error (.invalidLane name)

def resolveQueue (env : Environment) (file : FileConfig) : Except ConfigFault QueueConfig :=
  let queue := file.queue.getD {}
  match env.pausedLanes with
  | some names => (names.mapM resolveLane).map fun lanes => { queue with pausedLanes := lanes }
  | none => .ok queue

/-- The names of the settings that the environment settles. -/
def overridesOf (env : Environment) : List String :=
  [(env.host.isSome, "MEDIAQ_HOST"), (env.port.isSome, "MEDIAQ_PORT"),
    (env.databaseUrl.isSome, "MEDIAQ_DATABASE_URL"),
    (env.pausedLanes.isSome, "MEDIAQ_PAUSED_LANES")].filterMap
    fun (isSet, name) => if isSet then some name else none

/-- All layers together. -/
def load (l : ConfigLoader) (fs : Files) (process : EnvFile.Variables) :
    Except ConfigFault Config := do
  let (envFile, vars) ← l.loadVariables fs process
  let env := l.environment.getD (.ofLookup fun name => vars.lookup name)
  let (file, source) ← l.resolveFile env fs
  let host := resolveHost env file
  let port ← resolvePort env file
  let url ← resolveDatabaseUrl env file
  let queue ← resolveQueue env file
  return ⟨host, port, url, queue, source, envFile, overridesOf env⟩

end ConfigLoader

end LaneQueue
