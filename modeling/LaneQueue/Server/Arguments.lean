import LaneQueue.Text.Digits
/-!
# The command line

The options of the server program. They are read from left to right, and the first fault ends the
reading, as does the wish for help.
-/
namespace LaneQueue.Server

structure Arguments where
  port : Option UInt16 := none
  host : Option String := none
  databaseUrl : Option String := none
  envFile : Option String := none
  /-- Folders to be scanned, in order. -/
  scan : List String := []
  /-- Scan also what is queued for a scan already. -/
  forceScan : Bool := false
  deriving DecidableEq, Repr

/-- Why there are no arguments. -/
inductive Ending where
  | help
  | misuse
  deriving DecidableEq, Repr

/-- The options that take a value. -/
inductive Setting where
  | port
  | host
  | databaseUrl
  | envFile
  | scan
  deriving DecidableEq, Repr

/-- An option by its long name. -/
inductive Flag where
  | help
  | forceScan
  | setting (s : Setting)
  deriving DecidableEq, Repr

def Flag.ofName? : String → Option Flag
  | "help" => some .help
  | "force-scan" => some .forceScan
  | "port" => some (.setting .port)
  | "host" => some (.setting .host)
  | "database-url" => some (.setting .databaseUrl)
  | "env-file" => some (.setting .envFile)
  | "scan" => some (.setting .scan)
  | _ => none

/-- A port: decimal digits after an optional sign, below 65536. -/
def port? (value : String) : Option UInt16 :=
  let (negative, digits) := match value.toList with
    | '+' :: cs => (false, cs)
    | '-' :: cs => (true, cs)
    | cs => (false, cs)
  if digits.isEmpty || !digits.all (fun c => (digitValue? c).isSome) then none
  else
    let n := digits.foldl (fun n c => 10 * n + (digitValue? c).getD 0) 0
    if n = 0 then some 0 else if negative || 65535 < n then none else some (UInt16.ofNat n)

/-- Puts a value that has not been given before. -/
def once {α : Type} (old : Option α) (value : Option α) : Except Ending (Option α) :=
  if old.isSome || value.isNone then .error .misuse else .ok value

/-- A value that must not be empty. -/
def path? (value : String) : Option String := if value.isEmpty then none else some value

namespace Arguments

/-- Takes the value of an option; only folders to be scanned may be given more than once. -/
def set (a : Arguments) (value : String) : Setting → Except Ending Arguments
  | .port => (once a.port (port? value)).map fun x => { a with port := x }
  | .host => (once a.host (some value)).map fun x => { a with host := x }
  | .databaseUrl => (once a.databaseUrl (some value)).map fun x => { a with databaseUrl := x }
  | .envFile => (once a.envFile (path? value)).map fun x => { a with envFile := x }
  | .scan =>
    match path? value with
    | none => .error .misuse
    | some p => .ok { a with scan := a.scan ++ [p] }

/-- Whether an argument can only be an option: it begins with a dash and is not the dash alone. -/
def isOption : List Char → Bool
  | '-' :: _ :: _ => true
  | _ => false

/-- What one argument means: the end of the options, an option with or without a value in the same
argument, or nothing. -/
inductive Word where
  | endOfOptions
  | flag (f : Flag) (value : Option String)
  | unknown

/-- A name and the value behind an equals sign. -/
def assignment (cs : List Char) : String × Option String :=
  let name := cs.takeWhile (· != '=')
  (String.ofList name, if name.length < cs.length then some (String.ofList (cs.drop (name.length + 1)))
    else none)

def Word.ofChars : List Char → Word
  | ['-', '-'] => endOfOptions
  | '-' :: '-' :: cs =>
    let (name, value) := assignment cs
    match Flag.ofName? name with
    | some f => flag f value
    | none => unknown
  | ['-', 'p'] => flag (.setting .port) none
  | '-' :: 'p' :: '=' :: cs => flag (.setting .port) (some (String.ofList cs))
  | '-' :: 'p' :: cs => flag (.setting .port) (some (String.ofList cs))
  | '-' :: 'h' :: _ => flag .help none
  | _ => unknown

def parse : Arguments → List String → Except Ending Arguments
  | a, [] => .ok a
  | a, w :: rest =>
    match Word.ofChars w.toList with
    | .unknown => .error .misuse
    | .endOfOptions => if rest.isEmpty then .ok a else .error .misuse
    | .flag .help none => .error .help
    | .flag .forceScan none =>
      if a.forceScan then .error .misuse else parse { a with forceScan := true } rest
    | .flag .help (some _) | .flag .forceScan (some _) => .error .misuse
    | .flag (.setting s) (some value) =>
      match a.set value s with
      | .error e => .error e
      | .ok a => parse a rest
    | .flag (.setting s) none =>
      match rest with
      | [] => .error .misuse
      | value :: rest =>
        if isOption value.toList then .error .misuse
        else
          match a.set value s with
          | .error e => .error e
          | .ok a => parse a rest

def ofList (args : List String) : Except Ending Arguments := parse {} args

end Arguments

end LaneQueue.Server
