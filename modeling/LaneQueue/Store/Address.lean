import LaneQueue.Files.Tree
/-!
# Database addresses

An address names a database file or a database in memory, with options behind a question mark.
`Address.openIn` says what opening it in a file system gives: the rows that are there, or a
failure for an address that is malformed, a directory that is missing, or a file of another kind.
-/
namespace LaneQueue

/-- Where a database lives. -/
inductive Address where
  | memory
  | file (path : Bytes) (readOnly : Bool)
  deriving DecidableEq, Repr

namespace Address

/-- Removes a word from the front of a text as often as it stands there. -/
def dropRepeated (word : List Char) (cs : List Char) : List Char :=
  if _h : word ≠ [] ∧ word.isPrefixOf cs = true then dropRepeated word (cs.drop word.length) else cs
termination_by cs.length
decreasing_by
  have hw : 0 < word.length := List.length_pos_iff.2 _h.1
  have hp := (List.isPrefixOf_iff_prefix.1 _h.2).length_le
  simp only [List.length_drop]
  omega

/-- A plus is a blank in options. -/
def decodeOption (b : Bytes) : Option String :=
  Bytes.text? (Bytes.percentDecode (b.map fun c => if c = 0x2B then 0x20 else c))

/-- The options of an address as names and values. -/
def options (b : Bytes) : List (Option String × Option String) :=
  ((b.splitOn 0x26).filter (!·.isEmpty)).map fun part =>
    (decodeOption (part.takeWhile (· != 0x3D)), decodeOption ((part.dropWhile (· != 0x3D)).drop 1))

/-- Takes one option into account; unknown ones are refused. -/
def applyOption (a : Address) : Option String × Option String → Option Address
  | (some "mode", some v) =>
    if v = "ro" then
      some (match a with
        | .file p _ => .file p true
        | .memory => .memory)
    else if v = "rw" ∨ v = "rwc" then some a
    else if v = "memory" then some .memory
    else none
  | (some "cache", some v) => if v = "private" ∨ v = "shared" then some a else none
  | (some "immutable", some v) =>
    if v = "true" ∨ v = "1" ∨ v = "false" ∨ v = "0" then some a else none
  | (some "vfs", some v) => if v = "unix" ∨ v = "unix-none" ∨ v = "unix-dotfile" ∨ v = "unix-excl" then some a else none
  | _ => none

/-- An address without a file name is a database of its own that nothing else sees. -/
def parse? (url : String) : Option Address :=
  let cs := dropRepeated "sqlite:".toList (dropRepeated "sqlite://".toList url.toList)
  let name := String.ofList (cs.takeWhile (· != '?'))
  let rest := Bytes.ofText (String.ofList ((cs.dropWhile (· != '?')).drop 1))
  let base : Option Address :=
    if name = ":memory:" ∨ name = "" then some .memory
    else
      match Bytes.text? (Bytes.percentDecode (Bytes.ofText name)) with
      | some path => some (.file (Bytes.ofText path) false)
      | none => none
  base.bind fun a => (options rest).foldlM applyOption a

/-- Why an address does not open. -/
def malformed : QueueError := .storage "error with configuration: invalid address"

/-- What the database reports for a file that it cannot reach. -/
def cannotOpen : QueueError := (MediumFault.database 14 "unable to open database file").toQueueError

def notADatabase : QueueError := (MediumFault.database 26 "file is not a database").toQueueError

def readOnlyFile : QueueError :=
  (MediumFault.database 8 "attempt to write a readonly database").toQueueError

/-- The rows at an address, and the place where they are kept. A file that is missing or empty
becomes a database without rows. -/
def openIn (a : Address) (fs : Files) : Except QueueError (Option Place × CommandTable) :=
  match a with
  | .memory => .ok (none, {})
  | .file path readOnly =>
    match fs.resolve path true with
    | .error _ => .error cannotOpen
    | .ok place =>
      match fs.entry? place with
      | some (.file number) =>
        match fs.content number with
        | .database t => .ok (some place, t)
        | .bytes content =>
          if content.size = 0 then (if readOnly then .error readOnlyFile else .ok (some place, {}))
          else .error notADatabase
      | none =>
        if readOnly ∨ path.getLast? = some Path.slash then .error cannotOpen
        else .ok (some place, {})
      | some .directory | some (.link _) => .error cannotOpen

end Address

/-- Opens the store that a URL names. -/
def TableStore.connect (url : String) (fs : Files) :
    Except QueueError (Option Place × TableStore) :=
  match Address.parse? url with
  | none => .error Address.malformed
  | some a => (a.openIn fs).map fun (place, t) => (place, .ofTable t)

/-- Opens the store in a database file. -/
def TableStore.openFile (path : String) (fs : Files) :
    Except QueueError (Option Place × TableStore) :=
  (Address.openIn (.file (Bytes.ofText path) false) fs).map fun (place, t) => (place, .ofTable t)

end LaneQueue
