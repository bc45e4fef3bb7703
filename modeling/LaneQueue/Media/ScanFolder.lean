import LaneQueue.Media.HashFile
/-!
# Scanning a folder

Walks a folder and submits the hashing of every regular file in it. Only the folder itself has to
be readable: a folder below it that is not is passed over. Links below it are not followed. A folder
that has been opened is listed to its end, and the kind of every entry is known: a medium that fails
in the midst of a listing, at which the rest of that folder or that one entry would be passed over,
is left out.
-/
namespace LaneQueue

structure ScanFolder where
  path : Bytes
  deriving DecidableEq, Repr

/-- The entries of a directory, or why they cannot be read. -/
abbrev Listing := Bytes → Except FileFault (List (Bytes × Entry))

namespace ScanFolder

def isRegular : Entry → Bool
  | .file _ => true
  | .directory | .link _ => false

/-- The paths of the entries of a directory that satisfy a condition. -/
def pathsOf (dir : Bytes) (p : Entry → Bool) (entries : List (Bytes × Entry)) : List Bytes :=
  (entries.filter fun e => p e.2).map fun e => Path.join dir e.1

def isFolder : Entry → Bool
  | .directory => true
  | _ => false

/-- The regular files in some directories and below them, the directory found last walked first. A
directory is listed once, so as many steps as there are directories are enough. -/
def regularFiles (list : Listing) : Nat → List Bytes → List Bytes
  | 0, _ => []
  | _, [] => []
  | steps + 1, dir :: rest =>
    match list dir with
    | .error _ => regularFiles list steps rest
    | .ok entries =>
      pathsOf dir isRegular entries ++
        regularFiles list steps ((pathsOf dir isFolder entries).reverse ++ rest)

/-- Submits the hashing of one file after the other; a failed submission ends the scan. -/
def submitAll : List Bytes → Body Media
  | [] => .succeed
  | path :: rest =>
    .ask (.submit (HashFile.commands.draft ⟨path⟩) {}) fun
      | .failed e => .done (.error e.chain)
      | _ => submitAll rest

/-- What a scan does with the files as they are. -/
def scan (c : ScanFolder) (fs : Files) : Body Media :=
  match fs.exists? c.path with
  | .error e => .done (.error e.message)
  | .ok false => .done (.outcome (.fatal (c.path.shown ++ " does not exist")))
  | .ok true =>
    match fs.list c.path with
    | .error e => .done (.error e.message)
    | .ok _ => submitAll (regularFiles fs.list (fs.entries.length + 1) [c.path])

def commands : CommandClass Media ScanFolder where
  descriptor := { tag := "ScanFolder", lane := Resource.database.lane, priority := ⟨1⟩ }
  identity c := "ScanFolder:" ++ c.path.shown
  description c := "Scanning " ++ c.path.shown
  encode c := (Path.toJson c.path).map fun path => .object [("path", path)]
  reader := (ScanFolder.mk <$> Json.Fields.field "path" Path.reader).reader
  body c _ := .act id fun w => c.scan w.files

end ScanFolder

end LaneQueue
