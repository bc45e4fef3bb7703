import LaneQueue.Files.Path
import LaneQueue.Store.Table
/-!
# The file system

A tree of directories with files and symbolic links as its leaves, written as a list of places. A
file is known by a number and may lie at several places, which are then names of that one file (hard
links); a symbolic link has one name. Pipes, sockets and devices are left out, and so is whatever
depends on who asks. Looking up a path follows symbolic links as an operating system does, forty of
them at most.
-/
namespace LaneQueue

/-- Why the file system refuses. -/
inductive FileFault where
  | notFound
  | notDirectory
  | isDirectory
  | exists
  | nameTooLong
  | tooManyLinks
  | notEmpty
  /-- A dot or two at the end of a path name no entry that could be moved. -/
  | busy
  /-- The file system does not let the program do it. -/
  | denied
  /-- The bytes of a file that was to be read as text are no UTF-8. -/
  | notText
  /-- A name with a NUL in it never reaches the file system. -/
  | nulByte
  deriving DecidableEq, Repr

def FileFault.message : FileFault → String
  | notFound => "No such file or directory (os error 2)"
  | denied => "Permission denied (os error 13)"
  | busy => "Device or resource busy (os error 16)"
  | «exists» => "File exists (os error 17)"
  | notDirectory => "Not a directory (os error 20)"
  | isDirectory => "Is a directory (os error 21)"
  | nameTooLong => "File name too long (os error 36)"
  | notEmpty => "Directory not empty (os error 39)"
  | tooManyLinks => "Too many levels of symbolic links (os error 40)"
  | notText => "stream did not contain valid UTF-8"
  | nulByte => "file name contained an unexpected NUL byte"

/-- The names on the way from the root to a place, none of them a dot or two. -/
abbrev Place := List Bytes

/-- What lies at a place. -/
inductive Entry where
  /-- A name of the file with a number. -/
  | file (number : Nat)
  | directory
  | link (target : Bytes)
  deriving DecidableEq

/-- What a file holds. -/
inductive FileContent where
  | bytes (bytes : ByteArray)
  /-- A command table. -/
  | database (table : CommandTable)

/-- The places of a file system, and its files; the root is always a directory. -/
structure Files where
  entries : List (Place × Entry) := []
  /-- What the files hold, by their numbers; a file that is not listed is empty. -/
  contents : List (Nat × FileContent) := []
  /-- Where relative paths start. -/
  workingDirectory : Place := []
  /-- Directories whose entries cannot be listed. -/
  unreadable : List Place := []

namespace Files

def entry? (fs : Files) (place : Place) : Option Entry :=
  if place.isEmpty then some .directory else fs.entries.lookup place

def isDirectory (fs : Files) (place : Place) : Bool :=
  match fs.entry? place with
  | some .directory => true
  | _ => false

/-- What the file with a number holds. -/
def content (fs : Files) (number : Nat) : FileContent :=
  (fs.contents.lookup number).getD (.bytes .empty)

/-- What the file at a place holds. -/
def content? (fs : Files) (place : Place) : Option FileContent :=
  match fs.entry? place with
  | some (.file number) => some (fs.content number)
  | _ => none

/-- Whether two places are names of one file. -/
def areNamesOfOne (fs : Files) (a b : Place) : Bool :=
  match fs.entry? a, fs.entry? b with
  | some (.file m), some (.file n) => m == n
  | _, _ => false

/-- Goes from a directory along the parts of a path. A link is followed when more parts come or
when `follow` says so; a place that does not exist is reached only by the last part. -/
def walk (fs : Files) (follow : Bool) (links : Nat) (here : Place) (ps : List Bytes) :
    Except FileFault Place :=
  match ps with
  | [] => .ok here
  | p :: rest =>
    match fs.entry? here with
    | none => .error .notFound
    | some .directory =>
      if p = [Path.dot] then walk fs follow links here rest
      else if p = [Path.dot, Path.dot] then walk fs follow links here.dropLast rest
      else if 255 < p.length then .error .nameTooLong
      else
        match fs.entry? (here ++ [p]) with
        | some (.link target) =>
          if rest.isEmpty && !follow then .ok (here ++ [p])
          else
            match links with
            | 0 => .error .tooManyLinks
            | links + 1 =>
              walk fs follow links (if Path.isAbsolute target then [] else here)
                (Path.parts target ++ rest)
        | _ => walk fs follow links (here ++ [p]) rest
    | some _ => .error .notDirectory
termination_by (links, ps.length)

/-- The place that a path leads to; it exists, unless it is only a name in a directory. A path
that ends in a slash leads to a directory. -/
def resolve (fs : Files) (path : Bytes) (follow : Bool) : Except FileFault Place :=
  if path.contains 0 then .error .nulByte
  else if path.isEmpty then .error .notFound
  else if 4096 ≤ path.length then .error .nameTooLong
  else
    let start := if Path.isAbsolute path then [] else fs.workingDirectory
    let slashed := path.getLast? == some Path.slash
    match fs.walk (follow || slashed) 40 start (Path.parts path) with
    | .error e => .error e
    | .ok place =>
      if slashed && (fs.entry? place).isSome && !fs.isDirectory place then .error .notDirectory
      else .ok place

/-- The entry that a path leads to, links followed. -/
def find (fs : Files) (path : Bytes) : Except FileFault Entry :=
  match fs.resolve path true with
  | .error e => .error e
  | .ok place =>
    match fs.entry? place with
    | some e => .ok e
    | none => .error .notFound

/-- Whether a path leads to something. Paths that cannot be followed lead to nothing. -/
def leads (fs : Files) (path : Bytes) : Bool := (fs.find path).toOption.isSome

/-- Whether a path leads to something; only a missing entry or directory on the way is a no. -/
def exists? (fs : Files) (path : Bytes) : Except FileFault Bool :=
  match fs.find path with
  | .ok _ => .ok true
  | .error .notFound => .ok false
  | .error e => .error e

/-- The bytes of the file that a path leads to. -/
def read (fs : Files) (path : Bytes) : Except FileFault ByteArray :=
  match fs.find path with
  | .error e => .error e
  | .ok .directory => .error .isDirectory
  | .ok (.link _) => .ok .empty
  | .ok (.file number) =>
    match fs.content number with
    | .bytes bytes => .ok bytes
    | .database _ => .ok .empty

def readText (fs : Files) (path : Bytes) : Except FileFault String :=
  match fs.read path with
  | .error e => .error e
  | .ok content =>
    match String.fromUTF8? content with
    | some s => .ok s
    | none => .error .notText

/-- The entries of the directory at a place. -/
def children (fs : Files) (dir : Place) : List (Bytes × Entry) :=
  fs.entries.filterMap fun (place, e) =>
    match place.getLast? with
    | some name => if place = dir ++ [name] then some (name, e) else none
    | none => none

/-- The entries of the directory that a path leads to. -/
def list (fs : Files) (path : Bytes) : Except FileFault (List (Bytes × Entry)) :=
  match fs.resolve path true with
  | .error e => .error e
  | .ok place =>
    match fs.entry? place with
    | some .directory => if place ∈ fs.unreadable then .error .denied else .ok (fs.children place)
    | some _ => .error .notDirectory
    | none => .error .notFound

/-- Puts an entry at a place. -/
def put (fs : Files) (place : Place) (e : Entry) : Files :=
  { fs with entries := fs.entries.filter (fun x => x.1 != place) ++ [(place, e)] }

/-- A number that no file has yet. -/
def fresh (fs : Files) : Nat :=
  (fs.entries.map fun x => match x.2 with
    | .file number => number + 1
    | .directory | .link _ => 0).foldr max 0

/-- Changes what the file with a number holds, whatever its names are. -/
def setContent (fs : Files) (number : Nat) (c : FileContent) : Files :=
  { fs with contents := (number, c) :: fs.contents.filter fun x => x.1 != number }

/-- Fills the file at a place; where there is none, a new one is made. -/
def fill (fs : Files) (place : Place) (c : FileContent) : Files :=
  match fs.entry? place with
  | some (.file number) => fs.setContent number c
  | _ => (fs.put place (.file fs.fresh)).setContent fs.fresh c

/-- Makes a directory at every place on the way that holds nothing. -/
def putDirectories (fs : Files) (place : Place) : Files :=
  (List.range place.length).foldl (fun fs n =>
    let dir := place.take (n + 1)
    if (fs.entry? dir).isSome then fs else fs.put dir .directory) fs

/-- Makes one directory in a directory that is there. -/
def createDirectory (fs : Files) (path : Bytes) : Except FileFault Files :=
  match fs.resolve path false with
  | .error e => .error e
  | .ok place => if (fs.entry? place).isSome then .error .exists else .ok (fs.put place .directory)

/-- Whether a path leads to a directory. -/
def leadsToDirectory (fs : Files) (path : Bytes) : Bool :=
  match fs.find path with
  | .ok .directory => true
  | _ => false

/-- Makes the directory of a path and those that it lies in, as far as they are missing. What was
made before a failure stays. -/
def createDirectories (fs : Files) (path : Bytes) : Option FileFault × Files :=
  let (absolute, names) := Path.components path
  go absolute names.reverse fs
where
  attempt (dir : Bytes) (fs : Files) : Option FileFault × Files :=
    match fs.createDirectory dir with
    | .ok fs => (none, fs)
    | .error e => (if fs.leadsToDirectory dir then none else some e, fs)
  /-- The names are given from the last one up. -/
  go (absolute : Bool) : List Bytes → Files → Option FileFault × Files
    | [], fs => (none, fs)
    | name :: above, fs =>
      let dir := Path.ofComponents absolute (name :: above).reverse
      match attempt dir fs with
      | (some .notFound, fs) =>
        match go absolute above fs with
        | (none, fs) => attempt dir fs
        | failed => failed
      | settled => settled

/-- Writes a file, over one that is there. -/
def write (fs : Files) (path : Bytes) (content : ByteArray) : Except FileFault Files :=
  match fs.resolve path true with
  | .error e => .error e
  | .ok place =>
    if path.getLast? == some Path.slash then .error .isDirectory
    else if fs.isDirectory place then .error .isDirectory
    else .ok (fs.fill place (.bytes content))

/-- Moves a file or a link over the entry of another path, which may only be a file or a link itself
and is replaced; links are not followed. Two names of one file both stay. -/
def rename (fs : Files) (source target : Bytes) : Except FileFault Files :=
  match fs.resolve source false, fs.resolve target false with
  | .error e, _ => .error e
  | _, .error e => .error e
  | .ok a, .ok b =>
    if Path.endsInDots target then .error .busy
    else
      match fs.entry? a with
      | none => .error .notFound
      | some e =>
        if target.getLast? == some Path.slash then .error .notDirectory
        else if fs.isDirectory b then .error .isDirectory
        else if a = b || fs.areNamesOfOne a b then .ok fs
        else .ok ({ fs with entries := fs.entries.filter fun x => x.1 != a }.put b e)

end Files

end LaneQueue
