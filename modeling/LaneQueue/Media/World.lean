import LaneQueue.Files.Tree
/-!
# The world of the media commands

The files that are hashed and fetched, the digests found so far, and the image servers.
-/
namespace LaneQueue

/-- What a request for an image ends in. -/
inductive Reception where
  /-- No answer came. -/
  | unreachable
  /-- The last answer, redirects followed: its status, the length it declares, and its body unless
  that broke off. -/
  | answer (status : Nat) (declared : Option Nat) (body : Option ByteArray)

/-- The latest digest of every hashed path; paths with equal components are one. -/
structure Digests where
  entries : List (Bytes × String) := []
  deriving DecidableEq

namespace Digests

def get? (d : Digests) (path : Bytes) : Option String :=
  (d.entries.find? fun e => Path.same e.1 path).map (·.2)

def record (d : Digests) (path : Bytes) (digest : String) : Digests :=
  ⟨(path, digest) :: d.entries.filter fun e => !Path.same e.1 path⟩

def size (d : Digests) : Nat := d.entries.length

end Digests

structure Media where
  files : Files := {}
  digests : Digests := {}
  /-- What a request for a URL brings, by the number of requests before it. -/
  fetch : Nat → String → Reception := fun _ _ => .unreachable
  requests : Nat := 0

/-- The stored form of a path, which is a text. -/
def Path.toJson (path : Bytes) : Except String Json.Value :=
  match path.text? with
  | some s => .ok (.text s)
  | none => .error "path contains invalid UTF-8 characters"

def Path.reader : Json.Reader Bytes := fun t => (Json.Reader.text t).map Bytes.ofText

end LaneQueue
