import LaneQueue.Command.Class
import LaneQueue.Hash.Sha256
import LaneQueue.Media.World
/-!
# Hashing a file

Reads a file and records its SHA-256 digest under its path. A file that is gone is a fatal
outcome, any other failure to read it is an error.
-/
namespace LaneQueue

structure HashFile where
  path : Bytes
  deriving DecidableEq, Repr

namespace HashFile

def body (c : HashFile) : Body Media :=
  .act
    (fun w =>
      match w.files.read c.path with
      | .ok content => { w with digests := w.digests.record c.path (Sha256.hexDigest content) }
      | .error _ => w)
    fun w =>
      match w.files.read c.path with
      | .ok _ => .succeed
      | .error .notFound => .done (.outcome (.fatal (c.path.shown ++ " no longer exists")))
      | .error e => .done (.error e.message)

def commands : CommandClass Media HashFile where
  descriptor := { tag := "HashFile", lane := Resource.fileHash.lane, priority := ⟨3⟩ }
  identity c := "HashFile:" ++ c.path.shown
  description c := "Hashing " ++ c.path.shown
  encode c := (Path.toJson c.path).map fun path => .object [("path", path)]
  reader := (HashFile.mk <$> Json.Fields.field "path" Path.reader).reader
  body c _ := c.body

end HashFile

end LaneQueue
