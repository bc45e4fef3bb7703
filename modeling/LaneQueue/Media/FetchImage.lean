import LaneQueue.Command.Class
import LaneQueue.Http.StatusCode
import LaneQueue.Media.World
/-!
# Fetching an image

Downloads an image beside its destination and then moves it there, so that the destination never
holds half an image. Server errors and throttling may pass and are recoverable, as is a broken
exchange; any other refusal is fatal. What the client itself says of a broken exchange is left out of
the reason.
-/
namespace LaneQueue

structure FetchImage where
  url : String
  dest : Bytes
  deriving DecidableEq, Repr

namespace FetchImage

/-- The status by which a server asks its clients to slow down. -/
def tooManyRequests : HttpStatus := 429

/-- The outcome of a refusal. -/
def refusal (status : HttpStatus) : Outcome :=
  if status.isServerError || status == tooManyRequests then
    .recoverable ("HTTP " ++ status.render)
  else .fatal ("HTTP " ++ status.render)

/-- The image in an answer, or the outcome without one. -/
def imageOf : Reception → Except Outcome ByteArray
  | .unreachable => .error (.recoverable "request failed")
  | .answer status declared body =>
    if !HttpStatus.isSuccess status then .error (refusal status)
    else
      match body with
      | none => .error (.recoverable "failed to read image body")
      | some image =>
        match declared with
        | none => .ok image
        | some n =>
          if image.size = n then .ok image
          else .error (.recoverable ("image size mismatch: got " ++ toString image.size ++
            " bytes, expected " ++ toString n))

/-- Where an image is written before it is moved. -/
def partialPath (dest : Bytes) : Bytes := Path.withExtension dest (Bytes.ofText "part")

/-- Stores an image: the directory of the destination, the file beside it, and the move. What was
done before a failure stays. -/
def store (image : ByteArray) (dest : Bytes) (fs : Files) : Option FileFault × Files :=
  let made :=
    match Path.parent? dest with
    | some dir => fs.createDirectories dir
    | none => (none, fs)
  match made with
  | (some e, fs) => (some e, fs)
  | (none, fs) =>
    match fs.write (partialPath dest) image with
    | .error e => (some e, fs)
    | .ok fs =>
      match fs.rename (partialPath dest) dest with
      | .error e => (some e, fs)
      | .ok fs => (none, fs)

/-- The end of an exchange and the files after it. -/
def settle (c : FetchImage) (r : Reception) (fs : Files) : Finish × Files :=
  match imageOf r with
  | .error o => (.outcome o, fs)
  | .ok image =>
    match store image c.dest fs with
    | (some e, fs) => (.error e.message, fs)
    | (none, fs) => (.outcome .success, fs)

def exchange (c : FetchImage) (w : Media) : Finish × Files :=
  c.settle (w.fetch w.requests c.url) w.files

def commands : CommandClass Media FetchImage where
  descriptor :=
    { tag := "FetchImage", lane := Resource.imageFetch.lane, bubbles := true, conflict := .replace }
  identity c := "FetchImage:" ++ c.dest.shown
  description c := "Downloading " ++ c.url
  encode c := (Path.toJson c.dest).map fun dest => .object [("url", .text c.url), ("dest", dest)]
  reader :=
    (FetchImage.mk <$> Json.Fields.field "url" Json.Reader.text <*>
      Json.Fields.field "dest" Path.reader).reader
  body c _ :=
    .act (fun w => { w with files := (c.exchange w).2, requests := w.requests + 1 })
      fun w => .done (c.exchange w).1

end FetchImage

end LaneQueue
