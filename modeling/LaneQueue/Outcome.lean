import LaneQueue.Json.Read
import LaneQueue.Json.Write
/-!
# What a command body reports

Expected failures are outcomes. A recoverable one may be tried again, a fatal one never is.
-/
namespace LaneQueue

inductive Outcome where
  | success
  | recoverable (reason : String)
  | fatal (reason : String)
  deriving DecidableEq, Repr, Inhabited

namespace Outcome

def isSuccess : Outcome → Bool
  | success => true
  | _ => false

def toJson : Outcome → Json.Value
  | success => .object [("outcome", .text "success")]
  | recoverable r => .object [("outcome", .text "recoverable"), ("reason", .text r)]
  | fatal r => .object [("outcome", .text "fatal"), ("reason", .text r)]

/-- The outcomes by their tag. -/
def family : Json.Tagged Outcome where
  tag := "outcome"
  variants :=
    [("success", pure success),
      ("recoverable", recoverable <$> .field "reason" .text),
      ("fatal", fatal <$> .field "reason" .text)]

def reader : Json.Reader Outcome := family.reader

end Outcome

end LaneQueue
