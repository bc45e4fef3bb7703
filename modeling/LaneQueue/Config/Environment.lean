import LaneQueue.Text.Blank
/-!
# Settings from environment variables

The variables that the program reads, kept as they are written. A blank value counts as unset, and
some settings have a second variable behind the first.
-/
namespace LaneQueue

/-- The trimmed parts between commas that are not blank. -/
def commaSeparated (raw : String) : List String :=
  ((raw.toList.splitOn ',').map fun part => trim (String.ofList part)).filter (· != "")

structure Environment where
  configPath : Option String := none
  configJson : Option String := none
  host : Option String := none
  port : Option String := none
  databaseUrl : Option String := none
  pausedLanes : Option (List String) := none
  deriving DecidableEq, Repr

namespace Environment

/-- The value of a variable, unless it is blank. -/
def value? (lookup : String → Option String) (name : String) : Option String :=
  (lookup name).filter fun v => !isBlankText v

/-- The variables that are read. -/
def names : List String :=
  ["MEDIAQ_CONFIG_PATH", "MEDIAQ_CONFIG_JSON", "MEDIAQ_HOST", "SERVER_HOST", "MEDIAQ_PORT",
    "SERVER_PORT", "MEDIAQ_DATABASE_URL", "DATABASE_URL", "MEDIAQ_PAUSED_LANES"]

def ofLookup (lookup : String → Option String) : Environment where
  configPath := value? lookup "MEDIAQ_CONFIG_PATH"
  configJson := value? lookup "MEDIAQ_CONFIG_JSON"
  host := (value? lookup "MEDIAQ_HOST").or (value? lookup "SERVER_HOST")
  port := (value? lookup "MEDIAQ_PORT").or (value? lookup "SERVER_PORT")
  databaseUrl := (value? lookup "MEDIAQ_DATABASE_URL").or (value? lookup "DATABASE_URL")
  pausedLanes := (value? lookup "MEDIAQ_PAUSED_LANES").map commaSeparated

end Environment

end LaneQueue
