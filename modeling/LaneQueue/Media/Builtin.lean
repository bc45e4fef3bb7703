import LaneQueue.Command.Registry
import LaneQueue.Media.FetchImage
import LaneQueue.Media.ScanFolder
/-!
# The media commands

The classes that a server offers. A class that has ever been offered stays, as its stored commands
could not be read back without it.
-/
namespace LaneQueue

namespace Media

def classes : List (Registration Media) :=
  [ScanFolder.commands.registration, HashFile.commands.registration,
    FetchImage.commands.registration]

end Media

end LaneQueue
