import LaneQueue.Conflict
import LaneQueue.Main
import LaneQueue.Http.EventStream
import LaneQueue.Proofs.Scheduler.Accepted
import LaneQueue.Proofs.Scheduler.Backoff
import LaneQueue.Proofs.Store.Agreement
import LaneQueue.Proofs.Store.Bookkeeping
import LaneQueue.Script.Classes
import LaneQueue.Store.Choice
import LaneQueue.Store.Memory
import LaneQueue.Proofs.Scheduler.Exclusive
import LaneQueue.Proofs.Scheduler.Replacement
import LaneQueue.Proofs.Scheduler.Recovery
import LaneQueue.Proofs.Scheduler.Rescheduling
import LaneQueue.Proofs.Scheduler.Retries
import LaneQueue.Proofs.Scheduler.Wakeups
import LaneQueue.Proofs.Scheduler.Submissions
import LaneQueue.Proofs.Scheduler.Yields
import LaneQueue.Proofs.Scheduler.Draining
import LaneQueue.Proofs.Scheduler.Pausing
import LaneQueue.Proofs.Store.Lineup
import LaneQueue.Proofs.Scheduler.Pending
import LaneQueue.Proofs.Scheduler.ServiceOrder
import LaneQueue.Proofs.Scheduler.Overtaking
import LaneQueue.Proofs.Scheduler.Display
import LaneQueue.Proofs.Scheduler.States
import LaneQueue.Proofs.Scheduler.Clearing
import LaneQueue.Proofs.Scheduler.Resting
import LaneQueue.Proofs.Store.LanesApart
import LaneQueue.Proofs.Store.Failures
import LaneQueue.Proofs.Store.Unreadable
import LaneQueue.Proofs.Store.Races
import LaneQueue.Proofs.Files.Scan
import LaneQueue.Proofs.Media.Scanning
import LaneQueue.Proofs.Media.Payloads
import LaneQueue.Proofs.Http.EventStream
import LaneQueue.Proofs.Config.Layers
import LaneQueue.Proofs.Retry.Doubling
import LaneQueue.Proofs.Media.Fetching
import LaneQueue.Proofs.Scheduler.Starting
import LaneQueue.Proofs.Scheduler.FlagEvents
