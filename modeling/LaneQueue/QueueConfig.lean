import LaneQueue.Retry
import LaneQueue.Event
/-!
# Queue settings

Every setting has a default, so a file may give a part of them.
-/
namespace LaneQueue

namespace RetryConfig

def toJson (c : RetryConfig) : Json.Value :=
  .object [("max_attempts", .nat c.maxAttempts.toNat),
    ("backoff_base_ms", .nat c.backoffBaseMs.toNat), ("backoff_max_ms", .nat c.backoffMaxMs.toNat),
    ("jitter_ratio", .single c.jitterRatio)]

open Json (Fields Reader) in
/-- The fields, absent ones as in another configuration. -/
def fieldsOver (c : RetryConfig) : Fields RetryConfig :=
  (fun a b m j => ⟨a, b, m, j⟩) <$> .field "max_attempts" Reader.word32 (.ok c.maxAttempts) <*>
    .field "backoff_base_ms" Reader.word64 (.ok c.backoffBaseMs) <*>
    .field "backoff_max_ms" Reader.word64 (.ok c.backoffMaxMs) <*>
    .field "jitter_ratio" Reader.single (.ok c.jitterRatio)

def reader : Json.Reader RetryConfig := (fieldsOver {}).reader

end RetryConfig

structure QueueConfig where
  retry : RetryConfig := {}
  /-- Events kept for each subscriber before it falls behind. -/
  eventChannelCapacity : UInt64 := 1024
  /-- How long a shutdown waits for commands in flight. -/
  shutdownGraceMs : UInt64 := 10000
  /-- The pause before the one retry of a failed storage call. -/
  storeRetryDelayMs : UInt64 := 250
  /-- Lanes that are paused from the start. -/
  pausedLanes : List Lane := []
  deriving DecidableEq, Repr

namespace QueueConfig

def toJson (c : QueueConfig) : Json.Value :=
  .object [("retry", c.retry.toJson),
    ("event_channel_capacity", .nat c.eventChannelCapacity.toNat),
    ("shutdown_grace_ms", .nat c.shutdownGraceMs.toNat),
    ("store_retry_delay_ms", .nat c.storeRetryDelayMs.toNat),
    ("paused_lanes", .array (c.pausedLanes.map Lane.toJson))]

open Json (Fields Reader) in
def fieldsOver (c : QueueConfig) : Fields QueueConfig :=
  (fun r e s d p => ⟨r, e, s, d, p⟩) <$>
    .field "retry" (RetryConfig.fieldsOver c.retry).reader (.ok c.retry) <*>
    .field "event_channel_capacity" Reader.word64 (.ok c.eventChannelCapacity) <*>
    .field "shutdown_grace_ms" Reader.word64 (.ok c.shutdownGraceMs) <*>
    .field "store_retry_delay_ms" Reader.word64 (.ok c.storeRetryDelayMs) <*>
    .field "paused_lanes" (Reader.list Lane.reader) (.ok c.pausedLanes)

def reader : Json.Reader QueueConfig := (fieldsOver {}).reader

end QueueConfig

end LaneQueue
