import LaneQueue.Store.Contract
/-!
# One of two stores

A store that is chosen when the program starts offers whatever the chosen one does.
-/
namespace LaneQueue

namespace StoreChoice

variable {σ τ α : Type} [QueueStore σ] [QueueStore τ]

/-- Makes a call on whichever store it is. -/
def call (f : σ → Result σ α) (g : τ → Result τ α) : σ ⊕ τ → Result (σ ⊕ τ) α
  | .inl s => ((f s).1, .inl (f s).2)
  | .inr s => ((g s).1, .inr (g s).2)

instance : QueueStore (σ ⊕ τ) where
  insert c now := call (QueueStore.insert c now) (QueueStore.insert c now)
  submit c p now := call (QueueStore.submit c p now) (QueueStore.submit c p now)
  deleteByIdentity i := call (QueueStore.deleteByIdentity i) (QueueStore.deleteByIdentity i)
  findByIdentity i := Sum.elim (QueueStore.findByIdentity i) (QueueStore.findByIdentity i)
  nextEligible l now := call (QueueStore.nextEligible l now) (QueueStore.nextEligible l now)
  retire r := call (QueueStore.retire r) (QueueStore.retire r)
  reschedule r n t := call (QueueStore.reschedule r n t) (QueueStore.reschedule r n t)
  release r := Sum.map (QueueStore.release r) (QueueStore.release r)
  pendingCount l := Sum.elim (QueueStore.pendingCount l) (QueueStore.pendingCount l)
  nextWakeAt l now := Sum.elim (QueueStore.nextWakeAt l now) (QueueStore.nextWakeAt l now)
  purgeLane l := call (QueueStore.purgeLane l) (QueueStore.purgeLane l)
  recover := call QueueStore.recover QueueStore.recover

end StoreChoice

end LaneQueue
