/-!
# The event bus

Every subscriber sees the events that are published after it came, in their order. The bus keeps
as many events as its capacity, rounded up to a power of two. A subscriber that needs an older one
is told how many it missed and goes on with the oldest one kept. The whole history is a part of
the bus, so that one can speak of everything that was ever published; no answer depends on more of
it than the events that are kept.
-/
namespace LaneQueue

structure EventBus (α : Type) where
  capacity : Nat
  /-- Everything published so far, the latest event first. -/
  history : List α := []
  /-- For each subscriber the number of events that are behind it. -/
  cursors : List (Nat × Nat) := []
  /-- The number of the next subscriber. -/
  nextReader : Nat := 0

/-- What a subscriber receives. -/
inductive Received (α : Type) where
  | event (e : α)
  | empty
  /-- Events that were lost. -/
  | lagged (missed : Nat)
  deriving DecidableEq, Repr

namespace EventBus

variable {α : Type}

def ofCapacity (n : Nat) : EventBus α := { capacity := Nat.nextPowerOfTwo (max n 1) }

/-- Everything published so far, in order. -/
def published (b : EventBus α) : List α := b.history.reverse

/-- The number of events published so far. -/
def sent (b : EventBus α) : Nat := b.history.length

/-- The number of events behind the oldest one kept. -/
def oldest (b : EventBus α) : Nat := b.sent - b.capacity

/-- The events from a place in the history on. -/
def since (b : EventBus α) (cursor : Nat) : List α := (b.history.take (b.sent - cursor)).reverse

def readerCount (b : EventBus α) : Nat := b.cursors.length

def subscribe (b : EventBus α) : Nat × EventBus α :=
  (b.nextReader,
    { b with cursors := b.cursors ++ [(b.nextReader, b.sent)], nextReader := b.nextReader + 1 })

def unsubscribe (b : EventBus α) (reader : Nat) : EventBus α :=
  { b with cursors := b.cursors.filter (fun c => c.1 != reader) }

def publish (b : EventBus α) (e : α) : EventBus α := { b with history := e :: b.history }

@[simp] theorem published_publish (b : EventBus α) (e : α) :
    (b.publish e).published = b.published ++ [e] := by
  simp [published, publish]

@[simp] theorem sent_publish (b : EventBus α) (e : α) : (b.publish e).sent = b.sent + 1 := rfl

@[simp] theorem published_subscribe (b : EventBus α) :
    b.subscribe.2.published = b.published := rfl

def moveTo (b : EventBus α) (reader cursor : Nat) : EventBus α :=
  { b with cursors := b.cursors.map fun c => if c.1 = reader then (reader, cursor) else c }

/-- What a subscriber receives next. -/
def receive (b : EventBus α) (reader : Nat) : Received α × EventBus α :=
  match b.cursors.lookup reader with
  | none => (.empty, b)
  | some c =>
    if c < b.oldest then (.lagged (b.oldest - c), b.moveTo reader b.oldest)
    else
      match (b.since c).head? with
      | some e => (.event e, b.moveTo reader (c + 1))
      | none => (.empty, b)

/-- Receiving changes nothing for other subscribers to come. -/
@[simp] theorem published_receive (b : EventBus α) (reader : Nat) :
    (b.receive reader).2.published = b.published := by
  unfold receive
  split
  · rfl
  · split
    · rfl
    · split <;> rfl

/-- Everything that waits for a subscriber, and how many events it lost. -/
def drain (b : EventBus α) (reader : Nat) : List α × Nat × EventBus α :=
  match b.cursors.lookup reader with
  | none => ([], 0, b)
  | some c => (b.since (max c b.oldest), b.oldest - c, b.moveTo reader b.sent)

end EventBus

end LaneQueue
