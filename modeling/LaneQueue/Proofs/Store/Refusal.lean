import LaneQueue.Proofs.Store.Table
/-!
# A table whose medium refuses statements

`ShakyTable` is a table together with the failures that its next calls meet. Where the medium refuses
the statement of a call the rows stay as they are, but what is kept beside them has been changed by
then: a settlement has dropped its claim, and a recovery has dropped all claims. Such a store obeys
the laws, so what is proved of all lawful stores is proved for every pattern of refusals.
-/
namespace LaneQueue

structure ShakyTable where
  table : TableStore
  /-- The failures of the calls to come, in their order. -/
  refusals : List (Option QueueError) := []

namespace ShakyTable

/-- Makes a call. One that is refused does what it does on a closed table. -/
def call {α : Type} (f : TableStore → Result TableStore α) (s : ShakyTable) :
    Result ShakyTable α :=
  match s.refusals with
  | some e :: refusals =>
    (.error e, ⟨{ (f s.table.close).2 with isOpen := s.table.isOpen }, refusals⟩)
  | refusals => ((f s.table).1, ⟨(f s.table).2, refusals.tail⟩)

instance : QueueStore ShakyTable where
  insert c now := call (QueueStore.insert c now)
  submit c p now := call (QueueStore.submit c p now)
  deleteByIdentity i := call (QueueStore.deleteByIdentity i)
  findByIdentity i s := QueueStore.findByIdentity i s.table
  nextEligible l now := call (QueueStore.nextEligible l now)
  retire r := call (QueueStore.retire r)
  reschedule r n t := call (QueueStore.reschedule r n t)
  release r s := { s with table := QueueStore.release r s.table }
  pendingCount l s := QueueStore.pendingCount l s.table
  nextWakeAt l now s := QueueStore.nextWakeAt l now s.table
  purgeLane l := call (QueueStore.purgeLane l)
  recover := call QueueStore.recover

variable {s : ShakyTable}

/-- What holds of a call on the table, open or closed, holds of one that may be refused. -/
theorem call_law {α : Type} {f : TableStore → Result TableStore α}
    {P : Except QueueError α → Ledger → Prop}
    (herror : ∀ {e e' : QueueError} {l : Ledger}, P (.error e) l → P (.error e') l)
    (hmade : P (f s.table).1 (f s.table).2.ledger)
    (hclosed : P (f s.table.close).1 (f s.table.close).2.ledger)
    (hrefused : ∃ e, (f s.table.close).1 = .error e) :
    P (s.call f).1 (s.call f).2.table.ledger := by
  unfold call
  split
  · obtain ⟨e, he⟩ := hrefused
    rw [he] at hclosed
    exact herror hclosed
  · exact hmade

instance : LawfulStore ShakyTable where
  ledger s := s.table.ledger
  isOpen _ := false
  insert {s} hs c now := call_law id (LawfulStore.insert (σ := TableStore) hs c now)
    (LawfulStore.insert (s := s.table.close) hs c now) ⟨_, rfl⟩
  submit {s} hs c p now := call_law id (LawfulStore.submit (σ := TableStore) hs c p now)
    (LawfulStore.submit (s := s.table.close) hs c p now) ⟨_, rfl⟩
  deleteByIdentity {s} hs i := call_law id (LawfulStore.deleteByIdentity (σ := TableStore) hs i)
    (LawfulStore.deleteByIdentity (s := s.table.close) hs i) ⟨_, rfl⟩
  findByIdentity {s} hs i := LawfulStore.findByIdentity (s := s.table) hs i
  nextEligible {s} hs l now := call_law id (LawfulStore.nextEligible (σ := TableStore) hs l now)
    (LawfulStore.nextEligible (s := s.table.close) hs l now) ⟨_, rfl⟩
  retire {s} hs r := call_law id (LawfulStore.retire (σ := TableStore) hs r)
    (LawfulStore.retire (s := s.table.close) hs r) ⟨_, rfl⟩
  reschedule {s} hs r n t := call_law id (LawfulStore.reschedule (σ := TableStore) hs r n t)
    (LawfulStore.reschedule (s := s.table.close) hs r n t) ⟨_, rfl⟩
  release s r := LawfulStore.release s.table r
  pendingCount {s} hs l := LawfulStore.pendingCount (s := s.table) hs l
  nextWakeAt {s} hs l now := LawfulStore.nextWakeAt (s := s.table) hs l now
  purgeLane {s} hs l := call_law id (LawfulStore.purgeLane (σ := TableStore) hs l)
    (LawfulStore.purgeLane (s := s.table.close) hs l) ⟨_, rfl⟩
  recover {s} hs := call_law (P := fun _ => s.table.ledger.Recovers) id
    (LawfulStore.recover (σ := TableStore) hs) (LawfulStore.recover (s := s.table.close) hs) ⟨_, rfl⟩
  isOpen_run _ _ _ := rfl
  wakes ho := by cases ho
  answers _ ho := by cases ho

end ShakyTable

end LaneQueue
