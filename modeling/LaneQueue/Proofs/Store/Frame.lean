import LaneQueue.Proofs.Store.Laws
/-!
# What a call leaves alone

A call that succeeds changes or removes only the rows it is about: those of an identity it replaces or
deletes, the waiting ones of a lane it purges, the one it settles. A call that fails changes none.
-/
namespace LaneQueue

namespace Operation

/-- Whether an operation may remove a row. -/
def Removes (l : Ledger) (row : Row) : Operation → Prop
  | .submit c p => p = .replace ∧ c.identity = row.identity
  | .deleteByIdentity i => row.identity = i
  | .retire r => row.identity = r.identity ∧ row.seq = r.seq
  | .purgeLane lane => row.lane = lane.index ∧ row.seq ∉ l.claimed
  | _ => False

/-- Whether an operation may remove a row, or set its failed attempts and its next instant. -/
def Concerns (l : Ledger) (row : Row) : Operation → Prop
  | .reschedule r _ _ => row.identity = r.identity ∧ row.seq = r.seq
  | op => op.Removes l row

end Operation

namespace Ledger

variable {l l' : Ledger} {now : Instant} {op : Operation}

theorem mem_add {row : Row} (h : row ∈ l.rows) (c : NewCommand) (now : Instant) :
    row ∈ (l.add c now).rows := List.mem_append_left _ h

/-- A row that an edit is not about stays as it is. -/
theorem Edit.keeps_row (h : l.Edit now op l') {row : Row} (hr : row ∈ l.rows)
    (hop : ¬ op.Concerns l row) : row ∈ l'.rows := by
  cases h with
  | insert | submit => exact mem_add hr _ now
  | @replace c =>
    have hne : row.identity ≠ c.identity := fun hi => hop ⟨rfl, hi.symm⟩
    have hw : row ∈ (l.without c.identity).rows := List.mem_filter.2 ⟨hr, by simpa using hne⟩
    exact mem_add hw c now
  | delete i =>
    have hne : row.identity ≠ i := hop
    exact List.mem_filter.2 ⟨hr, by simpa using hne⟩
  | remove r =>
    refine List.mem_filter.2 ⟨hr, ?_⟩
    cases ho : TableStore.isRowOf r row with
    | false => rfl
    | true => exact absurd (isRowOf_iff.1 ho) hop
  | postpone r n t =>
    refine List.mem_map.2 ⟨row, hr, if_neg fun ho => hop (isRowOf_iff.1 ho)⟩
  | purge lane =>
    refine List.mem_filter.2 ⟨hr, ?_⟩
    cases hw : l.isWaiting lane row with
    | false => rfl
    | true => exact absurd (isWaiting_iff.1 hw) hop
  | same | claim | keep | leave | release | recover => exact hr

/-- A stored command stays stored unless its row is removed. -/
theorem Edit.stores (h : l.Edit now op l') {c : NewCommand} {q : Int} {row : Row}
    (hr : row ∈ l.rows) (hc : row.Carries c q) (hop : ¬ op.Removes l row) : l'.Stores c q := by
  by_cases hcon : op.Concerns l row
  · cases h with
    | postpone r n t =>
      refine ⟨_, List.mem_map.2 ⟨row, hr, if_pos (isRowOf_iff.2 hcon)⟩, hc.postponed _ _⟩
    | leave | same => exact ⟨row, hr, hc⟩
    | insert | submit | replace | delete | claim | remove | keep | release | purge | recover =>
      exact absurd hcon hop
  · exact ⟨row, h.keeps_row hr hcon, hc⟩

end Ledger

namespace LawfulStore

open Ledger

variable {σ : Type} [QueueStore σ] [LawfulStore σ] {s : σ}

theorem eq_error_of_map {ε α β : Type} {f : α → β} {x : Except ε α} {e : ε}
    (h : x.map f = .error e) : x = .error e := by
  cases x with
  | error d => exact congrArg Except.error (Except.error.inj h)
  | ok a => cases h

/-- A call that fails leaves all rows as they are. -/
theorem rows_of_error (hs : (ledger s).Sound) {op : Operation} {now : Instant} {e : QueueError}
    (he : (op.run now s).1 = .error e) : (ledger (op.run now s).2).rows = (ledger s).rows := by
  cases op with
  | insert c =>
    have h := LawfulStore.insert hs c now
    rw [eq_error_of_map he] at h
    exact congrArg Ledger.rows h
  | submit c p =>
    have h := LawfulStore.submit hs c p now
    rw [eq_error_of_map he] at h
    exact congrArg Ledger.rows h
  | deleteByIdentity i =>
    have h := LawfulStore.deleteByIdentity hs i
    rw [eq_error_of_map he] at h
    exact congrArg Ledger.rows h
  | nextEligible l =>
    have h := LawfulStore.nextEligible hs l now
    rw [eq_error_of_map he] at h
    exact congrArg Ledger.rows h
  | retire r =>
    have h := LawfulStore.retire hs r
    rw [eq_error_of_map he] at h
    have hrows := congrArg Ledger.rows h
    exact hrows
  | reschedule r n t =>
    have h := LawfulStore.reschedule hs r n t
    rw [eq_error_of_map he] at h
    have hrows := congrArg Ledger.rows h
    exact hrows
  | purgeLane l =>
    have h := LawfulStore.purgeLane hs l
    rw [eq_error_of_map he] at h
    exact congrArg Ledger.rows h
  | recover =>
    obtain ⟨q, -, h⟩ := LawfulStore.recover hs
    have hrows := congrArg Ledger.rows h
    exact hrows
  | release => cases he
  | findByIdentity | pendingCount | nextWakeAt => rfl

/-- **What a call leaves alone**: every row that it is not about, and all rows if it fails. -/
theorem row_kept (hs : (ledger s).Sound) (op : Operation) (now : Instant) {row : Row}
    (hr : row ∈ (ledger s).rows) :
    row ∈ (ledger (op.run now s).2).rows ∨
      ∃ a, (op.run now s).1 = .ok a ∧ op.Concerns (ledger s) row := by
  cases ha : (op.run now s).1 with
  | error e =>
    rw [rows_of_error hs ha]
    exact .inl hr
  | ok a =>
    by_cases hop : op.Concerns (ledger s) row
    · exact .inr ⟨a, rfl, hop⟩
    · exact .inl ((edit_run hs op now).keeps_row hr hop)

end LawfulStore

end LaneQueue
