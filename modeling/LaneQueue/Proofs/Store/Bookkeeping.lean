import LaneQueue.Proofs.Store.Memory
import LaneQueue.Proofs.Store.Table
/-!
# The books of both stores

`MemoryStore.Reachable` and `TableStore.Reachable` are the states a store comes to from an empty one,
by calls in any order and with any arguments: a claim that is passed to a call may be stale, used
before or never made. A table may also be refused by its medium, be closed, and be opened again.
In all of these states the ledger is sound, and the next call creates records at free places only.
-/
namespace LaneQueue

/-- The record that a call has created. -/
def Answer.created? : Answer → Option Record
  | .record r | .submission (.inserted r) | .submission (.replaced _ r) => some r
  | _ => none

namespace Ledger

/-! ## Free places -/

/-- A place beyond all that are stored and the last one given out, and not claimed. -/
structure IsFree (l : Ledger) (q : Int) : Prop where
  next : l.lastSeq < q
  beyond : ∀ row ∈ l.rows, row.seq < q
  unclaimed : q ∉ l.claimed

/-- What a call may do to the rows: each was there before, or came in at a free place. -/
def Grows (l l' : Ledger) : Prop :=
  ∀ row ∈ l'.rows, (∃ x ∈ l.rows, x.identity = row.identity ∧ x.seq = row.seq) ∨
    (l.IsFree row.seq ∧ row.seq ∉ l'.claimed)

variable {l l' : Ledger}

theorem Sound.isFree_next (h : l.Sound) : l.IsFree (l.lastSeq + 1) where
  next := by omega
  beyond row hr := by
    have := h.stored_le row hr
    omega
  unclaimed hq := by
    have := h.claimed_le _ hq
    omega

theorem Grows.of_subset (h : ∀ row ∈ l'.rows, row ∈ l.rows) : l.Grows l' :=
  fun row hr => .inl ⟨row, h row hr, rfl, rfl⟩

theorem Grows.of_map {f : Row → Row} (hi : ∀ row, (f row).identity = row.identity)
    (hq : ∀ row, (f row).seq = row.seq) (h : l'.rows = l.rows.map f) : l.Grows l' := by
  intro row hr
  rw [h] at hr
  obtain ⟨x, hx, rfl⟩ := List.mem_map.1 hr
  exact .inl ⟨x, hx, (hi x).symm, (hq x).symm⟩

/-- Rows may go before a command is added. -/
theorem Grows.add (h : l.Sound) {rows : List Row} (hsub : ∀ row ∈ rows, row ∈ l.rows)
    (c : NewCommand) (now : Instant) : l.Grows (Ledger.add { l with rows := rows } c now) := by
  intro row hr
  rcases List.mem_append.1 hr with hr | hr
  · exact .inl ⟨row, hsub row hr, rfl, rfl⟩
  · obtain rfl := List.mem_singleton.1 hr
    exact .inr ⟨h.isFree_next, h.isFree_next.unclaimed⟩

theorem keeps_add (l : Ledger) (c : NewCommand) (now : Instant) :
    (l.add c now).Keeps (l.fresh c now) :=
  ⟨.ofRecord (l.fresh c now), List.mem_append_right _ (List.mem_singleton_self _),
    Row.shows_ofRecord _⟩

/-- No edit moves a row to another place or brings one in at a place that is taken. -/
theorem Edit.grows (hs : l.Sound) {now : Instant} {op : Operation} (h : l.Edit now op l') :
    l.Grows l' := by
  cases h with
  | insert | submit => exact .add hs (fun _ hr => hr) _ now
  | replace => exact .add hs (fun _ hr => List.mem_of_mem_filter hr) _ now
  | postpone => exact .of_map (fun _ => by split <;> rfl) (fun _ => by split <;> rfl) rfl
  | delete | remove | purge => exact .of_subset fun _ hr => List.mem_of_mem_filter hr
  | same | claim | keep | leave | release | recover => exact .of_subset fun _ hr => hr

/-- A record that an insertion answers has a free place and is stored. -/
theorem Inserts.created (hs : l.Sound) {c : NewCommand} {now : Instant} {r : Record}
    (h : l.Inserts c now (.ok r) l') : l.IsFree r.seq ∧ l'.Keeps r := by
  obtain ⟨-, rfl, rfl⟩ := h
  exact ⟨hs.isFree_next, keeps_add l c now⟩

/-- So has a record that a submission answers, also in the place of another. -/
theorem Submits.created (hs : l.Sound) {c : NewCommand} {p : ConflictPolicy} {now : Instant}
    {a : Submission} {r : Record} (h : l.Submits c p now (.ok a) l')
    (hr : (Answer.submission a).created? = some r) : l.IsFree r.seq ∧ l'.Keeps r := by
  cases a with
  | inserted x =>
    obtain ⟨-, hx, rfl⟩ := h
    obtain rfl := Option.some.inj hr
    rw [hx]
    exact ⟨hs.isFree_next, keeps_add l c now⟩
  | replaced old x =>
    obtain ⟨-, -, hx, rfl⟩ := h
    obtain rfl := Option.some.inj hr
    rw [hx]
    exact ⟨hs.isFree_next, keeps_add (l.without c.identity) c now⟩
  | kept | refused => cases hr

end Ledger

namespace LawfulStore

open Ledger

variable {σ : Type} [QueueStore σ] [LawfulStore σ] {s : σ}

/-- The record that a call has created got a free place. -/
theorem created_run (hs : (ledger s).Sound) {op : Operation} {now : Instant} {a : Answer}
    {r : Record} (ha : (op.run now s).1 = .ok a) (hr : a.created? = some r) :
    (ledger s).IsFree r.seq ∧ (ledger (op.run now s).2).Keeps r := by
  cases op with
  | insert c =>
    have h := LawfulStore.insert hs c now
    obtain ⟨x, hx, rfl⟩ := exists_of_map_eq_ok ha
    obtain rfl := Option.some.inj hr
    rw [hx] at h
    exact h.created hs
  | submit c p =>
    have h := LawfulStore.submit hs c p now
    obtain ⟨x, hx, rfl⟩ := exists_of_map_eq_ok ha
    rw [hx] at h
    exact h.created hs hr
  | release =>
    obtain rfl := Except.ok.inj ha
    cases hr
  | deleteByIdentity | findByIdentity | nextEligible | retire | reschedule | pendingCount |
    nextWakeAt | purgeLane | recover =>
    obtain ⟨x, -, rfl⟩ := exists_of_map_eq_ok ha
    cases hr

/-- A store whose books are in order, before and after whatever call comes next. -/
structure InOrder (s : σ) : Prop where
  sound : (ledger s).Sound
  sound_run : ∀ (op : Operation) (now : Instant), (ledger (op.run now s).2).Sound
  grows : ∀ (op : Operation) (now : Instant), (ledger s).Grows (ledger (op.run now s).2)
  created : ∀ (op : Operation) (now : Instant) (a : Answer) (r : Record),
    (op.run now s).1 = .ok a → a.created? = some r →
      (ledger s).IsFree r.seq ∧ (ledger (op.run now s).2).Keeps r

theorem InOrder.of_sound (hs : (ledger s).Sound) : InOrder s where
  sound := hs
  sound_run := LawfulStore.sound_run hs
  grows op now := (edit_run hs op now).grows hs
  created _ _ _ _ := created_run hs

end LawfulStore

/-! ## The states of both stores -/

open LawfulStore (InOrder)

/-- The states that a store in memory comes to. -/
inductive MemoryStore.Reachable : MemoryStore → Prop
  | empty : Reachable .empty
  | call {s : MemoryStore} (op : Operation) (now : Instant) :
      Reachable s → Reachable (op.run now s).2

/-- The states that a table comes to if nobody edits it from outside. -/
inductive TableStore.Reachable : TableStore → Prop
  | empty : Reachable .empty
  | call {s : TableStore} (op : Operation) (now : Instant) :
      Reachable s → Reachable (op.run now s).2
  /-- The medium refuses the statements of a call. -/
  | refused {s : TableStore} (op : Operation) (now : Instant) :
      Reachable s → Reachable { (op.run now s.close).2 with isOpen := s.isOpen }
  | close {s : TableStore} : Reachable s → Reachable s.close
  /-- Another process opens what this one leaves. -/
  | reopen {s : TableStore} : Reachable s → Reachable (.ofTable s.table)

theorem MemoryStore.Reachable.runAll : ∀ (calls : List (Operation × Instant)) {s : MemoryStore},
    s.Reachable → MemoryStore.Reachable (Operation.runAll calls s).2
  | [], _, h => h
  | (op, now) :: calls, _, h => runAll calls (h.call op now)

theorem TableStore.Reachable.runAll : ∀ (calls : List (Operation × Instant)) {s : TableStore},
    s.Reachable → TableStore.Reachable (Operation.runAll calls s).2
  | [], _, h => h
  | (op, now) :: calls, _, h => runAll calls (h.call op now)

theorem MemoryStore.Reachable.sound {s : MemoryStore} (h : s.Reachable) : s.ledger.Sound := by
  induction h with
  | empty => exact Ledger.Sound.empty
  | call op now _ ih => exact @LawfulStore.sound_run MemoryStore _ _ _ ih op now

theorem TableStore.sound_ofTable {s : TableStore} (h : s.ledger.Sound) :
    (TableStore.ofTable s.table).ledger.Sound where
  identities := h.identities
  seqs := h.seqs
  claims := List.nodup_nil
  stored_le _ hr := TableStore.le_maxSeq hr
  claimed_le _ hq := by cases hq

theorem TableStore.Reachable.sound {s : TableStore} (h : s.Reachable) : s.ledger.Sound := by
  induction h with
  | empty => exact Ledger.Sound.empty
  | call op now _ ih => exact @LawfulStore.sound_run TableStore _ _ _ ih op now
  | @refused s op now _ ih => exact LawfulStore.sound_run (s := s.close) ih op now
  | close _ ih => exact ih
  | reopen _ ih => exact TableStore.sound_ofTable ih

/-- A fresh row never meets a taken place, whatever was deleted before it is inserted. -/
theorem TableStore.insert_fresh_ne_unique {s : TableStore} (hs : s.ledger.Sound) (p : Row → Bool)
    (c : NewCommand) (now : Instant) :
    (s.table.delete p).2.insert (.ofRecord (s.fresh c now)) ≠
      .error (.unique "command_queue.seq") := by
  have ht : ∀ row ∈ (s.table.delete p).2.rows, row.seq ≤ s.lastSeq :=
    fun row hr => hs.stored_le row (List.mem_of_mem_filter hr)
  rw [TableStore.insert_fresh ht]
  split
  · simp [MediumFault.primaryKey, MediumFault.unique]
  · exact nofun

/-- **The books of both stores.** In every state that a store comes to, identities are unique,
places are unique, and no stored or claimed place is beyond the last one given out; so every record
that a call creates is beyond all that are stored and not among the claimed ones, and a table never
refuses a row for its place. -/
theorem stores_inOrder :
    (∀ s : MemoryStore, s.Reachable → InOrder s) ∧
    (∀ s : TableStore, s.Reachable → InOrder s ∧
      ∀ (p : Row → Bool) (c : NewCommand) (now : Instant),
        (s.table.delete p).2.insert (.ofRecord (s.fresh c now)) ≠
          .error (.unique "command_queue.seq")) :=
  ⟨fun _ h => .of_sound h.sound,
    fun _ h => ⟨.of_sound h.sound, TableStore.insert_fresh_ne_unique h.sound⟩⟩

/-- Calls after which a claim has lost its record, and the record of a stale claim has come back
under another place. -/
def wear : List (Operation × Instant) :=
  let c : NewCommand := ⟨"a", "Probe", .general, .ofNat 5, [], true⟩
  [(.submit c .error, 0), (.nextEligible .general, 0), (.submit c .replace, 1),
    (.reschedule (.ofCommand c 1 0) 1 9, 2), (.nextEligible .general, 2),
    (.deleteByIdentity "a", 3), (.insert c, 4), (.retire (.ofCommand c 1 0), 5)]

theorem stores_inOrder_wear :
    InOrder (Operation.runAll wear MemoryStore.empty).2 ∧
      InOrder (Operation.runAll [(.recover, 6)] (Operation.runAll wear TableStore.empty).2.close).2 ∧
      (Operation.runAll wear MemoryStore.empty).2.claimed = [2] ∧
      (Operation.runAll wear MemoryStore.empty).2.lastSeq = 3 :=
  ⟨stores_inOrder.1 _ (.runAll wear .empty),
    (stores_inOrder.2 _ (.runAll [(.recover, 6)] (.close (.runAll wear .empty)))).1,
    by decide, by decide⟩

end LaneQueue
