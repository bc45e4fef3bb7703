import LaneQueue.Proofs.Store.Ledger
/-!
# The laws of a store

For each operation, what it may answer about a ledger and which ledger it leaves. `LawfulStore` is
a store whose operations obey these laws on sound ledgers. `Ledger.Edit` is what the laws leave of a
ledger, whatever the answer was: `LawfulStore.edit_run` says so of every call, and what all calls keep
is proved by going through the edits.
-/
namespace LaneQueue

theorem exists_of_map_eq_ok {ε α β : Type} {f : α → β} {x : Except ε α} {b : β}
    (h : x.map f = .ok b) : ∃ a, x = .ok a ∧ f a = b := by
  cases x with
  | error e => cases h
  | ok a => exact ⟨a, rfl, Except.ok.inj h⟩

namespace Ledger

/-- The first of some rows in the order of service. -/
structure IsFirst (l : Ledger) (p : Row → Bool) (row : Row) : Prop where
  mem : row ∈ l.rows
  holds : p row = true
  least : ∀ x ∈ l.rows, p x = true → row.servesBefore x = true

/-- A record of an identity is stored. -/
def Finds (l : Ledger) (identity : String) (r : Record) : Prop :=
  ∃ row ∈ l.rows, row.identity = identity ∧ row.Shows r

variable (l : Ledger)

def Inserts (c : NewCommand) (now : Instant) : Except QueueError Record → Ledger → Prop
  | .ok r, l' => ¬ l.Holds c.identity ∧ r = l.fresh c now ∧ l' = l.add c now
  | .error _, l' => l' = l

def Submits (c : NewCommand) (p : ConflictPolicy) (now : Instant) :
    Except QueueError Submission → Ledger → Prop
  | .ok (.inserted r), l' => ¬ l.Holds c.identity ∧ r = l.fresh c now ∧ l' = l.add c now
  | .ok (.replaced old r), l' => p = .replace ∧ l.Finds c.identity old ∧ r = l.fresh c now ∧
      l' = (l.without c.identity).add c now
  | .ok (.kept old), l' => p = .rejectDuplicate ∧ l.Finds c.identity old ∧ l' = l
  | .ok (.refused old), l' => p = .error ∧ l.Finds c.identity old ∧ l' = l
  | .error _, l' => l' = l

def Deletes (identity : String) : Except QueueError Bool → Ledger → Prop
  | .ok b, l' => (b = true ↔ l.Holds identity) ∧ l' = l.without identity
  | .error _, l' => l' = l

def Looks (identity : String) : Except QueueError (Option Record) → Prop
  | .ok none => ¬ l.Holds identity
  | .ok (some r) => l.Finds identity r
  | .error _ => True

def Claims (lane : Lane) (now : Instant) : Except QueueError (Option Record) → Ledger → Prop
  | .ok none, l' => (∀ row ∈ l.rows, l.isDue lane now row = false) ∧ l' = l
  | .ok (some r), l' => ∃ row, l.IsFirst (l.isDue lane now) row ∧ row.Shows r ∧ l' = l.claim r.seq
  | .error _, l' => l' = l

/-- The row of a claimed record is stored. -/
def Owns (r : Record) : Prop := ∃ row ∈ l.rows, TableStore.isRowOf r row = true

def Retires (r : Record) : Except QueueError Bool → Ledger → Prop
  | .ok b, l' => (b = true ↔ l.Owns r) ∧ l' = (l.drop r.seq).remove r
  | .error _, l' => l' = l.drop r.seq

def Reschedules (r : Record) (n : UInt32) (t : Instant) : Except QueueError Bool → Ledger → Prop
  | .ok b, l' => (b = true ↔ l.Owns r) ∧ l' = (l.drop r.seq).postpone r n t
  | .error _, l' => l' = l.drop r.seq

def Counts (lane : Lane) : Except QueueError Nat → Prop
  | .ok n => n = l.rows.countP fun row => row.lane == (lane.index : Int)
  | .error _ => True

/-- An instant that no calendar has is not told. -/
def Awaits (lane : Lane) (now : Instant) : Except QueueError (Option Instant) → Prop
  | .ok t => t = (l.futures lane now).min? ∨
      t = none ∧ ∃ x, (l.futures lane now).min? = some x ∧ Row.isInstant x = false
  | .error _ => True

def Purges (lane : Lane) : Except QueueError Nat → Ledger → Prop
  | .ok n, l' => n = l.rows.countP (l.isWaiting lane) ∧ l' = l.purge lane
  | .error _, l' => l' = l

/-- Claims are forgotten also by a call that fails. -/
def Recovers (l' : Ledger) : Prop :=
  ∃ q, (∀ row ∈ l.rows, row.seq ≤ q) ∧ l' = l.reset q

/-! ## The edit behind a call -/

/-- What a call may leave of a ledger. A call that fails leaves it alone or has dropped a claim. -/
inductive Edit (now : Instant) : Operation → Ledger → Prop
  | same (op : Operation) : Edit now op l
  | insert {c : NewCommand} (hf : ¬ l.Holds c.identity) : Edit now (.insert c) (l.add c now)
  | submit {c : NewCommand} (p : ConflictPolicy) (hf : ¬ l.Holds c.identity) :
      Edit now (.submit c p) (l.add c now)
  | replace {c : NewCommand} {old : Record} (hf : l.Finds c.identity old) :
      Edit now (.submit c .replace) ((l.without c.identity).add c now)
  | delete (identity : String) : Edit now (.deleteByIdentity identity) (l.without identity)
  | claim {lane : Lane} {row : Row} (hf : l.IsFirst (l.isDue lane now) row) :
      Edit now (.nextEligible lane) (l.claim row.seq)
  | remove (r : Record) : Edit now (.retire r) ((l.drop r.seq).remove r)
  | keep (r : Record) : Edit now (.retire r) (l.drop r.seq)
  | postpone (r : Record) (n : UInt32) (t : Instant) :
      Edit now (.reschedule r n t) ((l.drop r.seq).postpone r n t)
  | leave (r : Record) (n : UInt32) (t : Instant) : Edit now (.reschedule r n t) (l.drop r.seq)
  | release (r : Record) : Edit now (.release r) (l.drop r.seq)
  | purge (lane : Lane) : Edit now (.purgeLane lane) (l.purge lane)
  | recover {q : Int} (hq : ∀ row ∈ l.rows, row.seq ≤ q) : Edit now .recover (l.reset q)

section Edit

variable {l}
variable {now : Instant} {l' : Ledger}

theorem Inserts.edit {c : NewCommand} :
    ∀ {a : Except QueueError Record}, l.Inserts c now a l' → l.Edit now (.insert c) l'
  | .ok _, ⟨hf, _, h⟩ => h ▸ .insert hf
  | .error _, h => h ▸ .same _

theorem Submits.edit {c : NewCommand} {p : ConflictPolicy} :
    ∀ {a : Except QueueError Submission}, l.Submits c p now a l' → l.Edit now (.submit c p) l'
  | .ok (.inserted _), ⟨hf, _, h⟩ => h ▸ .submit p hf
  | .ok (.replaced _ _), ⟨hp, hf, _, h⟩ => h ▸ hp ▸ .replace hf
  | .ok (.kept _), ⟨_, _, h⟩ => h ▸ .same _
  | .ok (.refused _), ⟨_, _, h⟩ => h ▸ .same _
  | .error _, h => h ▸ .same _

theorem Deletes.edit {identity : String} :
    ∀ {a : Except QueueError Bool}, l.Deletes identity a l' →
      l.Edit now (.deleteByIdentity identity) l'
  | .ok _, ⟨_, h⟩ => h ▸ .delete identity
  | .error _, h => h ▸ .same _

theorem Claims.edit {lane : Lane} :
    ∀ {a : Except QueueError (Option Record)}, l.Claims lane now a l' →
      l.Edit now (.nextEligible lane) l'
  | .ok none, ⟨_, h⟩ => h ▸ .same _
  | .ok (some _), ⟨_, hf, hr, h⟩ => h ▸ hr.seq ▸ .claim hf
  | .error _, h => h ▸ .same _

theorem Retires.edit {r : Record} :
    ∀ {a : Except QueueError Bool}, l.Retires r a l' → l.Edit now (.retire r) l'
  | .ok _, ⟨_, h⟩ => h ▸ .remove r
  | .error _, h => h ▸ .keep r

theorem Reschedules.edit {r : Record} {n : UInt32} {t : Instant} :
    ∀ {a : Except QueueError Bool}, l.Reschedules r n t a l' → l.Edit now (.reschedule r n t) l'
  | .ok _, ⟨_, h⟩ => h ▸ .postpone r n t
  | .error _, h => h ▸ .leave r n t

theorem Purges.edit {lane : Lane} :
    ∀ {a : Except QueueError Nat}, l.Purges lane a l' → l.Edit now (.purgeLane lane) l'
  | .ok _, ⟨_, h⟩ => h ▸ .purge lane
  | .error _, h => h ▸ .same _

theorem Recovers.edit : l.Recovers l' → l.Edit now .recover l'
  | ⟨_, hq, h⟩ => h ▸ .recover hq

/-- A submission that is answered leaves its identity stored. -/
theorem Submits.holds {c : NewCommand} {p : ConflictPolicy} {a : Submission}
    (h : l.Submits c p now (.ok a) l') : l'.Holds c.identity := by
  have hnew : ∀ m : Ledger, (m.add c now).Holds c.identity :=
    fun m => ⟨_, List.mem_append_right _ (List.mem_singleton_self _), rfl⟩
  cases a with
  | inserted r => obtain ⟨-, -, rfl⟩ := h; exact hnew l
  | replaced old r => obtain ⟨-, -, -, rfl⟩ := h; exact hnew _
  | kept old | refused old =>
    obtain ⟨-, ⟨row, hrow, hi, -⟩, rfl⟩ := h
    exact ⟨row, hrow, hi⟩

/-- The invariant of the bookkeeping is kept. -/
theorem Edit.sound (hs : l.Sound) {op : Operation} (h : l.Edit now op l') : l'.Sound := by
  cases h with
  | same => exact hs
  | insert hf | submit _ hf => exact hs.add _ now hf
  | replace => exact (hs.without _).add _ now (Sound.not_holds_without _ _)
  | delete i => exact hs.without i
  | claim hf => exact hs.claim hf.mem (isDue_iff.1 hf.holds).2.1
  | remove r => exact (hs.drop r.seq).remove r
  | postpone r n t => exact (hs.drop r.seq).postpone r n t
  | keep r | leave r | release r => exact hs.drop r.seq
  | purge lane => exact hs.purge lane
  | recover hq => exact hs.reset hq

end Edit

end Ledger

/-- Whether an operation can be carried out on a ledger whose rows can all be read. -/
def Operation.isAllowed (l : Ledger) : Operation → Prop
  | .insert c => ¬ l.Holds c.identity
  | _ => True

/-- A store with a ledger whose operations obey the laws. -/
class LawfulStore (σ : Type) [QueueStore σ] where
  ledger : σ → Ledger
  /-- A closed store refuses what it is asked for. -/
  isOpen : σ → Bool
  insert {s : σ} (hs : (ledger s).Sound) (c : NewCommand) (now : Instant) :
    (ledger s).Inserts c now (QueueStore.insert c now s).1 (ledger (QueueStore.insert c now s).2)
  submit {s : σ} (hs : (ledger s).Sound) (c : NewCommand) (p : ConflictPolicy) (now : Instant) :
    (ledger s).Submits c p now (QueueStore.submit c p now s).1
      (ledger (QueueStore.submit c p now s).2)
  deleteByIdentity {s : σ} (hs : (ledger s).Sound) (identity : String) :
    (ledger s).Deletes identity (QueueStore.deleteByIdentity identity s).1
      (ledger (QueueStore.deleteByIdentity identity s).2)
  findByIdentity {s : σ} (hs : (ledger s).Sound) (identity : String) :
    (ledger s).Looks identity (QueueStore.findByIdentity identity s)
  nextEligible {s : σ} (hs : (ledger s).Sound) (lane : Lane) (now : Instant) :
    (ledger s).Claims lane now (QueueStore.nextEligible lane now s).1
      (ledger (QueueStore.nextEligible lane now s).2)
  retire {s : σ} (hs : (ledger s).Sound) (r : Record) :
    (ledger s).Retires r (QueueStore.retire r s).1 (ledger (QueueStore.retire r s).2)
  reschedule {s : σ} (hs : (ledger s).Sound) (r : Record) (n : UInt32) (t : Instant) :
    (ledger s).Reschedules r n t (QueueStore.reschedule r n t s).1
      (ledger (QueueStore.reschedule r n t s).2)
  release (s : σ) (r : Record) : ledger (QueueStore.release r s) = (ledger s).drop r.seq
  pendingCount {s : σ} (hs : (ledger s).Sound) (lane : Lane) :
    (ledger s).Counts lane (QueueStore.pendingCount lane s)
  nextWakeAt {s : σ} (hs : (ledger s).Sound) (lane : Lane) (now : Instant) :
    (ledger s).Awaits lane now (QueueStore.nextWakeAt lane now s)
  purgeLane {s : σ} (hs : (ledger s).Sound) (lane : Lane) :
    (ledger s).Purges lane (QueueStore.purgeLane lane s).1 (ledger (QueueStore.purgeLane lane s).2)
  recover {s : σ} (hs : (ledger s).Sound) :
    (ledger s).Recovers (ledger (QueueStore.recover s).2)
  isOpen_run (op : Operation) (now : Instant) (s : σ) : isOpen (op.run now s).2 = isOpen s
  /-- An open store tells when to wake up. -/
  wakes {s : σ} (ho : isOpen s) (lane : Lane) (now : Instant) :
    ∃ t, QueueStore.nextWakeAt lane now s = .ok t
  /-- An open store with readable rows answers. -/
  answers {s : σ} (hs : (ledger s).Sound) (ho : isOpen s) (hr : (ledger s).Readable)
    (op : Operation) (now : Instant) (ha : op.isAllowed (ledger s)) :
    ∃ a, (op.run now s).1 = .ok a

/-- Makes some calls one after the other, each at its instant: the answers and the store after
them. -/
def Operation.runAll {σ : Type} [QueueStore σ] :
    List (Operation × Instant) → σ → List (Except QueueError Answer) × σ
  | [], s => ([], s)
  | (op, now) :: calls, s =>
    ((op.run now s).1 :: (runAll calls (op.run now s).2).1, (runAll calls (op.run now s).2).2)

namespace LawfulStore

open Ledger

variable {σ : Type} [QueueStore σ] [LawfulStore σ] {s : σ}

/-- **One edit for every call**, whatever the call answers. -/
theorem edit_run (hs : (ledger s).Sound) (op : Operation) (now : Instant) :
    (ledger s).Edit now op (ledger (op.run now s).2) := by
  cases op with
  | insert c => exact (LawfulStore.insert hs c now).edit
  | submit c p => exact (LawfulStore.submit hs c p now).edit
  | deleteByIdentity i => exact (LawfulStore.deleteByIdentity hs i).edit
  | nextEligible l => exact (LawfulStore.nextEligible hs l now).edit
  | retire r => exact (LawfulStore.retire hs r).edit
  | reschedule r n t => exact (LawfulStore.reschedule hs r n t).edit
  | release r =>
    change (ledger s).Edit now (.release r) (ledger (QueueStore.release r s))
    rw [LawfulStore.release]
    exact .release r
  | purgeLane l => exact (LawfulStore.purgeLane hs l).edit
  | recover => exact (LawfulStore.recover hs).edit
  | findByIdentity | pendingCount | nextWakeAt => exact .same _

theorem sound_run (hs : (ledger s).Sound) (op : Operation) (now : Instant) :
    (ledger (op.run now s).2).Sound := (edit_run hs op now).sound hs

end LawfulStore

end LaneQueue
