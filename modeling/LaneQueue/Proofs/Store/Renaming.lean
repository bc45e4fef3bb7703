import LaneQueue.Proofs.Store.Agreement
/-!
# Answers up to the names of places

A place is a name: what matters of it is which record has it and in which order the names come.
`rename` gives records, rows, calls and answers the places that a function names. `Ledger.Allows`
puts the laws of all calls that succeed into one relation, which says what a call answers and what it
leaves, and leaves no choice (`Ledger.Allows.unique`).
-/
namespace LaneQueue

/-! ## New names for places -/

/-- The new names come in the order of the old ones. -/
def Increases (f : Int → Int) : Prop := ∀ x y, x < y → f x < f y

namespace Increases

variable {f : Int → Int}

theorem refl : Increases id := fun _ _ h => h

theorem le_iff (hf : Increases f) {x y : Int} : f x ≤ f y ↔ x ≤ y := by
  constructor
  · intro h
    by_contra hlt
    have := hf y x (Int.not_le.1 hlt)
    omega
  · intro h
    rcases Int.lt_or_eq_of_le h with hlt | rfl
    · exact Int.le_of_lt (hf x y hlt)
    · exact Int.le_refl _

theorem eq_iff (hf : Increases f) {x y : Int} : f x = f y ↔ x = y := by
  simp only [Int.le_antisymm_iff, hf.le_iff]

end Increases

section Rename

variable (f : Int → Int)

def Row.rename (row : Row) : Row := { row with seq := f row.seq }

def Record.rename (r : Record) : Record := { r with seq := f r.seq }

def Submission.rename : Submission → Submission
  | .inserted r => .inserted (r.rename f)
  | .replaced old r => .replaced (old.rename f) (r.rename f)
  | .kept old => .kept (old.rename f)
  | .refused old => .refused (old.rename f)

/-- The answer with new names for the places of the records in it. -/
def Answer.rename : Answer → Answer
  | .record r => .record (r.rename f)
  | .submission x => .submission (x.rename f)
  | .found r => .found (r.map (Record.rename f))
  | a => a

/-- The call with new names for the places of the records that are handed over. -/
def Operation.rename : Operation → Operation
  | .retire r => .retire (r.rename f)
  | .reschedule r n t => .reschedule (r.rename f) n t
  | .release r => .release (r.rename f)
  | op => op

variable {f}

theorem Row.Shows.rename {row : Row} {r : Record} (h : row.Shows r) :
    (row.rename f).Shows (r.rename f) where
  identity := h.identity
  tag := h.tag
  lane := h.lane
  priority := h.priority
  payload := h.payload
  bubbles := h.bubbles
  seq := congrArg f h.seq
  retryCount := h.retryCount
  availableAt := h.availableAt

theorem Row.servesBefore_rename (hf : Increases f) (x y : Row) :
    (x.rename f).servesBefore (y.rename f) = x.servesBefore y := by
  rw [Bool.eq_iff_iff, servesBefore_iff, servesBefore_iff]
  simp only [Row.rename, hf.le_iff]

theorem isRowOf_rename (hf : Increases f) (r : Record) (row : Row) :
    TableStore.isRowOf (r.rename f) (row.rename f) = TableStore.isRowOf r row := by
  rw [Bool.eq_iff_iff, Ledger.isRowOf_iff, Ledger.isRowOf_iff]
  simp only [Record.rename, Row.rename, hf.eq_iff]

end Rename

/-! ## One law for all calls -/

namespace Ledger

/-- What a call that succeeds may answer, and which ledger it leaves. -/
inductive Allows (l : Ledger) (now : Instant) : Operation → Answer → Ledger → Prop
  | insert {c : NewCommand} : ¬ l.Holds c.identity →
      Allows l now (.insert c) (.record (l.fresh c now)) (l.add c now)
  | inserted {c : NewCommand} {p : ConflictPolicy} : ¬ l.Holds c.identity →
      Allows l now (.submit c p) (.submission (.inserted (l.fresh c now))) (l.add c now)
  | replaced {c : NewCommand} {old : Record} : l.Finds c.identity old →
      Allows l now (.submit c .replace) (.submission (.replaced old (l.fresh c now)))
        ((l.without c.identity).add c now)
  | kept {c : NewCommand} {old : Record} : l.Finds c.identity old →
      Allows l now (.submit c .rejectDuplicate) (.submission (.kept old)) l
  | refused {c : NewCommand} {old : Record} : l.Finds c.identity old →
      Allows l now (.submit c .error) (.submission (.refused old)) l
  | delete {identity : String} {b : Bool} : (b = true ↔ l.Holds identity) →
      Allows l now (.deleteByIdentity identity) (.flag b) (l.without identity)
  | missing {identity : String} : ¬ l.Holds identity →
      Allows l now (.findByIdentity identity) (.found none) l
  | found {identity : String} {r : Record} : l.Finds identity r →
      Allows l now (.findByIdentity identity) (.found (some r)) l
  | idle {lane : Lane} : (∀ row ∈ l.rows, l.isDue lane now row = false) →
      Allows l now (.nextEligible lane) (.found none) l
  | claim {lane : Lane} {row : Row} {r : Record} : l.IsFirst (l.isDue lane now) row → row.Shows r →
      Allows l now (.nextEligible lane) (.found (some r)) (l.claim r.seq)
  | retire {r : Record} {b : Bool} : (b = true ↔ l.Owns r) →
      Allows l now (.retire r) (.flag b) ((l.drop r.seq).remove r)
  | reschedule {r : Record} {n : UInt32} {t : Instant} {b : Bool} : (b = true ↔ l.Owns r) →
      Allows l now (.reschedule r n t) (.flag b) ((l.drop r.seq).postpone r n t)
  | release {r : Record} : Allows l now (.release r) .done (l.drop r.seq)
  | count {lane : Lane} : Allows l now (.pendingCount lane)
      (.count (l.rows.countP fun row => row.lane == (lane.index : Int))) l
  | wake {lane : Lane} : Allows l now (.nextWakeAt lane) (.wake (l.futures lane now).min?) l
  | purge {lane : Lane} : Allows l now (.purgeLane lane) (.count (l.rows.countP (l.isWaiting lane)))
      (l.purge lane)

variable {l l₁ l₂ : Ledger} {now : Instant} {op : Operation} {a b : Answer}

/-- A call that succeeds has one answer and leaves one ledger. -/
theorem Allows.unique (hs : l.Sound) (h : l.Allows now op a l₁) (h' : l.Allows now op b l₂) :
    a = b ∧ l₁ = l₂ := by
  have hflag {P : Prop} {x y : Bool} (hx : x = true ↔ P) (hy : y = true ↔ P) : x = y :=
    Bool.eq_iff_iff.2 (hx.trans hy.symm)
  cases h with
  | insert | release | count | wake | purge => cases h'; exact ⟨rfl, rfl⟩
  | inserted hn =>
    cases h' with
    | inserted => exact ⟨rfl, rfl⟩
    | replaced hf | kept hf | refused hf => exact absurd hf.holds hn
  | replaced hf =>
    cases h' with
    | inserted hn => exact absurd hf.holds hn
    | replaced hf' => obtain rfl := hf.unique hs hf'; exact ⟨rfl, rfl⟩
  | kept hf =>
    cases h' with
    | inserted hn => exact absurd hf.holds hn
    | kept hf' => obtain rfl := hf.unique hs hf'; exact ⟨rfl, rfl⟩
  | refused hf =>
    cases h' with
    | inserted hn => exact absurd hf.holds hn
    | refused hf' => obtain rfl := hf.unique hs hf'; exact ⟨rfl, rfl⟩
  | delete hb =>
    cases h' with
    | delete hb' => exact ⟨congrArg _ (hflag hb hb'), rfl⟩
  | missing hn =>
    cases h' with
    | missing => exact ⟨rfl, rfl⟩
    | found hf => exact absurd hf.holds hn
  | found hf =>
    cases h' with
    | missing hn => exact absurd hf.holds hn
    | found hf' => obtain rfl := hf.unique hs hf'; exact ⟨rfl, rfl⟩
  | idle hn =>
    cases h' with
    | idle => exact ⟨rfl, rfl⟩
    | claim hf => exact absurd (hf.holds.symm.trans (hn _ hf.mem)) nofun
  | claim hf hr =>
    cases h' with
    | idle hn => exact absurd (hf.holds.symm.trans (hn _ hf.mem)) nofun
    | claim hf' hr' =>
      obtain rfl := hf.unique hs hf'
      obtain rfl := hr.unique hr'
      exact ⟨rfl, rfl⟩
  | retire hb =>
    cases h' with
    | retire hb' => exact ⟨congrArg _ (hflag hb hb'), rfl⟩
  | reschedule hb =>
    cases h' with
    | reschedule hb' => exact ⟨congrArg _ (hflag hb hb'), rfl⟩

theorem Allows.leaves (h : l.Allows now op a l₁) (hl : l₂ = l₁) : l.Allows now op a l₂ := hl ▸ h

end Ledger

namespace LawfulStore

open Ledger

variable {σ : Type} [QueueStore σ] [LawfulStore σ] {s : σ}

/-- **One law for all calls**: whatever a call answers is allowed. -/
theorem allows_run (hs : (ledger s).Sound) (hr : (ledger s).Readable) {op : Operation}
    (hop : op ≠ .recover) {now : Instant} {a : Answer} (ha : (op.run now s).1 = .ok a) :
    (ledger s).Allows now op a (ledger (op.run now s).2) := by
  cases op with
  | insert c =>
    have h := LawfulStore.insert hs c now
    obtain ⟨x, hx, rfl⟩ := exists_of_map_eq_ok ha
    rw [hx] at h
    obtain ⟨hn, rfl, hl⟩ := h
    exact (Allows.insert hn).leaves hl
  | submit c p =>
    have h := LawfulStore.submit hs c p now
    obtain ⟨x, hx, rfl⟩ := exists_of_map_eq_ok ha
    rw [hx] at h
    cases x with
    | inserted =>
      obtain ⟨hn, rfl, hl⟩ := h
      exact (Allows.inserted hn).leaves hl
    | replaced =>
      obtain ⟨rfl, hf, rfl, hl⟩ := h
      exact (Allows.replaced hf).leaves hl
    | kept =>
      obtain ⟨rfl, hf, hl⟩ := h
      exact (Allows.kept hf).leaves hl
    | refused =>
      obtain ⟨rfl, hf, hl⟩ := h
      exact (Allows.refused hf).leaves hl
  | deleteByIdentity i =>
    have h := LawfulStore.deleteByIdentity hs i
    obtain ⟨x, hx, rfl⟩ := exists_of_map_eq_ok ha
    rw [hx] at h
    exact (Allows.delete h.1).leaves h.2
  | findByIdentity i =>
    have h := LawfulStore.findByIdentity hs i
    obtain ⟨x, hx, rfl⟩ := exists_of_map_eq_ok ha
    rw [hx] at h
    cases x with
    | none => exact .missing h
    | some r => exact .found h
  | nextEligible l =>
    have h := LawfulStore.nextEligible hs l now
    obtain ⟨x, hx, rfl⟩ := exists_of_map_eq_ok ha
    rw [hx] at h
    cases x with
    | none => exact (Allows.idle h.1).leaves h.2
    | some r =>
      obtain ⟨row, hf, hr, hl⟩ := h
      exact (Allows.claim hf hr).leaves hl
  | retire r =>
    have h := LawfulStore.retire hs r
    obtain ⟨x, hx, rfl⟩ := exists_of_map_eq_ok ha
    rw [hx] at h
    exact (Allows.retire h.1).leaves h.2
  | reschedule r n t =>
    have h := LawfulStore.reschedule hs r n t
    obtain ⟨x, hx, rfl⟩ := exists_of_map_eq_ok ha
    rw [hx] at h
    exact (Allows.reschedule h.1).leaves h.2
  | release r =>
    obtain rfl := Except.ok.inj ha
    exact Allows.release.leaves (LawfulStore.release s r)
  | pendingCount l =>
    have h := LawfulStore.pendingCount hs l
    obtain ⟨x, hx, rfl⟩ := exists_of_map_eq_ok ha
    rw [hx] at h
    exact h ▸ .count
  | nextWakeAt l =>
    have h := LawfulStore.nextWakeAt hs l now
    obtain ⟨x, hx, rfl⟩ := exists_of_map_eq_ok ha
    rw [hx] at h
    exact h.eq_min hr ▸ .wake
  | purgeLane l =>
    have h := LawfulStore.purgeLane hs l
    obtain ⟨x, hx, rfl⟩ := exists_of_map_eq_ok ha
    rw [hx] at h
    exact h.1 ▸ Allows.purge.leaves h.2
  | recover => exact absurd rfl hop

end LawfulStore

end LaneQueue
