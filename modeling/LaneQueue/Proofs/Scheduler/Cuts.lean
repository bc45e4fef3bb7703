import LaneQueue.Proofs.Scheduler.Announcements
import LaneQueue.Proofs.Scheduler.Retries
import LaneQueue.Proofs.Store.Agreement
import LaneQueue.Proofs.Store.Refusal
/-!
# What a process leaves behind

A process may be cut off at any moment. What it knew is lost, and the next one finds the rows that had
been committed until then (`Cut`). All of them can be read, and their failed attempts are fewer than a
word can count: a repeated record has not reached its bound. So the next process counts each of them in
its lane and goes on with its next attempt.
-/
namespace LaneQueue

/-- The number of rows of a lane. -/
def CommandTable.ofLane (t : CommandTable) (l : Lane) : Nat :=
  t.rows.countP fun row => row.lane == (l.index : Int)

/-! ## Counting what is found -/

namespace TableStore

/-- Indices of lanes are counted as the lanes that they are of. -/
theorem count_of_mapM (l : Lane) : ∀ {is : List Int} {ls : List Lane},
    is.mapM Lane.ofIndex = .ok ls → ls.count l = is.count (l.index : Int)
  | [], _, h => by cases h; rfl
  | i :: is, ls, h => by
    rw [List.mapM_cons] at h
    cases hm : Lane.ofIndex i with
    | error e => rw [hm] at h; cases h
    | ok m =>
      cases hms : is.mapM Lane.ofIndex with
      | error e => rw [hm, hms] at h; cases h
      | ok ms =>
        rw [hm, hms] at h
        cases h
        have hi := Lane.eq_index_of_ofIndex hm
        have hiff : m = l ↔ i = l.index := by
          rw [hi]
          exact ⟨fun he => he ▸ rfl, fun he => Lane.index_inj he⟩
        simp only [List.count_cons, count_of_mapM l hms, beq_iff_eq, hiff]

/-- A recovery that succeeds counts every row in its lane. -/
theorem get_of_recover {s : TableStore} {found : PerLane Nat} (h : (recover s).1 = .ok found)
    (l : Lane) : found.get l = s.table.ofLane l := by
  unfold recover at h
  cases ho : s.isOpen with
  | false => simp [ho] at h
  | true =>
    simp only [ho, Bool.not_true, Bool.false_eq_true, if_false] at h
    obtain ⟨ls, hls, rfl⟩ := exists_of_map_eq_ok h
    simp only [PerLane.count, PerLane.get_ofFn, count_of_mapM l hls, CommandTable.ofLane]
    rw [(List.mergeSort_perm _ _).count_eq, List.count_eq_countP, List.countP_map]
    rfl

end TableStore

namespace ShakyTable

variable {s : ShakyTable}

theorem get_of_recover {found : PerLane Nat} (h : (QueueStore.recover s).1 = .ok found) (l : Lane) :
    found.get l = s.table.table.ofLane l := by
  change (s.call QueueStore.recover).1 = .ok found at h
  unfold call at h
  split at h
  · cases h
  · exact TableStore.get_of_recover h l

/-- A recovery that is not refused succeeds on rows that can be read. -/
theorem recover_ok (ho : s.table.isOpen = true) (hr : s.table.ledger.Readable)
    (hrefusals : s.refusals = []) : ∃ found, (QueueStore.recover s).1 = .ok found := by
  obtain ⟨found, hfound⟩ := TableStore.recover_ok ho hr
  refine ⟨found, ?_⟩
  change (s.call QueueStore.recover).1 = .ok found
  unfold call
  rw [hrefusals]
  exact hfound

theorem isOpen_call {α : Type} {f : TableStore → Result TableStore α}
    (hf : ∀ t : TableStore, (f t).2.isOpen = t.isOpen) (s : ShakyTable) :
    (s.call f).2.table.isOpen = s.table.isOpen := by
  unfold call
  split
  · rfl
  · exact hf s.table

/-- Nothing closes the table. -/
theorem isOpen_run (op : Operation) (now : Instant) (s : ShakyTable) :
    (op.run now s).2.table.isOpen = s.table.isOpen := by
  cases op with
  | insert c =>
    exact isOpen_call (f := QueueStore.insert c now) (TableStore.isOpen_run (.insert c) now) s
  | submit c p =>
    exact isOpen_call (f := QueueStore.submit c p now) (TableStore.isOpen_run (.submit c p) now) s
  | deleteByIdentity i =>
    exact isOpen_call (f := QueueStore.deleteByIdentity i)
      (TableStore.isOpen_run (.deleteByIdentity i) now) s
  | nextEligible l =>
    exact isOpen_call (f := QueueStore.nextEligible l now)
      (TableStore.isOpen_run (.nextEligible l) now) s
  | retire r =>
    exact isOpen_call (f := QueueStore.retire r) (TableStore.isOpen_run (.retire r) now) s
  | reschedule r n t =>
    exact isOpen_call (f := QueueStore.reschedule r n t)
      (TableStore.isOpen_run (.reschedule r n t) now) s
  | purgeLane l =>
    exact isOpen_call (f := QueueStore.purgeLane l) (TableStore.isOpen_run (.purgeLane l) now) s
  | recover => exact isOpen_call (f := QueueStore.recover) (TableStore.isOpen_run .recover now) s
  | findByIdentity | release | pendingCount | nextWakeAt => rfl

end ShakyTable

/-! ## Rows that can be gone on with -/

namespace Row

/-- A row that can be read, whose next attempt has a number. -/
structure Regular (row : Row) : Prop where
  readable : ∃ r, row.toRecord = .ok r
  retries_nonneg : 0 ≤ row.retryCount
  retries_lt : row.retryCount + 1 < UInt32.size

/-- That number is one more than the failed attempts that are stored. -/
theorem Regular.attempt {row : Row} (h : row.Regular) {r : Record} (hr : row.Shows r) :
    (r.attempt.toNat : Int) = row.retryCount + 1 := by
  have hpos := h.retries_nonneg
  have hlt := h.retries_lt
  have hcount : r.retryCount.toNat = row.retryCount.toNat := by
    rw [← hr.retryCount, retries, if_pos ⟨hpos, by omega⟩]
    exact UInt32.toNat_ofNat_of_lt (by omega)
  rw [Record.toNat_attempt (by omega), hcount]
  omega

theorem Regular.ofRecord {r : Record} (hr : isInstant r.availableAt)
    (hn : r.retryCount.toNat + 1 < UInt32.size) : (ofRecord r).Regular where
  readable := ⟨r, toRecord_ofRecord hr⟩
  retries_nonneg := Int.natCast_nonneg _
  retries_lt := by simp only [Row.ofRecord]; omega

theorem Regular.postponed {row : Row} (h : row.Regular) {n : UInt32} {t : Instant}
    (ht : isInstant t) (hn : n.toNat + 1 < UInt32.size) :
    ({ row with retryCount := n.toNat, availableAt := t } : Row).Regular where
  readable := readable_postponed h.readable n ht
  retries_nonneg := Int.natCast_nonneg _
  retries_lt := by simp only; omega

end Row

/-- Whether the instant that an operation stores is one of the calendar. -/
def Operation.isDated : Operation → Bool
  | .reschedule _ _ t => Row.isInstant t
  | _ => true

theorem Ledger.Edit.regular {l l' : Ledger} {now : Instant} {op : Operation} (h : l.Edit now op l')
    (hrows : ∀ row ∈ l.rows, row.Regular) (hnow : Row.isInstant now) (hop : op.isDated = true)
    (hn : ∀ r n t, op = .reschedule r n t → n.toNat + 1 < UInt32.size) :
    ∀ row ∈ l'.rows, row.Regular := by
  have hfresh : ∀ c, (Row.ofRecord (l.fresh c now)).Regular := fun c =>
    .ofRecord hnow (by simp [Ledger.fresh, Record.ofCommand, UInt32.size])
  intro row hrow
  cases h with
  | @insert c | @submit c =>
    rcases List.mem_append.1 hrow with hrow | hrow
    · exact hrows row hrow
    · exact List.mem_singleton.1 hrow ▸ hfresh c
  | @replace c =>
    rcases List.mem_append.1 hrow with hrow | hrow
    · exact hrows row (List.mem_of_mem_filter hrow)
    · exact List.mem_singleton.1 hrow ▸ hfresh c
  | postpone r n t =>
    obtain ⟨x, hx, rfl⟩ := List.mem_map.1 hrow
    split
    · exact (hrows x hx).postponed hop (hn r n t rfl)
    · exact hrows x hx
  | delete | remove | purge => exact hrows row (List.mem_of_mem_filter hrow)
  | same | claim | keep | leave | release | recover => exact hrows row hrow

namespace System

open LawfulStore (ledger)

variable {σ W : Type} [QueueStore σ] {w : Wiring W} {s s' s₀ : System σ W} {a : Action}

/-- Whether every instant that a run reads or stores is one of the calendar, which has no others. A
worker stores no other one: it breaks down before. -/
def isDated (w : Wiring W) : List Action → System σ W → Bool
  | [], _ => true
  | a :: as, s =>
    Row.isInstant s.shared.now && (s.operation? a).all Operation.isDated &&
      match s.step w a with
      | none => true
      | some s' => isDated w as s'

theorem isDated_snoc {as : List Action} (h : s₀.steps w as = some s)
    (hd : s₀.isDated w (as ++ [a]) = true) :
    s₀.isDated w as = true ∧ Row.isInstant s.shared.now = true ∧
      (s.operation? a).all Operation.isDated = true := by
  induction as generalizing s₀ with
  | nil =>
    cases h
    simp only [List.nil_append, isDated, Bool.and_eq_true] at hd
    exact ⟨rfl, hd.1⟩
  | cons b as ih =>
    simp only [steps] at h
    split at h
    · cases h
    · rename_i t hb
      simp only [List.cons_append, isDated, hb, Bool.and_eq_true] at hd ⊢
      obtain ⟨has, hlast⟩ := ih h hd.2
      exact ⟨⟨hd.1, has⟩, hlast⟩

/-- A record that is repeated has a next attempt. -/
theorem toNat_lt_of_reschedule (h₀ : ∀ l, (s₀.workers.get l).record? = none) {as : List Action}
    (hrun : s₀.steps w as = some s) {x : Record} {n : UInt32} {t : Instant}
    (hop : s.operation? a = some (.reschedule x n t)) : n.toNat + 1 < UInt32.size := by
  obtain ⟨l, f, -, ⟨stage, hp, hf⟩ | ⟨-, hf⟩⟩ := settling_of_settled? hop rfl
  · obtain ⟨ms, hun⟩ := underway_of_record? h₀ hrun (l := l) (x := x) (by rw [hp]; rfl)
    rw [hp] at hun
    cases hun with
    | settle _ hep _ =>
      unfold Fate.operation at hf
      split at hf
      · cases hf
      · rename_i hretry
        cases hf
        obtain ⟨-, -, hlt, rfl, -⟩ := hep.of_retry hretry
        have hbound := w.config.retry.bound_lt
        omega
  · cases hf

variable [LawfulStore σ]

theorem regular_steps (htidy : s₀.Tidy) (h₀ : ∀ l, (s₀.workers.get l).record? = none)
    (hrows : ∀ row ∈ (ledger s₀.shared.store).rows, row.Regular) {as : List Action}
    (hrun : s₀.steps w as = some s) (hd : s₀.isDated w as = true) :
    ∀ row ∈ (ledger s.shared.store).rows, row.Regular := by
  refine steps_induction (P := fun as t => s₀.isDated w as = true →
    ∀ row ∈ (ledger t.shared.store).rows, row.Regular) (fun _ => hrows) ?_ hrun hd
  intro as a t t' ht ih hstep hd
  obtain ⟨hdated, hnow, hop⟩ := isDated_snoc ht hd
  rw [step_store hstep]
  cases hcase : t.operation? a with
  | none => exact ih hdated
  | some op =>
    rw [hcase] at hop
    refine (LawfulStore.edit_run (htidy.steps ht).sound op _).regular (ih hdated) hnow hop ?_
    rintro x n u rfl
    exact toNat_lt_of_reschedule h₀ ht hcase

end System

/-! ## Cutting off -/

/-- What a command table may hold when a process opens it: nothing at first; and later what had been
committed when the process before was cut off, after any run of its scheduler on the table that it had
opened, with any requests and any failures. -/
inductive Cut : CommandTable → Prop
  | empty : Cut {}
  | cut {W : Type} {w : Wiring W} {t : CommandTable} {refusals : List (Option QueueError)}
      {now : Instant} {world : W} {as : List Action} {s : System ShakyTable W} : Cut t →
      (System.init w.config ⟨.ofTable t, refusals⟩ now world).steps w as = some s →
      (System.init w.config (⟨.ofTable t, refusals⟩ : ShakyTable) now world).isDated w as = true →
      Cut s.shared.store.table.table

namespace Cut

variable {t : CommandTable}

theorem sound (h : Cut t) : (TableStore.ofTable t).ledger.Sound := by
  induction h with
  | empty => exact Ledger.Sound.empty
  | @cut W w t refusals now world as s _ hrun _ ih =>
    have hs : (LawfulStore.ledger (⟨.ofTable t, refusals⟩ : ShakyTable)).Sound := ih
    exact TableStore.sound_ofTable ((System.Tidy.init w.config hs now world).steps hrun).sound

theorem regular (h : Cut t) : ∀ row ∈ t.rows, row.Regular := by
  induction h with
  | empty => exact nofun
  | @cut W w t refusals now world as s hcut hrun hd ih =>
    have hs : (LawfulStore.ledger (⟨.ofTable t, refusals⟩ : ShakyTable)).Sound := hcut.sound
    exact System.regular_steps (System.Tidy.init w.config hs now world)
      (fun l => by simp [System.init, Point.record?]) ih hrun hd

end Cut

end LaneQueue
