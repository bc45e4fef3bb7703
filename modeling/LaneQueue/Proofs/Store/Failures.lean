import LaneQueue.Proofs.Store.Frame
import LaneQueue.Proofs.Store.Tokens
/-!
# Calls that fail

A call on a table fails when the store is closed, when the medium refuses one of its statements, when
an identity is taken or when a row cannot be read. `TableStore.Fails` lists the ways, for whatever stands
in the table and whatever is claimed. The rows always stay. What is kept beside them stays too, except
that a settlement has dropped its claim by then and a recovery all claims, before the statement that
fails (`Fails.mem_claimed`). So a call that fails may leave a record that is claimed once more
(`recover_forgets`).
-/
namespace LaneQueue

/-- Whether a call drops the claim of a place before it comes to the table. -/
def Operation.drops (q : Int) : Operation → Prop
  | .retire r | .reschedule r _ _ => q = r.seq
  | .recover => True
  | _ => False

namespace TableStore

open LawfulStore (eq_error_of_map)

variable {s s' : TableStore} {now : Instant} {op : Operation} {e : QueueError}

/-- How a call may fail, and what it leaves. A submission is one transaction, so it does not matter
which of its statements the medium refuses. -/
inductive Fails (s : TableStore) (now : Instant) : Operation → TableStore → Prop
  /-- The call itself answers an error. -/
  | answered {op : Operation} {e : QueueError} :
      (op.run now s).1 = .error e → Fails s now op (op.run now s).2
  /-- The medium refuses a statement, with the same effect as a closed store. -/
  | refused {op : Operation} {e : QueueError} :
      (op.run now s.close).1 = .error e →
        Fails s now op { (op.run now s.close).2 with isOpen := s.isOpen }
  /-- The medium refuses the second statement of a recovery. -/
  | interrupted : s.isOpen = true → Fails s now .recover (Operation.recover.run now s).2

/-! ## What one call leaves -/

/-- The store after a call that has failed. -/
def leftBy (s : TableStore) : Operation → TableStore
  | .retire r | .reschedule r _ _ => s.drop r.seq
  | .recover =>
    { s with claimed := [], lastSeq := if s.isOpen then s.table.maxSeq else s.lastSeq }
  | _ => s

theorem recover_state (s : TableStore) : (recover s).2 = s.leftBy .recover := by
  unfold recover
  cases ho : s.isOpen <;> simp [leftBy, ho]

theorem addTo_of_error {t : CommandTable} {c : NewCommand} {α : Type} {result : Record → α}
    (h : (s.addTo t c now result).1 = .error e) : (s.addTo t c now result).2 = s := by
  unfold addTo at h ⊢
  split
  · rfl
  · rename_i t' ht
    rw [ht] at h
    cases h

theorem insert_of_error {c : NewCommand} (h : (insert c now s).1 = .error e) :
    (insert c now s).2 = s := by
  by_cases ho : s.isOpen = true
  · simp only [insert, ho, if_true] at h ⊢
    exact addTo_of_error h
  · simp [insert, ho]

theorem submit_of_error {c : NewCommand} {p : ConflictPolicy} (h : (submit c p now s).1 = .error e) :
    (submit c p now s).2 = s := by
  unfold submit at h ⊢
  rcases hf : s.findByIdentity c.identity with d | (_ | old)
  · rfl
  · simp only [hf] at h
    exact addTo_of_error h
  · cases p with
    | rejectDuplicate | error => rfl
    | replace =>
      simp only [hf, ConflictPolicy.resolve] at h
      exact addTo_of_error h

theorem nextEligible_of_error {lane : Lane} (h : (nextEligible lane now s).1 = .error e) :
    (nextEligible lane now s).2 = s := by
  by_cases ho : s.isOpen = true
  · simp only [nextEligible, ho, Bool.not_true, Bool.false_eq_true, if_false] at h ⊢
    split
    · rfl
    · rename_i row hrow
      simp only [hrow] at h
      cases hr : row.toRecord with
      | error d => rfl
      | ok r =>
        simp only [hr] at h
        cases h
  · simp [nextEligible, ho]

theorem execute_of_error {statement : CommandTable → Nat × CommandTable}
    (h : (s.execute statement).1 = .error e) : (s.execute statement).2 = s := by
  rcases s.execute_cases statement with hx | hx
  · rw [hx] at h
    cases h
  · rw [hx]

theorem deleteByIdentity_of_error {i : String} (h : (deleteByIdentity i s).1 = .error e) :
    (deleteByIdentity i s).2 = s := by
  unfold deleteByIdentity at h ⊢
  rcases s.execute_cases fun t => t.delete fun row => row.identity == i with hx | hx
  · rw [hx] at h
    cases h
  · rw [hx]

theorem retire_of_error {r : Record} (h : (retire r s).1 = .error e) :
    (retire r s).2 = s.drop r.seq := by
  unfold retire at h ⊢
  rcases (s.drop r.seq).execute_cases fun t => t.delete (isRowOf r) with hx | hx
  · rw [hx] at h
    cases h
  · rw [hx]

theorem reschedule_of_error {r : Record} {n : UInt32} {t : Instant}
    (h : (reschedule r n t s).1 = .error e) : (reschedule r n t s).2 = s.drop r.seq := by
  unfold reschedule at h ⊢
  rcases (s.drop r.seq).execute_cases fun x => x.update (isRowOf r) fun row =>
    { row with retryCount := n.toNat, availableAt := t } with hx | hx
  · rw [hx] at h
    cases h
  · rw [hx]

/-- One description for every call: what is left does not depend on why the call has failed. -/
theorem run_of_error (h : (op.run now s).1 = .error e) : (op.run now s).2 = s.leftBy op := by
  cases op with
  | insert c => exact insert_of_error (eq_error_of_map h)
  | submit c p => exact submit_of_error (eq_error_of_map h)
  | deleteByIdentity i => exact deleteByIdentity_of_error (eq_error_of_map h)
  | nextEligible l => exact nextEligible_of_error (eq_error_of_map h)
  | retire r => exact retire_of_error (eq_error_of_map h)
  | reschedule r n t => exact reschedule_of_error (eq_error_of_map h)
  | purgeLane l => exact execute_of_error (eq_error_of_map h)
  | recover => exact recover_state s
  | release r => cases h
  | findByIdentity | pendingCount | nextWakeAt => rfl

/-- A failed call leaves one of two stores, which differ for a recovery only. -/
theorem Fails.cases_left (h : s.Fails now op s') :
    s' = s.leftBy op ∨ op = .recover ∧ s' = { s with claimed := [] } := by
  cases h with
  | answered he => exact .inl (run_of_error he)
  | refused he =>
    rw [run_of_error he]
    cases op with
    | recover => exact .inr ⟨rfl, rfl⟩
    | insert | submit | deleteByIdentity | findByIdentity | nextEligible | retire | reschedule |
      release | pendingCount | nextWakeAt | purgeLane => exact .inl rfl
  | interrupted ho => exact .inl (recover_state s)

/-! ## What an open table refuses -/

theorem exists_lane_of_mapM : ∀ {is : List Int} {ls : List Lane}, is.mapM Lane.ofIndex = .ok ls →
    ∀ i ∈ is, ∃ l : Lane, i = l.index
  | [], _, _ => by simp
  | i :: is, ls, h => by
    rw [List.mapM_cons] at h
    cases hi : Lane.ofIndex i with
    | error d => rw [hi] at h; cases h
    | ok l =>
      rw [hi] at h
      cases hm : is.mapM Lane.ofIndex with
      | error d => rw [hm] at h; cases h
      | ok ms =>
        intro j hj
        rcases List.mem_cons.1 hj with rfl | hj
        · exact ⟨l, Lane.eq_index_of_ofIndex hi⟩
        · exact exists_lane_of_mapM hm j hj

/-- A recovery of an open table fails just when a row is of no lane. -/
theorem recover_fails_iff (ho : s.isOpen = true) :
    (∃ e, (recover s).1 = .error e) ↔ ∃ row ∈ s.table.rows, ∀ l : Lane, row.lane ≠ l.index := by
  have hrun : (recover s).1 =
      (((s.table.rows.map (·.lane)).mergeSort (· ≤ ·)).mapM Lane.ofIndex).map PerLane.count := by
    simp [recover, ho]
  rw [hrun]
  constructor
  · rintro ⟨e, he⟩
    by_contra hn
    push Not at hn
    obtain ⟨ls, hls⟩ : ∃ ls, ((s.table.rows.map (·.lane)).mergeSort (· ≤ ·)).mapM Lane.ofIndex =
        .ok ls := by
      refine mapM_ofIndex_ok fun i hi => ?_
      obtain ⟨row, hrow, rfl⟩ := List.mem_map.1 (List.mem_mergeSort.1 hi)
      obtain ⟨l, hl⟩ := hn row hrow
      exact ⟨l, hl ▸ Lane.ofIndex_index l⟩
    rw [hls] at he
    cases he
  · rintro ⟨row, hrow, hn⟩
    cases hm : ((s.table.rows.map (·.lane)).mergeSort (· ≤ ·)).mapM Lane.ofIndex with
    | error e => exact ⟨e, rfl⟩
    | ok ls =>
      obtain ⟨l, hl⟩ := exists_lane_of_mapM hm row.lane
        (List.mem_mergeSort.2 (List.mem_map_of_mem hrow))
      exact absurd hl (hn l)

/-- Only a recovery changes anything when a call of an open table fails by itself. -/
theorem run_eq_or_recover (ho : s.isOpen = true) (h : (op.run now s).1 = .error e) :
    (op.run now s).2 = s ∨ op = .recover ∧ ∃ row ∈ s.table.rows, ∀ l : Lane, row.lane ≠ l.index := by
  rw [run_of_error h]
  cases op with
  | retire r =>
    obtain ⟨a, ha⟩ := settles_ok (.inl rfl) now ho
    rw [ha] at h
    cases h
  | reschedule r n t =>
    obtain ⟨a, ha⟩ := settles_ok (.inr ⟨n, t, rfl⟩) now ho
    rw [ha] at h
    cases h
  | recover => exact .inr ⟨rfl, (recover_fails_iff ho).1 ⟨e, eq_error_of_map h⟩⟩
  | insert | submit | deleteByIdentity | findByIdentity | nextEligible | release | pendingCount |
    nextWakeAt | purgeLane => exact .inl rfl

/-! ## What is left -/

theorem drop_eq_self {q : Int} : s.drop q = s ↔ q ∉ s.claimed := by
  constructor
  · intro h hq
    rw [← h] at hq
    simp [drop] at hq
  · intro hq
    have hclaimed : s.claimed.filter (· != q) = s.claimed :=
      List.filter_eq_self.2 fun x hx => by simpa using ne_of_mem_of_not_mem hx hq
    simp only [drop, hclaimed]

namespace Fails

theorem table (h : s.Fails now op s') : s'.table = s.table := by
  obtain rfl | ⟨-, rfl⟩ := h.cases_left
  · cases op <;> rfl
  · rfl

theorem mem_claimed (h : s.Fails now op s') (q : Int) :
    q ∈ s'.claimed ↔ q ∈ s.claimed ∧ ¬ op.drops q := by
  obtain rfl | ⟨rfl, rfl⟩ := h.cases_left
  · cases op with
    | retire r | reschedule r n t => simp [leftBy, drop, Operation.drops]
    | recover => simp [leftBy, Operation.drops]
    | insert | submit | deleteByIdentity | findByIdentity | nextEligible | release | pendingCount |
      nextWakeAt | purgeLane => simp [leftBy, Operation.drops]
  · simp [Operation.drops]

theorem lastSeq (h : s.Fails now op s') :
    s'.lastSeq = s.lastSeq ∨ op = .recover ∧ s'.lastSeq = s.table.maxSeq := by
  obtain rfl | ⟨-, rfl⟩ := h.cases_left
  · cases op with
    | recover =>
      by_cases ho : s.isOpen = true <;> simp [leftBy, ho]
    | insert | submit | deleteByIdentity | findByIdentity | nextEligible | retire | reschedule |
      release | pendingCount | nextWakeAt | purgeLane => exact .inl rfl
  · exact .inl rfl

/-- The store is as it was just when no claim has been dropped and the order stays. -/
theorem eq_iff (h : s.Fails now op s') :
    s' = s ↔ (∀ q ∈ s.claimed, ¬ op.drops q) ∧ s'.lastSeq = s.lastSeq := by
  constructor
  · rintro rfl
    exact ⟨fun q hq => ((h.mem_claimed q).1 hq).2, rfl⟩
  · rintro ⟨hkept, hlast⟩
    have hnone : op = .recover → s.claimed = [] := by
      rintro rfl
      exact List.eq_nil_iff_forall_not_mem.2 fun q hq => hkept q hq trivial
    obtain rfl | ⟨hop, rfl⟩ := h.cases_left
    · cases op with
      | retire r | reschedule r n t => exact drop_eq_self.2 fun hr => hkept _ hr rfl
      | recover =>
        simp only [leftBy] at hlast ⊢
        rw [hlast, ← hnone rfl]
      | insert | submit | deleteByIdentity | findByIdentity | nextEligible | release |
        pendingCount | nextWakeAt | purgeLane => rfl
    · rw [← hnone hop]

/-- A claimed row waits again just when its claim has been dropped. -/
theorem isWaiting_iff (h : s.Fails now op s') (lane : Lane) (row : Row) :
    s'.isWaiting lane row = true ↔
      s.isWaiting lane row = true ∨ row.lane = lane.index ∧ op.drops row.seq := by
  have hclaimed := h.mem_claimed row.seq
  by_cases hd : op.drops row.seq
  · simp only [isWaiting, hclaimed, hd, Bool.and_eq_true, beq_iff_eq, Bool.not_eq_true',
      List.contains_eq_mem, decide_eq_false_iff_not]
    tauto
  · simp [isWaiting, hclaimed, hd]

end Fails

/-- **What a failed call leaves**, whatever stands in the table and whatever is claimed: all rows, and
the claims that it does not drop on its way to the table. So the store is as it was just when nothing
that was claimed has been dropped and the order goes on where it was; otherwise a record that was claimed
waits again. An open table whose medium serves fails so in a recovery only, over a row of no lane. -/
theorem failed_leaves (s : TableStore) (now : Instant) (op : Operation) :
    (∀ s', s.Fails now op s' →
      s'.table = s.table ∧
      (∀ q, q ∈ s'.claimed ↔ q ∈ s.claimed ∧ ¬ op.drops q) ∧
      (s'.lastSeq = s.lastSeq ∨ op = .recover ∧ s'.lastSeq = s.table.maxSeq) ∧
      (s' = s ↔ (∀ q ∈ s.claimed, ¬ op.drops q) ∧ s'.lastSeq = s.lastSeq) ∧
      ∀ lane row, s'.isWaiting lane row = true ↔
        s.isWaiting lane row = true ∨ row.lane = lane.index ∧ op.drops row.seq) ∧
    (s.isOpen = true → ∀ e, (op.run now s).1 = .error e →
      (op.run now s).2 = s ∨ op = .recover ∧ ∃ row ∈ s.table.rows, ∀ l : Lane, row.lane ≠ l.index) := by
  refine ⟨fun s' h => ?_, fun ho e he => run_eq_or_recover ho he⟩
  exact ⟨h.table, h.mem_claimed, h.lastSeq, h.eq_iff, h.isWaiting_iff⟩

/-- The medium refuses to retire the record in hand of the general lane, and then it is claimed again. -/
theorem failed_leaves_refusedRetirement :
    let s := (Operation.runAll [(.insert (probe []), 0), (.nextEligible .general, 0)] empty).2
    let x : Record := .ofCommand (probe []) 1 0
    ∃ s', s.Fails 1 (.retire x) s' ∧ s'.table = s.table ∧ s.claimed = [1] ∧ 1 ∉ s'.claimed ∧
      ((Operation.nextEligible .general).run 1 s').1 = .ok (.found (some x)) := by
  intro s x
  have hrefused : ((Operation.retire x).run 1 s.close).1 =
      .error MediumFault.poolClosed.toQueueError := by decide +kernel
  have hfails := Fails.refused hrefused
  obtain ⟨htable, hclaimed, -⟩ := (failed_leaves s 1 (.retire x)).1 _ hfails
  exact ⟨_, hfails, htable, by decide +kernel, fun h => ((hclaimed 1).1 h).2 rfl, by decide +kernel⟩

/-- A table with a claimed row and one of no lane. -/
def strayRow : TableStore :=
  let s := (Operation.runAll [(.insert (probe []), 0), (.nextEligible .general, 0),
    (.insert { probe [] with identity := "b" }, 0)] empty).2
  { s with table := (s.table.update (·.identity == "b") fun row => { row with lane := 7 }).2 }

/-- The recovery fails and has forgotten the claim: the record in hand is claimed a second time. -/
theorem recover_forgets :
    (Operation.recover.run 1 strayRow).1 = .error (.invalidLane "lane index 7") ∧
      strayRow.claimed = [1] ∧ (Operation.recover.run 1 strayRow).2.claimed = [] ∧
      ((Operation.nextEligible .general).run 1 strayRow).1 = .ok (.found none) ∧
      ((Operation.nextEligible .general).run 1 (Operation.recover.run 1 strayRow).2).1 =
        .ok (.found (some (.ofCommand (probe []) 1 0))) ∧
      ¬ ∀ (s : TableStore) (op : Operation) (now : Instant) (e : QueueError),
        (op.run now s).1 = .error e → (op.run now s).2 = s := by
  have hlanes : (strayRow.table.rows.map (·.lane)).mergeSort (· ≤ ·) = [0, 7] := by
    have hmap : strayRow.table.rows.map (·.lane) = [0, 7] := by decide +kernel
    rw [hmap]
    exact List.mergeSort_of_pairwise (by decide)
  have hfails : (Operation.recover.run 1 strayRow).1 = .error (.invalidLane "lane index 7") := by
    have hopen : strayRow.isOpen = true := by decide +kernel
    change (recover strayRow).1.map _ = _
    simp only [recover, hopen, hlanes, Bool.not_true, Bool.false_eq_true, if_false]
    rfl
  have hbefore : strayRow.claimed = [1] := by decide +kernel
  have hafter : (Operation.recover.run 1 strayRow).2.claimed = [] := by decide +kernel
  refine ⟨hfails, hbefore, hafter, by decide +kernel, by decide +kernel, fun h => ?_⟩
  have hsame := congrArg TableStore.claimed (h strayRow .recover 1 _ hfails)
  rw [hbefore, hafter] at hsame
  cases hsame

end TableStore

end LaneQueue
