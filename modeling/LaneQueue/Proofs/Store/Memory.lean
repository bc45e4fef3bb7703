import LaneQueue.Proofs.Store.Laws
import LaneQueue.Store.Memory
/-!
# The store in memory obeys the laws

Looking up, removing and changing a record by its identity alone is what the laws ask for by
identity and place, because no two records share an identity. The record that is served first is
found by one pass over the waiting ones.
-/
namespace LaneQueue

/-! ## The first record in the order of service -/

namespace Record

theorem servesBefore_iff {a b : Record} : a.servesBefore b = true ↔
    a.priority.toNat < b.priority.toNat ∨ a.priority.toNat = b.priority.toNat ∧ a.seq ≤ b.seq := by
  simp [servesBefore]

theorem first?_eq_none {rs : List Record} : first? rs = none ↔ rs = [] := by
  cases rs with
  | nil => simp [first?]
  | cons r rs =>
    simp only [first?, reduceCtorEq, iff_false]
    split
    · simp
    · split <;> simp

/-- The one pass gives a record of the list that is served no later than any other. -/
theorem first?_spec : ∀ {rs : List Record} {b : Record}, first? rs = some b →
    b ∈ rs ∧ ∀ x ∈ rs, b.servesBefore x = true
  | [], _, h => by cases h
  | r :: rs, b, h => by
    simp only [first?] at h
    split at h
    · rename_i hn
      obtain rfl := Option.some.inj h
      rw [first?_eq_none.1 hn]
      simp [servesBefore]
    · rename_i a ha
      obtain ⟨hm, hle⟩ := first?_spec ha
      split at h
      · rename_i hra
        obtain rfl := Option.some.inj h
        refine ⟨List.mem_cons_self, fun x hx => ?_⟩
        rcases List.mem_cons.1 hx with rfl | hx
        · simp [servesBefore]
        · have hax := servesBefore_iff.1 (hle x hx)
          have hra := servesBefore_iff.1 hra
          exact servesBefore_iff.2 (by omega)
      · rename_i hra
        obtain rfl := Option.some.inj h
        refine ⟨List.mem_cons_of_mem _ hm, fun x hx => ?_⟩
        rcases List.mem_cons.1 hx with rfl | hx
        · rw [servesBefore_iff] at hra
          exact servesBefore_iff.2 (by omega)
        · exact hle x hx

end Record

namespace MemoryStore

open Ledger (isRowOf_iff isDue_iff)

/-- The ledger of the store in memory. -/
def ledger (s : MemoryStore) : Ledger := ⟨s.records.map .ofRecord, s.claimed, s.lastSeq⟩

variable {s : MemoryStore}

theorem mem_rows {row : Row} : row ∈ s.ledger.rows ↔ ∃ r ∈ s.records, Row.ofRecord r = row :=
  List.mem_map

theorem eq_of_identity (hs : s.ledger.Sound) {x y : Record} (hx : x ∈ s.records)
    (hy : y ∈ s.records) (hi : x.identity = y.identity) : x = y := by
  have h := hs.eq_of_identity (mem_rows.2 ⟨x, hx, rfl⟩) (mem_rows.2 ⟨y, hy, rfl⟩) hi
  exact ((Row.shows_ofRecord x).unique (h ▸ Row.shows_ofRecord y))

theorem find?_eq_some {i : String} {r : Record} (h : s.find? i = some r) :
    r ∈ s.records ∧ r.identity = i := by
  unfold find? at h
  exact ⟨List.mem_of_find?_eq_some h, by simpa using List.find?_some h⟩

theorem find?_eq_none {i : String} : s.find? i = none ↔ ¬ s.ledger.Holds i := by
  simp only [find?, List.find?_eq_none, beq_iff_eq, Ledger.Holds, mem_rows]
  constructor
  · rintro h ⟨_, ⟨r, hr, rfl⟩, hi⟩; exact h r hr hi
  · intro h r hr hi; exact h ⟨_, ⟨r, hr, rfl⟩, hi⟩

theorem finds_of_find? {i : String} {r : Record} (h : s.find? i = some r) :
    s.ledger.Finds i r := by
  obtain ⟨hr, hi⟩ := find?_eq_some h
  exact ⟨.ofRecord r, mem_rows.2 ⟨r, hr, rfl⟩, hi, Row.shows_ofRecord r⟩

/-- A claim owns the record of its identity if that has the claimed place. -/
theorem owns_iff (hs : s.ledger.Sound) {r : Record} : s.owns r = true ↔ s.ledger.Owns r := by
  unfold owns Ledger.Owns
  cases hf : s.find? r.identity with
  | none =>
    simp only [Bool.false_eq_true, false_iff]
    rintro ⟨row, hr, ho⟩
    exact find?_eq_none.1 hf ⟨row, hr, (isRowOf_iff.1 ho).1⟩
  | some x =>
    obtain ⟨hx, hi⟩ := find?_eq_some hf
    simp only [beq_iff_eq]
    constructor
    · intro hq
      exact ⟨.ofRecord x, mem_rows.2 ⟨x, hx, rfl⟩, isRowOf_iff.2 ⟨hi, hq⟩⟩
    · rintro ⟨row, hr, ho⟩
      obtain ⟨y, hy, rfl⟩ := mem_rows.1 hr
      obtain ⟨hyi, hyq⟩ := isRowOf_iff.1 ho
      obtain rfl := eq_of_identity hs hx hy (hi.trans hyi.symm)
      exact hyq

theorem isRowOf_ofRecord (hs : s.ledger.Sound) {r x : Record} (ho : s.owns r = true)
    (hx : x ∈ s.records) :
    TableStore.isRowOf r (.ofRecord x) = (x.identity == r.identity) := by
  obtain ⟨row, hr, hrow⟩ := (owns_iff hs).1 ho
  obtain ⟨y, hy, rfl⟩ := mem_rows.1 hr
  obtain ⟨hyi, hyq⟩ := isRowOf_iff.1 hrow
  have hi : (Row.ofRecord x).identity = x.identity := rfl
  by_cases h : x.identity = r.identity
  · obtain rfl := eq_of_identity hs hx hy (h.trans hyi.symm)
    rw [hrow, beq_iff_eq.2 h]
  · simp [TableStore.isRowOf, hi, h]

/-! ## The edits -/

theorem ledger_add (s : MemoryStore) (c : NewCommand) (now : Instant) :
    (s.add c now).ledger = s.ledger.add c now := by
  simp [ledger, add, Ledger.add, Ledger.fresh, fresh]

theorem ledger_without (s : MemoryStore) (i : String) :
    (s.without i).ledger = s.ledger.without i := by
  simp only [ledger, without, Ledger.without, List.filter_map]
  rfl

theorem ledger_remove (hs : s.ledger.Sound) {r : Record} (ho : s.owns r = true) :
    (s.without r.identity).ledger = s.ledger.remove r := by
  simp only [ledger, without, Ledger.remove, List.filter_map]
  congr 2
  refine List.filter_congr fun x hx => ?_
  simp only [Function.comp, isRowOf_ofRecord hs ho hx]
  rfl

theorem isRowOf_of_not_owns (hs : s.ledger.Sound) {r : Record} (ho : s.owns r = false) {row : Row}
    (hr : row ∈ s.ledger.rows) : TableStore.isRowOf r row = false := by
  cases h : TableStore.isRowOf r row with
  | false => rfl
  | true =>
    have := (owns_iff hs).2 ⟨row, hr, h⟩
    rw [ho] at this
    cases this

theorem remove_of_not_owns (hs : s.ledger.Sound) {r : Record} (ho : s.owns r = false) :
    s.ledger.remove r = s.ledger := by
  simp only [Ledger.remove]
  congr 1
  exact List.filter_eq_self.2 fun row hr => by rw [isRowOf_of_not_owns hs ho hr]; rfl

theorem postpone_of_not_owns (hs : s.ledger.Sound) {r : Record} (n : UInt32) (t : Instant)
    (ho : s.owns r = false) : s.ledger.postpone r n t = s.ledger := by
  simp only [Ledger.postpone]
  congr 1
  refine (List.map_congr_left fun row hr => ?_).trans (List.map_id _)
  simp [isRowOf_of_not_owns hs ho hr]

theorem ledger_reschedule (hs : s.ledger.Sound) {r : Record} (n : UInt32) (t : Instant)
    (ho : s.owns r = true) :
    ledger { s with records := s.records.map fun x =>
      if x.identity == r.identity then { x with retryCount := n, availableAt := t } else x } =
      s.ledger.postpone r n t := by
  simp only [ledger, Ledger.postpone, List.map_map]
  congr 1
  refine List.map_congr_left fun x hx => ?_
  simp only [Function.comp, isRowOf_ofRecord hs ho hx]
  split <;> rfl

theorem lane_ofRecord (lane : Lane) (r : Record) :
    ((Row.ofRecord r).lane == (lane.index : Int)) = (r.lane == lane) := by
  by_cases h : r.lane = lane
  · simp [Row.ofRecord, h]
  · have hne : (Row.ofRecord r).lane ≠ lane.index := fun he => h (Lane.index_inj he)
    rw [beq_eq_false_iff_ne.2 hne, beq_eq_false_iff_ne.2 h]

theorem isWaiting_ofRecord (s : MemoryStore) (lane : Lane) (r : Record) :
    s.ledger.isWaiting lane (.ofRecord r) = (r.lane == lane && !s.isClaimed r) := by
  simp only [Ledger.isWaiting, lane_ofRecord]
  rfl

theorem mem_due {lane : Lane} {now : Instant} {r : Record} :
    r ∈ (s.waiting lane).filter (fun r => r.availableAt ≤ now) ↔
      r ∈ s.records ∧ s.ledger.isDue lane now (.ofRecord r) = true := by
  simp only [Ledger.isDue, isWaiting_ofRecord, waiting, List.mem_filter, Bool.and_eq_true, and_assoc]
  rfl

theorem ledger_purge (s : MemoryStore) (lane : Lane) :
    ledger { s with records := s.records.filter fun r => r.lane != lane || s.isClaimed r } =
      s.ledger.purge lane := by
  simp only [ledger, Ledger.purge, List.filter_map]
  congr 2
  refine List.filter_congr fun r _ => ?_
  have h := isWaiting_ofRecord s lane r
  simp only [ledger] at h
  simp [Function.comp, h, bne]

theorem countP_waiting (s : MemoryStore) (lane : Lane) :
    s.ledger.rows.countP (s.ledger.isWaiting lane) = (s.waiting lane).length := by
  simp only [ledger, List.countP_map, waiting, ← List.countP_eq_length_filter]
  exact List.countP_congr fun r _ => by
    have h := isWaiting_ofRecord s lane r
    simp only [ledger] at h
    simp [Function.comp, h]

theorem countP_lane (s : MemoryStore) (lane : Lane) :
    (s.records.countP fun r => r.lane == lane) =
      s.ledger.rows.countP fun row => row.lane == (lane.index : Int) := by
  simp only [ledger, List.countP_map]
  exact List.countP_congr fun r _ => by simp only [Function.comp, lane_ofRecord]

theorem futures_eq (s : MemoryStore) (lane : Lane) (now : Instant) :
    s.ledger.futures lane now = ((s.waiting lane).map (·.availableAt)).filter (now < ·) := by
  simp only [Ledger.futures, waiting, List.filter_map, List.filter_filter]
  rw [show s.ledger.rows = s.records.map .ofRecord from rfl, List.filter_map, List.map_map]
  congr 1
  refine List.filter_congr fun r _ => ?_
  simp only [Function.comp, isWaiting_ofRecord]
  rw [Bool.and_comm]
  rfl

/-! ## The laws -/

theorem not_isDue_of_first? {lane : Lane} {now : Instant}
    (hf : Record.first? ((s.waiting lane).filter fun r => r.availableAt ≤ now) = none) :
    ∀ row ∈ s.ledger.rows, s.ledger.isDue lane now row = false := by
  intro row hr
  obtain ⟨x, hx, rfl⟩ := mem_rows.1 hr
  cases hd : s.ledger.isDue lane now (.ofRecord x) with
  | false => rfl
  | true =>
    have hm := mem_due.2 ⟨hx, hd⟩
    rw [Record.first?_eq_none.1 hf] at hm
    cases hm

theorem isFirst_of_first? {lane : Lane} {now : Instant} {r : Record}
    (hf : Record.first? ((s.waiting lane).filter fun r => r.availableAt ≤ now) = some r) :
    s.ledger.IsFirst (s.ledger.isDue lane now) (.ofRecord r) := by
  obtain ⟨hm, hle⟩ := Record.first?_spec hf
  obtain ⟨hr, hd⟩ := mem_due.1 hm
  refine ⟨mem_rows.2 ⟨r, hr, rfl⟩, hd, fun row hrow hx => ?_⟩
  obtain ⟨x, hx', rfl⟩ := mem_rows.1 hrow
  have := Record.servesBefore_iff.1 (hle x (mem_due.2 ⟨hx', hx⟩))
  rw [Row.servesBefore_iff]
  simp only [Row.ofRecord]
  omega

theorem claims_spec (s : MemoryStore) (lane : Lane) (now : Instant) :
    s.ledger.Claims lane now (nextEligible lane now s).1 (nextEligible lane now s).2.ledger := by
  unfold nextEligible
  cases hf : Record.first? ((s.waiting lane).filter fun r => r.availableAt ≤ now) with
  | none => exact ⟨not_isDue_of_first? hf, rfl⟩
  | some r => exact ⟨.ofRecord r, isFirst_of_first? hf, Row.shows_ofRecord r, rfl⟩

theorem submits_spec (s : MemoryStore) (c : NewCommand) (p : ConflictPolicy) (now : Instant) :
    s.ledger.Submits c p now (submit c p now s).1 (submit c p now s).2.ledger := by
  unfold submit
  cases hf : s.find? c.identity with
  | none => exact ⟨find?_eq_none.1 hf, rfl, ledger_add s c now⟩
  | some old =>
    have ho := finds_of_find? hf
    cases p with
    | rejectDuplicate => exact ⟨rfl, ho, rfl⟩
    | error => exact ⟨rfl, ho, rfl⟩
    | replace =>
      refine ⟨rfl, ho, rfl, ?_⟩
      rw [← ledger_without, ← ledger_add]
      rfl

theorem submit_ok (s : MemoryStore) (c : NewCommand) (p : ConflictPolicy) (now : Instant) :
    ∃ a, (submit c p now s).1 = .ok a := by
  unfold submit
  split
  · exact ⟨_, rfl⟩
  · cases p <;> exact ⟨_, rfl⟩

theorem retires_spec (hs : s.ledger.Sound) (r : Record) :
    s.ledger.Retires r (retire r s).1 (retire r s).2.ledger := by
  have hd : (s.drop r.seq).ledger.Sound := hs.drop r.seq
  have hiff : (s.drop r.seq).owns r = true ↔ s.ledger.Owns r := owns_iff hs
  simp only [retire]
  cases ho : (s.drop r.seq).owns r with
  | true => exact ⟨by simp [← hiff, ho], ledger_remove hd ho⟩
  | false => exact ⟨by simp [← hiff, ho], (remove_of_not_owns hd ho).symm⟩

theorem reschedules_spec (hs : s.ledger.Sound) (r : Record) (n : UInt32) (t : Instant) :
    s.ledger.Reschedules r n t (reschedule r n t s).1 (reschedule r n t s).2.ledger := by
  have hd : (s.drop r.seq).ledger.Sound := hs.drop r.seq
  have hiff : (s.drop r.seq).owns r = true ↔ s.ledger.Owns r := owns_iff hs
  simp only [reschedule]
  cases ho : (s.drop r.seq).owns r with
  | true => exact ⟨by simp [← hiff, ho], ledger_reschedule hd n t ho⟩
  | false => exact ⟨by simp [← hiff, ho], (postpone_of_not_owns hd n t ho).symm⟩

instance : LawfulStore MemoryStore where
  ledger := ledger
  isOpen _ := true
  insert {s} hs c now := by
    change s.ledger.Inserts c now (insert c now s).1 (insert c now s).2.ledger
    unfold insert
    cases hf : s.find? c.identity with
    | none => exact ⟨find?_eq_none.1 hf, rfl, ledger_add s c now⟩
    | some old => rfl
  submit {s} _ c p now := submits_spec s c p now
  deleteByIdentity {s} _ i := by
    refine ⟨?_, ledger_without s i⟩
    rw [← not_iff_not, ← find?_eq_none]
    simp
  findByIdentity {s} _ i := by
    change s.ledger.Looks i (.ok (s.find? i))
    cases hf : s.find? i with
    | none => exact find?_eq_none.1 hf
    | some r => exact finds_of_find? hf
  nextEligible {s} _ lane now := claims_spec s lane now
  retire hs r := retires_spec hs r
  reschedule hs r n t := reschedules_spec hs r n t
  release _ _ := rfl
  pendingCount {s} _ lane := countP_lane s lane
  nextWakeAt {s} _ lane now := .inl (congrArg _ (futures_eq s lane now).symm)
  purgeLane {s} _ lane := ⟨(countP_waiting s lane).symm, ledger_purge s lane⟩
  recover {s} hs := ⟨s.lastSeq, hs.stored_le, rfl⟩
  isOpen_run _ _ _ := rfl
  wakes _ _ _ := ⟨_, rfl⟩
  answers {s} _ _ _ op now ha := by
    cases op with
    | insert c =>
      have hf : s.find? c.identity = none := find?_eq_none.2 ha
      exact ⟨.record (s.fresh c now), by
        change (insert c now s).1.map _ = _
        simp only [insert, hf]
        rfl⟩
    | submit c p =>
      obtain ⟨a, h⟩ := submit_ok s c p now
      exact ⟨.submission a, by change (submit c p now s).1.map _ = _; rw [h]; rfl⟩
    | nextEligible l =>
      change ∃ a, (nextEligible l now s).1.map _ = _
      unfold nextEligible
      split <;> exact ⟨_, rfl⟩
    | retire r =>
      change ∃ a, (retire r s).1.map _ = _
      simp only [retire]
      split <;> exact ⟨_, rfl⟩
    | reschedule r n t =>
      change ∃ a, (reschedule r n t s).1.map _ = _
      simp only [reschedule]
      split <;> exact ⟨_, rfl⟩
    | deleteByIdentity | findByIdentity | release | pendingCount | nextWakeAt | purgeLane
    | recover => exact ⟨_, rfl⟩

end MemoryStore

end LaneQueue
