import LaneQueue.Proofs.Store.Laws
/-!
# The store in a table obeys the laws

The claim reads no more rows than there are claims, and one: the rows before the first unclaimed one
have distinct places, all of them claimed, so that one is among those read (`find?_select`). An
insertion can only meet the primary key, never the unique places, as a fresh place is beyond every
stored one (`insert_fresh`).
-/
namespace LaneQueue

/-- Looking among the first few is enough if what stands before the hit is less. -/
theorem find?_take {α : Type} {p : α → Bool} {xs : List α} {n : Nat}
    (h : ∀ as x bs, xs = as ++ x :: bs → (∀ a ∈ as, p a = false) → as.length < n) :
    (xs.take n).find? p = xs.find? p := by
  cases hf : xs.find? p with
  | none =>
    exact List.find?_eq_none.2 fun y hy => List.find?_eq_none.1 hf y (List.mem_of_mem_take hy)
  | some x =>
    obtain ⟨hx, as, bs, rfl, ha⟩ := List.find?_eq_some_iff_append.1 hf
    have hn := h as x bs rfl fun a hm => by simpa using ha a hm
    obtain ⟨m, hm⟩ : ∃ m, n - as.length = m + 1 := ⟨n - as.length - 1, by omega⟩
    rw [List.take_append, List.take_of_length_le (by omega), hm, List.take_succ_cons]
    exact List.find?_eq_some_iff_append.2 ⟨hx, as, bs.take m, rfl, ha⟩

namespace Row

theorem servesBefore_trans (a b c : Row) (hab : a.servesBefore b = true)
    (hbc : b.servesBefore c = true) : a.servesBefore c = true := by
  rw [servesBefore_iff] at *
  omega

theorem servesBefore_total (a b : Row) : (a.servesBefore b || b.servesBefore a) = true := by
  rw [Bool.or_eq_true, servesBefore_iff, servesBefore_iff]
  omega

end Row

namespace TableStore

open Ledger (isDue_iff)

/-- The ledger of the store in a table. -/
def ledger (s : TableStore) : Ledger := ⟨s.table.rows, s.claimed, s.lastSeq⟩

variable {s : TableStore}

/-! ## The claim -/

/-- The rows of a lane whose instant has come, claimed or not, in the order of service. -/
def dueRows (s : TableStore) (lane : Lane) (now : Instant) : List Row :=
  (s.table.rows.filter fun r => r.lane == (lane.index : Int) && r.availableAt ≤ now).mergeSort
    Row.servesBefore

theorem mem_dueRows {lane : Lane} {now : Instant} {row : Row} :
    row ∈ s.dueRows lane now ↔
      row ∈ s.table.rows ∧ row.lane = lane.index ∧ row.availableAt ≤ now := by
  simp [dueRows, List.mem_mergeSort]

theorem isDue_iff_mem_dueRows {lane : Lane} {now : Instant} {row : Row} (hr : row ∈ s.table.rows) :
    s.ledger.isDue lane now row = true ↔ row ∈ s.dueRows lane now ∧ row.seq ∉ s.claimed := by
  rw [isDue_iff, mem_dueRows]
  constructor
  · rintro ⟨hl, hc, ha⟩; exact ⟨⟨hr, hl, ha⟩, hc⟩
  · rintro ⟨⟨-, hl, ha⟩, hc⟩; exact ⟨hl, hc, ha⟩

theorem nodup_dueRows (hq : (s.table.rows.map (·.seq)).Nodup) (lane : Lane) (now : Instant) :
    ((s.dueRows lane now).map (·.seq)).Nodup :=
  (((List.mergeSort_perm _ _).map _).nodup_iff).2 (hq.sublist (List.filter_sublist.map _))

/-- One row more than there are claims is enough to find the first unclaimed one. -/
theorem find?_select (hq : (s.table.rows.map (·.seq)).Nodup) (lane : Lane) (now : Instant) :
    ((s.dueRows lane now).take (s.claimed.length + 1)).find? (fun r => !s.claimed.contains r.seq) =
      (s.dueRows lane now).find? (fun r => !s.claimed.contains r.seq) := by
  refine find?_take fun as x bs he ha => Nat.lt_succ_of_le ?_
  have hn : (as.map (·.seq)).Nodup := by
    have := nodup_dueRows hq lane now
    rw [he, List.map_append] at this
    exact (List.nodup_append.1 this).1
  rw [← List.length_map (f := (·.seq))]
  refine hn.length_le_of_subset fun q hq => ?_
  obtain ⟨a, hm, rfl⟩ := List.mem_map.1 hq
  simpa using ha a hm

/-- The hit is the first of the rows that may be claimed. -/
theorem isFirst_of_find? {lane : Lane} {now : Instant} {row : Row}
    (hf : (s.dueRows lane now).find? (fun r => !s.claimed.contains r.seq) = some row) :
    s.ledger.IsFirst (s.ledger.isDue lane now) row := by
  obtain ⟨hc, as, bs, he, ha⟩ := List.find?_eq_some_iff_append.1 hf
  have hm : row ∈ s.dueRows lane now := by rw [he]; simp
  have hr := (mem_dueRows.1 hm).1
  refine ⟨hr, (isDue_iff_mem_dueRows hr).2 ⟨hm, by simpa using hc⟩, fun x hx hd => ?_⟩
  obtain ⟨hxm, hxc⟩ := (isDue_iff_mem_dueRows hx).1 hd
  have hp : (s.dueRows lane now).Pairwise (fun a b => a.servesBefore b = true) :=
    List.pairwise_mergeSort Row.servesBefore_trans Row.servesBefore_total _
  rw [he] at hp hxm
  rcases List.mem_append.1 hxm with h | h
  · exact absurd (by simpa using ha x h) hxc
  · rcases List.mem_cons.1 h with rfl | h
    · exact Row.servesBefore_iff.2 (by omega)
    · exact (List.pairwise_cons.1 (List.pairwise_append.1 hp).2.1).1 x h

theorem not_isDue_of_find? {lane : Lane} {now : Instant}
    (hf : (s.dueRows lane now).find? (fun r => !s.claimed.contains r.seq) = none) :
    ∀ row ∈ s.ledger.rows, s.ledger.isDue lane now row = false := by
  intro row hr
  cases hd : s.ledger.isDue lane now row with
  | false => rfl
  | true =>
    obtain ⟨hm, hc⟩ := (isDue_iff_mem_dueRows hr).1 hd
    exact absurd (by simpa using hc) (List.find?_eq_none.1 hf row hm)

theorem nextEligible_eq (hq : (s.table.rows.map (·.seq)).Nodup) (ho : s.isOpen = true)
    (lane : Lane) (now : Instant) :
    nextEligible lane now s =
      match (s.dueRows lane now).find? (fun r => !s.claimed.contains r.seq) with
      | none => (.ok none, s)
      | some row =>
        match row.toRecord with
        | .error e => (.error e, s)
        | .ok r => (.ok (some r), { s with claimed := r.seq :: s.claimed }) := by
  rw [← find?_select hq]
  simp only [nextEligible, ho, Bool.not_true, Bool.false_eq_true, if_false]
  rfl

theorem claims_spec (hs : s.ledger.Sound) (lane : Lane) (now : Instant) :
    s.ledger.Claims lane now (nextEligible lane now s).1 (nextEligible lane now s).2.ledger := by
  cases ho : s.isOpen with
  | false =>
    simp only [nextEligible, ho]
    rfl
  | true =>
    rw [nextEligible_eq hs.seqs ho]
    cases hf : (s.dueRows lane now).find? (fun r => !s.claimed.contains r.seq) with
    | none => exact ⟨not_isDue_of_find? hf, rfl⟩
    | some row =>
      cases hr : row.toRecord with
      | error e => simp only [hr]; rfl
      | ok r =>
        simp only [hr]
        exact ⟨row, isFirst_of_find? hf, Row.shows_of_toRecord hr, rfl⟩

/-! ## Looking up and inserting -/

theorem find?_eq_some {i : String} {row : Row} (h : s.table.find? i = some row) :
    row ∈ s.ledger.rows ∧ row.identity = i :=
  ⟨List.mem_of_find?_eq_some h, by simpa using List.find?_some h⟩

theorem find?_eq_none {i : String} : s.table.find? i = none ↔ ¬ s.ledger.Holds i := by
  simp only [CommandTable.find?, List.find?_eq_none, beq_iff_eq, Ledger.Holds]
  constructor
  · rintro h ⟨row, hr, hi⟩; exact h row hr hi
  · intro h row hr hi; exact h ⟨row, hr, hi⟩

theorem looks_spec (s : TableStore) (i : String) : s.ledger.Looks i (s.findByIdentity i) := by
  unfold findByIdentity connected
  cases ho : s.isOpen with
  | false => trivial
  | true =>
    simp only [if_true]
    cases hf : s.table.find? i with
    | none => exact find?_eq_none.1 hf
    | some row =>
      obtain ⟨hr, hi⟩ := find?_eq_some hf
      cases hrec : row.toRecord with
      | error e => simp only [hrec]; trivial
      | ok r => simp only [hrec]; exact ⟨row, hr, hi, Row.shows_of_toRecord hrec⟩

/-- A fresh row meets no stored place: only the primary key can refuse it. -/
theorem insert_fresh {t : CommandTable} (ht : ∀ row ∈ t.rows, row.seq ≤ s.lastSeq)
    (c : NewCommand) (now : Instant) :
    t.insert (.ofRecord (s.fresh c now)) =
      if t.rows.any (fun x => x.identity == c.identity) then
        .error (.primaryKey "command_queue.identity")
      else .ok { t with rows := t.rows ++ [.ofRecord (s.fresh c now)] } := by
  have hq : t.rows.any (fun x => x.seq == (Row.ofRecord (s.fresh c now)).seq) = false := by
    refine List.any_eq_false.2 fun x hx => ?_
    have hle := ht x hx
    have hseq : (Row.ofRecord (s.fresh c now)).seq = s.lastSeq + 1 := rfl
    simp only [beq_iff_eq, hseq]
    omega
  simp only [CommandTable.insert, hq, Bool.false_eq_true, if_false]
  rfl

theorem addTo_of_not_mem {t : CommandTable} (ht : ∀ row ∈ t.rows, row.seq ≤ s.lastSeq)
    {c : NewCommand} (hc : ∀ row ∈ t.rows, row.identity ≠ c.identity) (now : Instant) {α : Type}
    (result : Record → α) :
    s.addTo t c now result = (.ok (result (s.fresh c now)),
      { s with
        table := { t with rows := t.rows ++ [.ofRecord (s.fresh c now)] }
        lastSeq := s.lastSeq + 1 }) := by
  have ha : t.rows.any (fun x => x.identity == c.identity) = false :=
    List.any_eq_false.2 fun x hx => by simpa using hc x hx
  simp only [addTo, insert_fresh ht, ha, Bool.false_eq_true, if_false]

theorem addTo_of_mem {t : CommandTable} (ht : ∀ row ∈ t.rows, row.seq ≤ s.lastSeq)
    {c : NewCommand} (hc : ∃ row ∈ t.rows, row.identity = c.identity) (now : Instant) {α : Type}
    (result : Record → α) :
    s.addTo t c now result =
      (.error (MediumFault.primaryKey "command_queue.identity").toQueueError, s) := by
  have ha : t.rows.any (fun x => x.identity == c.identity) = true :=
    List.any_eq_true.2 (hc.imp fun row h => ⟨h.1, by simpa using h.2⟩)
  simp only [addTo, insert_fresh ht, ha, if_true]

theorem inserts_spec (hs : s.ledger.Sound) (c : NewCommand) (now : Instant) :
    s.ledger.Inserts c now (insert c now s).1 (insert c now s).2.ledger := by
  unfold insert
  split
  · by_cases h : s.ledger.Holds c.identity
    · rw [addTo_of_mem hs.stored_le h]
      rfl
    · rw [addTo_of_not_mem hs.stored_le fun row hr hi => h ⟨row, hr, hi⟩]
      exact ⟨h, rfl, rfl⟩
  · rfl

/-- Putting a command in the place of the row with its identity meets no other row. -/
theorem addTo_replacing (hs : s.ledger.Sound) (c : NewCommand) (now : Instant) {α : Type}
    (result : Record → α) :
    s.addTo (s.table.delete fun r => r.identity == c.identity).2 c now result =
      (.ok (result (s.fresh c now)),
        { s with
          table := ⟨s.table.rows.filter (·.identity != c.identity) ++ [.ofRecord (s.fresh c now)]⟩
          lastSeq := s.lastSeq + 1 }) := by
  have ht : ∀ row ∈ (s.table.delete fun r => r.identity == c.identity).2.rows,
      row.seq ≤ s.lastSeq := fun row hr => hs.stored_le row (List.mem_of_mem_filter hr)
  have hc : ∀ row ∈ (s.table.delete fun r => r.identity == c.identity).2.rows,
      row.identity ≠ c.identity := fun row hr hi => by
    have := (List.mem_filter.1 hr).2
    simp [hi] at this
  rw [addTo_of_not_mem ht hc]
  rfl

theorem submits_spec (hs : s.ledger.Sound) (c : NewCommand) (p : ConflictPolicy) (now : Instant) :
    s.ledger.Submits c p now (submit c p now s).1 (submit c p now s).2.ledger := by
  have hl := looks_spec s c.identity
  unfold submit
  rcases hf : s.findByIdentity c.identity with e | (_ | old)
  · rfl
  · rw [hf] at hl
    simp only
    rw [addTo_of_not_mem hs.stored_le fun row hr hi => hl ⟨row, hr, hi⟩]
    exact ⟨hl, rfl, rfl⟩
  · rw [hf] at hl
    cases p with
    | rejectDuplicate => exact ⟨rfl, hl, rfl⟩
    | error => exact ⟨rfl, hl, rfl⟩
    | replace =>
      simp only [ConflictPolicy.resolve]
      rw [addTo_replacing hs]
      exact ⟨rfl, hl, rfl, rfl⟩

/-! ## The laws -/

/-- A statement that is carried out, or refused with everything as it was. -/
theorem execute_cases (s : TableStore) (statement : CommandTable → Nat × CommandTable) :
    s.execute statement = (.ok (statement s.table).1, { s with table := (statement s.table).2 }) ∨
      s.execute statement = (.error MediumFault.poolClosed.toQueueError, s) := by
  unfold execute
  cases s.isOpen with
  | true => exact .inl rfl
  | false => exact .inr rfl

theorem deletes_spec (s : TableStore) (i : String) :
    s.ledger.Deletes i (deleteByIdentity i s).1 (deleteByIdentity i s).2.ledger := by
  unfold deleteByIdentity
  rcases s.execute_cases fun t => t.delete fun row => row.identity == i with h | h
  · rw [h]
    refine ⟨?_, rfl⟩
    simp [CommandTable.delete, Ledger.Holds, ledger, List.countP_pos_iff]
  · rw [h]
    rfl

theorem retires_spec (s : TableStore) (r : Record) :
    s.ledger.Retires r (retire r s).1 (retire r s).2.ledger := by
  unfold retire
  rcases (s.drop r.seq).execute_cases fun t => t.delete (isRowOf r) with h | h
  · rw [h]
    refine ⟨?_, rfl⟩
    simp [CommandTable.delete, Ledger.Owns, ledger, drop, List.countP_pos_iff]
  · rw [h]
    rfl

theorem reschedules_spec (s : TableStore) (r : Record) (n : UInt32) (t : Instant) :
    s.ledger.Reschedules r n t (reschedule r n t s).1 (reschedule r n t s).2.ledger := by
  unfold reschedule
  rcases (s.drop r.seq).execute_cases fun x => x.update (isRowOf r) fun row =>
    { row with retryCount := n.toNat, availableAt := t } with h | h
  · rw [h]
    refine ⟨?_, rfl⟩
    simp [CommandTable.update, Ledger.Owns, ledger, drop, List.countP_pos_iff]
  · rw [h]
    rfl

theorem purges_spec (s : TableStore) (lane : Lane) :
    s.ledger.Purges lane (purgeLane lane s).1 (purgeLane lane s).2.ledger := by
  unfold purgeLane
  rcases s.execute_cases fun t => t.delete (s.isWaiting lane) with h | h
  · rw [h]
    exact ⟨rfl, rfl⟩
  · rw [h]
    rfl

theorem awaits_spec (s : TableStore) (lane : Lane) (now : Instant) :
    s.ledger.Awaits lane now (nextWakeAt lane now s) := by
  unfold nextWakeAt connected
  cases s.isOpen with
  | false => trivial
  | true =>
    change _ = _ ∨ _
    cases hm : (s.ledger.futures lane now).min? with
    | none =>
      refine .inl ?_
      exact congrArg (Option.filter Row.isInstant) hm
    | some x =>
      have he : ((s.ledger.futures lane now).min?).filter Row.isInstant =
          if Row.isInstant x then some x else none := by rw [hm]; rfl
      by_cases hx : Row.isInstant x = true
      · exact .inl (he.trans (if_pos hx))
      · exact .inr ⟨he.trans (if_neg hx), x, rfl, by simpa using hx⟩

/-- No place of a table is beyond the greatest one. -/
theorem le_maxSeq {t : CommandTable} {row : Row} (hr : row ∈ t.rows) : row.seq ≤ t.maxSeq := by
  have hm : row.seq ∈ t.rows.map (·.seq) := List.mem_map_of_mem hr
  obtain ⟨q, hq⟩ := Option.isSome_iff_exists.1 (List.isSome_max?_of_mem hm)
  rw [CommandTable.maxSeq, hq]
  exact (List.max?_eq_some_iff.1 hq).2 _ hm

theorem recovers_spec (hs : s.ledger.Sound) : s.ledger.Recovers (recover s).2.ledger := by
  unfold recover
  cases s.isOpen with
  | false => exact ⟨s.lastSeq, hs.stored_le, rfl⟩
  | true => exact ⟨s.table.maxSeq, fun row hr => le_maxSeq hr, rfl⟩

/-- A row that can be read has the index of a lane. -/
theorem exists_lane {row : Row} (h : ∃ r, row.toRecord = .ok r) :
    ∃ l, Lane.ofIndex row.lane = .ok l := by
  obtain ⟨r, hr⟩ := h
  rw [(Row.shows_of_toRecord hr).lane]
  exact ⟨r.lane, Lane.ofIndex_index r.lane⟩

theorem mapM_ofIndex_ok : ∀ {is : List Int}, (∀ i ∈ is, ∃ l, Lane.ofIndex i = .ok l) →
    ∃ ls, is.mapM Lane.ofIndex = .ok ls
  | [], _ => ⟨[], rfl⟩
  | i :: is, h => by
    obtain ⟨l, hl⟩ := h i List.mem_cons_self
    obtain ⟨ls, hls⟩ := mapM_ofIndex_ok fun j hj => h j (List.mem_cons_of_mem i hj)
    exact ⟨l :: ls, by rw [List.mapM_cons, hl, hls]; rfl⟩

theorem isOpen_addTo (s : TableStore) (t : CommandTable) (c : NewCommand) (now : Instant)
    {α : Type} (result : Record → α) : (s.addTo t c now result).2.isOpen = s.isOpen := by
  unfold addTo
  split <;> rfl

theorem isOpen_execute (s : TableStore) (statement : CommandTable → Nat × CommandTable) :
    (s.execute statement).2.isOpen = s.isOpen := by
  rcases s.execute_cases statement with h | h <;> rw [h]

theorem isOpen_run (op : Operation) (now : Instant) (s : TableStore) :
    (op.run now s).2.isOpen = s.isOpen := by
  cases op with
  | insert c =>
    change (insert c now s).2.isOpen = _
    unfold insert
    split
    · exact s.isOpen_addTo _ _ _ _
    · rfl
  | submit c p =>
    change (submit c p now s).2.isOpen = _
    unfold submit
    rcases s.findByIdentity c.identity with e | (_ | old)
    · rfl
    · exact s.isOpen_addTo _ _ _ _
    · cases p
      · rfl
      · exact s.isOpen_addTo _ _ _ _
      · rfl
  | deleteByIdentity i => exact s.isOpen_execute fun t => t.delete fun row => row.identity == i
  | nextEligible l =>
    change (nextEligible l now s).2.isOpen = _
    simp only [nextEligible]
    repeat' split
    all_goals rfl
  | retire r => exact (s.drop r.seq).isOpen_execute fun t => t.delete (isRowOf r)
  | reschedule r n t =>
    exact (s.drop r.seq).isOpen_execute fun x => x.update (isRowOf r) fun row =>
      { row with retryCount := n.toNat, availableAt := t }
  | purgeLane l => exact s.isOpen_execute _
  | recover =>
    change (recover s).2.isOpen = _
    unfold recover
    cases s.isOpen <;> rfl
  | findByIdentity | release | pendingCount | nextWakeAt => rfl

theorem findByIdentity_ok (ho : s.isOpen = true) {i : String}
    (hr : ∀ row ∈ s.table.rows, row.identity = i → ∃ r, row.toRecord = .ok r) :
    ∃ a, s.findByIdentity i = .ok a := by
  simp only [findByIdentity, connected, ho, if_true]
  cases hf : s.table.find? i with
  | none => exact ⟨none, rfl⟩
  | some row =>
    obtain ⟨hrow, hi⟩ := find?_eq_some hf
    obtain ⟨r, h⟩ := hr row hrow hi
    exact ⟨some r, congrArg (Except.map some) h⟩

theorem submit_ok (hs : s.ledger.Sound) (ho : s.isOpen = true) {c : NewCommand}
    (hr : ∀ row ∈ s.table.rows, row.identity = c.identity → ∃ r, row.toRecord = .ok r)
    (p : ConflictPolicy) (now : Instant) : ∃ a, (submit c p now s).1 = .ok a := by
  obtain ⟨x, hx⟩ := findByIdentity_ok ho hr
  have hl := looks_spec s c.identity
  rw [hx] at hl
  unfold submit
  rw [hx]
  cases x with
  | none =>
    simp only
    rw [addTo_of_not_mem hs.stored_le fun row h hi => hl ⟨row, h, hi⟩]
    exact ⟨_, rfl⟩
  | some old =>
    cases p with
    | rejectDuplicate => exact ⟨_, rfl⟩
    | error => exact ⟨_, rfl⟩
    | replace =>
      simp only [ConflictPolicy.resolve]
      rw [addTo_replacing hs]
      exact ⟨_, rfl⟩

theorem recover_ok (ho : s.isOpen = true) (hr : s.ledger.Readable) :
    ∃ a, (recover s).1 = .ok a := by
  have hlanes : ∀ i ∈ (s.table.rows.map (·.lane)).mergeSort (· ≤ ·), ∃ l, Lane.ofIndex i = .ok l := by
    intro i hi
    obtain ⟨row, hrow, rfl⟩ := List.mem_map.1 (List.mem_mergeSort.1 hi)
    exact exists_lane (hr row hrow)
  obtain ⟨ls, hls⟩ := mapM_ofIndex_ok hlanes
  simp only [recover, ho, Bool.not_true, Bool.false_eq_true, if_false, hls]
  exact ⟨_, rfl⟩

theorem execute_of_open (ho : s.isOpen = true)
    (statement : CommandTable → Nat × CommandTable) :
    s.execute statement = (.ok (statement s.table).1, { s with table := (statement s.table).2 }) := by
  simp only [execute, ho, if_true]

theorem answers_of_open (hs : s.ledger.Sound) (ho : s.isOpen = true) (hr : s.ledger.Readable)
    (op : Operation) (now : Instant) (ha : op.isAllowed s.ledger) :
    ∃ a, (op.run now s).1 = .ok a := by
  cases op with
  | insert c =>
    change ∃ a, (insert c now s).1.map _ = _
    simp only [insert, ho, if_true]
    rw [addTo_of_not_mem hs.stored_le fun row h hi => ha ⟨row, h, hi⟩]
    exact ⟨_, rfl⟩
  | submit c p =>
    obtain ⟨a, h⟩ := submit_ok hs ho (fun row h _ => hr row h) p now
    exact ⟨.submission a, by change (submit c p now s).1.map _ = _; rw [h]; rfl⟩
  | deleteByIdentity i =>
    change ∃ a, (deleteByIdentity i s).1.map _ = _
    simp only [deleteByIdentity, execute_of_open ho]
    exact ⟨_, rfl⟩
  | findByIdentity i =>
    obtain ⟨a, h⟩ := findByIdentity_ok ho fun row h _ => hr row h
    exact ⟨.found a, by change (s.findByIdentity i).map _ = _; rw [h]; rfl⟩
  | nextEligible l =>
    change ∃ a, (nextEligible l now s).1.map _ = _
    rw [nextEligible_eq hs.seqs ho]
    cases hf : (s.dueRows l now).find? (fun r => !s.claimed.contains r.seq) with
    | none => exact ⟨_, rfl⟩
    | some row =>
      obtain ⟨r, h⟩ := hr row (isFirst_of_find? hf).mem
      simp only [h]
      exact ⟨_, rfl⟩
  | retire r =>
    change ∃ a, (retire r s).1.map _ = _
    have hd : (s.drop r.seq).isOpen = true := ho
    simp only [retire, execute_of_open hd]
    exact ⟨_, rfl⟩
  | reschedule r n t =>
    change ∃ a, (reschedule r n t s).1.map _ = _
    have hd : (s.drop r.seq).isOpen = true := ho
    simp only [reschedule, execute_of_open hd]
    exact ⟨_, rfl⟩
  | release r => exact ⟨_, rfl⟩
  | pendingCount l =>
    change ∃ a, (pendingCount l s).map _ = _
    simp only [pendingCount, connected, ho, if_true]
    exact ⟨_, rfl⟩
  | nextWakeAt l =>
    change ∃ a, (nextWakeAt l now s).map _ = _
    simp only [nextWakeAt, connected, ho, if_true]
    exact ⟨_, rfl⟩
  | purgeLane l =>
    change ∃ a, (purgeLane l s).1.map _ = _
    simp only [purgeLane, execute_of_open ho]
    exact ⟨_, rfl⟩
  | recover =>
    obtain ⟨a, h⟩ := recover_ok ho hr
    exact ⟨.recovered a, by change (recover s).1.map _ = _; rw [h]; rfl⟩

instance : LawfulStore TableStore where
  ledger := ledger
  isOpen := isOpen
  insert hs c now := inserts_spec hs c now
  submit hs c p now := submits_spec hs c p now
  deleteByIdentity {s} _ i := deletes_spec s i
  findByIdentity {s} _ i := looks_spec s i
  nextEligible hs lane now := claims_spec hs lane now
  retire {s} _ r := retires_spec s r
  reschedule {s} _ r n t := reschedules_spec s r n t
  release _ _ := rfl
  pendingCount {s} _ lane := by
    change s.ledger.Counts lane (s.pendingCount lane)
    unfold pendingCount connected
    cases s.isOpen with
    | false => trivial
    | true => rfl
  nextWakeAt {s} _ lane now := awaits_spec s lane now
  purgeLane {s} _ lane := purges_spec s lane
  recover hs := recovers_spec hs
  isOpen_run := isOpen_run
  wakes {s} ho lane now := by
    have ho : s.isOpen = true := ho
    change ∃ t, s.nextWakeAt lane now = .ok t
    simp only [nextWakeAt, connected, ho, if_true]
    exact ⟨_, rfl⟩
  answers := answers_of_open

end TableStore

end LaneQueue
