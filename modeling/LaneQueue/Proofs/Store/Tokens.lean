import LaneQueue.Proofs.Store.Bookkeeping
/-!
# Places as tokens

Whoever settles a record names its identity and its place. That is safe as long as no place is given
out twice. Places are given out one after the other, and only a recovery may set the order back: the
store in memory never does so, while a table goes on after the greatest place that it still holds.
`Ledger.InHand` and `Ledger.Vacant` say what may stand at a place that somebody has a claim of;
`Operation.KeepsOrder` is what a run has to avoid, and `stores_tokensHold` what it gains by it.
-/
namespace LaneQueue

namespace Ledger

/-- What a store may hold while the worker of a lane has a record in hand: at the place of the record
there is nothing else. -/
structure InHand (l : Ledger) (lane : Lane) (r : Record) : Prop where
  lane : r.lane = lane
  seq_le : r.seq ≤ l.lastSeq
  carries : ∀ row ∈ l.rows, row.seq = r.seq → row.Carries r.toNewCommand r.seq

/-- A place that has been given out and where no row stands any more. -/
structure Vacant (l : Ledger) (q : Int) : Prop where
  le : q ≤ l.lastSeq
  empty : ∀ row ∈ l.rows, row.seq ≠ q

/-- A row was there, maybe with other failed attempts and another instant. -/
def Had (l : Ledger) (row : Row) : Prop :=
  ∃ x ∈ l.rows, ∃ n t, row = { x with retryCount := n, availableAt := t }

variable {l l' : Ledger} {now : Instant} {op : Operation}

/-! ## The rows after a call -/

/-- Only a recovery may set the order back. -/
theorem Edit.lastSeq_le (h : l.Edit now op l') (hop : op ≠ .recover) : l.lastSeq ≤ l'.lastSeq := by
  cases h with
  | insert | submit | replace => simp only [add, without]; omega
  | recover => exact absurd rfl hop
  | same | delete | claim | remove | keep | postpone | leave | release | purge =>
    exact Int.le_refl _

/-- Only a command that comes takes the next place. -/
theorem Edit.lastSeq_eq (h : l.Edit now op l') (hop : op ≠ .recover)
    (hinsert : ∀ c, op ≠ .insert c) (hsubmit : ∀ c p, op ≠ .submit c p) :
    l'.lastSeq = l.lastSeq := by
  cases h with
  | insert => exact absurd rfl (hinsert _)
  | submit | replace => exact absurd rfl (hsubmit _ _)
  | recover => exact absurd rfl hop
  | same | delete | claim | remove | keep | postpone | leave | release | purge => rfl

/-- A row was there before, or it is that of a command that has just come, or it has been set back. -/
theorem Edit.mem_rows_cases (h : l.Edit now op l') {row : Row} (hr : row ∈ l'.rows) :
    row ∈ l.rows ∨
      (∃ c, row = .ofRecord (l.fresh c now) ∧ (op = .insert c ∨ ∃ p, op = .submit c p)) ∨
      ∃ r n t, op = .reschedule r n t ∧ ∃ x ∈ l.rows, TableStore.isRowOf r x = true ∧
        row = { x with retryCount := n.toNat, availableAt := t } := by
  cases h with
  | @insert c =>
    rcases List.mem_append.1 hr with hr | hr
    · exact .inl hr
    · exact .inr (.inl ⟨c, List.mem_singleton.1 hr, .inl rfl⟩)
  | @submit c p =>
    rcases List.mem_append.1 hr with hr | hr
    · exact .inl hr
    · exact .inr (.inl ⟨c, List.mem_singleton.1 hr, .inr ⟨p, rfl⟩⟩)
  | @replace c =>
    rcases List.mem_append.1 hr with hr | hr
    · exact .inl (List.mem_of_mem_filter hr)
    · exact .inr (.inl ⟨c, List.mem_singleton.1 hr, .inr ⟨.replace, rfl⟩⟩)
  | postpone r n t =>
    obtain ⟨x, hx, rfl⟩ := List.mem_map.1 hr
    by_cases ho : TableStore.isRowOf r x = true
    · exact .inr (.inr ⟨r, n, t, rfl, x, hx, ho, if_pos ho⟩)
    · rw [if_neg ho]
      exact .inl hx
  | delete | remove | purge => exact .inl (List.mem_of_mem_filter hr)
  | same | claim | keep | leave | release | recover => exact .inl hr

/-- A row was there before, or it is that of a command that has just come. -/
theorem Edit.row_cases (h : l.Edit now op l') {row : Row} (hr : row ∈ l'.rows) :
    l.Had row ∨
      ∃ c, row = .ofRecord (l.fresh c now) ∧ (op = .insert c ∨ ∃ p, op = .submit c p) := by
  rcases h.mem_rows_cases hr with hold | hnew | ⟨r, n, t, -, x, hx, -, rfl⟩
  · exact .inl ⟨row, hold, row.retryCount, row.availableAt, rfl⟩
  · exact .inr hnew
  · exact .inl ⟨x, hx, n.toNat, t, rfl⟩

/-! ## What stands at a place -/

/-- Whatever is said of the row at a place, apart from its failed attempts and its instant. -/
theorem Had.at_place {row : Row} (h : l.Had row) {q : Int} {P : Row → Prop}
    (hP : ∀ row n t, P row → P { row with retryCount := n, availableAt := t })
    (hl : ∀ row ∈ l.rows, row.seq = q → P row) (hrow : row.seq = q) : P row := by
  obtain ⟨x, hx, n, t, rfl⟩ := h
  exact hP x n t (hl x hx hrow)

/-- It goes on to hold at a place that has been given out. -/
theorem Edit.at_place (h : l.Edit now op l') {q : Int} (hq : q ≤ l.lastSeq) {P : Row → Prop}
    (hP : ∀ row n t, P row → P { row with retryCount := n, availableAt := t })
    (hl : ∀ row ∈ l.rows, row.seq = q → P row) : ∀ row ∈ l'.rows, row.seq = q → P row := by
  intro row hr hrow
  rcases h.row_cases hr with hold | ⟨c, rfl, -⟩
  · exact hold.at_place hP hl hrow
  · have hnext : l.lastSeq + 1 = q := hrow
    omega

/-- What is in hand stays so unless the order is set back. -/
theorem Edit.inHand (h : l.Edit now op l') (hq : l.lastSeq ≤ l'.lastSeq) {lane : Lane} {r : Record}
    (hr : l.InHand lane r) : l'.InHand lane r where
  lane := hr.lane
  seq_le := Int.le_trans hr.seq_le hq
  carries := h.at_place hr.seq_le (fun _ n t hc => hc.postponed n t) hr.carries

theorem Edit.vacant (h : l.Edit now op l') (hq : l.lastSeq ≤ l'.lastSeq) {q : Int}
    (hv : l.Vacant q) : l'.Vacant q where
  le := Int.le_trans hv.le hq
  empty row hr hrow :=
    h.at_place hv.le (fun _ _ _ hf => hf) (fun x hx hxq => hv.empty x hx hxq) row hr hrow

/-- A claim puts a record into the hand of its lane. -/
theorem Claims.inHand (hs : l.Sound) {lane : Lane} {now : Instant} {r : Record}
    (h : l.Claims lane now (.ok (some r)) l') : l'.InHand lane r := by
  obtain ⟨row, hf, hr, rfl⟩ := h
  have hlane : (r.lane.index : Int) = lane.index := by
    rw [← hr.lane]
    exact (isDue_iff.1 hf.holds).1
  refine ⟨Lane.index_inj hlane, hr.seq ▸ hs.stored_le row hf.mem, fun x hx hq => ?_⟩
  obtain rfl := hs.eq_of_seq hx hf.mem (hq.trans hr.seq.symm)
  exact hr.toCarries

/-! ## Settling by a token -/

/-- A claim owns a row just when its very record is still stored. -/
theorem owns_iff_stores {r : Record}
    (hc : ∀ row ∈ l.rows, row.seq = r.seq → row.Carries r.toNewCommand r.seq) :
    l.Owns r ↔ l.Stores r.toNewCommand r.seq := by
  constructor
  · rintro ⟨row, hr, ho⟩
    exact ⟨row, hr, hc row hr (isRowOf_iff.1 ho).2⟩
  · rintro ⟨row, hr, hcar⟩
    exact ⟨row, hr, isRowOf_iff.2 ⟨hcar.identity, hcar.seq⟩⟩

/-- The settlement of a record that is gone leaves the rows alone. -/
theorem Edit.rows_of_not_owns (h : l.Edit now op l') {r : Record}
    (hop : op = .retire r ∨ ∃ n t, op = .reschedule r n t) (hn : ¬ l.Owns r) :
    l'.rows = l.rows := by
  have hno : ∀ row ∈ l.rows, TableStore.isRowOf r row = false := by
    intro row hr
    by_contra ho
    exact hn ⟨row, hr, by simpa using ho⟩
  cases h with
  | remove x =>
    obtain hx | ⟨n, t, hx⟩ := hop <;> cases hx
    exact List.filter_eq_self.2 fun row hr => by simp [hno row hr]
  | postpone x n t =>
    obtain hx | ⟨n, t, hx⟩ := hop <;> cases hx
    refine (List.map_congr_left fun row hr => ?_).trans (List.map_id l.rows)
    simp [hno row hr]
  | same | keep | leave => rfl
  | insert | submit | replace | delete | claim | release | purge | recover =>
    obtain hx | ⟨n, t, hx⟩ := hop <;> cases hx

/-- The settlement of a record touches no row but its own. -/
theorem Edit.mem_rows_iff (h : l.Edit now op l') {r : Record}
    (hop : op = .retire r ∨ ∃ n t, op = .reschedule r n t)
    (hc : ∀ row ∈ l.rows, row.seq = r.seq → row.Carries r.toNewCommand r.seq) {row : Row}
    (hn : ¬ row.Carries r.toNewCommand r.seq) : row ∈ l'.rows ↔ row ∈ l.rows := by
  cases h with
  | remove x =>
    obtain hx | ⟨n, t, hx⟩ := hop <;> cases hx
    constructor
    · exact List.mem_of_mem_filter
    · intro hr
      have ho : TableStore.isRowOf r row ≠ true :=
        fun ho => hn (hc row hr (isRowOf_iff.1 ho).2)
      exact List.mem_filter.2 ⟨hr, by simpa using ho⟩
  | postpone x n t =>
    obtain hx | ⟨n, t, hx⟩ := hop <;> cases hx
    constructor
    · intro hr
      obtain ⟨x, hx, rfl⟩ := List.mem_map.1 hr
      by_cases ho : TableStore.isRowOf r x = true
      · rw [if_pos ho] at hn
        exact absurd ((hc x hx (isRowOf_iff.1 ho).2).postponed _ _) hn
      · rw [if_neg ho]
        exact hx
    · intro hr
      refine List.mem_map.2 ⟨row, hr, if_neg fun ho => ?_⟩
      exact hn (hc row hr (isRowOf_iff.1 ho).2)
  | same | keep | leave => rfl
  | insert | submit | replace | delete | claim | release | purge | recover =>
    obtain hx | ⟨n, t, hx⟩ := hop <;> cases hx

end Ledger

/-! ## The records that a run creates -/

namespace Operation

variable {σ : Type} [QueueStore σ]

/-- The record that a call creates. -/
def created? (op : Operation) (now : Instant) (s : σ) : Option Record :=
  (op.run now s).1.toOption.bind Answer.created?

/-- The records that some calls create, in their order. -/
def created : List (Operation × Instant) → σ → List Record
  | [], _ => []
  | (op, now) :: calls, s => (op.created? now s).toList ++ created calls (op.run now s).2

theorem runAll_append (xs ys : List (Operation × Instant)) (s : σ) :
    runAll (xs ++ ys) s = ((runAll xs s).1 ++ (runAll ys (runAll xs s).2).1,
      (runAll ys (runAll xs s).2).2) := by
  induction xs generalizing s with
  | nil => rfl
  | cons x xs ih => simp [runAll, ih]

theorem created_append (xs ys : List (Operation × Instant)) (s : σ) :
    created (xs ++ ys) s = created xs s ++ created ys (runAll xs s).2 := by
  induction xs generalizing s with
  | nil => rfl
  | cons x xs ih => simp [created, runAll, ih]

theorem created?_of_ok {op : Operation} {now : Instant} {s : σ} {a : Answer}
    (h : (op.run now s).1 = .ok a) : op.created? now s = a.created? := by
  unfold created?
  rw [h]
  rfl

theorem exists_of_created? {op : Operation} {now : Instant} {s : σ} {r : Record}
    (h : op.created? now s = some r) : ∃ a, (op.run now s).1 = .ok a ∧ a.created? = some r := by
  obtain ⟨a, ha, hr⟩ := Option.bind_eq_some_iff.1 h
  cases hx : (op.run now s).1 with
  | error e => rw [hx] at ha; cases ha
  | ok b =>
    rw [hx] at ha
    exact ⟨b, rfl, Option.some.inj ha ▸ hr⟩

theorem created?_of_error {op : Operation} {now : Instant} {s : σ} {e : QueueError}
    (h : (op.run now s).1 = .error e) : op.created? now s = none := by
  unfold created?
  rw [h]
  rfl

/-- Only an insertion and a submission create records. -/
theorem creates_of_created? {op : Operation} {now : Instant} {s : σ} {r : Record}
    (h : op.created? now s = some r) : (∃ c, op = .insert c) ∨ ∃ c p, op = .submit c p := by
  obtain ⟨a, ha, hr⟩ := exists_of_created? h
  cases op with
  | insert c => exact .inl ⟨c, rfl⟩
  | submit c p => exact .inr ⟨c, p, rfl⟩
  | release =>
    obtain rfl := Except.ok.inj ha
    cases hr
  | deleteByIdentity | findByIdentity | nextEligible | retire | reschedule | pendingCount |
    nextWakeAt | purgeLane | recover =>
    obtain ⟨x, -, rfl⟩ := exists_of_map_eq_ok ha
    cases hr

end Operation

namespace LawfulStore

open Ledger Operation

variable {σ : Type} [QueueStore σ] [LawfulStore σ] {s : σ}

/-- **What a call creates**: nothing, and then only a recovery may move the order, or the record at
the next place. -/
theorem created?_cases (hs : (ledger s).Sound) (op : Operation) (now : Instant) :
    (op.created? now s = none ∧
        (op ≠ .recover → (ledger (op.run now s).2).lastSeq = (ledger s).lastSeq)) ∨
      ∃ c, op.created? now s = some ((ledger s).fresh c now) ∧ op ≠ .recover ∧
        (ledger (op.run now s).2).lastSeq = (ledger s).lastSeq + 1 := by
  cases op with
  | insert c =>
    have hlaw := LawfulStore.insert hs c now
    cases hx : (QueueStore.insert c now s).1 with
    | error e =>
      rw [hx] at hlaw
      have hrun : ((Operation.insert c).run now s).1 = .error e := congrArg (Except.map _) hx
      exact .inl ⟨created?_of_error hrun, fun _ => congrArg lastSeq hlaw⟩
    | ok r =>
      rw [hx] at hlaw
      obtain ⟨-, rfl, hl⟩ := hlaw
      have hrun : ((Operation.insert c).run now s).1 = .ok (.record ((ledger s).fresh c now)) :=
        congrArg (Except.map _) hx
      exact .inr ⟨c, created?_of_ok hrun, nofun, congrArg lastSeq hl⟩
  | submit c p =>
    have hlaw := LawfulStore.submit hs c p now
    cases hx : (QueueStore.submit c p now s).1 with
    | error e =>
      rw [hx] at hlaw
      have hrun : ((Operation.submit c p).run now s).1 = .error e := congrArg (Except.map _) hx
      exact .inl ⟨created?_of_error hrun, fun _ => congrArg lastSeq hlaw⟩
    | ok x =>
      rw [hx] at hlaw
      have hrun : ((Operation.submit c p).run now s).1 = .ok (.submission x) :=
        congrArg (Except.map _) hx
      cases x with
      | inserted r =>
        obtain ⟨-, rfl, hl⟩ := hlaw
        exact .inr ⟨c, created?_of_ok hrun, nofun, congrArg lastSeq hl⟩
      | replaced old r =>
        obtain ⟨-, -, rfl, hl⟩ := hlaw
        exact .inr ⟨c, created?_of_ok hrun, nofun, congrArg lastSeq hl⟩
      | kept old | refused old =>
        obtain ⟨-, -, hl⟩ := hlaw
        exact .inl ⟨created?_of_ok hrun, fun _ => congrArg lastSeq hl⟩
  | deleteByIdentity | findByIdentity | nextEligible | retire | reschedule | release |
    pendingCount | nextWakeAt | purgeLane | recover =>
    refine .inl ⟨?_, fun hop => (edit_run hs _ now).lastSeq_eq hop nofun nofun⟩
    cases hc : Operation.created? _ now s with
    | none => rfl
    | some r => obtain ⟨c, hop⟩ | ⟨c, p, hop⟩ := creates_of_created? hc <;> cases hop

/-- A row was there before, or it has come to the next place, and the call creates a record. -/
theorem row_cases_run (hs : (ledger s).Sound) (op : Operation) (now : Instant) {row : Row}
    (hr : row ∈ (ledger (op.run now s).2).rows) :
    (ledger s).Had row ∨ row.seq = (ledger s).lastSeq + 1 ∧ op.created? now s ≠ none := by
  rcases (edit_run hs op now).row_cases hr with hold | ⟨c, rfl, hop⟩
  · exact .inl hold
  · refine .inr ⟨rfl, fun hnone => ?_⟩
    rcases created?_cases hs op now with ⟨-, hlast⟩ | ⟨d, hd, -⟩
    · -- such a call leaves the order where it was, and the row would be beyond it
      have hle := (sound_run hs op now).stored_le _ hr
      have hne : op ≠ .recover := by
        rintro rfl
        rcases hop with hop | ⟨p, hop⟩ <;> cases hop
      rw [hlast hne] at hle
      have hnext : (Row.ofRecord ((ledger s).fresh c now)).seq = (ledger s).lastSeq + 1 := rfl
      omega
    · rw [hnone] at hd
      cases hd

/-- The record of a row that has come to the next place is the one that the call creates. -/
theorem created?_of_next (hs : (ledger s).Sound) {op : Operation} {now : Instant} {row : Row}
    (hrow : row ∈ (ledger (op.run now s).2).rows) (hq : row.seq = (ledger s).lastSeq + 1)
    {r : Record} (hr : row.Shows r) : op.created? now s = some r := by
  rcases row_cases_run hs op now hrow with ⟨x, hx, n, t, rfl⟩ | ⟨-, hne⟩
  · have := hs.stored_le x hx
    have hq : x.seq = (ledger s).lastSeq + 1 := hq
    omega
  · rcases created?_cases hs op now with ⟨hnone, -⟩ | ⟨c, hc, -⟩
    · exact absurd hnone hne
    · obtain ⟨a, ha, hcr⟩ := exists_of_created? hc
      obtain ⟨x, hx, hshows⟩ := (created_run hs ha hcr).2
      obtain rfl := (sound_run hs op now).eq_of_seq hx hrow (hshows.seq.trans hq.symm)
      rw [hc, hshows.unique hr]

/-! ## Runs that keep the order -/

/-- No call of a run sets the order back, unless nothing is created after it. -/
def KeepsOrder : List (Operation × Instant) → σ → Prop
  | [], _ => True
  | (op, now) :: calls, s =>
    ((ledger s).lastSeq ≤ (ledger (op.run now s).2).lastSeq ∨ created calls (op.run now s).2 = []) ∧
      KeepsOrder calls (op.run now s).2

theorem sound_runAll : ∀ (calls : List (Operation × Instant)) {s : σ}, (ledger s).Sound →
    (ledger (runAll calls s).2).Sound
  | [], _, hs => hs
  | (op, now) :: calls, _, hs => sound_runAll calls (sound_run hs op now)

theorem keepsOrder_append {xs ys : List (Operation × Instant)} (h : KeepsOrder (xs ++ ys) s) :
    KeepsOrder xs s ∧ KeepsOrder ys (runAll xs s).2 := by
  induction xs generalizing s with
  | nil => exact ⟨trivial, h⟩
  | cons x xs ih =>
    obtain ⟨hle, hrest⟩ := h
    obtain ⟨hxs, hys⟩ := ih hrest
    refine ⟨⟨hle.imp id fun hnil => ?_, hxs⟩, hys⟩
    exact (List.append_eq_nil_iff.1 ((created_append xs ys _).symm.trans hnil)).1

/-- All that is created comes after the places that have been given out. -/
theorem lt_of_mem_created {calls : List (Operation × Instant)} (hs : (ledger s).Sound)
    (h : KeepsOrder calls s) {r : Record} (hr : r ∈ created calls s) :
    (ledger s).lastSeq < r.seq := by
  induction calls generalizing s with
  | nil => cases hr
  | cons call calls ih =>
    obtain ⟨op, now⟩ := call
    rcases List.mem_append.1 hr with hr | hr
    · rcases created?_cases hs op now with ⟨hnone, -⟩ | ⟨c, hc, -⟩
      · rw [hnone] at hr
        cases hr
      · rw [hc] at hr
        obtain rfl := List.mem_singleton.1 hr
        have hnext : ((ledger s).fresh c now).seq = (ledger s).lastSeq + 1 := rfl
        omega
    · have hlt := ih (sound_run hs op now) h.2 hr
      rcases h.1 with hle | hnil
      · omega
      · rw [hnil] at hr
        cases hr

/-- Records are created at ever greater places. -/
theorem pairwise_created {calls : List (Operation × Instant)} (hs : (ledger s).Sound)
    (h : KeepsOrder calls s) : (created calls s).Pairwise fun a b => a.seq < b.seq := by
  induction calls generalizing s with
  | nil => exact .nil
  | cons call calls ih =>
    obtain ⟨op, now⟩ := call
    have hs' := sound_run hs op now
    have htail := ih hs' h.2
    simp only [created]
    rcases created?_cases hs op now with ⟨hnone, -⟩ | ⟨c, hc, -, hlast⟩
    · rw [hnone]
      exact htail
    · rw [hc]
      refine List.pairwise_cons.2 ⟨fun r hr => ?_, htail⟩
      have hlt := lt_of_mem_created hs' h.2 hr
      rw [hlast] at hlt
      exact hlt

/-- No call creates a record at a place any more: it has been given out, or nothing is created. -/
def OutOfReach (calls : List (Operation × Instant)) (s : σ) (q : Int) : Prop :=
  q ≤ (ledger s).lastSeq ∨ created calls s = []

theorem OutOfReach.tail {op : Operation} {now : Instant} {calls : List (Operation × Instant)}
    (h : KeepsOrder ((op, now) :: calls) s) {q : Int} (hq : OutOfReach ((op, now) :: calls) s q) :
    OutOfReach calls (op.run now s).2 q := by
  rcases hq with hq | hnil
  · exact h.1.imp (fun hle => Int.le_trans hq hle) id
  · exact .inr (List.append_eq_nil_iff.1 hnil).2

theorem OutOfReach.append {xs ys : List (Operation × Instant)} (h : KeepsOrder (xs ++ ys) s)
    {q : Int} (hq : OutOfReach (xs ++ ys) s q) : OutOfReach ys (runAll xs s).2 q := by
  induction xs generalizing s with
  | nil => exact hq
  | cons x xs ih => exact ih h.2 (OutOfReach.tail h hq)

/-- Whatever is said of the row at a place out of reach goes on to hold there. -/
theorem at_place_runAll {calls : List (Operation × Instant)} (hs : (ledger s).Sound)
    (h : KeepsOrder calls s) {q : Int} (hq : OutOfReach calls s q) {P : Row → Prop}
    (hP : ∀ row n t, P row → P { row with retryCount := n, availableAt := t })
    (hl : ∀ row ∈ (ledger s).rows, row.seq = q → P row) :
    ∀ row ∈ (ledger (runAll calls s).2).rows, row.seq = q → P row := by
  induction calls generalizing s with
  | nil => exact hl
  | cons call calls ih =>
    obtain ⟨op, now⟩ := call
    refine ih (sound_run hs op now) h.2 (.tail h hq) fun row hr hrow => ?_
    rcases row_cases_run hs op now hr with hold | ⟨hseq, hne⟩
    · exact hold.at_place hP hl hrow
    · -- a record has come to the place
      rcases hq with hq | hnil
      · omega
      · exact absurd (Option.toList_eq_nil_iff.1 (List.append_eq_nil_iff.1 hnil).1) hne

/-! ## What a claim is good for -/

/-- What a settlement by the claim of a record does: it tells whether that very record is still
stored, leaves all rows alone if it is not, and touches no other row if it is. -/
structure SettlesOnly (r : Record) (op : Operation) (now : Instant) (s : σ) : Prop where
  answers : ∃ b, (op.run now s).1 = .ok (.flag b) ∧
    (b = true ↔ (ledger s).Stores r.toNewCommand r.seq)
  gone : ¬ (ledger s).Stores r.toNewCommand r.seq →
    (ledger (op.run now s).2).rows = (ledger s).rows
  others : ∀ row, ¬ row.Carries r.toNewCommand r.seq →
    (row ∈ (ledger (op.run now s).2).rows ↔ row ∈ (ledger s).rows)

/-- A settlement that is answered is one of that very record, if no other is stored at its place. -/
theorem settlesOnly_of_carries (hs : (ledger s).Sound) {r : Record} {op : Operation} {now : Instant}
    (hop : op = .retire r ∨ ∃ n t, op = .reschedule r n t)
    (hc : ∀ row ∈ (ledger s).rows, row.seq = r.seq → row.Carries r.toNewCommand r.seq)
    (hok : ∃ a, (op.run now s).1 = .ok a) : SettlesOnly r op now s where
  answers := by
    obtain ⟨a, ha⟩ := hok
    obtain rfl | ⟨n, t, rfl⟩ := hop
    · obtain ⟨b, hb, rfl⟩ := exists_of_map_eq_ok ha
      have hlaw := LawfulStore.retire hs r
      rw [hb] at hlaw
      exact ⟨b, ha, hlaw.1.trans (owns_iff_stores hc)⟩
    · obtain ⟨b, hb, rfl⟩ := exists_of_map_eq_ok ha
      have hlaw := LawfulStore.reschedule hs r n t
      rw [hb] at hlaw
      exact ⟨b, ha, hlaw.1.trans (owns_iff_stores hc)⟩
  gone hn := (edit_run hs op now).rows_of_not_owns hop fun ho => hn ((owns_iff_stores hc).1 ho)
  others _ hrow := (edit_run hs op now).mem_rows_iff hop hc hrow

/-- What places are good for along a run. -/
structure TokensHold (calls : List (Operation × Instant)) (s : σ) : Prop where
  /-- No two records are created at one place, whatever else the run does. -/
  increasing : (created calls s).Pairwise fun a b => a.seq < b.seq
  /-- A claim that the run makes settles only the record that it was of, -/
  settles : ∀ before lane t after x, calls = before ++ (.nextEligible lane, t) :: after →
    ((Operation.nextEligible lane).run t (runAll before s).2).1 = .ok (.found (some x)) →
    ∀ op now, (op = .retire x ∨ ∃ n u, op = .reschedule x n u) →
      SettlesOnly x op now (runAll calls s).2
  /-- and once that one is gone it does not come back. -/
  stays : ∀ before lane t mid rest x,
    calls = before ++ (.nextEligible lane, t) :: (mid ++ rest) →
    ((Operation.nextEligible lane).run t (runAll before s).2).1 = .ok (.found (some x)) →
    ¬ (ledger (runAll (before ++ (.nextEligible lane, t) :: mid) s).2).Stores x.toNewCommand x.seq →
      ¬ (ledger (runAll calls s).2).Stores x.toNewCommand x.seq

/-- A claim puts a record into the hand of its lane. -/
theorem inHand_of_claim (hs : (ledger s).Sound) {lane : Lane} {t : Instant} {x : Record}
    (hclaim : ((Operation.nextEligible lane).run t s).1 = .ok (.found (some x))) :
    (ledger ((Operation.nextEligible lane).run t s).2).InHand lane x := by
  obtain ⟨y, hy, hfound⟩ := exists_of_map_eq_ok hclaim
  obtain rfl : y = some x := Answer.found.inj hfound
  have hlaw := LawfulStore.nextEligible hs lane t
  rw [hy] at hlaw
  exact hlaw.inHand hs

/-- At the place of a record that has been claimed no other ever stands. -/
theorem carries_after_claim (hs : (ledger s).Sound) {lane : Lane} {t : Instant} {x : Record}
    {after : List (Operation × Instant)} (h : KeepsOrder ((.nextEligible lane, t) :: after) s)
    (hclaim : ((Operation.nextEligible lane).run t s).1 = .ok (.found (some x))) :
    ∀ row ∈ (ledger (runAll ((.nextEligible lane, t) :: after) s).2).rows, row.seq = x.seq →
      row.Carries x.toNewCommand x.seq :=
  have hhand := inHand_of_claim hs hclaim
  at_place_runAll (sound_run hs _ t) h.2 (.inl hhand.seq_le) (fun _ n u hc => hc.postponed n u)
    hhand.carries

theorem TokensHold.of_keepsOrder {calls : List (Operation × Instant)} (hs : (ledger s).Sound)
    (h : KeepsOrder calls s)
    (hok : ∀ (x : Record) (op : Operation) (now : Instant),
      (op = .retire x ∨ ∃ n u, op = .reschedule x n u) →
        ∃ a, (op.run now (runAll calls s).2).1 = .ok a) : TokensHold calls s where
  increasing := pairwise_created hs h
  settles := by
    rintro before lane t after x rfl hclaim op now hop
    have hcarries := carries_after_claim (sound_runAll before hs) (keepsOrder_append h).2 hclaim
    refine settlesOnly_of_carries (sound_runAll _ hs) hop ?_ (hok x op now hop)
    rw [runAll_append]
    exact hcarries
  stays := by
    rintro before lane t mid rest x rfl hclaim hgone ⟨row, hr, hc⟩
    have hs₁ := sound_runAll before hs
    have hk : KeepsOrder (((.nextEligible lane, t) :: mid) ++ rest) (runAll before s).2 :=
      (keepsOrder_append h).2
    obtain ⟨hmid, hrest⟩ := keepsOrder_append hk
    have hcarries := carries_after_claim hs₁ hmid hclaim
    rw [runAll_append] at hgone
    have hempty : ∀ x' ∈ (ledger (runAll ((.nextEligible lane, t) :: mid) (runAll before s).2).2).rows,
        x'.seq = x.seq → False := fun x' hx hq => hgone ⟨x', hx, hcarries x' hx hq⟩
    have hreach : OutOfReach rest
        (runAll ((.nextEligible lane, t) :: mid) (runAll before s).2).2 x.seq :=
      OutOfReach.append (s := ((Operation.nextEligible lane).run t (runAll before s).2).2) hk.2
        (.inl (inHand_of_claim hs₁ hclaim).seq_le)
    have hend := at_place_runAll (sound_runAll _ hs₁) hrest hreach (fun _ _ _ hf => hf) hempty
    have happ : before ++ (.nextEligible lane, t) :: (mid ++ rest) =
        before ++ (((.nextEligible lane, t) :: mid) ++ rest) := rfl
    rw [happ, runAll_append, runAll_append] at hr
    exact hend row hr hc.seq

end LawfulStore

/-! ## Both stores -/

open Operation LawfulStore

/-- The store in memory never sets its order back. -/
theorem MemoryStore.keepsOrder : ∀ (calls : List (Operation × Instant)) {s : MemoryStore},
    s.ledger.Sound → KeepsOrder calls s
  | [], _, _ => trivial
  | (op, now) :: calls, s, hs => by
    refine ⟨.inl ?_, keepsOrder calls (LawfulStore.sound_run (σ := MemoryStore) hs op now)⟩
    by_cases hop : op = .recover
    · subst hop
      exact Int.le_refl _
    · exact (edit_run (σ := MemoryStore) hs op now).lastSeq_le hop

theorem MemoryStore.settles_ok {x : Record} {op : Operation}
    (hop : op = .retire x ∨ ∃ n u, op = .reschedule x n u) (now : Instant) (s : MemoryStore) :
    ∃ a, (op.run now s).1 = .ok a := by
  obtain rfl | ⟨n, u, rfl⟩ := hop
  · change ∃ a, (retire x s).1.map _ = _
    simp only [retire]
    split <;> exact ⟨_, rfl⟩
  · change ∃ a, (reschedule x n u s).1.map _ = _
    simp only [reschedule]
    split <;> exact ⟨_, rfl⟩

namespace TableStore

theorem settles_ok {x : Record} {op : Operation}
    (hop : op = .retire x ∨ ∃ n u, op = .reschedule x n u) (now : Instant) {s : TableStore}
    (ho : s.isOpen = true) : ∃ a, (op.run now s).1 = .ok a := by
  have hd : (s.drop x.seq).isOpen = true := ho
  obtain rfl | ⟨n, u, rfl⟩ := hop
  · change ∃ a, (retire x s).1.map _ = _
    simp only [retire, execute_of_open hd]
    exact ⟨_, rfl⟩
  · change ∃ a, (reschedule x n u s).1.map _ = _
    simp only [reschedule, execute_of_open hd]
    exact ⟨_, rfl⟩

theorem isOpen_runAll : ∀ (calls : List (Operation × Instant)) {s : TableStore},
    s.isOpen = true → (runAll calls s).2.isOpen = true
  | [], _, ho => ho
  | (op, now) :: calls, _, ho => isOpen_runAll calls ((isOpen_run op now _).trans ho)

/-- An open table that has given out all places from the first to the last one. -/
structure Issued (s : TableStore) (places : List Int) : Prop where
  sound : s.ledger.Sound
  isOpen : s.isOpen = true
  nonneg : 0 ≤ s.lastSeq
  positive : ∀ row ∈ s.table.rows, 0 < row.seq
  all : ∀ q, 0 < q → q ≤ s.lastSeq → q ∈ places

namespace Issued

variable {s : TableStore} {places : List Int}

theorem empty : Issued .empty [] where
  sound := Ledger.Sound.empty
  isOpen := rfl
  nonneg := Int.le_refl _
  positive _ hr := by cases hr
  all q hq hle := absurd hq (Int.not_lt.2 hle)

/-- The greatest place of the table is not beyond the last one. -/
theorem maxSeq (h : s.Issued places) : 0 ≤ s.table.maxSeq ∧ s.table.maxSeq ≤ s.lastSeq := by
  unfold CommandTable.maxSeq
  cases hm : (s.table.rows.map (·.seq)).max? with
  | none => exact ⟨Int.le_refl _, h.nonneg⟩
  | some q =>
    obtain ⟨row, hr, rfl⟩ := List.mem_map.1 (List.max?_mem hm)
    exact ⟨Int.le_of_lt (h.positive row hr), h.sound.stored_le row hr⟩

theorem lastSeq_recover (h : s.Issued places) (now : Instant) :
    (Operation.recover.run now s).2.lastSeq = s.table.maxSeq := by
  change (recover s).2.lastSeq = _
  simp only [recover, h.isOpen, Bool.not_true, Bool.false_eq_true, if_false]

/-- A call that creates nothing leaves the last place where it is or sets it back. -/
theorem lastSeq_run (h : s.Issued places) {op : Operation} {now : Instant}
    (hnone : op.created? now s = none) :
    0 ≤ (op.run now s).2.lastSeq ∧ (op.run now s).2.lastSeq ≤ s.lastSeq := by
  by_cases hop : op = .recover
  · subst hop
    rw [h.lastSeq_recover]
    exact h.maxSeq
  · rcases created?_cases (s := s) h.sound op now with ⟨-, hlast⟩ | ⟨c, hc, -⟩
    · have hlast : (op.run now s).2.lastSeq = s.lastSeq := hlast hop
      rw [hlast]
      exact ⟨h.nonneg, Int.le_refl _⟩
    · rw [hnone] at hc
      cases hc

theorem run (h : s.Issued places) (op : Operation) (now : Instant) :
    (op.run now s).2.Issued (places ++ (op.created? now s).toList.map (·.seq)) := by
  refine ⟨LawfulStore.sound_run (σ := TableStore) h.sound op now, (isOpen_run op now s).trans h.isOpen,
    ?_, fun row hr => ?_, fun q hq hle => ?_⟩
  · rcases created?_cases (s := s) h.sound op now with ⟨hnone, -⟩ | ⟨c, -, -, hlast⟩
    · exact (h.lastSeq_run hnone).1
    · have hlast : (op.run now s).2.lastSeq = s.lastSeq + 1 := hlast
      have := h.nonneg
      omega
  · rcases row_cases_run (s := s) h.sound op now hr with ⟨x, hx, n, t, rfl⟩ | ⟨hseq, -⟩
    · exact h.positive x hx
    · have hseq : row.seq = s.lastSeq + 1 := hseq
      have := h.nonneg
      omega
  · rcases created?_cases (s := s) h.sound op now with ⟨hnone, -⟩ | ⟨c, hc, -, hlast⟩
    · exact List.mem_append_left _ (h.all q hq (Int.le_trans hle (h.lastSeq_run hnone).2))
    · have hlast : (op.run now s).2.lastSeq = s.lastSeq + 1 := hlast
      by_cases hlt : q ≤ s.lastSeq
      · exact List.mem_append_left _ (h.all q hq hlt)
      · obtain rfl : q = s.lastSeq + 1 := by omega
        exact List.mem_append_right _ (by rw [hc]; exact List.mem_singleton_self _)

/-- The first record that is created next does not go beyond the next place. -/
theorem head_created {calls : List (Operation × Instant)} (h : s.Issued places) {r : Record}
    {rs : List Record} (hc : created calls s = r :: rs) : 0 < r.seq ∧ r.seq ≤ s.lastSeq + 1 := by
  induction calls generalizing s places with
  | nil => cases hc
  | cons call calls ih =>
    obtain ⟨op, now⟩ := call
    simp only [created] at hc
    rcases created?_cases (s := s) h.sound op now with ⟨hnone, -⟩ | ⟨c, hsome, -⟩
    · rw [hnone] at hc
      obtain ⟨hpos, hle⟩ := ih (h.run op now) hc
      have := (h.lastSeq_run hnone).2
      omega
    · rw [hsome] at hc
      obtain rfl := (List.cons.inj hc).1
      have hseq : (LawfulStore.ledger s |>.fresh c now).seq = s.lastSeq + 1 := rfl
      have := h.nonneg
      omega

/-- If a table sets its order back and then creates a record, that gets a place once more. -/
theorem keepsOrder_of_nodup {calls : List (Operation × Instant)} (h : s.Issued places)
    (hn : (places ++ (created calls s).map (·.seq)).Nodup) : KeepsOrder calls s := by
  induction calls generalizing s places with
  | nil => trivial
  | cons call calls ih =>
    obtain ⟨op, now⟩ := call
    simp only [created, List.map_append, ← List.append_assoc] at hn
    refine ⟨?_, ih (h.run op now) hn⟩
    cases hc : created calls (op.run now s).2 with
    | nil => exact .inr rfl
    | cons r rs =>
      left
      by_contra hlt
      obtain ⟨hpos, hle⟩ := (h.run op now).head_created hc
      have hlt : ¬ s.lastSeq ≤ (op.run now s).2.lastSeq := hlt
      have hold : r.seq ∈ places := h.all r.seq hpos (by omega)
      have hnew : r.seq ∈ (created calls (op.run now s).2).map (·.seq) := by
        rw [hc]
        exact List.mem_cons_self
      exact (List.nodup_append.1 hn).2.2 _ (List.mem_append_left _ hold) _ hnew rfl

end Issued

end TableStore

/-- **Places as tokens.** No run of the store in memory creates two records at one place, and a claim
that it makes settles nothing but the very record that it was of. So it is for a table on which the
order is never set back before a record is created; and these are exactly the runs, from an empty
table on, in which no place is given out twice. -/
theorem stores_tokensHold (calls : List (Operation × Instant)) :
    (∀ s : MemoryStore, s.Reachable → TokensHold calls s) ∧
    (∀ s : TableStore, s.Reachable → s.isOpen = true → KeepsOrder calls s → TokensHold calls s) ∧
    (((created calls TableStore.empty).map (·.seq)).Nodup ↔ KeepsOrder calls TableStore.empty) := by
  refine ⟨fun s h => ?_, fun s h ho hk => ?_, fun hn => ?_, fun hk => ?_⟩
  · exact .of_keepsOrder h.sound (s.keepsOrder calls h.sound) fun _ _ now hop =>
      MemoryStore.settles_ok hop now _
  · exact .of_keepsOrder h.sound hk fun _ _ now hop =>
      TableStore.settles_ok hop now (TableStore.isOpen_runAll calls ho)
  · exact TableStore.Issued.empty.keepsOrder_of_nodup hn
  · have hlt := pairwise_created (s := TableStore.empty) Ledger.Sound.empty hk
    exact List.pairwise_map.2 (hlt.imp fun h => Int.ne_of_lt h)

/-- The command of the runs below, with some payload. -/
def probe (payload : Bytes) : NewCommand := ⟨"a", "Probe", .general, .ofNat 5, payload, true⟩

/-- A claimed record is replaced, and the store forgets its claims; the order stays, as the record
with the last place is stored. -/
def replacedMeanwhile : List (Operation × Instant) :=
  [(.insert (probe []), 0), (.nextEligible .general, 0), (.submit (probe [1]) .replace, 1),
    (.recover, 2)]

theorem stores_tokensHold_replacedMeanwhile :
    TokensHold wear MemoryStore.empty ∧ TokensHold replacedMeanwhile TableStore.empty ∧
      SettlesOnly (.ofCommand (probe []) 1 0) (.retire (.ofCommand (probe []) 1 0)) 3
        (runAll replacedMeanwhile TableStore.empty).2 := by
  obtain ⟨hmemory, -⟩ := stores_tokensHold wear
  obtain ⟨-, htables, horder⟩ := stores_tokensHold replacedMeanwhile
  have htable := htables _ .empty rfl (horder.1 (by decide +kernel))
  have hclaim : ((Operation.nextEligible .general).run 0
      (runAll [(.insert (probe []), 0)] TableStore.empty).2).1 =
        .ok (.found (some (.ofCommand (probe []) 1 0))) := by decide +kernel
  exact ⟨hmemory _ .empty, htable,
    htable.settles [(.insert (probe []), 0)] _ _ _ _ rfl hclaim _ 3 (.inl rfl)⟩

/-- A claimed record is deleted, the store forgets its claims, and the same identity comes again. -/
def comesAgain : List (Operation × Instant) :=
  [(.insert (probe []), 0), (.nextEligible .general, 0), (.deleteByIdentity "a", 0), (.recover, 0),
    (.insert (probe [1]), 0)]

/-- The second record gets the place of the first one, and the claim of the first removes it. -/
theorem place_recycled :
    (created comesAgain TableStore.empty).map (·.seq) = [1, 1] ∧
      ((Operation.nextEligible .general).run 0
        (runAll [(.insert (probe []), 0)] TableStore.empty).2).1 =
          .ok (.found (some (.ofCommand (probe []) 1 0))) ∧
      (runAll comesAgain TableStore.empty).2.table.rows = [.ofRecord (.ofCommand (probe [1]) 1 0)] ∧
      ((Operation.retire (.ofCommand (probe []) 1 0)).run 0
        (runAll comesAgain TableStore.empty).2).1 = .ok (.flag true) ∧
      ((Operation.retire (.ofCommand (probe []) 1 0)).run 0
        (runAll comesAgain TableStore.empty).2).2.table.rows = [] ∧
      ¬ TokensHold comesAgain TableStore.empty := by
  refine ⟨by decide +kernel, by decide +kernel, by decide +kernel, by decide +kernel,
    by decide +kernel, fun h => ?_⟩
  have hlt := List.pairwise_map.2 h.increasing
  have hplaces : (created comesAgain TableStore.empty).map (·.seq) = [1, 1] := by decide +kernel
  rw [hplaces] at hlt
  revert hlt
  decide

end LaneQueue
