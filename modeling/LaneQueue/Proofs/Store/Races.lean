import LaneQueue.Proofs.Store.Agreement
import LaneQueue.Proofs.Store.Frame
import LaneQueue.Proofs.Store.Tokens
/-!
# Submissions of one identity that race

Any number of submissions of one identity, between calls that leave its record alone (`Spares`): calls
about other identities, and claims and releases of whatever there is. The identity is looked up, its
record removed and the new one stored in one step, so the calls in their order settle everything: a
submission is answered by what is stored just before it (`ConflictPolicy.settle`), only the first one can
meet nothing, and what stands at the end is what the last one that created anything has created.

A look-up or a submission that the store refuses settles nothing; `Answered` says that there is none,
which holds for the store in memory, and for a table as long as the row of the identity can be read.
-/
namespace LaneQueue

/-- What a policy makes of a submission, given what is stored of its identity. -/
def ConflictPolicy.settle (p : ConflictPolicy) (new : Record) : Option Record → Submission
  | none => .inserted new
  | some old =>
    match p with
    | .rejectDuplicate => .kept old
    | .replace => .replaced old new
    | .error => .refused old

namespace Operation

/-- Whether a call submits a command of an identity. -/
def submits (i : String) : Operation → Bool
  | .submit c _ => c.identity == i
  | _ => false

theorem eq_submit_of_submits {i : String} {op : Operation} (h : op.submits i = true) :
    ∃ c p, op = .submit c p ∧ c.identity = i := by
  cases op with
  | submit c p => exact ⟨c, p, rfl, by simpa [submits] using h⟩
  | insert | deleteByIdentity | findByIdentity | nextEligible | retire | reschedule | release |
    pendingCount | nextWakeAt | purgeLane | recover => cases h

/-- A call that brings no command of an identity and neither settles, deletes nor purges its row. -/
structure Spares (i : String) (l : Ledger) (op : Operation) : Prop where
  submit : op.submits i = false
  insert : ∀ c, op = .insert c → c.identity ≠ i
  rows : ∀ row ∈ l.rows, row.identity = i → ¬ op.Concerns l row

end Operation

open Operation (Spares)

namespace Ledger

variable {l l' : Ledger} {now : Instant} {op : Operation} {i : String}

/-! ## A call that spares the identity -/

theorem Edit.mem_rows_of_spares (h : l.Edit now op l') (hop : op.Spares i l) {row : Row}
    (hi : row.identity = i) : row ∈ l'.rows ↔ row ∈ l.rows := by
  constructor
  · intro hrow
    rcases h.mem_rows_cases hrow with hold | ⟨c, rfl, hnew⟩ | ⟨r, n, t, rfl, x, hx, hof, rfl⟩
    · exact hold
    · have hc : c.identity = i := hi
      rcases hnew with rfl | ⟨p, rfl⟩
      · exact absurd hc (hop.insert c rfl)
      · have hsubmit := hop.submit
        simp [Operation.submits, hc] at hsubmit
    · exact absurd (isRowOf_iff.1 hof) (hop.rows x hx hi)
  · intro hrow
    exact h.keeps_row hrow (hop.rows row hrow hi)

theorem Edit.holds_of_spares (h : l.Edit now op l') (hop : op.Spares i l) :
    l'.Holds i ↔ l.Holds i := by
  constructor <;> rintro ⟨row, hrow, hi⟩
  · exact ⟨row, (h.mem_rows_of_spares hop hi).1 hrow, hi⟩
  · exact ⟨row, (h.mem_rows_of_spares hop hi).2 hrow, hi⟩

theorem Edit.finds_of_spares (h : l.Edit now op l') (hop : op.Spares i l) (r : Record) :
    l'.Finds i r ↔ l.Finds i r := by
  constructor <;> rintro ⟨row, hrow, hi, hr⟩
  · exact ⟨row, (h.mem_rows_of_spares hop hi).1 hrow, hi, hr⟩
  · exact ⟨row, (h.mem_rows_of_spares hop hi).2 hrow, hi, hr⟩

/-! ## A submission -/

variable {c : NewCommand} {p : ConflictPolicy} {a : Submission} {r : Record}

/-- The answer is the one that the policy gives for what is stored. -/
theorem Submits.eq_settle (hs : l.Sound) (h : l.Submits c p now (.ok a) l') {found : Option Record}
    (hfound : l.Looks c.identity (.ok found)) : a = p.settle (l.fresh c now) found := by
  cases found with
  | none =>
    cases a with
    | inserted x =>
      obtain ⟨-, rfl, -⟩ := h
      rfl
    | replaced old _ | kept old | refused old => exact absurd h.2.1.holds hfound
  | some old =>
    have hold : l.Finds c.identity old := hfound
    cases a with
    | inserted x => exact absurd hold.holds h.1
    | replaced x y =>
      obtain ⟨rfl, hx, rfl, -⟩ := h
      rw [hx.unique hs hold]
      rfl
    | kept x | refused x =>
      obtain ⟨rfl, hx, -⟩ := h
      rw [hx.unique hs hold]
      rfl

/-- What a submission has created is stored. -/
theorem Submits.finds_created (h : l.Submits c p now (.ok a) l')
    (hr : (Answer.submission a).created? = some r) :
    r = l.fresh c now ∧ l'.Finds c.identity r := by
  have hnew : ∀ m : Ledger, m.lastSeq = l.lastSeq →
      (m.add c now).Finds c.identity (l.fresh c now) := by
    intro m hm
    have hfresh : m.fresh c now = l.fresh c now := by simp only [fresh, hm]
    refine ⟨_, List.mem_append_right _ (List.mem_singleton_self _), rfl, ?_⟩
    rw [hfresh]
    exact Row.shows_ofRecord _
  cases a with
  | inserted x =>
    obtain ⟨-, hx, rfl⟩ := h
    obtain rfl := Option.some.inj hr
    subst hx
    exact ⟨rfl, hnew l rfl⟩
  | replaced old x =>
    obtain ⟨-, -, hx, rfl⟩ := h
    obtain rfl := Option.some.inj hr
    subst hx
    exact ⟨rfl, hnew (l.without c.identity) rfl⟩
  | kept | refused => cases hr

/-- A submission that creates nothing changes nothing. -/
theorem Submits.eq_of_not_created (h : l.Submits c p now (.ok a) l')
    (hr : (Answer.submission a).created? = none) : l' = l := by
  cases a with
  | inserted | replaced => cases hr
  | kept | refused => exact h.2.2

/-- Every row of an identity can be read. -/
def Reads (l : Ledger) (i : String) : Prop :=
  ∀ row ∈ l.rows, row.identity = i → ∃ r, row.toRecord = .ok r

theorem Edit.reads (h : l.Edit now op l') (hop : op.submits i = true ∨ op.Spares i l)
    (hn : Row.isInstant now = true) (hr : l.Reads i) : l'.Reads i := by
  intro row hrow hi
  rcases h.mem_rows_cases hrow with hold | ⟨c, rfl, -⟩ | ⟨x, n, t, rfl, y, hy, hof, rfl⟩
  · exact hr row hold hi
  · exact ⟨_, Row.toRecord_ofRecord hn⟩
  · rcases hop with hsub | hspares
    · cases hsub
    · exact absurd (isRowOf_iff.1 hof) (hspares.rows y hy hi)

end Ledger

namespace LawfulStore

open Ledger Operation

variable {σ : Type} [QueueStore σ] [LawfulStore σ] {s : σ} {i : String}
variable {xs ys calls : List (Operation × Instant)}

/-! ## Races -/

/-- Submissions of an identity among calls that spare it. A recovery spares it if it does not set the
order back, to places that have been given out. -/
def Races (i : String) : List (Operation × Instant) → σ → Prop
  | [], _ => True
  | (op, now) :: calls, s =>
    (op.submits i = true ∨ op.Spares i (ledger s) ∧
      (op = .recover → (ledger s).lastSeq ≤ (ledger (op.run now s).2).lastSeq)) ∧
      Races i calls (op.run now s).2

/-- The store looks an identity up and takes submissions of it. -/
structure Serves (i : String) (s : σ) : Prop where
  finds : ∃ x, QueueStore.findByIdentity i s = .ok x
  submits : ∀ (c : NewCommand) (p : ConflictPolicy) (now : Instant), c.identity = i →
    ∃ a, (QueueStore.submit c p now s).1 = .ok a

/-- It does so before each of some calls and after them. -/
def Answered (i : String) : List (Operation × Instant) → σ → Prop
  | [], s => Serves i s
  | (op, now) :: calls, s => Serves i s ∧ Answered i calls (op.run now s).2

theorem races_append (h : Races i (xs ++ ys) s) : Races i xs s ∧ Races i ys (runAll xs s).2 := by
  induction xs generalizing s with
  | nil => exact ⟨trivial, h⟩
  | cons x xs ih =>
    obtain ⟨hx, hrest⟩ := h
    obtain ⟨hxs, hys⟩ := ih hrest
    exact ⟨⟨hx, hxs⟩, hys⟩

omit [LawfulStore σ] in
theorem Answered.head (h : Answered i calls s) : Serves i s := by
  cases calls with
  | nil => exact h
  | cons call calls => exact h.1

omit [LawfulStore σ] in
theorem answered_append (h : Answered i (xs ++ ys) s) :
    Answered i xs s ∧ Answered i ys (runAll xs s).2 := by
  induction xs generalizing s with
  | nil => exact ⟨h.head, h⟩
  | cons x xs ih =>
    obtain ⟨hx, hrest⟩ := h
    obtain ⟨hxs, hys⟩ := ih hrest
    exact ⟨⟨hx, hxs⟩, hys⟩

/-- Nothing that is stored along a race is beyond the places given out at its end. -/
theorem Races.lastSeq_le (hs : (ledger s).Sound) (h : Races i calls s) :
    (ledger s).lastSeq ≤ (ledger (runAll calls s).2).lastSeq := by
  induction calls generalizing s with
  | nil => exact Int.le_refl _
  | cons call calls ih =>
    obtain ⟨op, now⟩ := call
    obtain ⟨hop, hrest⟩ := h
    have hle : (ledger s).lastSeq ≤ (ledger (op.run now s).2).lastSeq := by
      by_cases hrec : op = .recover
      · rcases hop with hsub | ⟨-, hle⟩
        · subst hrec
          cases hsub
        · exact hle hrec
      · exact (edit_run hs op now).lastSeq_le hrec
    exact Int.le_trans hle (ih (sound_run hs op now) hrest)

/-! ## What is found -/

theorem looks_of_serves (hs : (ledger s).Sound) {found : Option Record}
    (hf : QueueStore.findByIdentity i s = .ok found) : (ledger s).Looks i (.ok found) := by
  have h := LawfulStore.findByIdentity hs i
  rw [hf] at h
  exact h

theorem find_eq_some_iff (hs : (ledger s).Sound) (h : Serves i s) {r : Record} :
    QueueStore.findByIdentity i s = .ok (some r) ↔ (ledger s).Finds i r := by
  constructor
  · intro hf
    exact looks_of_serves hs hf
  · intro hfinds
    obtain ⟨x, hx⟩ := h.finds
    have hlooks := looks_of_serves hs hx
    cases x with
    | none => exact absurd hfinds.holds hlooks
    | some y =>
      rw [hx, Finds.unique hs hlooks hfinds]

theorem find_eq_none_iff (hs : (ledger s).Sound) (h : Serves i s) :
    QueueStore.findByIdentity i s = .ok none ↔ ¬ (ledger s).Holds i := by
  constructor
  · intro hf
    exact looks_of_serves hs hf
  · intro hn
    obtain ⟨x, hx⟩ := h.finds
    have hlooks := looks_of_serves hs hx
    cases x with
    | none => exact hx
    | some y =>
      have hfinds : (ledger s).Finds i y := hlooks
      exact absurd hfinds.holds hn

/-- Two stores that hold the same of an identity find the same. -/
theorem find_congr {t : σ} (hs : (ledger s).Sound) (ht : (ledger t).Sound) (hserves : Serves i s)
    (hserves' : Serves i t) (hholds : (ledger t).Holds i ↔ (ledger s).Holds i)
    (hfinds : ∀ r, (ledger t).Finds i r ↔ (ledger s).Finds i r) :
    QueueStore.findByIdentity i t = QueueStore.findByIdentity i s := by
  obtain ⟨x, hx⟩ := hserves.finds
  rw [hx]
  cases x with
  | none => exact (find_eq_none_iff ht hserves').2 (mt hholds.1 ((find_eq_none_iff hs hserves).1 hx))
  | some r =>
    exact (find_eq_some_iff ht hserves').2 ((hfinds r).2 ((find_eq_some_iff hs hserves).1 hx))

/-! ## One submission of the race -/

section Submission

variable {c : NewCommand}

/-- A submission is answered by what is found just before it. -/
theorem submission_settled (hs : (ledger s).Sound) (h : Serves c.identity s) (p : ConflictPolicy)
    (now : Instant) :
    ∃ found, QueueStore.findByIdentity c.identity s = .ok found ∧
      ((Operation.submit c p).run now s).1 =
        .ok (.submission (p.settle ((ledger s).fresh c now) found)) := by
  obtain ⟨found, hfound⟩ := h.finds
  obtain ⟨a, ha⟩ := h.submits c p now rfl
  have hlaw := LawfulStore.submit hs c p now
  rw [ha] at hlaw
  refine ⟨found, hfound, ?_⟩
  rw [← hlaw.eq_settle hs (looks_of_serves hs hfound)]
  exact congrArg (Except.map _) ha

/-- It creates the record that is found after it, or changes nothing at all. -/
theorem submission_cases (hs : (ledger s).Sound) (h : Serves c.identity s) (p : ConflictPolicy)
    (now : Instant) :
    (∃ r, (Operation.submit c p).created? now s = some r ∧ r = (ledger s).fresh c now ∧
        (ledger ((Operation.submit c p).run now s).2).Finds c.identity r) ∨
      (Operation.submit c p).created? now s = none ∧ (ledger s).Holds c.identity ∧
        ledger ((Operation.submit c p).run now s).2 = ledger s := by
  obtain ⟨a, ha⟩ := h.submits c p now rfl
  have hlaw := LawfulStore.submit hs c p now
  rw [ha] at hlaw
  have hrun : ((Operation.submit c p).run now s).1 = .ok (.submission a) :=
    congrArg (Except.map _) ha
  rw [created?_of_ok hrun]
  cases hr : (Answer.submission a).created? with
  | some r =>
    obtain ⟨hfresh, hfinds⟩ := hlaw.finds_created hr
    exact .inl ⟨r, rfl, hfresh, hfinds⟩
  | none =>
    have hsame := hlaw.eq_of_not_created hr
    have hholds := hlaw.holds
    rw [hsame] at hholds
    exact .inr ⟨rfl, hholds, hsame⟩

end Submission

/-! ## One call of the race -/

theorem holds_step (hs : (ledger s).Sound) (h : Serves i s) {op : Operation}
    (hop : op.submits i = true ∨ op.Spares i (ledger s)) (now : Instant) :
    (ledger (op.run now s).2).Holds i ↔ (ledger s).Holds i ∨ op.submits i = true := by
  rcases hop with hsub | hspares
  · obtain ⟨c, p, rfl, rfl⟩ := eq_submit_of_submits hsub
    have hholds : (ledger ((Operation.submit c p).run now s).2).Holds c.identity := by
      rcases submission_cases hs h p now with ⟨r, -, -, hfinds⟩ | ⟨-, hold, hsame⟩
      · exact hfinds.holds
      · rw [hsame]
        exact hold
    exact iff_of_true hholds (.inr hsub)
  · rw [(edit_run hs op now).holds_of_spares hspares]
    simp [hspares.submit]

/-- Unless it creates a record of the identity, the same is found after it. -/
theorem find_step (hs : (ledger s).Sound) (h : Serves i s) {op : Operation}
    (hop : op.submits i = true ∨ op.Spares i (ledger s)) {now : Instant}
    (h' : Serves i (op.run now s).2) (hnone : ∀ r ∈ op.created? now s, r.identity ≠ i) :
    QueueStore.findByIdentity i (op.run now s).2 = QueueStore.findByIdentity i s := by
  have hs' := sound_run hs op now
  rcases hop with hsub | hspares
  · obtain ⟨c, p, rfl, rfl⟩ := eq_submit_of_submits hsub
    rcases submission_cases hs h p now with ⟨r, hr, rfl, -⟩ | ⟨-, -, hsame⟩
    · exact absurd rfl (hnone _ hr)
    · apply find_congr hs hs' h h'
      · rw [hsame]
      · intro r
        rw [hsame]
  · have hedit := edit_run hs op now
    exact find_congr hs hs' h h' (hedit.holds_of_spares hspares) (hedit.finds_of_spares hspares)

/-! ## The whole race -/

/-- The identity is stored once it was or a submission of it has been made. -/
theorem holds_runAll_iff (hs : (ledger s).Sound) (h : Races i calls s) (ha : Answered i calls s) :
    (ledger (runAll calls s).2).Holds i ↔
      (ledger s).Holds i ∨ ∃ call ∈ calls, call.1.submits i = true := by
  induction calls generalizing s with
  | nil => simp [runAll]
  | cons call calls ih =>
    obtain ⟨op, now⟩ := call
    obtain ⟨hop, hrest⟩ := h
    obtain ⟨hserves, harest⟩ := ha
    have hiff := ih (sound_run hs op now) hrest harest
    have hstep := holds_step hs hserves (hop.imp_right And.left) now
    change (ledger (runAll calls (op.run now s).2).2).Holds i ↔ _
    rw [hiff, hstep]
    simp [or_assoc]

/-- While nothing of the identity is created, the same is found. -/
theorem find_runAll (hs : (ledger s).Sound) (h : Races i calls s) (ha : Answered i calls s)
    (hnone : ∀ r ∈ created calls s, r.identity ≠ i) :
    QueueStore.findByIdentity i (runAll calls s).2 = QueueStore.findByIdentity i s := by
  induction calls generalizing s with
  | nil => rfl
  | cons call calls ih =>
    obtain ⟨op, now⟩ := call
    obtain ⟨hop, hrest⟩ := h
    obtain ⟨hserves, harest⟩ := ha
    simp only [created, List.mem_append, Option.mem_toList] at hnone
    have hlater := ih (sound_run hs op now) hrest harest fun r hr => hnone r (.inr hr)
    refine hlater.trans (find_step hs hserves (hop.imp_right And.left) harest.head ?_)
    exact fun r hr => hnone r (.inl hr)

/-- **How a race is resolved.** Here `t` is the store just before a submission. -/
structure Resolved (i : String) (calls : List (Operation × Instant)) (s : σ) : Prop where
  /-- Every submission is answered by its policy for what is found just before it, and finds nothing
  only if it is the first one and there was nothing before the race. -/
  answered : ∀ before c p now after, calls = before ++ (.submit c p, now) :: after → c.identity = i →
    ∀ t, t = (runAll before s).2 → ∃ found, QueueStore.findByIdentity i t = .ok found ∧
      ((Operation.submit c p).run now t).1 =
        .ok (.submission (p.settle ((ledger t).fresh c now) found)) ∧
      (found = none ↔ QueueStore.findByIdentity i s = .ok none ∧
        ∀ call ∈ before, call.1.submits i = false)
  /-- One that is kept or refused changes neither rows, claims nor the order. -/
  unchanged : ∀ before c p now after, calls = before ++ (.submit c p, now) :: after →
    c.identity = i → ∀ t, t = (runAll before s).2 → (Operation.submit c p).created? now t = none →
      ledger ((Operation.submit c p).run now t).2 = ledger t
  /-- The last record that a submission creates is what is found at the end: the command of that
  submission without failed attempts, at a place beyond all that were stored before. -/
  last : ∀ before c p now after r, calls = before ++ (.submit c p, now) :: after → c.identity = i →
    ∀ t, t = (runAll before s).2 → (Operation.submit c p).created? now t = some r →
      (∀ x ∈ created after ((Operation.submit c p).run now t).2, x.identity ≠ i) →
      QueueStore.findByIdentity i (runAll calls s).2 = .ok (some r) ∧
        r = .ofCommand c r.seq now ∧
        ∀ xs ys, before = xs ++ ys → ∀ row ∈ (ledger (runAll xs s).2).rows, row.seq < r.seq
  /-- If none is created the identity stands as it did. -/
  untouched : (∀ x ∈ created calls s, x.identity ≠ i) →
    QueueStore.findByIdentity i (runAll calls s).2 = QueueStore.findByIdentity i s

theorem Resolved.of_answered (hs : (ledger s).Sound) (h : Races i calls s)
    (ha : Answered i calls s) : Resolved i calls s where
  answered := by
    rintro before c p now after rfl rfl t rfl
    obtain ⟨hrace, -⟩ := races_append h
    obtain ⟨hbefore, hserves⟩ := answered_append ha
    have hst := sound_runAll before hs
    obtain ⟨found, hfound, hrun⟩ :=
      submission_settled hst hserves.head p now
    refine ⟨found, hfound, hrun, ?_⟩
    have hholds := holds_runAll_iff hs hrace hbefore
    have hnone : found = none ↔ ¬ (ledger (runAll before s).2).Holds c.identity := by
      rw [← find_eq_none_iff hst hserves.head, hfound]
      simp
    rw [hnone, hholds, find_eq_none_iff hs ha.head]
    simp
  unchanged := by
    rintro before c p now after rfl rfl t rfl hnone
    obtain ⟨-, hserves⟩ := answered_append ha
    rcases submission_cases (sound_runAll before hs) hserves.head p now with ⟨r, hr, -⟩ | ⟨-, -, hsame⟩
    · rw [hnone] at hr
      cases hr
    · exact hsame
  last := by
    rintro before c p now after r rfl rfl t rfl hr hlater
    obtain ⟨hrace, -, hrest⟩ := races_append h
    obtain ⟨-, hserves, hanswered⟩ := answered_append ha
    have hst := sound_runAll before hs
    rcases submission_cases hst hserves p now with ⟨x, hx, rfl, hfinds⟩ | ⟨hnone, -⟩
    · rw [hx] at hr
      obtain rfl := Option.some.inj hr
      have hst' := sound_run hst (.submit c p) now
      have hnow := (find_eq_some_iff hst' hanswered.head).2 hfinds
      have hend := (find_runAll hst' hrest hanswered hlater).trans hnow
      refine ⟨?_, rfl, ?_⟩
      · rw [runAll_append]
        exact hend
      · rintro xs ys rfl row hrow
        obtain ⟨hxs, hys⟩ := races_append hrace
        have hsx := sound_runAll xs hs
        have hle := hys.lastSeq_le hsx
        have hstored := hsx.stored_le row hrow
        rw [runAll_append]
        change row.seq < (ledger (runAll ys (runAll xs s).2).2).lastSeq + 1
        omega
    · rw [hnone] at hr
      cases hr
  untouched := find_runAll hs h ha

end LawfulStore

/-! ## Both stores -/

open Operation LawfulStore

variable {i : String} {calls : List (Operation × Instant)}

theorem MemoryStore.answered (i : String) (calls : List (Operation × Instant)) (s : MemoryStore) :
    Answered i calls s := by
  have hserves : ∀ s : MemoryStore, Serves i s :=
    fun s => ⟨⟨_, rfl⟩, fun c p now _ => s.submit_ok c p now⟩
  induction calls generalizing s with
  | nil => exact hserves s
  | cons call calls ih => exact ⟨hserves s, ih _⟩

namespace TableStore

variable {s : TableStore}

theorem serves (hs : s.ledger.Sound) (ho : s.isOpen = true) (hr : s.ledger.Reads i) :
    Serves i s where
  finds := findByIdentity_ok ho hr
  submits _ p now hc := submit_ok hs ho (hc ▸ hr) p now

/-- The row of an identity cannot be read. -/
def Obscures (s : TableStore) (i : String) (row : Row) : Prop :=
  row ∈ s.table.rows ∧ row.identity = i ∧ ∀ r, row.toRecord ≠ .ok r

/-- A submission fails over such a row and changes nothing. -/
theorem submit_obscured (hs : s.ledger.Sound) {row : Row} {c : NewCommand}
    (h : s.Obscures c.identity row) (p : ConflictPolicy) (now : Instant) :
    ∃ e, (Operation.submit c p).run now s = (.error e, s) := by
  obtain ⟨hrow, hi, hunread⟩ := h
  obtain ⟨e, he⟩ : ∃ e, s.findByIdentity c.identity = .error e := by
    unfold findByIdentity connected
    by_cases ho : s.isOpen = true
    · rw [if_pos ho]
      cases hf : s.table.find? c.identity with
      | none => exact absurd ⟨row, hrow, hi⟩ (find?_eq_none.1 hf)
      | some x =>
        obtain ⟨hx, hxi⟩ := find?_eq_some hf
        obtain rfl := hs.eq_of_identity hx hrow (hxi.trans hi.symm)
        cases hr : x.toRecord with
        | error e => exact ⟨e, by simp only [hr]; rfl⟩
        | ok r => exact absurd hr (hunread r)
    · rw [if_neg ho]
      exact ⟨_, rfl⟩
  refine ⟨e, ?_⟩
  change ((submit c p now s).1.map _, (submit c p now s).2) = _
  simp only [submit, he]
  rfl

/-- It stays there along a race. -/
theorem obscured_runAll (hs : s.ledger.Sound) {row : Row} (h : s.Obscures i row)
    (hraces : Races i calls s) : (runAll calls s).2.Obscures i row := by
  induction calls generalizing s with
  | nil => exact h
  | cons call calls ih =>
    obtain ⟨op, now⟩ := call
    obtain ⟨hop, hrest⟩ := hraces
    have hedit := edit_run (s := s) hs op now
    refine ih (sound_run (s := s) hs op now) ?_ hrest
    rcases hop with hsub | ⟨hspares, -⟩
    · obtain ⟨c, p, rfl, rfl⟩ := eq_submit_of_submits hsub
      obtain ⟨e, he⟩ := submit_obscured hs h p now
      rw [he]
      exact h
    · obtain ⟨hrow, hi, hunread⟩ := h
      exact ⟨(hedit.mem_rows_of_spares hspares hi).2 hrow, hi, hunread⟩

theorem answered (hs : s.ledger.Sound) (ho : s.isOpen = true) (hr : s.ledger.Reads i)
    (hn : ∀ call ∈ calls, Row.isInstant call.2 = true) (h : Races i calls s) :
    Answered i calls s := by
  induction calls generalizing s with
  | nil => exact serves hs ho hr
  | cons call calls ih =>
    obtain ⟨op, now⟩ := call
    obtain ⟨hop, hrest⟩ := h
    obtain ⟨hnow, hlater⟩ := List.forall_mem_cons.1 hn
    have hedit := edit_run (s := s) hs op now
    refine ⟨serves hs ho hr, ih (sound_run (s := s) hs op now) ?_ ?_ hlater hrest⟩
    · exact (isOpen_run op now s).trans ho
    · exact hedit.reads (hop.imp_right And.left) hnow hr

end TableStore

/-- **Racing submissions of one identity are settled one after the other**, by either store and from
every state. Each is answered by its policy for what is found just before it; only the first one can be
inserted, if there was nothing of the identity; and what is found at the end is what the last one that
created a record has created. A row of the identity that cannot be read makes every submission of a race
fail and change nothing. -/
theorem races_resolved (i : String) (calls : List (Operation × Instant)) :
    (∀ s : MemoryStore, s.ledger.Sound → Races i calls s → Resolved i calls s) ∧
    (∀ s : TableStore, s.ledger.Sound → s.isOpen = true → s.ledger.Reads i →
      (∀ call ∈ calls, Row.isInstant call.2 = true) → Races i calls s → Resolved i calls s) ∧
    ∀ s : TableStore, s.ledger.Sound → ¬ s.ledger.Reads i → Races i calls s →
      ∀ before c p now after, calls = before ++ (.submit c p, now) :: after → c.identity = i →
        ∃ e, (Operation.submit c p).run now (runAll before s).2 = (.error e, (runAll before s).2) := by
  refine ⟨fun s hs h => ?_, fun s hs ho hr hn h => ?_, ?_⟩
  · exact .of_answered hs h (MemoryStore.answered i calls s)
  · exact .of_answered hs h (TableStore.answered hs ho hr hn h)
  · rintro s hs hunread h before c p now after rfl rfl
    obtain ⟨row, hrow, hi, hno⟩ : ∃ row ∈ s.table.rows, row.identity = c.identity ∧
        ∀ r, row.toRecord ≠ .ok r := by
      by_contra hall
      push Not at hall
      exact hunread hall
    have hlast := TableStore.obscured_runAll hs ⟨hrow, hi, hno⟩ (races_append h).1
    exact TableStore.submit_obscured (sound_runAll before (s := s) hs) hlast p now

/-- Submissions of one identity under all policies, while its first record is claimed and given back and
another record comes and goes. -/
def race : List (Operation × Instant) :=
  let b : NewCommand := { probe [] with identity := "b" }
  [(.submit (probe []) .error, 0), (.nextEligible .general, 0), (.submit b .replace, 1),
    (.submit (probe [1]) .replace, 2), (.release (.ofCommand (probe []) 1 0), 3),
    (.retire (.ofCommand b 2 1), 4), (.submit (probe [2]) .rejectDuplicate, 5),
    (.submit (probe [3]) .error, 6)]

/-- A table whose only row has a priority that is none. -/
def obscured : TableStore :=
  let s := (runAll [(.insert (probe []), 0)] TableStore.empty).2
  { s with table := (s.table.update (·.identity == "a") fun row => { row with priority := -1 }).2 }

theorem sound_obscured : obscured.ledger.Sound :=
  ⟨by decide +kernel, by decide +kernel, by decide +kernel, by decide +kernel, by decide +kernel⟩

theorem exists_obscures : ∃ row, obscured.Obscures "a" row := by
  have hrow : ∃ row ∈ obscured.table.rows, row.identity = "a" ∧ row.priority = -1 := by
    decide +kernel
  obtain ⟨row, hrow, hi, hp⟩ := hrow
  refine ⟨row, hrow, hi, fun r hr => ?_⟩
  have hprio := (Row.shows_of_toRecord hr).priority
  omega

/-- A submission that is to replace that row gets no answer: neither that it has been inserted nor that it
has replaced anything. -/
theorem replace_unanswered :
    obscured.ledger.Sound ∧ obscured.isOpen = true ∧ obscured.ledger.Holds "a" ∧
      Races "a" [(.submit (probe [1]) .replace, 1)] obscured ∧
      ∀ x, ((Operation.submit (probe [1]) .replace).run 1 obscured).1 ≠ .ok x := by
  obtain ⟨row, hobscures⟩ := exists_obscures
  obtain ⟨e, he⟩ := TableStore.submit_obscured (c := probe [1]) sound_obscured hobscures .replace 1
  refine ⟨sound_obscured, rfl, ⟨row, hobscures.1, hobscures.2.1⟩, ⟨.inl rfl, trivial⟩, fun x hx => ?_⟩
  rw [he] at hx
  cases hx

theorem races_race {σ : Type} [QueueStore σ] [LawfulStore σ] (s : σ) : Races "a" race s := by
  have hb : ∀ {op : Operation} (l : Ledger), op.submits "a" = false → (∀ c, op ≠ .insert c) →
      (∀ row : Row, row.identity = "a" → ¬ op.Concerns l row) → op.Spares "a" l :=
    fun l hsubmit hinsert hrows =>
      ⟨hsubmit, fun c hc => absurd hc (hinsert c), fun row _ => hrows row⟩
  refine ⟨.inl rfl, .inr ⟨hb _ rfl nofun fun _ _ h => h, nofun⟩, .inr ⟨hb _ rfl nofun ?_, nofun⟩,
    .inl rfl, .inr ⟨hb _ rfl nofun fun _ _ h => h, nofun⟩, .inr ⟨hb _ rfl nofun ?_, nofun⟩,
    .inl rfl, .inl rfl, trivial⟩
  · rintro row hi ⟨-, hc⟩
    rw [hi] at hc
    revert hc
    decide
  · rintro row hi ⟨hc, -⟩
    rw [hi] at hc
    revert hc
    decide

/-- The record that the third submission of the identity has put in the place of the first one is found
at the end, and it is beyond the other record, which is gone. -/
theorem races_resolved_mixed :
    QueueStore.findByIdentity "a" (runAll race MemoryStore.empty).2 =
        .ok (some (.ofCommand (probe [1]) 3 2)) ∧
      QueueStore.findByIdentity "a" (runAll race TableStore.empty).2 =
        .ok (some (.ofCommand (probe [1]) 3 2)) ∧
      (∃ e, (Operation.submit (probe [1]) .replace).run 1 obscured = (.error e, obscured)) := by
  obtain ⟨hmemory, htable, -⟩ := races_resolved "a" race
  have hm := hmemory .empty Ledger.Sound.empty (races_race _)
  have ht := htable .empty Ledger.Sound.empty rfl nofun (by decide) (races_race _)
  refine ⟨?_, ?_, ?_⟩
  · exact (hm.last (race.take 3) (probe [1]) .replace 2 (race.drop 4) (.ofCommand (probe [1]) 3 2)
      rfl rfl _ rfl (by decide +kernel) (by decide +kernel)).1
  · exact (ht.last (race.take 3) (probe [1]) .replace 2 (race.drop 4) (.ofCommand (probe [1]) 3 2)
      rfl rfl _ rfl (by decide +kernel) (by decide +kernel)).1
  · have hunread : ¬ obscured.ledger.Reads "a" := by
      obtain ⟨row, hrow, hi, hno⟩ := exists_obscures
      intro h
      obtain ⟨r, hr⟩ := h row hrow hi
      exact hno r hr
    exact (races_resolved "a" [(.submit (probe [1]) .replace, 1)]).2.2 obscured sound_obscured hunread
      ⟨.inl rfl, trivial⟩ [] (probe [1]) .replace 1 [] rfl rfl

end LaneQueue
