import LaneQueue.Proofs.Scheduler.Cuts
import LaneQueue.Proofs.Scheduler.Telling
import LaneQueue.Proofs.Scheduler.Undisturbed
/-!
# The life after a cut

A process opens what the one before has left behind, starts a scheduler on it, and nobody disturbs it.
The start counts the rows that are there. Each execution is that of a stored row, with its payload and
its next attempt. A row is executed again only after its settlement has failed; and once every lane has
found nothing when all rows were due, each has been executed to its end, and the table is empty
(`restart_resumes`).
-/
namespace LaneQueue

/-! ## What a start reports -/

namespace Call

/-- The rows of the lanes as a request has counted them. -/
def found? : Call → Option (PerLane Nat)
  | spawn found | wake _ (.started found) | done (.started found) => some found
  | _ => none

theorem found?_ofSubmission (lane : Lane) (x : Submission) : (ofSubmission lane x).found? = none := by
  cases x <;> rfl

theorem found?_ofStatus (x : LaneStatus) (g : StatusGoal) : (ofStatus x g).found? = none := by
  match g with
  | .one | .all _ [] | .all _ (_ :: _) => rfl

theorem found?_ofDraft {W : Type} (w : Wiring W) (d : Draft) (o : SubmitOptions) :
    (ofDraft w d o).found? = none := by
  unfold ofDraft
  split
  · rfl
  · split <;> rfl

variable {σ W : Type} [QueueStore σ] {w : Wiring W} {fault : Option QueueError} {s s' : Shared σ W}

/-- A request counts the rows by a recovery. -/
theorem found?_step {c c' : Call} (h : c.step w fault s = some (c', s')) {found : PerLane Nat}
    (hf : c'.found? = some found) :
    c.found? = some found ∨ c.isLaunching = true ∧ (QueueStore.recover s.store).1 = .ok found := by
  cases c with
  | recover t =>
    obtain ⟨-, ⟨t', rfl⟩ | ⟨a, rfl, -, ha⟩ | ⟨e, rfl⟩⟩ := trying_cases h .recover fun _ => rfl
    · cases hf
    · cases hf
      exact .inr ⟨rfl, ha⟩
    · cases hf
  | store d p t =>
    obtain ⟨-, ⟨t', rfl⟩ | ⟨a, rfl, -⟩ | ⟨e, rfl⟩⟩ := trying_cases h (.submit d p) fun _ => rfl
    · cases hf
    · rw [found?_ofSubmission] at hf
      cases hf
    · cases hf
  | purge l t =>
    obtain ⟨-, ⟨t', rfl⟩ | ⟨a, rfl, -⟩ | ⟨e, rfl⟩⟩ := trying_cases h (.purgeLane l) fun _ => rfl <;>
      cases hf
  | count l g t =>
    obtain ⟨-, ⟨t', rfl⟩ | ⟨a, rfl, -⟩ | ⟨e, rfl⟩⟩ :=
      trying_cases h (.pendingCount l) fun _ => rfl <;> cases hf
  | start =>
    simp only [step] at h
    split at h <;> cases h <;> cases hf
  | submit d o =>
    cases h
    rw [found?_ofDraft] at hf
    cases hf
  | snapshot l n g =>
    cases h
    rw [found?_ofStatus] at hf
    cases hf
  | spawn found' => cases h; exact .inl hf
  | wake l r => cases h; cases r <;> exact .inl hf
  | pause l | resume l => cases h; split at hf <;> cases hf
  | drain ls | halt ls => cases ls <;> cases h <;> cases hf
  | await ls t =>
    simp only [step] at h
    split at h <;> cases h
    cases hf
  | done => cases h
  | announce | announcePause | announceResume | announceCleared | cancel | gather => cases h; cases hf

end Call

namespace System

open LawfulStore (ledger)

section Places

variable {σ W : Type} [QueueStore σ] [LawfulStore σ] {w : Wiring W} {s s₀ : System σ W}

/-- A row was gone before the workers were spawned. -/
def GoneEarly (w : Wiring W) (s₀ : System σ W) (as : List Action) (q : Int) : Prop :=
  ∃ bs u, bs <+: as ∧ s₀.steps w bs = some u ∧ (∀ l, (u.shared.cell l).spawned = false) ∧
    ∀ row ∈ (ledger u.shared.store).rows, row.seq ≠ q

/-- What is stored when a start counts the rows is never overtaken by what comes later. -/
theorem seq_le_or_goneEarly (htidy : s₀.Tidy) {row : Row} (hrow : row ∈ (ledger s₀.shared.store).rows)
    {as : List Action} (hrun : s₀.steps w as = some s) :
    row.seq ≤ (ledger s.shared.store).lastSeq ∨ GoneEarly w s₀ as row.seq := by
  refine steps_induction (P := fun as t => row.seq ≤ (ledger t.shared.store).lastSeq ∨
    GoneEarly w s₀ as row.seq) (.inl (htidy.sound.stored_le row hrow)) ?_ hrun
  intro as a t t' ht ih hstep
  rcases ih with hle | ⟨bs, u, hpre, hu⟩
  · have htidy' := htidy.steps ht
    rw [step_store hstep]
    cases hop : t.operation? a with
    | none => exact .inl hle
    | some op =>
      have hedit := LawfulStore.edit_run htidy'.sound op t.shared.now
      by_cases hne : op = .recover
      · subst hne
        by_cases hstored : ∃ x ∈ (ledger t.shared.store).rows, x.seq = row.seq
        · obtain ⟨x, hx, hq⟩ := hstored
          obtain ⟨q, hle', hl⟩ := LawfulStore.recover htidy'.sound
          refine .inl ?_
          change row.seq ≤ (ledger (QueueStore.recover t.shared.store).2).lastSeq
          rw [hl, ← hq]
          exact hle' x hx
        · refine .inr ⟨as, t, List.prefix_append _ _, ht, fun l => ?_, fun x hx hq =>
            hstored ⟨x, hx, hq⟩⟩
          exact Bool.eq_false_iff.2 fun hsp => htidy'.operation?_ne_recover hsp a hop
      · exact .inl (Int.le_trans hle (hedit.lastSeq_le hne))
  · exact .inr ⟨bs, u, hpre.trans (List.prefix_append _ _), hu⟩

/-- A record that is stored later is served after it. -/
theorem servedAfter_of_accepted (htidy : s₀.Tidy) {row : Row}
    (hrow : row ∈ (ledger s₀.shared.store).rows) {as : List Action} (hrun : s₀.steps w as = some s)
    {a : Action} {r x : Record} (hacc : s.accepted? a = some r) (hx : row.Shows x)
    (hpriority : x.priority = r.priority) :
    (x.servesBefore r = true ∧ r.servesBefore x = false) ∨ GoneEarly w s₀ as row.seq := by
  refine (seq_le_or_goneEarly htidy hrow hrun).imp_left fun hle => ?_
  obtain ⟨op, hop, hcr⟩ := Option.bind_eq_some_iff.1 hacc
  obtain ⟨y, hok, hcr⟩ := Operation.exists_of_created? hcr
  have hnext := (LawfulStore.created_run (htidy.steps hrun).sound hok hcr).1.next
  have hseq := hx.seq
  simp only [Record.servesBefore, hpriority]
  constructor
  · simp only [Bool.or_eq_true, Bool.and_eq_true, beq_self_eq_true, true_and, decide_eq_true_eq]
    omega
  · simp only [Bool.or_eq_false_iff, decide_eq_false_iff_not, beq_self_eq_true, Bool.true_and]
    omega

end Places

/-! ## The second life -/

variable {W : Type} {t : CommandTable} {w : Wiring W} {as : List Action}
  {s s' s₀ : System ShakyTable W}

/-- A run of a scheduler on what has been left behind, in which nobody disturbs it. -/
structure Resumes (t : CommandTable) (w : Wiring W) (s₀ : System ShakyTable W) (as : List Action)
    (s : System ShakyTable W) : Prop where
  cut : Cut t
  starts : ∃ refusals now world, s₀ = .init w.config ⟨.ofTable t, refusals⟩ now world
  succeeds : w.registry.Succeeds
  quiet : ∀ a ∈ as, a.isQuiet = true
  run : s₀.steps w as = some s

/-- When all rows of a table were due, the worker of a lane has found nothing to claim. -/
def FoundNothing (w : Wiring W) (s₀ : System ShakyTable W) (as : List Action) (t : CommandTable)
    (l : Lane) : Prop :=
  ∃ bs b u, bs ++ [b] <+: as ∧ s₀.steps w bs = some u ∧ u.operation? b = some (.nextEligible l) ∧
    (QueueStore.nextEligible l u.shared.now u.shared.store).1 = .ok none ∧
    ∀ row ∈ t.rows, row.availableAt ≤ u.shared.now

namespace Resumes

theorem rows_start (h : Resumes t w s₀ as s) : (ledger s₀.shared.store).rows = t.rows := by
  obtain ⟨refusals, now, world, rfl⟩ := h.starts
  rfl

theorem top_start (h : Resumes t w s₀ as s) (l : Lane) : s₀.workers.get l = .top := by
  obtain ⟨refusals, now, world, rfl⟩ := h.starts
  exact PerLane.get_ofFn _ l

theorem tidy_start (h : Resumes t w s₀ as s) : s₀.Tidy := by
  obtain ⟨refusals, now, world, rfl⟩ := h.starts
  have hs : (ledger (⟨.ofTable t, refusals⟩ : ShakyTable)).Sound := h.cut.sound
  exact Tidy.init w.config hs now world

theorem tidy (h : Resumes t w s₀ as s) : s.Tidy := h.tidy_start.steps h.run

theorem undisturbed_start (h : Resumes t w s₀ as s) : s₀.Undisturbed := by
  obtain ⟨refusals, now, world, rfl⟩ := h.starts
  exact .init _ _ _ _

theorem sound_start (h : Resumes t w s₀ as s) : ({} : Chronicle).Sound s₀ := by
  obtain ⟨refusals, now, world, rfl⟩ := h.starts
  exact Chronicle.sound_init _ _ _ _

theorem sound (h : Resumes t w s₀ as s) : (s₀.chronicle w as {}).Sound s :=
  h.sound_start.steps h.tidy_start h.run

theorem subject?_start (h : Resumes t w s₀ as s) (l : Lane) :
    ({} : Chronicle).subject? s₀ l = none := by
  rw [Chronicle.subject?, h.top_start l]
  rfl

/-- An earlier moment of such a run ends one. -/
theorem left {bs : List Action} {u : System ShakyTable W} (h : Resumes t w s₀ (as ++ bs) s)
    (hu : s₀.steps w as = some u) : Resumes t w s₀ as u :=
  ⟨h.cut, h.starts, h.succeeds, fun a ha => h.quiet a (List.mem_append_left _ ha), hu⟩

/-- Every row is one of those that were left behind. -/
theorem mem_rows (h : Resumes t w s₀ as s) {row : Row} (hrow : row ∈ (ledger s.shared.store).rows) :
    row ∈ t.rows :=
  h.rows_start ▸ h.undisturbed_start.rows_steps h.succeeds h.tidy_start h.quiet h.run hrow

/-- A row that has been left behind is the record that it shows. -/
theorem toRecord_of_shows (h : Resumes t w s₀ as s) {row : Row} (hrow : row ∈ t.rows) {x : Record}
    (hx : row.Shows x) : row.toRecord = .ok x := by
  obtain ⟨r, hr⟩ := (h.cut.regular row hrow).readable
  rw [hx.unique (Row.shows_of_toRecord hr)]
  exact hr

/-- Whatever a worker is busy with has been left behind. -/
theorem row_of_subject? (h : Resumes t w s₀ as s) {l : Lane} {x : Record}
    (hx : (s₀.chronicle w as {}).subject? s l = some x) :
    ∃ row ∈ t.rows, row.toRecord = .ok x ∧ (x.attempt.toNat : Int) = row.retryCount + 1 := by
  obtain ⟨row, hrow, hshows⟩ := h.undisturbed_start.shows_of_subject? h.succeeds h.tidy_start
    h.subject?_start h.quiet h.run hx
  rw [h.rows_start] at hrow
  exact ⟨row, hrow, h.toRecord_of_shows hrow hshows, (h.cut.regular row hrow).attempt hshows⟩

/-! ### What the start reports -/

/-- Until the workers are spawned all rows stay. -/
theorem rows_of_unspawned (h : Resumes t w s₀ as s) (hno : ∀ l, (s.shared.cell l).spawned = false) :
    (ledger s.shared.store).rows = t.rows := by
  refine steps_induction_forall (P := fun _ s => (∀ l, (s.shared.cell l).spawned = false) →
    (ledger s.shared.store).rows = t.rows) (fun _ => h.rows_start) ?_ h.quiet h.run hno
  intro as a s s' hs hbefore _ ih hstep hno
  have htidy := h.tidy_start.steps hs
  have hund := h.undisturbed_start.steps h.succeeds hbefore hs
  have hno' : ∀ l, (s.shared.cell l).spawned = false := fun l =>
    Bool.eq_false_iff.2 fun hsp => by
      have := htidy.spawned_step hsp hstep
      rw [hno l] at this
      cases this
  exact (hund.rows_unspawned htidy hno' hstep).trans (ih hno')

/-- What a request has counted are those rows. -/
theorem counts (h : Resumes t w s₀ as s) :
    ∀ d ∈ s.calls, ∀ found, d.found? = some found → ∀ l, found.get l = t.ofLane l := by
  refine steps_induction_forall (P := fun _ s =>
    ∀ d ∈ s.calls, ∀ found, d.found? = some found → ∀ l, found.get l = t.ofLane l)
    ?_ ?_ h.quiet h.run
  · intro d hd
    obtain ⟨refusals, now, world, hs₀⟩ := h.starts
    rw [hs₀] at hd
    cases hd
  · intro as a s s' hs hbefore _ ih hstep d hd found hf l
    cases a with
    | tick => cases hstep; exact ih d hd found hf l
    | request r =>
      cases hstep
      rcases List.mem_append.1 hd with hd | hd
      · exact ih d hd found hf l
      · rw [List.mem_singleton.1 hd] at hf
        cases r <;> cases hf
    | work m signal fault =>
      obtain ⟨p, x, -, -, rfl⟩ := work_cases hstep
      exact ih d hd found hf l
    | advance i fault =>
      obtain ⟨e, e', x, he, hcall, rfl⟩ := advance_cases hstep
      have hmem := List.mem_of_getElem? he
      rcases List.mem_or_eq_of_mem_set hd with hd | rfl
      · exact ih d hd found hf l
      · rcases Call.found?_step hcall hf with hf | ⟨hl, hfound⟩
        · exact ih e hmem found hf l
        · -- no worker has been spawned, so all rows are there
          have hleft : Resumes t w s₀ as s := ⟨h.cut, h.starts, h.succeeds, hbefore, hs⟩
          have hrows := hleft.rows_of_unspawned fun m => hleft.tidy.not_spawned hmem hl m
          rw [ShakyTable.get_of_recover hfound l]
          exact congrArg (List.countP _) hrows

theorem isOpen (h : Resumes t w s₀ as s) : s.shared.store.table.isOpen = true := by
  refine steps_induction (P := fun _ s => s.shared.store.table.isOpen = true) ?_ ?_ h.run
  · obtain ⟨refusals, now, world, rfl⟩ := h.starts
    rfl
  · intro as a s s' _ ho hstep
    rw [step_store hstep]
    cases s.operation? a with
    | none => exact ho
    | some op => exact (ShakyTable.isOpen_run op _ _).trans ho

/-- A recovery that is not refused leads to the spawning of the workers. -/
theorem spawns (h : Resumes t w s₀ as s) {i : Nat} {stage : Try}
    (hc : s.calls[i]? = some (.recover stage)) (hstage : stage = .first ∨ stage = .second)
    (hrefusals : s.shared.store.refusals = []) :
    ∃ s' found, s.step w (.advance i none) = some s' ∧ s'.calls[i]? = some (.spawn found) := by
  have hread : s.shared.store.table.ledger.Readable := fun row hrow =>
    (h.cut.regular row (h.mem_rows hrow)).readable
  obtain ⟨found, hfound⟩ := ShakyTable.recover_ok h.isOpen hread hrefusals
  have hop : stage.operation? none .recover = some .recover := by
    obtain rfl | rfl := hstage <;> rfl
  obtain ⟨hi, -⟩ := List.getElem?_eq_some_iff.1 hc
  refine ⟨{ s with
    shared := { s.shared with store := (QueueStore.recover s.shared.store).2 }
    calls := s.calls.set i (.spawn found) }, found, ?_, List.getElem?_set_self hi⟩
  simp only [step, advance, hc, Call.step, Call.trying, Try.step_of_ok hop hfound, Option.map_some]

/-! ### How it stands with the rows -/

theorem outlasts (h : Resumes t w s₀ as s) {row : Row} (hrow : row ∈ t.rows) {r : Record}
    (hr : row.toRecord = .ok r) : Outlasts w (s₀.chronicle w as {}) s r := by
  have hkeeps : (ledger s₀.shared.store).Keeps r :=
    ⟨row, h.rows_start.symm ▸ hrow, Row.shows_of_toRecord hr⟩
  have hnobody : ({} : Chronicle).Unattended s₀ r.seq := by
    intro l x hx
    rw [h.subject?_start l] at hx
    cases hx
  have hstands := Stands.steps h.tidy_start h.sound_start rfl hkeeps hnobody h.run
    (h.undisturbed_start.not_displacedIn h.succeeds h.quiet)
  exact hstands.outlasts fun o ho =>
    h.undisturbed_start.eq_success_of_ended h.succeeds rfl h.quiet h.run ho

/-- A lane in which nothing is found when all rows are due has no rows. -/
theorem lane_ne (h : Resumes t w s₀ as s) {l : Lane} (hsp : (s.shared.cell l).spawned = true)
    (hidle : (s.workers.get l).record? = none)
    (hnone : (QueueStore.nextEligible l s.shared.now s.shared.store).1 = .ok none)
    (hdue : ∀ row ∈ t.rows, row.availableAt ≤ s.shared.now) {row : Row}
    (hrow : row ∈ (ledger s.shared.store).rows) : row.lane ≠ l.index := by
  intro hlane
  have hlaw := LawfulStore.nextEligible h.tidy.sound l s.shared.now
  rw [hnone] at hlaw
  have hnot := hlaw.1 row hrow
  have hheld : s.Held := by
    obtain ⟨refusals, now, world, rfl⟩ := h.starts
    exact h.tidy_start.held_of_spawned (not_launched_init _ _ _ _) h.run hsp
  have hfree := h.tidy.not_claimed_of_idle hheld hidle hrow hlane
  rw [Ledger.isDue_iff.2 ⟨hlane, hfree, hdue row (h.mem_rows hrow)⟩] at hnot
  cases hnot

/-- Then it is over with every record of the lane. -/
theorem over_of_foundNothing (h : Resumes t w s₀ as s) {row : Row} (hrow : row ∈ t.rows) {r : Record}
    (hr : row.toRecord = .ok r) (hf : FoundNothing w s₀ as t r.lane) :
    (∃ k, (s₀.chronicle w as {}).about r.seq =
        r.unsettled w k ++ (r.untilSettled w ++ [.told (r.verdict w)])) ∧
      (ledger s.shared.store).Vacant r.seq := by
  obtain ⟨bs, b, u, ⟨ds, hds⟩, hu, hop, hnone, hdue⟩ := hf
  rw [List.append_assoc] at hds
  subst hds
  have hleft := h.left hu
  have hrest : u.steps w (b :: ds) = some s := by
    have hrun := h.run
    rw [steps_append, hu] at hrun
    exact hrun
  obtain ⟨signal, fault, stage, rfl, hp, -⟩ := operation?_eq_nextEligible hop
  have hsp : (u.shared.cell r.lane).spawned = true := hleft.tidy.spawned_of_ne_top (by rw [hp]; nofun)
  rw [chronicle_append hu]
  cases hleft.outlasts hrow hr with
  | stored k ms _ _ hk =>
    obtain ⟨x, hx, hshows⟩ := hk
    exact absurd hshows.lane (hleft.lane_ne hsp (by rw [hp]; rfl) hnone hdue hx)
  | removed k m _ hsub _ =>
    obtain rfl := (hleft.sound.inHand m r hsub).lane
    rw [Chronicle.subject?, hp] at hsub
    cases hsub
  | gone k habout hn hv =>
    obtain ⟨hsame, hv', -⟩ := Chronicle.over_steps hleft.tidy hsp hv hn hrest
    exact ⟨⟨k, hsame.trans habout⟩, hv'⟩

/-- Once all lanes have found nothing, nothing is left. -/
theorem rows_eq_nil (h : Resumes t w s₀ as s) (hf : ∀ l, FoundNothing w s₀ as t l) :
    s.shared.store.table.table.rows = [] := by
  refine List.eq_nil_iff_forall_not_mem.2 fun row hrow => ?_
  have hmem := h.mem_rows hrow
  obtain ⟨r, hr⟩ := (h.cut.regular row hmem).readable
  obtain ⟨-, hv⟩ := h.over_of_foundNothing hmem hr (hf r.lane)
  exact hv.empty row hrow (Row.shows_of_toRecord hr).seq

end Resumes

/-- What becomes of the rows that have been left behind. -/
structure Resumed (t : CommandTable) (w : Wiring W) (s₀ : System ShakyTable W) (as : List Action)
    (s : System ShakyTable W) (c : Chronicle) : Prop where
  /-- A start reports how many rows there are in each lane. -/
  reports : ∀ d ∈ s.calls, ∀ found, d.reply? = some (.started found) → ∀ l, found.get l = t.ofLane l
  /-- It does so unless the storage refuses to count them. -/
  starts : ∀ i stage, s.calls[i]? = some (.recover stage) → stage = .first ∨ stage = .second →
    s.shared.store.refusals = [] →
      ∃ s' found, s.step w (.advance i none) = some s' ∧ s'.calls[i]? = some (.spawn found)
  /-- What is about to be executed is what a row holds, and the attempt is its next one. -/
  executes : ∀ l x d, s.workers.get l = .announce x d → ∃ row ∈ t.rows, row.toRecord = .ok x ∧
    w.registry.decode x = .ok d ∧ (x.attempt.toNat : Int) = row.retryCount + 1
  /-- Nothing is noted but about the rows. -/
  notes : ∀ n ∈ c.notes, ∃ row ∈ t.rows, row.toRecord = .ok n.1
  told : s.shared.executions = c.told
  /-- A row is executed again only after its settlement has failed, and is stored until then. -/
  rows : ∀ row ∈ t.rows, ∃ r, row.toRecord = .ok r ∧ Outlasts w c s r
  /-- While the storage serves, none is executed twice. -/
  once : Unfailing w s₀ as → ∀ row ∈ t.rows, ∀ r, row.toRecord = .ok r →
    c.about r.seq <+: r.untilSettled w ++ [.told (r.verdict w)]
  /-- Once all lanes have found nothing, nothing is left, and each row has been executed to its end, some
  times without being settled, which does not happen while the storage serves. -/
  emptied : (∀ l, FoundNothing w s₀ as t l) → s.shared.store.table.table.rows = [] ∧
    ∀ row ∈ t.rows, ∃ r k, row.toRecord = .ok r ∧
      c.about r.seq = r.unsettled w k ++ (r.untilSettled w ++ [.told (r.verdict w)]) ∧
      (Unfailing w s₀ as → k = 0)

/-- While the storage serves, no settlement fails. -/
theorem Resumes.not_givenUp (h : Resumes t w s₀ as s) (hserved : Unfailing w s₀ as) (q : Int) :
    Note.givenUp ∉ (s₀.chronicle w as {}).about q := by
  refine not_givenUp_of_unfailing rfl (fun l x hx => ?_) h.run hserved
  rw [h.subject?_start l] at hx
  cases hx

theorem Resumes.resumed (h : Resumes t w s₀ as s) :
    Resumed t w s₀ as s (s₀.chronicle w as {}) where
  reports d hd found hf := by
    cases d with
    | done reply =>
      cases hf
      exact h.counts _ hd found rfl
    | _ => cases hf
  starts i stage hc hstage hrefusals := h.spawns hc hstage hrefusals
  executes l x d hp := by
    have hsub : (s₀.chronicle w as {}).subject? s l = some x :=
      Point.subject?_of_record? (by rw [hp]; rfl) _
    obtain ⟨row, hrow, hr, hattempt⟩ := h.row_of_subject? hsub
    obtain ⟨ms, hun⟩ := underway_of_record? (fun l => by rw [h.top_start l]; rfl) h.run (l := l)
      (x := x) (by rw [hp]; rfl)
    rw [hp] at hun
    cases hun with
    | announce hd => exact ⟨row, hrow, hr, hd, hattempt⟩
  notes := by
    refine steps_induction (P := fun as s => Resumes t w s₀ as s →
      ∀ n ∈ (s₀.chronicle w as {}).notes, ∃ row ∈ t.rows, row.toRecord = .ok n.1)
      (fun _ n hn => by cases hn) ?_ h.run h
    intro as a s s' hs ih hstep h n hn
    have hleft := h.left hs
    rw [chronicle_snoc hs hstep] at hn
    rcases List.mem_append.1 hn with hn | hn
    · exact ih hleft n hn
    · obtain ⟨l, -, hsub, -⟩ := Chronicle.noted?_eq_some (Option.mem_toList.1 hn)
      obtain ⟨row, hrow, hr, -⟩ := hleft.row_of_subject? hsub
      exact ⟨row, hrow, hr⟩
  told := by
    obtain ⟨refusals, now, world, hs₀⟩ := h.starts
    have htells : ({} : Chronicle).Tells s₀ := hs₀ ▸ Chronicle.tells_init _ _ _ _
    exact (htells.steps h.run).told
  rows row hrow := by
    obtain ⟨r, hr⟩ := (h.cut.regular row hrow).readable
    exact ⟨r, hr, h.outlasts hrow hr⟩
  once hserved _ hrow _ hr := (h.outlasts hrow hr).about_isPrefix (h.not_givenUp hserved _)
  emptied hf := by
    refine ⟨h.rows_eq_nil hf, fun row hrow => ?_⟩
    obtain ⟨r, hr⟩ := (h.cut.regular row hrow).readable
    obtain ⟨⟨k, hk⟩, -⟩ := h.over_of_foundNothing hrow hr (hf r.lane)
    refine ⟨r, k, hr, hk, fun hserved => ?_⟩
    have hno := h.not_givenUp hserved r.seq
    rw [hk] at hno
    exact Record.eq_zero_of_unsettled fun hmem => hno (List.mem_append_left _ hmem)

/-- **A restart resumes what was left behind.** Take a command table as a process may have left it
behind when it was cut off, and a scheduler that opens it. In every run in which nobody submits a command
or clears a lane and all bodies succeed, with any failures of the storage: the start reports the rows of
each lane; whatever is executed is a stored row, with its payload and its next attempt; a row is executed
again only after its settlement has failed, so at most once while the storage serves, and a row that
cannot be decoded is dropped in the same way; and once all lanes have found nothing when all rows were
due, the table is empty and each row has been executed to its end. And in every run, whatever it does: a
record that is stored is served after every row of its priority that had been left behind, except those
that were gone before the workers were spawned. -/
theorem restart_resumes (hcut : Cut t) (w : Wiring W) (refusals : List (Option QueueError))
    (now : Instant) (world : W) :
    let s₀ : System ShakyTable W := .init w.config ⟨.ofTable t, refusals⟩ now world
    (w.registry.Succeeds → ∀ as s, (∀ a ∈ as, a.isQuiet = true) → s₀.steps w as = some s →
        Resumed t w s₀ as s (s₀.chronicle w as {})) ∧
      ∀ as a s r, s₀.steps w as = some s → s.accepted? a = some r → ∀ row ∈ t.rows, ∀ x,
        row.toRecord = .ok x → x.priority = r.priority →
          (x.servesBefore r = true ∧ r.servesBefore x = false) ∨ GoneEarly w s₀ as row.seq := by
  refine ⟨fun hw as s has hrun => ?_, fun as a s r hrun hacc row hrow x hx hpriority => ?_⟩
  · exact Resumes.resumed ⟨hcut, ⟨refusals, now, world, rfl⟩, hw, has, hrun⟩
  · have hs : (ledger (⟨.ofTable t, refusals⟩ : ShakyTable)).Sound := hcut.sound
    exact servedAfter_of_accepted (Tidy.init w.config hs now world) hrow hrun hacc
      (Row.shows_of_toRecord hx) hpriority

/-- A process is cut off while it executes its first command. -/
def cutOff : List Action := Trial.upToStore ++ .advance 1 none :: List.replicate 6 Trial.turn

/-- What it leaves behind. -/
def leftBehind : CommandTable := ⟨[⟨"f", "Flaky", 0, 5, [], 1, 0, 1, 0⟩]⟩

theorem cut_leftBehind : Cut leftBehind := by
  let w := Trial.wiring fun _ => .success
  let s₀ : System ShakyTable Unit := .init w.config ⟨.ofTable {}, []⟩ 0 ()
  have hrun : (s₀.steps w cutOff).any fun s =>
      s₀.isDated w cutOff ∧ s.shared.store.table.table = leftBehind := by decide +kernel
  obtain ⟨s, hs, hend⟩ := (Option.any_eq_true _ _).1 hrun
  obtain ⟨hdated, htable⟩ := of_decide_eq_true hend
  exact htable ▸ Cut.cut .empty hs hdated

/-- The next process is started, and every lane works until it finds nothing. -/
def secondLife : List Action :=
  [.request .start, .advance 0 none, .advance 0 none, .advance 0 none] ++
    List.replicate 13 Trial.turn ++ List.replicate 3 (.work .hasher .timer none) ++
    List.replicate 3 (.work .images .timer none)

/-- The command that was being executed is executed once more, and nothing is left. -/
theorem restart_resumes_secondLife :
    ∃ s : System ShakyTable Unit,
      let w := Trial.wiring fun _ => .success
      let s₀ : System ShakyTable Unit := .init w.config ⟨.ofTable leftBehind, []⟩ 0 ()
      Cut leftBehind ∧ w.registry.Succeeds ∧ (∀ a ∈ secondLife, a.isQuiet = true) ∧
        s₀.steps w secondLife = some s ∧
        Resumed leftBehind w s₀ secondLife s (s₀.chronicle w secondLife {}) ∧
        s.shared.store.table.table.rows = [] ∧
        s.shared.executions = [.started "f" "Flaky" 1, .completed "f" "Flaky" 1] := by
  let w := Trial.wiring fun _ => .success
  let s₀ : System ShakyTable Unit := .init w.config ⟨.ofTable leftBehind, []⟩ 0 ()
  have hrun : (s₀.steps w secondLife).any fun s =>
      s.shared.executions = [.started "f" "Flaky" 1, .completed "f" "Flaky" 1] := by decide +kernel
  obtain ⟨s, hs, hend⟩ := (Option.any_eq_true _ _).1 hrun
  have hquiet : ∀ a ∈ secondLife, a.isQuiet = true := by decide
  have hw : w.registry.Succeeds := by
    refine .of_registrations fun k hk bytes c hc e => ?_
    obtain rfl := List.mem_singleton.1 hk
    cases hc
    rfl
  have hresumed := (restart_resumes cut_leftBehind w [] 0 ()).1 hw secondLife s hquiet hs
  -- the moments at which the lanes find nothing
  have hmoments : ∀ l, ∃ bs ds, secondLife = bs ++ [.work l .timer none] ++ ds ∧
      ((s₀.steps w bs).any fun u =>
        u.operation? (.work l .timer none) = some (.nextEligible l) ∧
          (QueueStore.nextEligible l u.shared.now u.shared.store).1 = .ok none ∧
          ∀ row ∈ leftBehind.rows, row.availableAt ≤ u.shared.now) = true := by
    intro l
    cases l with
    | general => exact ⟨secondLife.take 16, secondLife.drop 17, rfl, by decide +kernel⟩
    | hasher => exact ⟨secondLife.take 19, secondLife.drop 20, rfl, by decide +kernel⟩
    | images => exact ⟨secondLife.take 22, secondLife.drop 23, rfl, by decide +kernel⟩
  have hnothing : ∀ l, FoundNothing w s₀ secondLife leftBehind l := by
    intro l
    obtain ⟨bs, ds, hsplit, hmoment⟩ := hmoments l
    obtain ⟨u, hu, hmoment⟩ := (Option.any_eq_true _ _).1 hmoment
    obtain ⟨hop, hnone, hdue⟩ := of_decide_eq_true hmoment
    exact ⟨bs, _, u, ⟨ds, hsplit.symm⟩, hu, hop, hnone, hdue⟩
  exact ⟨s, cut_leftBehind, hw, hquiet, hs, hresumed, (hresumed.emptied hnothing).1,
    of_decide_eq_true hend⟩

/-- The next process is started; it cannot remove the command after its execution, and executes it
once more. -/
def refusedOnce : List Action :=
  [.request .start, .advance 0 none, .advance 0 none, .advance 0 none] ++
    List.replicate 7 Trial.turn ++ .work .general .timer (some (.storage "disk full")) ::
      List.replicate 12 Trial.turn

/-- The next process is started, and the lane is cleared before it works. -/
def clearedFirst : List Action :=
  [.request .start, .advance 0 none, .advance 0 none, .advance 0 none, .request (.clear .general),
    .advance 1 none]

/-- After a settlement that fails a row is executed twice; after a clearing it never is. -/
theorem restart_repeats :
    let w := Trial.wiring fun _ => .success
    let s₀ : System ShakyTable Unit := .init w.config ⟨.ofTable leftBehind, []⟩ 0 ()
    (∀ a ∈ refusedOnce, a.isQuiet = true) ∧
      ((s₀.steps w refusedOnce).map fun s => (s.shared.executions, s.shared.store.table.table.rows)) =
        some ([.started "f" "Flaky" 1, .completed "f" "Flaky" 1, .started "f" "Flaky" 1,
          .completed "f" "Flaky" 1], []) ∧
      ((s₀.steps w clearedFirst).map fun s => (s.shared.executions, s.shared.store.table.table.rows)) =
        some ([], []) := by
  refine ⟨by decide, ?_, ?_⟩ <;> decide +kernel

end System

end LaneQueue
