import LaneQueue.Proofs.Scheduler.Tidy
/-!
# Whose claims there are

A worker comes by a record through a claim and lets go of it through a settlement or a release, and
these give up the claim even where the medium refuses their statement. So no two workers ever have
the record at one place in hand, and every claimed place is that of a record in some hand: from the
start on if nobody else has used the claims, and else from the moment when a start has recovered the
store. Nothing but a fresh command begins to wait in a lane whose worker has nothing in hand.
-/
namespace LaneQueue

namespace Ledger

variable {l l' : Ledger} {now : Instant} {op : Operation}

/-- Only a claim adds to the claimed places. -/
theorem Edit.claimed_subset (h : l.Edit now op l') (hop : ∀ lane, op ≠ .nextEligible lane) {q : Int}
    (hq : q ∈ l'.claimed) : q ∈ l.claimed := by
  cases h with
  | claim => exact absurd rfl (hop _)
  | remove | keep | postpone | leave | release => exact List.mem_of_mem_filter hq
  | recover => cases hq
  | same | insert | submit | replace | delete | purge => exact hq

/-- Giving up the claim of a record of another lane frees no row of this one. -/
theorem isWaiting_of_drop {lane m : Lane} {row : Row} {r : Record} (hm : m ≠ lane)
    (hr : l.InHand m r) (hrow : row ∈ l.rows) (h : (l.drop r.seq).isWaiting lane row = true) :
    l.isWaiting lane row = true := by
  obtain ⟨hl, hq⟩ := isWaiting_iff.1 h
  have hne : row.seq ≠ r.seq := by
    intro hs
    have hlane := (hr.carries row hrow hs).lane
    rw [hl, hr.lane] at hlane
    exact hm (Lane.index_inj hlane).symm
  refine isWaiting_iff.2 ⟨hl, fun hc => hq ?_⟩
  exact List.mem_filter.2 ⟨hc, by simpa using hne⟩

/-- While nothing of a lane is settled, a row that waits there has waited there as it is, or it is
that of a command that has just come. -/
theorem Edit.waiting_cases (h : l.Edit now op l') (hop : op ≠ .recover) {lane : Lane}
    (hother : ∀ r, op.settled? = some r → ∃ m, m ≠ lane ∧ l.InHand m r) {row : Row}
    (hrow : row ∈ l'.rows) (hw : l'.isWaiting lane row = true) :
    (row ∈ l.rows ∧ l.isWaiting lane row = true) ∨ ∃ c, row = .ofRecord (l.fresh c now) := by
  cases h with
  | same => exact .inl ⟨hrow, hw⟩
  | @insert c | @submit c =>
    rcases List.mem_append.1 hrow with hx | hx
    · exact .inl ⟨hx, hw⟩
    · exact .inr ⟨c, List.mem_singleton.1 hx⟩
  | @replace c =>
    rcases List.mem_append.1 hrow with hx | hx
    · exact .inl ⟨List.mem_of_mem_filter hx, hw⟩
    · exact .inr ⟨c, List.mem_singleton.1 hx⟩
  | delete | purge => exact .inl ⟨List.mem_of_mem_filter hrow, hw⟩
  | claim =>
    obtain ⟨hl, hq⟩ := isWaiting_iff.1 hw
    exact .inl ⟨hrow, isWaiting_iff.2 ⟨hl, fun hc => hq (List.mem_cons_of_mem _ hc)⟩⟩
  | remove r =>
    obtain ⟨m, hm, hr⟩ := hother r rfl
    have hx : row ∈ l.rows := List.mem_of_mem_filter hrow
    exact .inl ⟨hx, isWaiting_of_drop hm hr hx hw⟩
  | keep r | leave r | release r =>
    obtain ⟨m, hm, hr⟩ := hother r rfl
    exact .inl ⟨hrow, isWaiting_of_drop hm hr hrow hw⟩
  | postpone r n t =>
    obtain ⟨m, hm, hr⟩ := hother r rfl
    obtain ⟨x, hx, rfl⟩ := List.mem_map.1 hrow
    by_cases ho : TableStore.isRowOf r x = true
    · -- the row that is set back is of another lane
      rw [if_pos ho] at hw
      have hx' := (hr.carries x hx (isRowOf_iff.1 ho).2).lane
      rw [hr.lane] at hx'
      exact absurd (Lane.index_inj (hx'.symm.trans (isWaiting_iff.1 hw).1)) hm
    · rw [if_neg ho] at hw ⊢
      exact .inl ⟨hx, isWaiting_of_drop hm hr hx hw⟩
  | recover => exact absurd rfl hop

end Ledger

namespace LawfulStore

open Ledger

variable {σ : Type} [QueueStore σ] [LawfulStore σ] {s : σ}

/-- A place is claimed only by a claim that answers its record. -/
theorem claimed_run (hs : (ledger s).Sound) (op : Operation) (now : Instant) {q : Int}
    (hq : q ∈ (ledger (op.run now s).2).claimed) :
    q ∈ (ledger s).claimed ∨ ∃ lane r, op = .nextEligible lane ∧
      (QueueStore.nextEligible lane now s).1 = .ok (some r) ∧ r.seq = q := by
  by_cases hop : ∃ lane, op = .nextEligible lane
  · obtain ⟨lane, rfl⟩ := hop
    have hlaw := LawfulStore.nextEligible hs lane now
    change q ∈ (ledger (QueueStore.nextEligible lane now s).2).claimed at hq
    rcases ha : (QueueStore.nextEligible lane now s).1 with e | (_ | r)
    · rw [ha] at hlaw
      rw [hlaw] at hq
      exact .inl hq
    · rw [ha] at hlaw
      rw [hlaw.2] at hq
      exact .inl hq
    · rw [ha] at hlaw
      obtain ⟨row, -, -, hl⟩ := hlaw
      rw [hl] at hq
      rcases List.mem_cons.1 hq with rfl | hq
      · exact .inr ⟨lane, r, rfl, ha, rfl⟩
      · exact .inl hq
  · exact .inl ((edit_run hs op now).claimed_subset (fun lane h => hop ⟨lane, h⟩) hq)

/-- A settlement gives up the claim, also if it fails. -/
theorem not_claimed_of_settled? (hs : (ledger s).Sound) {op : Operation} {r : Record}
    (hr : op.settled? = some r) (now : Instant) :
    r.seq ∉ (ledger (op.run now s).2).claimed := by
  have hdrop : r.seq ∉ ((ledger s).drop r.seq).claimed := fun hq => by
    simpa using (List.mem_filter.1 hq).2
  suffices h : (ledger (op.run now s).2).claimed = ((ledger s).drop r.seq).claimed by
    rw [h]
    exact hdrop
  cases op with
  | retire x =>
    obtain rfl := Option.some.inj hr
    have hlaw := LawfulStore.retire hs x
    cases ha : (QueueStore.retire x s).1 with
    | ok b => rw [ha] at hlaw; exact (congrArg claimed hlaw.2 :)
    | error e => rw [ha] at hlaw; exact congrArg claimed hlaw
  | reschedule x n t =>
    obtain rfl := Option.some.inj hr
    have hlaw := LawfulStore.reschedule hs x n t
    cases ha : (QueueStore.reschedule x n t s).1 with
    | ok b => rw [ha] at hlaw; exact (congrArg claimed hlaw.2 :)
    | error e => rw [ha] at hlaw; exact congrArg claimed hlaw
  | release x =>
    obtain rfl := Option.some.inj hr
    exact congrArg claimed (LawfulStore.release s x)
  | insert | submit | deleteByIdentity | findByIdentity | nextEligible | pendingCount |
    nextWakeAt | purgeLane | recover => cases hr

/-- No claim outlives a recovery. -/
theorem claimed_recover (hs : (ledger s).Sound) (now : Instant) :
    (ledger (Operation.recover.run now s).2).claimed = [] := by
  obtain ⟨q, -, hl⟩ := LawfulStore.recover hs
  exact congrArg claimed hl

end LawfulStore

/-! ## The workers and the claims -/

namespace System

open LawfulStore (ledger)

variable {σ W : Type} {w : Wiring W} {s s' s₀ : System σ W} {l : Lane}

/-- No two workers have the record at one place in hand. -/
def Apart (s : System σ W) : Prop :=
  ∀ l m x y, (s.workers.get l).record? = some x → (s.workers.get m).record? = some y →
    x.seq = y.seq → l = m

/-- The workers have been spawned or are about to be. -/
def Launched (s : System σ W) : Prop :=
  (∃ l, (s.shared.cell l).spawned = true) ∨ ∃ found, .spawn found ∈ s.calls

theorem not_launched_init (config : QueueConfig) (store : σ) (now : Instant) (world : W) :
    ¬ (System.init config store now world).Launched := by
  rintro (⟨l, hl⟩ | ⟨found, hf⟩)
  · simp [System.init, Shared.init, Shared.cell] at hl
  · simp [System.init] at hf

theorem apart_init (config : QueueConfig) (store : σ) (now : Instant) (world : W) :
    (System.init config store now world).Apart := by
  intro l m x y hx
  simp [System.init, Point.record?] at hx

/-- Only the worker of a lane claims there. -/
theorem operation?_eq_nextEligible {a : Action} (h : s.operation? a = some (.nextEligible l)) :
    ∃ signal fault t, a = .work l signal fault ∧ s.workers.get l = .claim t ∧
      t.operation? fault (.nextEligible l) = some (.nextEligible l) := by
  cases a with
  | request | tick => cases h
  | advance i fault =>
    obtain ⟨c, -, hop⟩ := Option.bind_eq_some_iff.1 h
    obtain ⟨-, ⟨hop, -⟩ | ⟨d, q, hop⟩ | ⟨k, hop⟩ | ⟨k, hop⟩⟩ := Call.operation?_cases hop <;> cases hop
  | work m signal fault =>
    obtain ⟨rfl, t, ht, hop⟩ := Point.operation?_eq_nextEligible h
    exact ⟨signal, fault, t, rfl, ht, hop⟩

variable [QueueStore σ]

/-- A claim that is answered with a record puts it into the hand of the worker of the lane. -/
theorem decode_of_claimed {a : Action} (hstep : s.step w a = some s')
    (h : s.operation? a = some (.nextEligible l)) {r : Record}
    (hr : (QueueStore.nextEligible l s.shared.now s.shared.store).1 = .ok (some r)) :
    s'.workers.get l = .decode r := by
  obtain ⟨signal, fault, t, rfl, ht, hop⟩ := operation?_eq_nextEligible h
  have hp := worker_own hstep
  rw [ht, Point.step_claim_of_ok hop hr] at hp
  exact (congrArg Prod.fst (Option.some.inj hp)).symm

/-- A worker lets go of a record only by an operation that gives up its claim. -/
theorem letsGo_cases {a : Action} (hstep : s.step w a = some s') {r : Record}
    (hr : (s.workers.get l).record? = some r) :
    (s'.workers.get l).record? = some r ∨
      ∃ op, s.operation? a = some op ∧ op.settled? = some r := by
  rcases step_worker hstep l with heq | ⟨signal, fault, rfl, hp⟩
  · rw [heq]
    exact .inl hr
  · exact Point.step_letsGo hp hr

/-- A worker comes by a record only through a claim that answers it. -/
theorem comesBy_cases {a : Action} (hstep : s.step w a = some s') {r : Record}
    (hr : (s'.workers.get l).record? = some r) :
    (s.workers.get l).record? = some r ∨
      s'.workers.get l = .decode r ∧ s.operation? a = some (.nextEligible l) ∧
        (QueueStore.nextEligible l s.shared.now s.shared.store).1 = .ok (some r) := by
  rcases step_worker hstep l with heq | ⟨signal, fault, rfl, hp⟩
  · rw [heq] at hr
    exact .inl hr
  · exact Point.step_record hp hr

variable [LawfulStore σ]

/-- What a claim answers is the record of a row of the lane that is due. -/
theorem Tidy.claims_due (h : s.Tidy) {r : Record}
    (hr : (QueueStore.nextEligible l s.shared.now s.shared.store).1 = .ok (some r)) :
    ∃ row ∈ (ledger s.shared.store).rows, row.Shows r ∧
      (ledger s.shared.store).isDue l s.shared.now row = true := by
  have hlaw := LawfulStore.nextEligible h.sound l s.shared.now
  rw [hr] at hlaw
  obtain ⟨row, hfirst, hshows, -⟩ := hlaw
  exact ⟨row, hfirst.mem, hshows, hfirst.holds⟩

/-- A claim that finds nothing leaves the store as it is, and nothing of the lane is due. -/
theorem Tidy.claim_none (h : s.Tidy) {t : Try} {signal : Signal} {fault : Option QueueError}
    (hp : s.workers.get l = .claim t) (hstep : s.step w (.work l signal fault) = some s')
    (hs' : s'.workers.get l = .showIdle) :
    ledger s'.shared.store = ledger s.shared.store ∧
      ∀ row ∈ (ledger s.shared.store).rows,
        (ledger s.shared.store).isDue l s.shared.now row = false := by
  have hstore := step_store hstep
  have hclaim := worker_own hstep
  rw [hp] at hclaim
  obtain ⟨-, ⟨t', hc⟩ | ⟨d, hc⟩ | ⟨r, hr, hop, hc⟩⟩ := Point.claim_cases hclaim
  · rw [hs'] at hc; cases hc
  · rw [hs'] at hc; cases hc
  · cases r with
    | some r => rw [hs'] at hc; cases hc
    | none =>
      have hop' : s.operation? (.work l signal fault) = some (.nextEligible l) := by
        simp only [operation?, hp]
        exact hop
      rw [hop'] at hstore
      have hlaw := LawfulStore.nextEligible h.sound l s.shared.now
      rw [hr] at hlaw
      obtain ⟨hnone, hsame⟩ := hlaw
      rw [hstore]
      exact ⟨hsame, hnone⟩

theorem Tidy.spawned_of_ne_top (h : s.Tidy) (hp : s.workers.get l ≠ .top) :
    (s.shared.cell l).spawned = true := by
  cases hsp : (s.shared.cell l).spawned with
  | true => rfl
  | false => exact absurd (h.waiting l hsp) hp

/-- While a worker has nothing in hand, nothing but a fresh command begins to wait in its lane. -/
theorem Tidy.waiting_step (h : s.Tidy) (hsp : (s.shared.cell l).spawned = true)
    (hn : (s.workers.get l).record? = none) {a : Action} (hstep : s.step w a = some s') {row : Row}
    (hrow : row ∈ (ledger s'.shared.store).rows)
    (hw : (ledger s'.shared.store).isWaiting l row = true) :
    (row ∈ (ledger s.shared.store).rows ∧ (ledger s.shared.store).isWaiting l row = true) ∨
      ∃ c, row = .ofRecord ((ledger s.shared.store).fresh c s.shared.now) := by
  rw [step_store hstep] at hrow hw
  cases hop : s.operation? a with
  | none =>
    rw [hop] at hrow hw
    exact .inl ⟨hrow, hw⟩
  | some op =>
    rw [hop] at hrow hw
    have hne : op ≠ .recover := fun he => h.operation?_ne_recover hsp a (he ▸ hop)
    refine (LawfulStore.edit_run h.sound op _).waiting_cases hne (fun r hr => ?_) hrow hw
    obtain ⟨m, hm⟩ := record?_of_settled? hop hr
    refine ⟨m, fun he => ?_, h.inHand m r hm⟩
    rw [he, hn] at hm
    cases hm

/-! ## Every claim is in somebody's hand -/

/-- Every claimed place is that of a record that some worker has in hand. -/
def Held (s : System σ W) : Prop :=
  ∀ q ∈ (ledger s.shared.store).claimed, ∃ l r, (s.workers.get l).record? = some r ∧ r.seq = q

theorem held_of_claimed_eq_nil (h : (ledger s.shared.store).claimed = []) : s.Held := by
  intro q hq
  rw [h] at hq
  cases hq

namespace Tidy

/-- A claim that a worker lets go of is given up, and one that is new is in the hand of the worker
that has made it. -/
theorem held_step (h : s.Tidy) (hh : s.Held) {a : Action} (hstep : s.step w a = some s') :
    s'.Held := by
  have hstay : ∀ q ∈ (ledger s.shared.store).claimed,
      (∀ op r, s.operation? a = some op → op.settled? = some r → r.seq ≠ q) →
        ∃ l r, (s'.workers.get l).record? = some r ∧ r.seq = q := by
    intro q hq hne
    obtain ⟨l, r, hr, rfl⟩ := hh q hq
    rcases letsGo_cases hstep hr with hr' | ⟨op, hop, hset⟩
    · exact ⟨l, r, hr', rfl⟩
    · exact absurd rfl (hne op r hop hset)
  intro q hq
  rw [step_store hstep] at hq
  cases hop : s.operation? a with
  | none =>
    rw [hop] at hq
    refine hstay q hq fun op r hop' => ?_
    rw [hop] at hop'
    cases hop'
  | some op =>
    rw [hop] at hq
    rcases LawfulStore.claimed_run h.sound op _ hq with hold | ⟨l, r, rfl, hr, rfl⟩
    · refine hstay q hold fun op' r hop' hset => ?_
      obtain rfl : op = op' := Option.some.inj (hop.symm.trans hop')
      rintro rfl
      exact LawfulStore.not_claimed_of_settled? h.sound hset _ hq
    · exact ⟨l, r, by rw [decode_of_claimed hstep hop hr]; rfl, rfl⟩

/-- A record that is claimed is stored in its lane, and what another worker has in hand leaves no
room for it there. -/
theorem apart_step (h : s.Tidy) (ha : s.Apart) {a : Action} (hstep : s.step w a = some s') :
    s'.Apart := by
  have hclaim : ∀ l m x y, (s.workers.get l).record? = some x →
      (QueueStore.nextEligible m s.shared.now s.shared.store).1 = .ok (some y) →
        x.seq = y.seq → l = m := by
    intro l m x y hx hy hseq
    obtain ⟨row, hrow, hshows, hdue⟩ := h.claims_due hy
    have hhand := h.inHand l x hx
    have hlane := (hhand.carries row hrow (hshows.seq.trans hseq.symm)).lane
    rw [hhand.lane] at hlane
    exact Lane.index_inj (hlane.symm.trans (Ledger.isDue_iff.1 hdue).1)
  intro l m x y hx hy hseq
  rcases comesBy_cases hstep hx with hx | ⟨-, hopx, hcx⟩
  · rcases comesBy_cases hstep hy with hy | ⟨-, -, hcy⟩
    · exact ha l m x y hx hy hseq
    · exact hclaim l m x y hx hcy hseq
  · rcases comesBy_cases hstep hy with hy | ⟨-, hopy, -⟩
    · exact (hclaim m l y x hy hcx hseq.symm).symm
    · cases hopx.symm.trans hopy
      rfl

theorem apart_steps (h : s₀.Tidy) (ha : s₀.Apart) {as : List Action} (hrun : s₀.steps w as = some s) :
    s.Apart :=
  steps_induction (P := fun _ t => t.Apart) ha
    (fun ht hat hstep => (h.steps ht).apart_step hat hstep) hrun

theorem held_steps (h : s₀.Tidy) (hh : s₀.Held) {as : List Action} (hrun : s₀.steps w as = some s) :
    s.Held :=
  steps_induction (P := fun _ t => t.Held) hh
    (fun ht hht hstep => (h.steps ht).held_step hht hstep) hrun

/-- A recovery makes every claim that of a worker: it forgets them all. -/
theorem held_of_launched_step (h : s.Tidy) (hh : s.Launched → s.Held) {a : Action}
    (hstep : s.step w a = some s') (hl : s'.Launched) : s'.Held := by
  by_cases hs : s.Launched
  · exact h.held_step (hh hs) hstep
  -- then the step is the one that brings the workers about
  suffices hop : s.operation? a = some .recover by
    refine held_of_claimed_eq_nil ?_
    rw [step_store hstep, hop]
    exact LawfulStore.claimed_recover h.sound _
  cases a with
  | request r =>
    cases hstep
    rcases hl with ⟨l, hl⟩ | ⟨found, hl⟩
    · exact absurd (.inl ⟨l, hl⟩) hs
    · rcases List.mem_append.1 hl with hl | hl
      · exact absurd (.inr ⟨found, hl⟩) hs
      · cases r <;> cases List.mem_singleton.1 hl
  | tick n => cases hstep; exact absurd hl hs
  | work l signal fault =>
    obtain ⟨p, x, hsp, -⟩ := work_cases hstep
    exact absurd (.inl ⟨l, hsp⟩) hs
  | advance i fault =>
    obtain ⟨c, c', x, hc, hcall, rfl⟩ := advance_cases hstep
    have hmem : c ∈ s.calls := List.mem_of_getElem? hc
    rcases hl with ⟨l, hl⟩ | ⟨found, hl⟩
    · rcases Call.step_spawned hcall hl with hl | ⟨found, rfl⟩
      · exact absurd (.inl ⟨l, hl⟩) hs
      · exact absurd (.inr ⟨found, hmem⟩) hs
    · rcases List.mem_or_eq_of_mem_set hl with hl | rfl
      · exact absurd (.inr ⟨found, hl⟩) hs
      · simp only [operation?, hc]
        exact Call.step_toSpawn hcall

/-- Once a worker has been spawned, every claim is in somebody's hand, whatever was claimed before. -/
theorem held_of_spawned (h : s₀.Tidy) (hn : ¬ s₀.Launched) {as : List Action}
    (hrun : s₀.steps w as = some s) (hsp : (s.shared.cell l).spawned = true) : s.Held :=
  steps_induction (P := fun _ t => t.Launched → t.Held) (fun hl => absurd hl hn)
    (fun ht hht hstep => (h.steps ht).held_of_launched_step hht hstep) hrun (.inl ⟨l, hsp⟩)

end Tidy

end System

end LaneQueue
