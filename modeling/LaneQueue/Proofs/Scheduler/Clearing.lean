import LaneQueue.Proofs.Scheduler.Overtaking
import LaneQueue.Proofs.Scheduler.Rescheduling
import LaneQueue.Proofs.Scheduler.Yields
import LaneQueue.Proofs.Store.Lineup
/-!
# Clearing a lane

A clearing takes away what is stored in a lane and not claimed, at the moment when the store carries it
out. What it has taken away is not executed any more: its place stays empty and comes into nobody's hand
(`System.Gone`). What a worker has in hand is claimed, so the clearing does not touch it, and its
settlement finds it as if nothing had happened (`System.Fares`), if it comes to a settlement
(`never_retried`).
-/
namespace LaneQueue

theorem Ledger.mem_rows_purge {l : Ledger} {lane : Lane} {row : Row} :
    row ∈ (l.purge lane).rows ↔ row ∈ l.rows ∧ ¬ (row.lane = lane.index ∧ row.seq ∉ l.claimed) := by
  rw [← isWaiting_iff]
  simp [purge]

/-- Only a clearing asks to purge a lane. -/
theorem Call.operation?_eq_purgeLane {c : Call} {fault : Option QueueError} {l : Lane}
    (h : c.operation? fault = some (.purgeLane l)) :
    ∃ t, c = .purge l t ∧ t.operation? fault (.purgeLane l) = some (.purgeLane l) := by
  cases c with
  | purge m t =>
    have h : t.operation? fault (.purgeLane m) = some (.purgeLane l) := h
    cases (Try.operation?_eq_some h).1
    exact ⟨t, rfl, h⟩
  | recover t | store d p t | count m g t => cases (Try.operation?_eq_some h).1
  | start | spawn | submit | announce | wake | pause | resume | announcePause | announceResume |
    announceCleared | snapshot | drain | cancel | gather | await | halt | done => cases h

namespace System

open LawfulStore (ledger)

variable {σ W : Type} {w : Wiring W} {s s' s₀ s₁ t u u' : System σ W} {a b : Action} {l : Lane}
  {k : Caller} {x : Record} {f : Fate} {as bs ds : List Action} {q : Int}

/-- Who clears a lane is the caller whose request it is. -/
theorem operation?_eq_purgeLane (h : s.operation? a = some (.purgeLane l)) :
    ∃ k t, a.caller? = some k ∧ s.callOf k = some (.purge l t) ∧
      t.operation? a.fault? (.purgeLane l) = some (.purgeLane l) := by
  rcases operation?_cases h with
    ⟨k, c, hk, hc, hop⟩ | ⟨m, -, hop | hop | ⟨r, f, t, -, hop⟩ | ⟨r, f, -, hop⟩⟩
  · obtain ⟨t, rfl, ht⟩ := Call.operation?_eq_purgeLane hop
    exact ⟨k, t, hk, hc, ht⟩
  · cases hop
  · cases hop
  · have hset := Fate.settled?_operation r f
    rw [← hop] at hset
    cases hset
  · cases hop

variable [QueueStore σ]

/-- The count goes right behind what has been published, and answers the request. -/
theorem announceCleared_step {n : Nat} (hc : s.callOf k = some (.announceCleared l n))
    (hk : a.caller? = some k) (hstep : s.step w a = some s') :
    s'.callOf k = some (.done (.cleared n)) ∧ s'.shared.bus.published =
      s.shared.bus.published ++ [⟨l, .ofMillis s.shared.now, .laneCleared (.ofNat n)⟩] := by
  obtain ⟨d, hcall, hd⟩ := callOf_own hstep hk hc rfl
  simp only [Call.step, Option.some.injEq, Prod.mk.injEq] at hcall
  obtain ⟨rfl, hs⟩ := hcall
  rw [← hs]
  exact ⟨hd, Shared.published_publish _ _ _⟩

/-- A step of a run, with what comes before and after it. -/
structure Passes (w : Wiring W) (s₀ : System σ W) (as : List Action) (s : System σ W)
    (bs : List Action) (u : System σ W) (b : Action) (u' : System σ W) (ds : List Action) : Prop where
  split : as = bs ++ b :: ds
  before : s₀.steps w bs = some u
  step : u.step w b = some u'
  after : u'.steps w ds = some s

theorem Passes.snoc (h : Passes w s₀ as s bs u b u' ds) (hstep : s.step w a = some s') :
    Passes w s₀ (as ++ [a]) s' bs u b u' (ds ++ [a]) where
  split := by rw [h.split, List.append_assoc, List.cons_append]
  before := h.before
  step := h.step
  after := steps_snoc.2 ⟨s, h.after, hstep⟩

/-! ## The record in hand -/

/-- A worker that does not give a claim up without an answer keeps its record in hand or settles it. -/
theorem inHand_or_settles (hx : (s.workers.get l).record? = some x)
    (hrel : ∀ f, s.workers.get l ≠ .release x f) (hstep : s.step w a = some s') :
    (s'.workers.get l).record? = some x ∨ ∃ f, Settles w s s' l x f := by
  rcases step_worker hstep l with heq | ⟨signal, fault, rfl, hown⟩
  · rw [heq]
    exact .inl hx
  · rcases Point.step_letsGo hown hx with hx' | ⟨op, hop, hset⟩
    · exact .inl hx'
    · have hop : s.operation? (.work l signal fault) = some op := hop
      obtain ⟨m, f, hm, ⟨t, hp, -⟩ | ⟨hp, -⟩⟩ := settling_of_settled? hop hset
      · obtain rfl : l = m := Option.some.inj hm
        rw [hp] at hown
        rcases Point.settle_cases hown with ⟨-, ⟨t', hp'⟩ | ⟨hp', -⟩ | hp'⟩
        · exact .inl (by rw [hp']; rfl)
        · exact .inr ⟨f, settles_of_publish hp hstep hp'⟩
        · exact .inl (by rw [hp']; rfl)
      · obtain rfl : l = m := Option.some.inj hm
        exact absurd hp (hrel f)

/-- While the storage serves, what is in hand stays there until it is settled. -/
theorem inHand_or_passes (hx : (s₀.workers.get l).record? = some x)
    (h₀ : ∀ m y f, s₀.workers.get m = .release y f → y.seq ≠ x.seq) (hrun : s₀.steps w as = some s)
    (hserved : Unfailing w s₀ as) : (s.workers.get l).record? = some x ∨
      ∃ f bs u b u' ds, Passes w s₀ as s bs u b u' ds ∧ Settles w u u' l x f := by
  refine steps_induction (w := w) (P := fun as t => Unfailing w s₀ as →
    (t.workers.get l).record? = some x ∨
      ∃ f bs u b u' ds, Passes w s₀ as t bs u b u' ds ∧ Settles w u u' l x f)
    (fun _ => .inl hx) ?_ hrun hserved
  intro as a t t' ht ih hstep hserved
  rcases ih hserved.init with hin | ⟨f, bs, u, b, u', ds, hpass, hset⟩
  · have hrel := Unfailing.not_release h₀ ht hserved.init
    rcases inHand_or_settles hin (fun f hf => hrel l x f hf rfl) hstep with hin' | ⟨f, hset⟩
    · exact .inl hin'
    · exact .inr ⟨f, as, t, a, t', [], ⟨rfl, ht, hstep, rfl⟩, hset⟩
  · exact .inr ⟨f, bs, u, b, u', ds ++ [a], hpass.snoc hstep, hset⟩

theorem Unfailing.of_prefix (h : Unfailing w s₀ as) (hpre : bs <+: as) : Unfailing w s₀ bs :=
  Throughout.of_prefix (Q := Served) h hpre

theorem Unfailing.right (h : Unfailing w s₀ (as ++ bs)) (hs : s₀.steps w as = some s) :
    Unfailing w s bs :=
  Throughout.right (Q := Served) h hs

theorem ReplacedInHand.mono (h : ReplacedInHand w s₀ as l x) (hpre : as <+: bs) :
    ReplacedInHand w s₀ bs l x := by
  obtain ⟨cs, b, u, c, hcs, hu⟩ := h
  exact ⟨cs, b, u, c, hcs.trans hpre, hu⟩

variable [LawfulStore σ]

/-- How it stands with a record that a worker had in hand at some moment of a run, which has come that
far by the actions `before`. -/
inductive Fares (w : Wiring W) (s₀ : System σ W) (before : List Action) (s : System σ W)
    (as : List Action) (t : System σ W) (l : Lane) (x : Record) : Prop
  /-- It is in the hand of a worker that goes on, and stored as it was. -/
  | inHand : (t.workers.get l).record? = some x → (t.workers.get l).hasEnded = false →
      (ledger t.shared.store).Keeps x → Fares w s₀ before s as t l x
  /-- Its attempt failed and was to be repeated at an instant behind the end of the calendar, so its
  worker has broken down; it is stored as it was. -/
  | collapsed : t.workers.get l = .collapsed x → BrokenDown w s₀ (before ++ as) l x →
      (ledger t.shared.store).Keeps x → Fares w s₀ before s as t l x
  /-- It was stored until its execution came to an end, and has been removed. -/
  | removed {f : Fate} {bs ds : List Action} {b : Action} {u u' : System σ W} :
      Passes w s as t bs u b u' ds → Settles w u u' l x f → (ledger u.shared.store).Keeps x →
      Justified w s₀ (before ++ bs) l x f → f.retry = none →
      (ledger t.shared.store).Vacant x.seq → Fares w s₀ before s as t l x
  /-- It was stored until its attempt failed, and has waited since then for the next one. -/
  | repeated {f : Fate} {bs ds : List Action} {b : Action} {u u' : System σ W} {n : UInt32}
      {v : Instant} : Passes w s as t bs u b u' ds → Settles w u u' l x f →
      (ledger u.shared.store).Keeps x → Justified w s₀ (before ++ bs) l x f →
      f.retry = some (n, v) → u'.Waits (x.postponed n v) →
      (t.Waits (x.postponed n v) ∨ x.postponed n v ∈ u'.claims w l ds ∨
        DisplacedIn w u' ds (x.postponed n v)) → Fares w s₀ before s as t l x
  /-- A submission has replaced it while it was in hand. -/
  | replaced : ReplacedInHand w s₀ (before ++ as) l x → (ledger t.shared.store).Vacant x.seq →
      Fares w s₀ before s as t l x

/-- **What is in hand is settled as it should be**, while the storage serves, unless it is replaced. -/
theorem fares_of_record? (htidy : s₀.Tidy) (h₀ : ∀ l, (s₀.workers.get l).record? = none)
    (hrun : s₀.steps w as = some s) (hx : (s.workers.get l).record? = some x)
    (hrest : s.steps w bs = some t) (hserved : Unfailing w s₀ (as ++ bs)) :
    Fares w s₀ as s bs t l x := by
  have hapart : s₀.Apart := by
    intro l m x y hx
    rw [h₀ l] at hx
    cases hx
  have hnone : ∀ m y f, s₀.workers.get m = .release y f → y.seq ≠ x.seq := by
    intro m y f hp
    have hm := h₀ m
    rw [hp] at hm
    cases hm
  have hrel := Unfailing.not_release hnone hrun hserved.left
  have hall : ∀ {cs v}, s.steps w cs = some v → s₀.steps w (as ++ cs) = some v := by
    intro cs v hv
    rw [steps_append, hrun]
    exact hv
  rcases inHand_or_passes hx hrel hrest (hserved.right hrun) with
    hin | ⟨f, cs, u, b, u', ds, hpass, hset⟩
  · rcases (Secured.steps htidy h₀ (hall hrest) hserved l x hin).2 with hk | ⟨hrep, hv⟩
    · cases hend : (t.workers.get l).hasEnded with
      | false => exact .inHand hin hend hk
      | true =>
        have hp := Point.eq_collapsed hend hin
        exact .collapsed hp (brokenDown_of_collapsed (h₀ l) (hall hrest) hp) hk
    · exact .replaced hrep hv
  · have hu := hall hpass.before
    have htidyu := htidy.steps hu
    have hpre : as ++ cs <+: as ++ bs := ⟨b :: ds, by rw [hpass.split, List.append_assoc]⟩
    obtain ⟨stage, hsettling⟩ := hset.settling
    have hxu : (u.workers.get l).record? = some x := by rw [hsettling]; rfl
    have hsp := htidyu.spawned_of_record hxu
    have hsp' := htidyu.spawned_step hsp hpass.step
    have htidyu' := htidyu.step hpass.step
    have hj : Justified w s₀ (as ++ cs) l x f :=
      justified_of_steps (fun m y hy => by rw [h₀ m] at hy; cases hy) hu l x f
        (by rw [hsettling]; rfl) rfl
    rcases (Secured.steps htidy h₀ hu (hserved.of_prefix hpre) l x hxu).2 with hk | ⟨hrep, hv⟩
    · cases hf : f.retry with
      | none =>
        have hv := hset.vacant htidyu hf
        exact .removed hpass hset hk hj hf (htidyu'.vacant_steps hsp' hv hpass.after).2
      | some nv =>
        obtain ⟨n, v⟩ := nv
        have hw := hset.waits htidyu hf hk
        have hout : u'.OutOfHand (x.postponed n v) :=
          hset.nobody (htidy.apart_steps hapart hu) hpass.step
        have hlane : (x.postponed n v).lane = l := (hset.inHand htidyu).lane
        have hend := htidyu'.waits_or_claimed hw hout hpass.after
        rw [hlane] at hend
        exact .repeated hpass hset hk hj hf hw hend
    · have hv' := htidyu.vacant_step hsp hv hpass.step
      exact .replaced (hrep.mono hpre) (htidyu'.vacant_steps hsp' hv' hpass.after).2

/-! ## What has been removed -/

/-- Nothing is stored at a place, and nobody has its record in hand. -/
structure Gone (s : System σ W) (q : Int) : Prop where
  unstored : ∀ row ∈ (ledger s.shared.store).rows, row.seq ≠ q
  free : ∀ l x, (s.workers.get l).record? = some x → x.seq ≠ q

/-- In a run a submission stores a record at a place. -/
def GivenAnew (w : Wiring W) (s₀ : System σ W) (as : List Action) (q : Int) : Prop :=
  ∃ bs b u r, bs ++ [b] <+: as ∧ s₀.steps w bs = some u ∧ u.accepted? b = some r ∧ r.seq = q

/-- Only a submission that is stored there fills a place again. -/
theorem Gone.step (h : s.Gone q) (htidy : s.Tidy) (hstep : s.step w a = some s') :
    s'.Gone q ∨ ∃ r, s.accepted? a = some r ∧ r.seq = q := by
  have hfree : ∀ l x, (s'.workers.get l).record? = some x → x.seq ≠ q := by
    intro l x hx
    rcases comesBy_cases hstep hx with hold | ⟨-, -, hclaim⟩
    · exact h.free l x hold
    · obtain ⟨row, hrow, hshows, -⟩ := htidy.claims_due hclaim
      exact fun hq => h.unstored row hrow (hshows.seq.trans hq)
  by_cases hrow : ∃ row ∈ (ledger s'.shared.store).rows, row.seq = q
  · obtain ⟨row, hrow, hq⟩ := hrow
    rw [step_store hstep] at hrow
    cases hop : s.operation? a with
    | none =>
      rw [hop] at hrow
      exact absurd hq (h.unstored row hrow)
    | some op =>
      rw [hop] at hrow
      rcases (LawfulStore.edit_run htidy.sound op _).row_cases hrow with hold | ⟨c, rfl, -⟩
      · exact (hold.at_place (P := fun _ => False) (fun _ _ _ hf => hf) h.unstored hq).elim
      · refine .inr ⟨_, ?_, hq⟩
        unfold accepted?
        rw [hop]
        exact LawfulStore.created?_of_next htidy.sound hrow rfl (Row.shows_ofRecord _)
  · exact .inl ⟨fun row hr hq => hrow ⟨row, hr, hq⟩, hfree⟩

theorem Gone.steps (h : s₀.Gone q) (htidy : s₀.Tidy) (hrun : s₀.steps w as = some s) :
    s.Gone q ∨ GivenAnew w s₀ as q := by
  refine steps_induction (P := fun as t => t.Gone q ∨ GivenAnew w s₀ as q) (.inl h) ?_ hrun
  intro as a t t' ht ih hstep
  rcases ih with hgone | ⟨bs, b, u, r, hpre, hr⟩
  · rcases hgone.step (htidy.steps ht) hstep with hgone' | ⟨r, hacc, hq⟩
    · exact .inl hgone'
    · exact .inr ⟨as, a, t, r, List.prefix_rfl, ht, hacc, hq⟩
  · exact .inr ⟨bs, b, u, r, hpre.trans (List.prefix_append as [a]), hr⟩

/-- No claim answers what stays gone. -/
theorem Gone.claims (h : s₀.Gone q) (htidy : s₀.Tidy) (hno : ¬ GivenAnew w s₀ as q)
    (hrun : s₀.steps w as = some s) : s.Gone q ∧ ∀ m, ∀ y ∈ s₀.claims w m as, y.seq ≠ q := by
  refine ⟨(h.steps htidy hrun).resolve_right hno, fun m y hy => ?_⟩
  obtain ⟨bs, b, u, u', hpre, hu, hstep, hclaim⟩ := exists_of_mem_yields hrun hy
  rcases h.steps htidy (steps_snoc.2 ⟨u, hu, hstep⟩) with hgone | ⟨cs, d, v, r, hcs, hr⟩
  · exact hgone.free m y (by rw [decode_of_claimed? hstep hclaim]; rfl)
  · exact absurd ⟨cs, d, v, r, hcs.trans hpre, hr⟩ hno

/-- Once the workers have been spawned no place is given out twice. -/
theorem Tidy.not_givenAnew (h : s₀.Tidy) (hsp : (s₀.shared.cell l).spawned = true)
    (hle : q ≤ (ledger s₀.shared.store).lastSeq)
    (hv : ∀ row ∈ (ledger s₀.shared.store).rows, row.seq ≠ q) : ¬ GivenAnew w s₀ as q := by
  rintro ⟨bs, b, u, r, -, hu, hacc, rfl⟩
  obtain ⟨op, hop, hcr⟩ := Option.bind_eq_some_iff.1 hacc
  obtain ⟨y, hok, hcr⟩ := Operation.exists_of_created? hcr
  have hnext := (LawfulStore.created_run (h.steps hu).sound hok hcr).1.next
  have := (h.vacant_steps hsp ⟨hle, hv⟩ hu).2.le
  omega

/-! ## The clearing -/

/-- A caller clears a lane by a step: what is stored there and not claimed is taken away, and the caller
is about to tell how much that was. -/
structure Clears (s s' : System σ W) (a : Action) (l : Lane) (k : Caller) (n : Nat) : Prop where
  caller : a.caller? = some k
  purged : ledger s'.shared.store = (ledger s.shared.store).purge l
  rows : ∀ row, row ∈ (ledger s'.shared.store).rows ↔ row ∈ (ledger s.shared.store).rows ∧
    ¬ (row.lane = l.index ∧ row.seq ∉ (ledger s.shared.store).claimed)
  counted : n = (ledger s.shared.store).rows.countP ((ledger s.shared.store).isWaiting l)
  next : s'.callOf k = some (.announceCleared l n)

/-- Storage that serves a clearing carries it out. -/
theorem Tidy.clears (h : s.Tidy) (hserved : s.Served a) (hop : s.operation? a = some (.purgeLane l))
    (hstep : s.step w a = some s') : ∃ k n, Clears s s' a l k n := by
  obtain ⟨k, t, hk, hc, hmade⟩ := operation?_eq_purgeLane hop
  obtain ⟨y, hy⟩ := hserved.answered _ hop
  obtain ⟨n, hn, rfl⟩ := exists_of_map_eq_ok hy
  have hlaw := LawfulStore.purgeLane h.sound l
  rw [hn] at hlaw
  obtain ⟨hcount, hledger⟩ := hlaw
  have hstore : ledger s'.shared.store = (ledger s.shared.store).purge l := by
    rw [step_store hstep, hop]
    exact hledger
  obtain ⟨c', hcall, hc'⟩ := callOf_own hstep hk hc rfl
  simp only [Call.step, Call.trying, Try.step_of_ok hmade hn, Option.some.injEq, Prod.mk.injEq] at hcall
  rw [← hcall.1] at hc'
  exact ⟨k, n, hk, hstore, fun row => by rw [hstore, Ledger.mem_rows_purge], hcount, hc'⟩

/-- What has been taken away is in nobody's hand: that would be claimed. -/
theorem Clears.gone {n : Nat} (h : Clears s s' a l k n) (htidy : s.Tidy)
    (hclaimed : ∀ m x, (s'.workers.get m).record? = some x → x.seq ∈ (ledger s'.shared.store).claimed)
    {row : Row} (hrow : row ∈ (ledger s.shared.store).rows)
    (hw : (ledger s.shared.store).isWaiting l row = true) : s'.Gone row.seq where
  unstored y hy hq := by
    obtain ⟨hmem, hkept⟩ := (h.rows y).1 hy
    obtain rfl := htidy.sound.eq_of_seq hmem hrow hq
    exact hkept (Ledger.isWaiting_iff.1 hw)
  free m x hx hq := by
    have hc := hclaimed m x hx
    rw [h.purged, hq] at hc
    exact (Ledger.isWaiting_iff.1 hw).2 hc

/-- A claim that is answered while a record is waiting and due goes to that record or to one that is
served before it. -/
theorem Tidy.answer_of_due (h : s.Tidy) (hw : s.Waits x) (hdue : x.availableAt ≤ s.shared.now)
    {r : Option Record} (hr : s.answer? x.lane a = some r) :
    ∃ y, r = some y ∧ y.servesBefore x = true := by
  obtain ⟨row, hrow, hshows⟩ := hw.1
  have hrowdue : (ledger s.shared.store).isDue x.lane s.shared.now row = true :=
    Ledger.isDue_iff.2 ⟨hshows.lane, hshows.seq ▸ hw.2, hshows.availableAt ▸ hdue⟩
  have hlaw := LawfulStore.nextEligible h.sound x.lane s.shared.now
  rw [(answer?_eq_some.1 hr).2] at hlaw
  cases r with
  | none =>
    rw [hlaw.1 row hrow] at hrowdue
    cases hrowdue
  | some y =>
    obtain ⟨first, hfirst, hy, -⟩ := hlaw
    exact ⟨y, rfl, Record.servesBefore_of_shows hy hshows (hfirst.least row hrow hrowdue)⟩

/-- **A clearing takes away what waits, and nothing else.** Take any run of a scheduler while the
storage serves, with any submissions, pauses and other clearings, a step of it by which a caller clears
a lane, and any run from there. The rows that go are those of the lane that are stored and not claimed
at that moment; once the workers have been spawned, what is claimed is what they have in hand. The
caller is about to tell their number, nothing holds it up, and its next step publishes the number and
answers with it. Whatever has been taken away is gone for good, unless no worker had been spawned at
that moment and a later submission has been given its place. A record that was in hand stays in hand and
stored, until it has come to its end and is removed, or its attempt has failed and it waits for the next
one until the worker of its lane claims it again or it is displaced; a submission that replaces it while
it is in hand ends that before, and so does a failure whose next instant is none of the calendar: its
worker breaks down then. And a claim that is answered while a record is waiting and due
goes to that record or to one that is served before it. -/
theorem clear_removes_waiting (w : Wiring W) {store : σ} (hs : (ledger store).Sound) (now : Instant)
    (world : W) (hrun : (System.init w.config store now world).steps w as = some s)
    (hop : s.operation? a = some (.purgeLane l)) (hstep : s.step w a = some s₁)
    (hrest : s₁.steps w bs = some t)
    (hserved : Unfailing w (.init w.config store now world) (as ++ a :: bs)) :
    (∃ k n, Clears s s₁ a l k n ∧
        ∀ cs u, s₁.steps w cs = some u → (∀ b ∈ cs, b.caller? ≠ some k) →
          (∃ b u', b.caller? = some k ∧ u.step w b = some u') ∧
            ∀ b u', b.caller? = some k → u.step w b = some u' →
              u'.callOf k = some (.done (.cleared n)) ∧ u'.shared.bus.published =
                u.shared.bus.published ++ [⟨l, .ofMillis u.shared.now, .laneCleared (.ofNat n)⟩]) ∧
      ((∃ m, (s.shared.cell m).spawned = true) → ∀ q, q ∈ (ledger s.shared.store).claimed ↔
        ∃ m x, (s.workers.get m).record? = some x ∧ x.seq = q) ∧
      (∀ row ∈ (ledger s.shared.store).rows, (ledger s.shared.store).isWaiting l row = true →
        t.Gone row.seq ∧ (∀ m, ∀ y ∈ s₁.claims w m bs, y.seq ≠ row.seq) ∨
          (∀ m, (s.shared.cell m).spawned = false) ∧ GivenAnew w s₁ bs row.seq) ∧
      (∀ m x, (s.workers.get m).record? = some x →
        Fares w (.init w.config store now world) (as ++ [a]) s₁ bs t m x) ∧
      ∀ x, t.Waits x → x.availableAt ≤ t.shared.now → ∀ b r, t.answer? x.lane b = some r →
        ∃ y, r = some y ∧ y.servesBefore x = true := by
  have hinit := Tidy.init (W := W) w.config hs now world
  have h₀ := record?_init w.config store now world
  have htidy := hinit.steps hrun
  have htidy₁ := htidy.step hstep
  have hrun₁ : (System.init w.config store now world).steps w (as ++ [a]) = some s₁ :=
    steps_snoc.2 ⟨s, hrun, hstep⟩
  have hserved₁ : Unfailing w (.init w.config store now world) (as ++ [a] ++ bs) := by
    rw [List.append_assoc]
    exact hserved
  have hsec := Secured.steps hinit h₀ hrun hserved.left
  have hsec₁ := Secured.steps hinit h₀ hrun₁ hserved₁.left
  obtain ⟨k, n, hclears⟩ := htidy.clears (hserved₁.left.last hrun) hop hstep
  refine ⟨⟨k, n, hclears, fun cs u hcs hbeside => ?_⟩, ?_, fun row hrow hw => ?_, fun m x hx => ?_,
    fun x hw hdue b r hr => (htidy₁.steps hrest).answer_of_due hw hdue hr⟩
  · have hc := callOf_steps_beside hclears.next hbeside hcs
    exact ⟨(htidy₁.steps hcs).step_of_callOf hc rfl,
      fun b u' hb hstep' => announceCleared_step hc hb hstep'⟩
  · rintro ⟨m, hsp⟩ q
    refine ⟨hinit.held_of_spawned (not_launched_init _ _ _ _) hrun hsp q, ?_⟩
    rintro ⟨m, x, hx, rfl⟩
    exact (hsec m x hx).1
  · have hgone := hclears.gone htidy (fun m x hx => (hsec₁ m x hx).1) hrow hw
    by_cases hsp : ∃ m, (s.shared.cell m).spawned = true
    · obtain ⟨m, hsp⟩ := hsp
      have hle : row.seq ≤ (ledger s₁.shared.store).lastSeq := by
        rw [hclears.purged]
        exact htidy.sound.stored_le row hrow
      exact .inl (hgone.claims htidy₁
        (htidy₁.not_givenAnew (htidy.spawned_step hsp hstep) hle hgone.unstored) hrest)
    · by_cases hnew : GivenAnew w s₁ bs row.seq
      · exact .inr ⟨fun m => Bool.eq_false_iff.2 fun h => hsp ⟨m, h⟩, hnew⟩
      · exact .inl (hgone.claims htidy₁ hnew hrest)
  · refine fares_of_record? hinit h₀ hrun₁ ?_ hrest hserved₁
    rcases letsGo_cases hstep hx with hx' | ⟨op, hop', hset⟩
    · exact hx'
    · -- a clearing settles nothing
      obtain rfl := Option.some.inj (hop.symm.trans hop')
      cases hset

/-- The first attempt of a command fails, the second one succeeds. -/
def failingOnce (attempt : UInt32) : Outcome := if attempt = 1 then .recoverable "x" else .success

/-- The first command is being executed, the second one waits, and a client is about to clear the lane. -/
def upToClearing : List Action :=
  Trial.upToStore ++ .advance 1 none :: List.replicate 6 Trial.turn ++
    [.request (.submit ⟨"Flaky", "g", .ok []⟩ {}), .advance 2 none, .advance 2 none,
      .request (.clear .general)]

/-- The clearing is told, the execution fails, and the record is claimed again when it is due. -/
def afterClearing : List Action :=
  .advance 3 none :: List.replicate 4 Trial.turn ++ .tick 5 :: List.replicate 3 Trial.turn

/-- One record was taken away and is gone; the one that was executed is in hand for its second attempt. -/
theorem clear_removes_waiting_failingOnce :
    ∃ (s s₁ t : System MemoryStore Unit) (x : Record),
      let w := Trial.wiring failingOnce
      (Trial.init failingOnce).steps w upToClearing = some s ∧
        s.step w (.advance 3 none) = some s₁ ∧ s₁.steps w afterClearing = some t ∧
        Clears s s₁ (.advance 3 none) .general (.client 3) 1 ∧ t.Gone 2 ∧
        Fares w (Trial.init failingOnce) (upToClearing ++ [.advance 3 none]) s₁ afterClearing t
          .general x ∧
        (t.workers.get .general).record? = some (x.postponed 1 5) := by
  let w := Trial.wiring failingOnce
  have hrun : ((Trial.init failingOnce).steps w upToClearing).any fun s =>
      ((s.workers.get .general).record?).any fun x =>
        (s.step w (.advance 3 none)).any fun s₁ =>
          (s₁.steps w afterClearing).any fun t =>
            s.operation? (.advance 3 none) = some (.purgeLane .general) ∧
              (s.shared.cell .general).spawned = true ∧
              ((ledger s.shared.store).rows.filter
                ((ledger s.shared.store).isWaiting .general)).map (·.seq) = [2] ∧
              (t.workers.get .general).record? = some (x.postponed 1 5) := by decide +kernel
  obtain ⟨s, hs, hrun⟩ := (Option.any_eq_true _ _).1 hrun
  obtain ⟨x, hx, hrun⟩ := (Option.any_eq_true _ _).1 hrun
  obtain ⟨s₁, hs₁, hrun⟩ := (Option.any_eq_true _ _).1 hrun
  obtain ⟨t, ht, hend⟩ := (Option.any_eq_true _ _).1 hrun
  obtain ⟨hop, hsp, hwaiting, hagain⟩ := of_decide_eq_true hend
  have hempty : (ledger MemoryStore.empty).Sound := Ledger.Sound.empty
  have hfaultless : ∀ b ∈ upToClearing ++ .advance 3 none :: afterClearing, b.fault? = none := by
    decide
  obtain ⟨⟨k, n, hclears, -⟩, -, hgone, hfares, -⟩ :=
    clear_removes_waiting w hempty 0 () hs hop hs₁ ht (unfailing_of_memory hfaultless)
  obtain rfl : .client 3 = k := Option.some.inj hclears.caller
  obtain rfl : n = 1 := by
    rw [hclears.counted, List.countP_eq_length_filter, ← List.length_map (·.seq), hwaiting]
    rfl
  obtain ⟨row, hrow, hseq⟩ := List.mem_map.1 (hwaiting ▸ List.mem_singleton_self 2)
  obtain ⟨hmem, hw⟩ := List.mem_filter.1 hrow
  refine ⟨s, s₁, t, x, hs, hs₁, ht, hclears, ?_, hfares .general x hx, hagain⟩
  rcases hgone row hmem hw with ⟨hrow', -⟩ | ⟨hno, -⟩
  · exact hseq ▸ hrow'
  · exact absurd hsp (by rw [hno .general]; decide)

/-- The clearing is told and the execution fails. -/
def untilFailure : List Action := [.advance 3 none, Trial.turn]

/-- The record that was executed during a clearing has failed, and is stored as it was; it is not
claimed again, whatever happens from then on. -/
theorem never_retried :
    ∃ (s s₁ t : System MemoryStore Unit) (x : Record),
      let w := Trial.distant fun _ => .recoverable "x"
      (System.init w.config MemoryStore.empty 0 ()).steps w upToClearing = some s ∧
        s.operation? (.advance 3 none) = some (.purgeLane .general) ∧
        s.step w (.advance 3 none) = some s₁ ∧ s₁.steps w untilFailure = some t ∧
        (s.workers.get .general).record? = some x ∧ x.bubbles = true ∧
        t.shared.store.records = [x] ∧ x.seq ∈ (ledger t.shared.store).claimed ∧
        ∀ bs u, t.steps w bs = some u → t.claims w .general bs = [] := by
  let w := Trial.distant fun _ => .recoverable "x"
  have hrun : ((System.init w.config MemoryStore.empty 0 ()).steps w upToClearing).any fun s =>
      ((s.workers.get .general).record?).any fun x =>
        (s.step w (.advance 3 none)).any fun s₁ =>
          (s₁.steps w untilFailure).any fun t =>
            s.operation? (.advance 3 none) = some (.purgeLane .general) ∧ x.bubbles = true ∧
              t.shared.store.records = [x] ∧ t.shared.store.claimed = [x.seq] ∧
              (t.workers.get .general).record? = some x ∧
              (t.workers.get .general).hasEnded = true := by decide +kernel
  obtain ⟨s, hs, hrun⟩ := (Option.any_eq_true _ _).1 hrun
  obtain ⟨x, hx, hrun⟩ := (Option.any_eq_true _ _).1 hrun
  obtain ⟨s₁, hs₁, hrun⟩ := (Option.any_eq_true _ _).1 hrun
  obtain ⟨t, ht, hend⟩ := (Option.any_eq_true _ _).1 hrun
  obtain ⟨hop, hbubbles, hrecords, hclaimed, hx', hended⟩ := of_decide_eq_true hend
  have hmem : x.seq ∈ t.shared.store.claimed := by
    rw [hclaimed]
    exact List.mem_singleton_self _
  have hp := Point.eq_collapsed hended hx'
  exact ⟨s, s₁, t, x, hs, hop, hs₁, ht, hx, hbubbles, hrecords, hmem,
    fun bs u hrest => claims_of_collapsed hp hrest⟩

end System

end LaneQueue
