import LaneQueue.Proofs.Scheduler.Recovery
import LaneQueue.Proofs.Scheduler.Rescheduling
import LaneQueue.Proofs.Scheduler.Yields
/-!
# Backing off

A record whose attempt has failed is set back to an instant, and rests until then: a claim answers only
what is due, and only a worker that has claimed the record sets it back again, to no earlier instant
(`System.Rests`). The instant is stored with the row, so this outlasts the process (`Life`). It lies
ahead by the delay that is announced, unless no instant can be moved that far: then the record does not
rest at all (`announced_not_waited`).
-/
namespace LaneQueue

theorem RetryConfig.delayMs_le (c : RetryConfig) (identity : String) (attempt : Nat) :
    c.delayMs identity attempt ≤ wordMax := by
  have hround : ∀ x, roundMillis x ≤ wordMax := fun x => Nat.min_le_right _ _
  simp only [delayMs]
  split
  · exact Nat.zero_le _
  · split <;> exact hround _

/-- No delay is too long to be announced. -/
theorem RetryConfig.toNat_ofNat_delayMs (c : RetryConfig) (identity : String) (attempt : Nat) :
    (UInt64.ofNat (c.delayMs identity attempt)).toNat = c.delayMs identity attempt := by
  have hle := c.delayMs_le identity attempt
  rw [UInt64.toNat_ofNat']
  refine Nat.mod_eq_of_lt ?_
  simp only [wordMax, UInt64.size] at hle
  omega

theorem Fate.le_availableAt (now : Instant) (delayMs : Nat) : now ≤ availableAt now delayMs := by
  unfold availableAt
  split
  · exact Int.le_add_of_nonneg_right (Int.natCast_nonneg _)
  · exact Int.le_refl _

/-- A record that is to be repeated is set back by the delay that is announced. -/
theorem Fate.retry_eq_some {c : RetryConfig} {now : Instant} {r : Record} {o : Outcome} {n : UInt32}
    {t : Instant} (h : (ofOutcome c now r o).retry = some (n, t)) :
    t = availableAt now (c.delayMs r.identity r.attempt.toNat) ∧
      ∃ reason, o = .recoverable reason ∧ (ofOutcome c now r o).event =
        .retrying r.identity r.tag r.attempt (.ofNat (c.delayMs r.identity r.attempt.toNat)) reason := by
  cases o with
  | success | fatal => cases h
  | recoverable reason =>
    simp only [ofOutcome] at h ⊢
    split at h
    · cases h
    · rename_i hb
      split at h
      · cases h
      · rename_i hex
        cases h
        exact ⟨rfl, reason, rfl, by simp [hb, hex]⟩

/-- Whatever is stored at a place is not due before an instant. -/
def Ledger.RestsUntil (l : Ledger) (q : Int) (t : Instant) : Prop :=
  ∀ row ∈ l.rows, row.seq = q → t ≤ row.availableAt

namespace System

open LawfulStore (ledger)

variable {σ W : Type} [QueueStore σ] {w : Wiring W} {s s' s₀ u u' : System σ W} {a b : Action}
  {l : Lane} {x : Record} {f : Fate} {as bs ds : List Action} {q : Int} {t : Instant}

/-! ## Where the body ended -/

/-- At some moment of a run, at this instant, the body of the record in hand had come to its end. -/
def EndedAt (w : Wiring W) (s₀ : System σ W) (as : List Action) (l : Lane) (x : Record) (fin : Finish)
    (t : Instant) : Prop :=
  ∃ bs b u, bs ++ [b] <+: as ∧ s₀.steps w bs = some u ∧ b.lane? = some l ∧
    u.workers.get l = .run x (.done fin) ∧ u.shared.now = t

/-- A fate that repeats a record is that of an outcome, at the instant when the body ended. -/
theorem endedAt_of_retry (h₀ : ∀ l, (s₀.workers.get l).record? = none) (hrun : s₀.steps w as = some s)
    (hf : (s.workers.get l).settling? = some (x, f)) (hretry : f.retry ≠ none) :
    ∃ fin t, EndedAt w s₀ as l x fin t ∧ f = .ofOutcome w.config.retry t x fin.toOutcome := by
  refine steps_induction (w := w) (P := fun as s => (s.workers.get l).settling? = some (x, f) →
    ∃ fin t, EndedAt w s₀ as l x fin t ∧ f = .ofOutcome w.config.retry t x fin.toOutcome) ?_ ?_ hrun hf
  · intro hf
    cases (h₀ l).symm.trans (Point.record?_of_settling? hf)
  · intro as a s s' hs ih hstep hf
    have hold : (s.workers.get l).settling? = some (x, f) → ∃ fin t, EndedAt w s₀ (as ++ [a]) l x fin t ∧
        f = .ofOutcome w.config.retry t x fin.toOutcome := by
      intro hf
      obtain ⟨fin, t, ⟨bs, b, u, hpre, hu⟩, hfate⟩ := ih hf
      exact ⟨fin, t, ⟨bs, b, u, hpre.trans (List.prefix_append as [a]), hu⟩, hfate⟩
    rcases step_worker hstep l with heq | ⟨signal, fault, rfl, hown⟩
    · exact hold (heq ▸ hf)
    · rcases Point.step_settling hown hf with hf | ⟨fin, hp, hfate⟩ | ⟨e, -, -, rfl⟩
      · exact hold hf
      · exact ⟨fin, _, ⟨as, _, s, List.prefix_rfl, hs, rfl, hp, rfl⟩, hfate⟩
      · exact absurd rfl hretry

/-! ## Resting -/

/-- A step claims nothing at a place before an instant. -/
def Respects (q : Int) (t : Instant) (s : System σ W) (a : Action) : Prop :=
  ∀ l x, s.claimed? l a = some x → x.seq = q → t ≤ s.shared.now

variable [LawfulStore σ]

/-- What stands at a place rests until an instant: no row there is due before, nobody has had it in hand
before, and nobody is about to set it back to an earlier instant. -/
structure Rests (s : System σ W) (q : Int) (t : Instant) : Prop where
  rows : (ledger s.shared.store).RestsUntil q t
  inHand : ∀ l x, (s.workers.get l).record? = some x → x.seq = q → t ≤ s.shared.now
  fates : ∀ l x f n v, (s.workers.get l).settling? = some (x, f) → x.seq = q → f.retry = some (n, v) →
    t ≤ v

namespace Rests

theorem respects (h : s.Rests q t) (htidy : s.Tidy) (a : Action) : Respects q t s a := by
  intro l x hclaim hq
  obtain ⟨row, hrow, hshows, hdue⟩ := htidy.claims_due (answer?_eq_some.1 (claimed?_eq_some.1 hclaim)).2
  exact Int.le_trans (h.rows row hrow (hshows.seq.trans hq)) (Ledger.isDue_iff.1 hdue).2.2

/-- **One step**, after which the place has been given out. -/
theorem step (h : s.Rests q t) (htidy : s.Tidy) (hstep : s.step w a = some s')
    (hle : q ≤ (ledger s.shared.store).lastSeq) : s'.Rests q t where
  rows row hrow hq := by
    rw [step_store hstep] at hrow
    cases hop : s.operation? a with
    | none =>
      rw [hop] at hrow
      exact h.rows row hrow hq
    | some op =>
      rw [hop] at hrow
      rcases (LawfulStore.edit_run htidy.sound op _).mem_rows_cases hrow with
        hold | ⟨c, rfl, -⟩ | ⟨r, n, v, rfl, y, hy, howns, rfl⟩
      · exact h.rows row hold hq
      · -- a fresh row takes a later place
        have hq : (ledger s.shared.store).lastSeq + 1 = q := hq
        omega
      · have hr : r.seq = q := (Ledger.isRowOf_iff.1 howns).2.symm.trans hq
        obtain ⟨m, f, -, ⟨stage, hp, hf⟩ | ⟨-, hf⟩⟩ := settling_of_settled? hop rfl
        · unfold Fate.operation at hf
          split at hf
          · cases hf
          · rename_i hretry
            cases hf
            exact h.fates m r f n v (by rw [hp]; rfl) hr hretry
        · cases hf
  inHand l x hx hq := by
    have hnow := htidy.now_le_step hstep
    rcases comesBy_cases hstep hx with hold | ⟨hp, hop, -⟩
    · exact Int.le_trans (h.inHand l x hold hq) hnow
    · exact Int.le_trans (h.respects htidy a l x (claimed?_of_decode hstep hop hp) hq) hnow
  fates l x f n v hf hq hretry := by
    rcases step_worker hstep l with heq | ⟨signal, fault, rfl, hown⟩
    · exact h.fates l x f n v (heq ▸ hf) hq hretry
    · rcases Point.step_settling hown hf with hf | ⟨fin, hp, rfl⟩ | ⟨e, -, -, rfl⟩
      · exact h.fates l x f n v hf hq hretry
      · rw [(Fate.retry_eq_some hretry).1]
        exact Int.le_trans (h.inHand l x (by rw [hp]; rfl) hq) (Fate.le_availableAt _ _)
      · cases hretry

/-- **A run** of spawned workers. -/
theorem steps (h : s₀.Rests q t) (htidy : s₀.Tidy) (hsp : (s₀.shared.cell l).spawned = true)
    (hle : q ≤ (ledger s₀.shared.store).lastSeq) (hrun : s₀.steps w as = some s) : s.Rests q t := by
  refine (steps_induction (P := fun _ s => (s.shared.cell l).spawned = true ∧
    q ≤ (ledger s.shared.store).lastSeq ∧ s.Rests q t) ⟨hsp, hle, h⟩ ?_ hrun).2.2
  rintro as a s s' hs ⟨hsp, hle, h⟩ hstep
  have htidys := htidy.steps hs
  refine ⟨htidys.spawned_step hsp hstep, Int.le_trans hle ?_, h.step htidys hstep hle⟩
  rw [step_store hstep]
  cases hop : s.operation? a with
  | none => exact Int.le_refl _
  | some op =>
    exact (LawfulStore.edit_run htidys.sound op _).lastSeq_le fun he =>
      htidys.operation?_ne_recover hsp a (he ▸ hop)

/-- So no claim of the run comes too early. -/
theorem throughout (h : s₀.Rests q t) (htidy : s₀.Tidy) (hsp : (s₀.shared.cell l).spawned = true)
    (hle : q ≤ (ledger s₀.shared.store).lastSeq) : Throughout w s₀ as (Respects q t) :=
  fun _ b _ _ hu => (h.steps htidy hsp hle hu).respects (htidy.steps hu) b

end Rests

/-- A settlement that sets a record back makes its place rest. -/
theorem Settles.rests (h : Settles w s s' l x f) (htidy : s.Tidy) (hapart : s.Apart)
    (hstep : s.step w a = some s') {n : UInt32} (hf : f.retry = some (n, t)) : s'.Rests x.seq t where
  rows row hrow hq := by
    rw [h.ledger_postponed htidy hf] at hrow
    obtain ⟨y, hy, rfl⟩ := List.mem_map.1 hrow
    split
    · exact Int.le_refl _
    · rename_i hno
      -- at the place of the record in hand there is only its own row
      rw [if_neg hno] at hq
      exact absurd (Ledger.isRowOf_iff.2 ⟨((h.inHand htidy).carries y hy hq).identity, hq⟩) hno
  inHand m y hy hq := absurd hq (h.nobody hapart hstep m y hy)
  fates m y g k v hg hq := absurd hq (h.nobody hapart hstep m y (Point.record?_of_settling? hg))

end System

/-! ## Lives that follow -/

/-- A process opens what the one before has left behind, with something stored at a place. It finds the
same rows; what it knows of claims, and where its order goes on, does not matter. -/
structure Life {σ W : Type} [QueueStore σ] [LawfulStore σ] (q : Int) (left : Ledger) (w : Wiring W)
    (s₀ : System σ W) (as : List Action) (s : System σ W) : Prop where
  starts : ∃ store now world, (LawfulStore.ledger store).Sound ∧
    (LawfulStore.ledger store).rows = left.rows ∧ s₀ = .init w.config store now world
  stored : ∃ row ∈ left.rows, row.seq = q
  run : s₀.steps w as = some s

/-- What is left behind after any number of lives, if something has stood at the place all the time: it
was not taken away before the workers were spawned. -/
inductive Outlives (q : Int) (left : Ledger) : Ledger → Prop
  | here : Outlives q left left
  | next {σ W : Type} [QueueStore σ] [LawfulStore σ] {w : Wiring W} {s₀ s : System σ W}
      {as : List Action} {l : Ledger} : Outlives q left l → Life q l w s₀ as s →
      ¬ System.GoneEarly w s₀ as q → Outlives q left (LawfulStore.ledger s.shared.store)

namespace Life

variable {σ W : Type} [QueueStore σ] [LawfulStore σ] {w : Wiring W} {s s₀ : System σ W}
  {as bs : List Action} {q : Int} {t : Instant} {left : Ledger}

theorem tidy (h : Life q left w s₀ as s) : s₀.Tidy := by
  obtain ⟨store, now, world, hs, -, rfl⟩ := h.starts
  exact .init w.config hs now world

theorem goneEarly_mono (h : System.GoneEarly w s₀ bs q) (hpre : bs <+: as) :
    System.GoneEarly w s₀ as q := by
  obtain ⟨cs, u, hcs, hu⟩ := h
  exact ⟨cs, u, hcs.trans hpre, hu⟩

/-- What rested at the start rests all the time. -/
theorem rests (h : Life q left w s₀ as s) (hleft : left.RestsUntil q t) :
    s.Rests q t ∨ System.GoneEarly w s₀ as q := by
  obtain ⟨row, hrow, rfl⟩ := h.stored
  have hrow₀ : row ∈ (LawfulStore.ledger s₀.shared.store).rows := by
    obtain ⟨store, now, world, -, hrows, rfl⟩ := h.starts
    exact hrows ▸ hrow
  refine System.steps_induction (P := fun as s => s.Rests row.seq t ∨ System.GoneEarly w s₀ as row.seq)
    (.inl ?_) ?_ h.run
  · obtain ⟨store, now, world, -, hrows, rfl⟩ := h.starts
    refine ⟨fun y hy => hleft y (hrows ▸ hy), fun m y hy => ?_, fun m y g n v hg => ?_⟩
    · rw [System.record?_init] at hy
      cases hy
    · rw [System.workers_init] at hg
      cases hg
  · intro as a s s' hs ih hstep
    rcases ih with hrests | hgone
    · rcases System.seq_le_or_goneEarly h.tidy hrow₀ hs with hle | hgone
      · exact .inl (hrests.step (h.tidy.steps hs) hstep hle)
      · exact .inr (goneEarly_mono hgone (List.prefix_append as [a]))
    · exact .inr (goneEarly_mono hgone (List.prefix_append as [a]))

theorem throughout (h : Life q left w s₀ as s) (hleft : left.RestsUntil q t) :
    System.Throughout w s₀ as (System.Respects q t) ∨ System.GoneEarly w s₀ as q := by
  by_cases hgone : System.GoneEarly w s₀ as q
  · exact .inr hgone
  · refine .inl fun bs b u hpre hu => ?_
    have hbs : bs <+: as := (List.prefix_append bs [b]).trans hpre
    rcases Life.rests ⟨h.starts, h.stored, hu⟩ hleft with hrests | hgone'
    · exact hrests.respects (h.tidy.steps hu) b
    · exact absurd (goneEarly_mono hgone' hbs) hgone

end Life

/-- A rest outlasts all of them. -/
theorem Outlives.restsUntil {q : Int} {t : Instant} {left l : Ledger} (h : Outlives q left l)
    (hleft : left.RestsUntil q t) : l.RestsUntil q t := by
  induction h with
  | here => exact hleft
  | next _ hlife hno ih => exact ((hlife.rests ih).resolve_right hno).rows

namespace System

open LawfulStore (ledger)

/-- **What a backoff comes to**, while the storage serves. Take any run of a scheduler and a worker that
is about to announce a retry. Its body has failed at some instant, and the delay that is announced is
the one of the settings for that identity and that attempt. If an instant can be moved by it, the record
has been set back to exactly that much later; otherwise to the instant itself. So it waits, if it has
not been replaced while it was executed. From then on, whatever else happens, failures of the storage
included, nothing is claimed at its place before that instant; nor in the lives of the processes that
come after, as long as the record is there when they begin and is not taken away before the workers are
spawned, when its place may be given out again. A delay that leads beyond the end of the calendar is
announced by nobody: the worker breaks down over it. -/
theorem retry_waits {σ W : Type} [QueueStore σ] [LawfulStore σ] (w : Wiring W) {store : σ}
    (hs : (ledger store).Sound) (now : Instant) (world : W) {as : List Action} {s : System σ W}
    (hrun : (System.init w.config store now world).steps w as = some s)
    (hserved : Unfailing w (.init w.config store now world) as) {l lane : Lane} {i tag : String}
    {n : UInt32} {d : UInt64} {reason : String}
    (hp : s.workers.get l = .publish lane (.retrying i tag n d reason)) :
    ∃ x f bs u b u' ds fin ended ready,
      LetGo w (.init w.config store now world) as s l x f bs u b u' ds ∧ Settles w u u' l x f ∧
        (lane = x.lane ∧ i = x.identity ∧ n = x.attempt) ∧
        (EndedAt w (.init w.config store now world) bs l x fin ended ∧
          fin.toOutcome = .recoverable reason) ∧
        d.toNat = w.config.retry.delayMs i n.toNat ∧
        (d.toNat ≤ Fate.maxDelayMs → ready = ended + d.toNat) ∧
        (Fate.maxDelayMs < d.toNat → ready = ended) ∧
        ((ledger u.shared.store).Keeps x ∧ u'.Waits (x.postponed n ready) ∨
          ReplacedInHand w (.init w.config store now world) bs l x ∧
            (ledger u'.shared.store).Vacant x.seq) ∧
        ∀ es t, u'.steps w es = some t → Throughout w u' es (Respects x.seq ready) ∧
          ∀ left, Outlives x.seq (ledger t.shared.store) left →
            ∀ {τ V : Type} [QueueStore τ] [LawfulStore τ] (w' : Wiring V) (s₀ t' : System τ V) fs,
              Life x.seq left w' s₀ fs t' →
                Throughout w' s₀ fs (Respects x.seq ready) ∨ GoneEarly w' s₀ fs x.seq := by
  have htidy := Tidy.init (W := W) w.config hs now world
  have h₀ := record?_init w.config store now world
  obtain ⟨x, f, bs, u, b, u', ds, ready, hgo, hset, hevent, hlane, rfl, rfl, hretry, rfl, hstored⟩ :=
    settles_of_retrying w hs now world hrun hserved hp
  obtain ⟨fin, ended, hended, hfate⟩ :=
    endedAt_of_retry h₀ hgo.before hgo.settling? (by rw [hretry]; exact Option.some_ne_none _)
  have hretry' := hretry
  rw [hfate] at hretry'
  obtain ⟨rfl, reason', hreason, htold⟩ := Fate.retry_eq_some hretry'
  have htidyu := htidy.steps hgo.before
  have htidyu' := htidyu.step hgo.step
  have hsp := htidyu.spawned_of_record hgo.record?
  have hsp' := htidyu.spawned_step hsp hgo.step
  have hapart : u.Apart := htidy.apart_steps (apart_init _ _ _ _) hgo.before
  have hrests := hset.rests htidyu hapart hgo.step hretry
  have hle := (htidyu.inHand_step hgo.step hgo.record?).seq_le
  rw [RetryConfig.toNat_ofNat_delayMs]
  refine ⟨x, f, bs, u, b, u', ds, fin, ended, _, hgo, hset, ⟨hlane, rfl, rfl⟩, ⟨hended, ?_⟩, rfl,
    fun hd => if_pos hd, fun hd => if_neg (Nat.not_le.2 hd), ?_, fun es t ht =>
      ⟨hrests.throughout htidyu' hsp' hle, fun left hleft τ V _ _ w' s₀ t' fs hlife => ?_⟩⟩
  · rw [hfate, htold] at hevent
    cases hevent
    exact hreason
  · rcases hstored with hk | ⟨hrep, hv⟩
    · exact .inl ⟨hk, hset.waits htidyu hretry hk⟩
    · exact .inr ⟨hrep, htidyu.vacant_step hsp hv hgo.step⟩
  · exact hlife.throughout (hleft.restsUntil (hrests.steps htidyu' hsp' hle ht).rows)

/-- The record waits for five milliseconds, and nothing is claimed at its place before. -/
theorem retry_waits_retriedOnce :
    ∃ (s u' : System MemoryStore Unit) (x : Record) (ds : List Action) (ended : Instant),
      let w := Trial.wiring fun _ => .recoverable "x"
      (Trial.init fun _ => .recoverable "x").steps w retriedOnce = some s ∧
        u'.steps w ds = some s ∧ x.identity = "f" ∧ u'.Waits (x.postponed 1 (ended + 5)) ∧
        ∀ es t, u'.steps w es = some t → Throughout w u' es (Respects x.seq (ended + 5)) := by
  let w := Trial.wiring fun _ => .recoverable "x"
  have hrun : ((Trial.init fun _ => .recoverable "x").steps w retriedOnce).any fun s =>
      (s.workers.get .general).record? = none ∧
        (s.workers.get .general).toTell? = some (.retrying "f" "Flaky" 1 5 "x") ∧
        ((Trial.init fun _ => .recoverable "x").operations w retriedOnce).all
          fun op => !op.mayDisplace := by decide +kernel
  obtain ⟨s, hs, hend⟩ := (Option.any_eq_true _ _).1 hrun
  obtain ⟨hnone, htell, hops⟩ := of_decide_eq_true hend
  obtain ⟨lane, hp⟩ := Point.eq_publish_of_toTell? htell hnone
  have hempty : (ledger MemoryStore.empty).Sound := Ledger.Sound.empty
  have hfaultless : ∀ b ∈ retriedOnce, b.fault? = none := by decide
  obtain ⟨x, f, bs, u, b, u', ds, fin, ended, ready, hgo, -, ⟨-, hi, -⟩, -, -, hready, -, hwaits,
    hrest⟩ := retry_waits w hempty 0 () hs (unfailing_of_memory hfaultless) hp
  obtain rfl := hready (by decide)
  refine ⟨s, u', x, ds, ended, hs, hgo.after, hi.symm, ?_, fun es t ht => (hrest es t ht).1⟩
  rcases hwaits with ⟨-, hw⟩ | ⟨⟨cs, c, v, d, hpre, hv, -, hop, -⟩, -⟩
  · exact hw
  · -- nothing is replaced in this run
    have hpre' : cs ++ [c] <+: retriedOnce := hpre.trans ⟨b :: ds, hgo.split.symm⟩
    have hmay := List.all_eq_true.1 hops _ (mem_operations hpre' hv hop)
    cases hmay

/-- Whatever fails is to be repeated after the longest delay of all. -/
def patient : Wiring Unit :=
  let w := Trial.wiring fun _ => .recoverable "x"
  { w with
    config :=
      { w.config with
        retry :=
          { maxAttempts := 3, backoffBaseMs := 18446744073709551615
            backoffMaxMs := 18446744073709551615, jitterRatio := ⟨0⟩ } } }

/-- A command fails, its retry is told, and the worker claims again. -/
def claimedAtOnce : List Action :=
  Trial.upToStore ++ .advance 1 none :: List.replicate 13 Trial.turn

/-- **A delay that no instant can be moved by is announced, but not waited for.** The storage serves, the
clock stands still, and the record is claimed again. -/
theorem announced_not_waited :
    (∀ b ∈ claimedAtOnce, b.fault? = none) ∧
      ((System.init patient.config MemoryStore.empty 0 ()).steps patient claimedAtOnce).map (fun s =>
          (s.shared.now, s.shared.executions,
            (s.workers.get .general).record?.map fun r => (r.identity, r.seq, r.retryCount))) =
        some (0, [.started "f" "Flaky" 1, .retrying "f" "Flaky" 1 18446744073709551615 "x"],
          some ("f", 1, 1)) ∧
      ((System.init patient.config MemoryStore.empty 0 ()).claims patient .general claimedAtOnce).map
        (fun r => (r.identity, r.seq, r.availableAt)) = [("f", 1, 0), ("f", 1, 0)] := by
  refine ⟨by decide, ?_, ?_⟩ <;> decide +kernel

end System

end LaneQueue
