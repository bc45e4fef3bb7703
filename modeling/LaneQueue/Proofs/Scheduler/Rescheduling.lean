import LaneQueue.Proofs.Scheduler.Announcements
/-!
# Retries that are announced

While the storage serves, a record in hand is claimed until it is settled, so no clearing touches it: it
is stored as it is, unless a submission has replaced it in the meantime (`System.Secured`). A worker
that settles a record to be repeated tells so in either case. If the record is still stored, it waits
for the announced attempt; if it has been replaced, nothing does (`retrying_told`).
-/
namespace LaneQueue

namespace Ledger

variable {l l' : Ledger} {now : Instant} {op : Operation}

/-- A claim is given up only by a settlement of its record, or with all the others. -/
theorem Edit.claimed (h : l.Edit now op l') (hop : op ≠ .recover) {q : Int} (hq : q ∈ l.claimed)
    (hset : ∀ r, op.settled? = some r → r.seq ≠ q) : q ∈ l'.claimed := by
  have hdrop : ∀ r, op.settled? = some r → q ∈ (l.drop r.seq).claimed := by
    intro r hr
    have hne := hset r hr
    simp only [drop, List.mem_filter, bne_iff_ne, ne_eq]
    exact ⟨hq, fun he => hne he.symm⟩
  cases h with
  | remove r | keep r | postpone r | leave r | release r => exact hdrop r rfl
  | claim => exact List.mem_cons_of_mem _ hq
  | recover => exact absurd rfl hop
  | same | insert | submit | replace | delete | purge => exact hq

end Ledger

namespace System

open LawfulStore (ledger)

variable {σ W : Type} [QueueStore σ] {w : Wiring W} {s s' s₀ : System σ W} {a : Action} {l : Lane}
  {x : Record}

/-- While a worker had the record in hand, a submission replaced it. -/
def ReplacedInHand (w : Wiring W) (s₀ : System σ W) (as : List Action) (l : Lane) (x : Record) : Prop :=
  ∃ bs b u c, bs ++ [b] <+: as ∧ s₀.steps w bs = some u ∧ (u.workers.get l).record? = some x ∧
    u.operation? b = some (.submit c .replace) ∧ c.identity = x.identity

theorem ReplacedInHand.snoc {as : List Action} (h : ReplacedInHand w s₀ as l x) (a : Action) :
    ReplacedInHand w s₀ (as ++ [a]) l x := by
  obtain ⟨bs, b, u, c, hpre, hu⟩ := h
  exact ⟨bs, b, u, c, hpre.trans (List.prefix_append as [a]), hu⟩

/-- While the storage serves, whoever gives up a claim has done with the record. -/
theorem Served.letsGo (h : s.Served a) (hstep : s.step w a = some s') {op : Operation}
    (hop : s.operation? a = some op) (hx : op.settled? = some x) :
    ∃ l, (s.workers.get l).record? = some x ∧ (s'.workers.get l).record? ≠ some x := by
  obtain ⟨l, f, ha, ⟨t, hp, rfl⟩ | ⟨hp, -⟩⟩ := settling_of_settled? hop hx
  · refine ⟨l, by rw [hp]; rfl, fun hx' => ?_⟩
    obtain ⟨signal, fault, rfl⟩ := Action.eq_work_of_lane? ha
    obtain ⟨y, hy⟩ := h.answered _ hop
    have hown := worker_own hstep
    simp only [operation?, hp, Point.operation?] at hop
    rw [hp] at hown
    rcases Point.settle_failed hown hx' with hnone | ⟨e, he⟩
    · rw [hnone] at hop
      cases hop
    · rw [he] at hy
      cases hy
  · refine ⟨l, by rw [hp]; rfl, fun hx' => ?_⟩
    obtain ⟨signal, fault, rfl⟩ := Action.eq_work_of_lane? ha
    have hown := worker_own hstep
    rw [hp] at hown
    simp only [Point.step, Option.some.injEq, Prod.mk.injEq] at hown
    rw [← hown.1] at hx'
    cases hx'

/-- Once a record has been settled nobody has it in hand. -/
theorem Settles.nobody {f : Fate} (h : Settles w s s' l x f) (hapart : s.Apart)
    (hstep : s.step w a = some s') : ∀ m y, (s'.workers.get m).record? = some y → y.seq ≠ x.seq := by
  obtain ⟨t, ht⟩ := h.settling
  have hx : (s.workers.get l).record? = some x := by rw [ht]; rfl
  intro m y hy hq
  by_cases hm : m = l
  · rw [hm, h.telling] at hy
    cases hy
  · -- the step was that of the worker that has settled the record
    have ha : a.lane? = some l := by
      by_contra ha
      have hsame := worker_beside hstep ha
      rw [ht, h.telling] at hsame
      cases hsame
    rw [worker_beside hstep fun he => hm (Option.some.inj (he.symm.trans ha))] at hy
    exact hm (hapart m l y x hy hx hq)

variable [LawfulStore σ]

/-- A submission that replaces the record in hand leaves its place vacant. -/
theorem Served.vacant_of_replace (h : s.Served a) (htidy : s.Tidy) (hx : (s.workers.get l).record? = some x)
    {c : NewCommand} (hop : s.operation? a = some (.submit c .replace)) (hid : c.identity = x.identity)
    (hstep : s.step w a = some s') : (ledger s'.shared.store).Vacant x.seq := by
  obtain ⟨y, hy⟩ := h.answered _ hop
  obtain ⟨sub, hsub, rfl⟩ := exists_of_map_eq_ok hy
  have hlaw := LawfulStore.submit htidy.sound c .replace s.shared.now
  rw [hsub] at hlaw
  rw [step_store hstep, hop]
  have hhand := htidy.inHand l x hx
  cases sub with
  | inserted r | replaced old r => exact (hlaw.vacant hhand hid rfl).2
  | kept | refused => cases hlaw.1

/-- Whatever is in hand is claimed, and stored unless it has been replaced. -/
def Secured (w : Wiring W) (s₀ : System σ W) (as : List Action) (s : System σ W) : Prop :=
  ∀ l x, (s.workers.get l).record? = some x → x.seq ∈ (ledger s.shared.store).claimed ∧
    ((ledger s.shared.store).Keeps x ∨
      ReplacedInHand w s₀ as l x ∧ (ledger s.shared.store).Vacant x.seq)

namespace Secured

/-- A record that a claim puts into a hand is claimed and stored. -/
theorem of_claim (htidy : s.Tidy) (hstep : s.step w a = some s')
    (hop : s.operation? a = some (.nextEligible l))
    (hclaim : (QueueStore.nextEligible l s.shared.now s.shared.store).1 = .ok (some x)) :
    x.seq ∈ (ledger s'.shared.store).claimed ∧ (ledger s'.shared.store).Keeps x := by
  have hlaw := LawfulStore.nextEligible htidy.sound l s.shared.now
  rw [hclaim] at hlaw
  obtain ⟨row, hfirst, hshows, hl⟩ := hlaw
  have hledger : ledger s'.shared.store = (ledger s.shared.store).claim x.seq := by
    rw [step_store hstep, hop]
    exact hl
  rw [hledger]
  exact ⟨List.mem_cons_self, row, hfirst.mem, hshows⟩

/-- While the storage serves, nobody but the worker that has the record in hand gives up its claim. -/
theorem claimed_step (htidy : s.Tidy) (hapart : s.Apart) (hserved : s.Served a)
    (hstep : s.step w a = some s') (hold : (s.workers.get l).record? = some x)
    (hx : (s'.workers.get l).record? = some x) (hclaimed : x.seq ∈ (ledger s.shared.store).claimed) :
    x.seq ∈ (ledger s'.shared.store).claimed := by
  rw [step_store hstep]
  cases hop : s.operation? a with
  | none => exact hclaimed
  | some op =>
    have hsp := htidy.spawned_of_record hold
    refine (LawfulStore.edit_run htidy.sound op _).claimed
      (fun he => htidy.operation?_ne_recover hsp a (he ▸ hop)) hclaimed fun y hy hq => ?_
    obtain ⟨m, hm, hgone⟩ := hserved.letsGo hstep hop hy
    obtain rfl := hapart m l y x hm hold hq
    obtain rfl := Option.some.inj (hm.symm.trans hold)
    exact hgone hx

theorem step {as : List Action} (hrun : s₀.steps w as = some s) (hsec : Secured w s₀ as s)
    (htidy : s.Tidy) (hapart : s.Apart) (hserved : s.Served a) (hstep : s.step w a = some s') :
    Secured w s₀ (as ++ [a]) s' := by
  intro l x hx
  rcases comesBy_cases hstep hx with hold | ⟨-, hop, hclaim⟩
  · have hsp := htidy.spawned_of_record hold
    obtain ⟨hclaimed, hstored⟩ := hsec l x hold
    refine ⟨claimed_step htidy hapart hserved hstep hold hx hclaimed, ?_⟩
    rcases hstored with hk | ⟨hrep, hv⟩
    · by_cases hdis : s.Displaces x a
      · cases hdis with
        | replaced hop hid =>
          exact .inr ⟨⟨as, a, s, _, List.prefix_rfl, hrun, hold, hop, hid⟩,
            hserved.vacant_of_replace htidy hold hop hid hstep⟩
        | cleared _ hfree => exact absurd hclaimed hfree
      · rcases htidy.keeps_step hk hstep hdis with hk' | ⟨m, y, f, t, ha, hp, hq⟩
        · exact .inl hk'
        · have hm : (s.workers.get m).record? = some y := by
            rw [hp]
            rfl
          obtain rfl := hapart m l y x hm hold hq
          obtain rfl := Option.some.inj (hm.symm.trans hold)
          obtain ⟨row, hrow, hshows⟩ := hk
          exact .inl ⟨row, htidy.rows_of_unsettled hstep ha hp hx ▸ hrow, hshows⟩
    · exact .inr ⟨hrep.snoc a, htidy.vacant_step hsp hv hstep⟩
  · exact (of_claim htidy hstep hop hclaim).imp_right .inl

theorem steps (htidy : s₀.Tidy) (h₀ : ∀ l, (s₀.workers.get l).record? = none) {as : List Action}
    (hrun : s₀.steps w as = some s) (hserved : Unfailing w s₀ as) : Secured w s₀ as s := by
  have hapart : s₀.Apart := by
    intro l m x y hx
    rw [h₀ l] at hx
    cases hx
  refine steps_induction (P := fun as t => Unfailing w s₀ as → Secured w s₀ as t) ?_ ?_ hrun hserved
  · intro _ l x hx
    rw [h₀ l] at hx
    cases hx
  · intro as a t t' ht ih hstep hserved
    exact (ih hserved.init).step ht (htidy.steps ht) (htidy.apart_steps hapart ht)
      (hserved.last ht) hstep

end Secured

/-! ## After the settlement -/

/-- What waits for its next attempt goes on to wait while the worker of its lane stands still, unless
it is displaced. -/
theorem waits_beside (htidy : s₀.Tidy) (hw : s₀.Waits x) (hlane : x.lane = l)
    (hn : ∀ m y, (s₀.workers.get m).record? = some y → y.seq ≠ x.seq) {as : List Action}
    (h : ∀ d ∈ as, d.lane? ≠ some l) (hrun : s₀.steps w as = some s) :
    s.Waits x ∨ DisplacedIn w s₀ as x := by
  refine (htidy.waits_or_takenIn hw hn hrun).imp_right ?_
  rintro ⟨bs, b, u, u', hpre, hu, -, ⟨hk, hfree⟩, htakes⟩
  refine .of_keeps hpre hu hk ?_
  cases htakes with
  | claimed hop =>
    obtain ⟨signal, fault, t, rfl, -⟩ := operation?_eq_nextEligible hop
    have hmem : Action.work x.lane signal fault ∈ as := hpre.subset (by simp)
    exact absurd (congrArg some hlane) (h _ hmem)
  | replaced hop hid => exact .replaced hop hid
  | cleared hop => exact .cleared hop hfree

/-- A worker that is about to announce a retry has settled the record that the event names, while the
storage serves, and the number is that of the attempt which has failed. -/
theorem settles_of_retrying (w : Wiring W) {store : σ} (hs : (ledger store).Sound) (now : Instant)
    (world : W) {as : List Action} (hrun : (System.init w.config store now world).steps w as = some s)
    (hserved : Unfailing w (.init w.config store now world) as) {lane : Lane} {i tag : String}
    {n : UInt32} {d : UInt64} {reason : String}
    (hp : s.workers.get l = .publish lane (.retrying i tag n d reason)) :
    ∃ x f bs u b u' ds t, LetGo w (.init w.config store now world) as s l x f bs u b u' ds ∧
      Settles w u u' l x f ∧ f.event = .retrying i tag n d reason ∧ lane = x.lane ∧
      i = x.identity ∧ n = x.attempt ∧ f.retry = some (n, t) ∧
      d = .ofNat (w.config.retry.delayMs x.identity x.attempt.toNat) ∧
      ((ledger u.shared.store).Keeps x ∨ ReplacedInHand w (.init w.config store now world) bs l x ∧
        (ledger u.shared.store).Vacant x.seq) := by
  have htidy := Tidy.init (W := W) w.config hs now world
  have h₀ := workers_init w.config store now world
  have hnone := record?_init w.config store now world
  obtain ⟨x, f, bs, u, b, u', ds, hgo, hlane, hevent⟩ := exists_letGo h₀ hrun hp
  obtain ⟨ms, hep⟩ := hgo.episode hnone
  have hbs : Unfailing w (.init w.config store now world) (bs ++ b :: ds) := hgo.split ▸ hserved
  -- no claim is given up
  have hset : Settles w u u' l x f := by
    refine hgo.how.resolve_right fun hrel => ?_
    refine Unfailing.not_release (q := x.seq) (fun m y g hm => ?_) hgo.before hbs.left l x f hrel rfl
    rw [h₀ m] at hm
    cases hm
  obtain ⟨⟨n', t⟩, hretry⟩ : ∃ nt, f.retry = some nt := by
    have hterm := hep.isTerminal
    rw [← hevent] at hterm
    cases hf : f.retry with
    | none => rw [hf] at hterm; cases hterm
    | some nt => exact ⟨nt, rfl⟩
  obtain ⟨reason', -, -, rfl, -, hf⟩ := hep.of_retry hretry
  rw [hf] at hevent
  cases hevent
  exact ⟨x, f, bs, u, b, u', ds, t, hgo, hset, hf, hlane, rfl, rfl, hretry, rfl,
    (Secured.steps htidy hnone hgo.before hbs.left l x hgo.record?).2⟩

/-- **What the announcement of a retry tells**, while the storage serves. Take any run of a scheduler,
with any submissions, clearings and pauses. A worker that is about to announce a retry has settled
the record that the event names, and the number is that of the attempt which has failed. If the record
was stored until then, it waits for its next attempt from then on, with that number of failed attempts,
unless it is displaced. Otherwise it had been replaced while it was executed, nothing is stored at its
place, and the retry that is announced never happens. -/
theorem retrying_told (w : Wiring W) {store : σ} (hs : (ledger store).Sound) (now : Instant) (world : W)
    {as : List Action} (hrun : (System.init w.config store now world).steps w as = some s)
    (hserved : Unfailing w (.init w.config store now world) as) {lane : Lane} {i tag : String}
    {n : UInt32} {d : UInt64} {reason : String}
    (hp : s.workers.get l = .publish lane (.retrying i tag n d reason)) :
    ∃ x f bs u b u' ds t, LetGo w (.init w.config store now world) as s l x f bs u b u' ds ∧
      Settles w u u' l x f ∧ f.event = .retrying i tag n d reason ∧ lane = x.lane ∧
      i = x.identity ∧ n = x.attempt ∧ f.retry = some (n, t) ∧
      ((ledger u.shared.store).Keeps x ∧ u'.Waits (x.postponed n t) ∧
          (s.Waits (x.postponed n t) ∨ DisplacedIn w u' ds (x.postponed n t)) ∨
        ReplacedInHand w (.init w.config store now world) bs l x ∧
          (ledger u.shared.store).Vacant x.seq ∧ (ledger s.shared.store).Vacant x.seq) := by
  have htidy := Tidy.init (W := W) w.config hs now world
  obtain ⟨x, f, bs, u, b, u', ds, t, hgo, hset, hf, hlane, hi, hn, hretry, -, hstored⟩ :=
    settles_of_retrying w hs now world hrun hserved hp
  refine ⟨x, f, bs, u, b, u', ds, t, hgo, hset, hf, hlane, hi, hn, hretry, ?_⟩
  have hu := htidy.steps hgo.before
  have hapart : u.Apart := htidy.apart_steps (apart_init _ _ _ _) hgo.before
  rcases hstored with hk | ⟨hrep, hv⟩
  · have hw := hset.waits hu hretry hk
    have hlane' : (x.postponed n t).lane = l := (hset.inHand hu).lane
    exact .inl ⟨hk, hw, waits_beside (hu.step hgo.step) hw hlane' (hset.nobody hapart hgo.step)
      hgo.beside hgo.after⟩
  · have hsp := hu.spawned_of_record hgo.record?
    have hv' := hu.vacant_step hsp hv hgo.step
    have hsp' := hu.spawned_step hsp hgo.step
    exact .inr ⟨hrep, hv, ((hu.step hgo.step).vacant_steps hsp' hv' hgo.after).2⟩

/-- The first attempt has failed, and the next one is about to be announced. -/
def retriedOnce : List Action :=
  Trial.upToStore ++ .advance 1 none :: List.replicate 8 Trial.turn

/-- The record waits for its second attempt. -/
theorem retrying_told_retriedOnce :
    ∃ (s : System MemoryStore Unit) (lane : Lane) (x : Record) (t : Instant),
      (Trial.init fun _ => .recoverable "x").steps (Trial.wiring fun _ => .recoverable "x") retriedOnce =
          some s ∧
        s.workers.get .general = .publish lane (.retrying "f" "Flaky" 1 5 "x") ∧
        x.identity = "f" ∧ x.attempt = 1 ∧ s.Waits (x.postponed 1 t) := by
  have hrun : ((Trial.init fun _ => .recoverable "x").steps (Trial.wiring fun _ => .recoverable "x")
      retriedOnce).any fun s =>
        (s.workers.get .general).record? = none ∧
          (s.workers.get .general).toTell? = some (.retrying "f" "Flaky" 1 5 "x") ∧
          ((Trial.init fun _ => .recoverable "x").operations
            (Trial.wiring fun _ => .recoverable "x") retriedOnce).all
              fun op => !op.mayDisplace := by decide +kernel
  obtain ⟨s, hs, hend⟩ := (Option.any_eq_true _ _).1 hrun
  obtain ⟨hnone, htell, hops⟩ := of_decide_eq_true hend
  obtain ⟨lane, hp⟩ := Point.eq_publish_of_toTell? htell hnone
  have hquiet := fun op hop => by simpa using List.all_eq_true.1 hops op hop
  have hempty : (ledger MemoryStore.empty).Sound := Ledger.Sound.empty
  have hfaultless : ∀ b ∈ retriedOnce, b.fault? = none := by decide
  obtain ⟨x, f, bs, u, b, u', ds, t, hgo, -, -, -, hi, hn, -, hend⟩ :=
    retrying_told _ hempty 0 () hs (unfailing_of_memory hfaultless) hp
  refine ⟨s, lane, x, t, hs, hp, hi.symm, hn.symm, ?_⟩
  rcases hend with ⟨-, -, hw | hdis⟩ | ⟨⟨cs, d, v, c, hpre, hv, -, hop, -⟩, -⟩
  · exact hw
  · have hall := hdis.append hgo.steps
    rw [List.append_assoc, List.singleton_append, ← hgo.split] at hall
    exact absurd hall (not_displacedIn hquiet)
  · have hpre' : cs ++ [d] <+: retriedOnce := hpre.trans ⟨b :: ds, hgo.split.symm⟩
    cases hquiet _ (mem_operations hpre' hv hop)

/-- While the first execution goes on its record is replaced; then it fails, which is told. -/
def replacedMeanwhile : List Action :=
  upToReplacement ++ .advance 2 none :: List.replicate 3 Trial.turn

/-- A retry has been announced, and what is stored is another record that has never failed. -/
theorem retrying_replacedMeanwhile :
    (∀ b ∈ replacedMeanwhile, b.fault? = none) ∧
      ((System.init replacing.config MemoryStore.empty 0 ()).steps replacing replacedMeanwhile).map
          (fun s => (s.shared.executions,
            s.shared.store.records.map fun r => (r.identity, r.seq, r.retryCount))) =
        some ([.started "f" "Flaky" 1, .retrying "f" "Flaky" 1 5 "x"], [("f", 2, 0)]) := by
  refine ⟨by decide, ?_⟩
  decide +kernel

end System

end LaneQueue
