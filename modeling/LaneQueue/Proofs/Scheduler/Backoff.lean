import LaneQueue.Proofs.Scheduler.Claims
import LaneQueue.Proofs.Store.Memory
/-!
# Sleeping until a backoff elapses

Before a worker waits it asks its store twice: for a record that is due, and then for the next
instant at which one falls due. Each question reads the clock. A record that waits after a failed
attempt is timed if it falls due after the second reading, and it would have been claimed had it been
due at the first. A record that falls due between the two readings is neither. How long it is to the
instant is measured by a third reading, and the timer is set at a fourth, so that it goes off late by
what lies between these two.
-/
namespace LaneQueue

namespace Ledger

/-- A row of a lane that waits, unclaimed, after a failed attempt. -/
structure Backlog (l : Ledger) (lane : Lane) (row : Row) : Prop where
  mem : row ∈ l.rows
  waiting : l.isWaiting lane row = true
  retried : row.retries ≠ 0

variable {l l' : Ledger}

/-- The backlog of a lane grows only by what is settled in that lane: a fresh record has not failed
yet. -/
theorem Backlog.of_waiting {lane : Lane} {row : Row} {now : Instant} (hb : l'.Backlog lane row)
    (h : (row ∈ l.rows ∧ l.isWaiting lane row = true) ∨ ∃ c, row = .ofRecord (l.fresh c now)) :
    l.Backlog lane row := by
  rcases h with ⟨hrow, hw⟩ | ⟨c, rfl⟩
  · exact ⟨hrow, hw, hb.retried⟩
  · exact absurd (Row.shows_ofRecord (l.fresh c now)).retryCount hb.retried

/-- Nothing of the backlog of a lane was due at an instant. -/
def PassedOver (l : Ledger) (lane : Lane) (t : Instant) : Prop :=
  ∀ row, l.Backlog lane row → t < row.availableAt

/-- Whatever of the backlog of a lane falls due after an instant does so at another or later. -/
def TimedFrom (l : Ledger) (lane : Lane) (t : Instant) (wakeAt : Option Instant) : Prop :=
  ∀ row, l.Backlog lane row → Row.isInstant row.availableAt → t < row.availableAt →
    ∃ x, wakeAt = some x ∧ x ≤ row.availableAt

theorem PassedOver.mono {lane : Lane} {t : Instant} (h : l.PassedOver lane t)
    (hb : ∀ row, l'.Backlog lane row → l.Backlog lane row) : l'.PassedOver lane t :=
  fun row hr => h row (hb row hr)

theorem TimedFrom.mono {lane : Lane} {t : Instant} {wakeAt : Option Instant}
    (h : l.TimedFrom lane t wakeAt) (hb : ∀ row, l'.Backlog lane row → l.Backlog lane row) :
    l'.TimedFrom lane t wakeAt :=
  fun row hr => h row (hb row hr)

/-- The next instant that a store answers is no later than any at which something falls due then. -/
theorem timedFrom_of_awaits {lane : Lane} {now : Instant} {t : Option Instant}
    (h : l.Awaits lane now (.ok t)) (hnow : Row.isInstant now) : l.TimedFrom lane now t := by
  intro row hb hrow hlt
  have hmem : row.availableAt ∈ l.futures lane now :=
    List.mem_map.2 ⟨row, List.mem_filter.2 ⟨hb.mem, by simpa [hb.waiting] using hlt⟩, rfl⟩
  cases hmin : (l.futures lane now).min? with
  | none =>
    rw [List.min?_eq_none_iff.1 hmin] at hmem
    cases hmem
  | some m =>
    obtain ⟨hm, hle⟩ := List.min?_eq_some_iff.1 hmin
    have hmle := hle _ hmem
    have hnm : now < m := by
      obtain ⟨x, hx, rfl⟩ := List.mem_map.1 hm
      have := (List.mem_filter.1 hx).2
      simp only [Bool.and_eq_true, decide_eq_true_eq] at this
      exact this.2
    -- between two instants of the calendar there are only such
    have hcal : Row.isInstant m = true := by
      simp only [Row.isInstant, Instant.isDated, Bool.and_eq_true, decide_eq_true_eq] at hnow hrow ⊢
      exact ⟨Int.le_trans hnow.1 (Int.le_of_lt hnm), Int.le_trans hmle hrow.2⟩
    rcases h with h | ⟨-, x, hx, hn⟩
    · exact ⟨m, h.trans hmin, hmle⟩
    · rw [hmin] at hx
      rw [← Option.some.inj hx, hcal] at hn
      cases hn

end Ledger

/-! ## Steps beside a worker that waits -/

namespace Point

variable {W : Type}

def isClaim : Point W → Bool
  | claim _ => true
  | _ => false

def isAskWake : Point W → Bool
  | askWake => true
  | _ => false

def isMeasure : Point W → Bool
  | .measure _ => true
  | _ => false

def isArm : Point W → Bool
  | arm _ => true
  | _ => false

end Point

namespace System

open LawfulStore (ledger isOpen)

variable {σ W : Type} {w : Wiring W} {s s' s₀ : System σ W} {l : Lane}

variable [QueueStore σ] [LawfulStore σ]

/-- While a worker has nothing in hand, no step adds to the backlog of its lane. -/
theorem Tidy.backlog_step (h : s.Tidy) (hsp : (s.shared.cell l).spawned = true)
    (hn : (s.workers.get l).record? = none) {a : Action} (hstep : s.step w a = some s') {row : Row}
    (hb : (ledger s'.shared.store).Backlog l row) : (ledger s.shared.store).Backlog l row :=
  hb.of_waiting (h.waiting_step hsp hn hstep hb.mem hb.waiting)

theorem Tidy.spawned_of_isIdling (h : s.Tidy) (hi : (s.workers.get l).isIdling = true) :
    (s.shared.cell l).spawned = true :=
  h.spawned_of_ne_top fun htop => by rw [htop] at hi; cases hi

theorem isOpen_step (ho : isOpen s.shared.store) {a : Action} (hstep : s.step w a = some s') :
    isOpen s'.shared.store := by
  rw [step_store hstep]
  cases s.operation? a with
  | none => exact ho
  | some op => exact (LawfulStore.isOpen_run op _ _).trans ho

/-! ## The two questions -/

/-- A claim that finds nothing has passed over the whole backlog. -/
theorem passedOver_of_claim (h : s.Tidy) {t : Try} {signal : Signal} {fault : Option QueueError}
    (hp : s.workers.get l = .claim t) (hstep : s.step w (.work l signal fault) = some s')
    (hs' : s'.workers.get l = .showIdle) :
    (ledger s'.shared.store).PassedOver l s.shared.now := by
  obtain ⟨hsame, hnone⟩ := h.claim_none hp hstep hs'
  rw [hsame]
  intro row hb
  have hdue := hnone row hb.mem
  unfold Ledger.isDue at hdue
  rw [hb.waiting, Bool.true_and, decide_eq_false_iff_not] at hdue
  exact Int.not_le.1 hdue

/-- An answered question times what falls due after it. -/
theorem timedFrom_of_askWake (h : s.Tidy) (ho : isOpen s.shared.store)
    (hp : s.workers.get l = .askWake) {signal : Signal}
    (hstep : s.step w (.work l signal none) = some s') :
    ∃ t, s'.workers.get l = .measure t ∧ (Row.isInstant s.shared.now →
      (ledger s'.shared.store).TimedFrom l s.shared.now t) := by
  have hstore := step_store hstep
  have hask := worker_own hstep
  rw [hp] at hask
  have hop : s.operation? (.work l signal none) = some (.nextWakeAt l) := by
    simp only [operation?, hp]
    rfl
  rw [hop] at hstore
  change s'.shared.store = s.shared.store at hstore
  obtain ⟨t, ht⟩ := LawfulStore.wakes ho l s.shared.now
  have hlaw := LawfulStore.nextWakeAt h.sound l s.shared.now
  rw [ht] at hlaw
  simp only [Point.step, Shared.access, ht, Option.some.injEq, Prod.mk.injEq] at hask
  rw [hstore, ← hask.1]
  exact ⟨t, rfl, Ledger.timedFrom_of_awaits hlaw⟩

/-! ## What a worker that waits has found out -/

/-- What the last claim of a worker has found out: at the reading of its clock nothing of the backlog
was due. -/
structure Claimed (w : Wiring W) (s₀ : System σ W) (l : Lane) (as : List Action) (s : System σ W)
    (t : Instant) : Prop where
  at_ : lastAt? w l Point.isClaim as s₀ = some t
  le_now : t ≤ s.shared.now
  passedOver : (ledger s.shared.store).PassedOver l t

/-- What the question after it has found out: when the next record falls due. -/
structure Asked (w : Wiring W) (s₀ : System σ W) (l : Lane) (as : List Action) (s : System σ W)
    (wakeAt : Option Instant) (t u : Instant) : Prop where
  claimed : Claimed w s₀ l as s t
  at_ : lastAt? w l Point.isAskWake as s₀ = some u
  start_le : s₀.shared.now ≤ u
  le : t ≤ u
  le_now : u ≤ s.shared.now
  timed : Row.isInstant u → (ledger s.shared.store).TimedFrom l u wakeAt

/-- How long it was to that instant when it was measured; nothing remains of an instant that is past. -/
structure Measured (w : Wiring W) (s₀ : System σ W) (l : Lane) (as : List Action) (s : System σ W)
    (sleepMs : Option Nat) (wakeAt : Option Instant) (t u v : Instant) : Prop where
  asked : Asked w s₀ l as s wakeAt t u
  at_ : lastAt? w l Point.isMeasure as s₀ = some v
  le : u ≤ v
  le_now : v ≤ s.shared.now
  eq : sleepMs = wakeAt.map fun x => (x - v).toNat

/-- The timer runs from when it was set. -/
structure Armed (w : Wiring W) (s₀ : System σ W) (l : Lane) (as : List Action) (s : System σ W)
    (timer : Option Instant) (sleepMs : Option Nat) (wakeAt : Option Instant) (t u v z : Instant) :
    Prop where
  measured : Measured w s₀ l as s sleepMs wakeAt t u v
  at_ : lastAt? w l Point.isArm as s₀ = some z
  le : v ≤ z
  le_now : z ≤ s.shared.now
  eq : timer = sleepMs.map fun ms => z + ms

section Keeping

variable {as : List Action} {a : Action} {timer wakeAt : Option Instant} {sleepMs : Option Nat}
  {t u v z : Instant}

theorem Claimed.keep (hc : Claimed w s₀ l as s t) (h : s.Tidy) (hrun : s₀.steps w as = some s)
    (hstep : s.step w a = some s') (hi : (s.workers.get l).isIdling = true)
    (hq : a.lane? = some l → (s.workers.get l).isClaim = false) : Claimed w s₀ l (as ++ [a]) s' t where
  at_ := lastAt?_keep hrun hstep hq hc.at_
  le_now := Int.le_trans hc.le_now (h.now_le_step hstep)
  passedOver := hc.passedOver.mono fun _ => h.backlog_step (h.spawned_of_isIdling hi)
    (Point.record?_of_isIdling hi) hstep

theorem Asked.keep (hc : Asked w s₀ l as s wakeAt t u) (h : s.Tidy) (hrun : s₀.steps w as = some s)
    (hstep : s.step w a = some s') (hi : (s.workers.get l).isIdling = true)
    (hq : a.lane? = some l →
      (s.workers.get l).isClaim = false ∧ (s.workers.get l).isAskWake = false) :
    Asked w s₀ l (as ++ [a]) s' wakeAt t u where
  claimed := hc.claimed.keep h hrun hstep hi fun ha => (hq ha).1
  at_ := lastAt?_keep hrun hstep (fun ha => (hq ha).2) hc.at_
  start_le := hc.start_le
  le := hc.le
  le_now := Int.le_trans hc.le_now (h.now_le_step hstep)
  timed hu := (hc.timed hu).mono fun _ => h.backlog_step (h.spawned_of_isIdling hi)
    (Point.record?_of_isIdling hi) hstep

theorem Measured.keep (hc : Measured w s₀ l as s sleepMs wakeAt t u v) (h : s.Tidy)
    (hrun : s₀.steps w as = some s) (hstep : s.step w a = some s')
    (hi : (s.workers.get l).isIdling = true)
    (hq : a.lane? = some l → ((s.workers.get l).isClaim = false ∧
      (s.workers.get l).isAskWake = false) ∧ (s.workers.get l).isMeasure = false) :
    Measured w s₀ l (as ++ [a]) s' sleepMs wakeAt t u v where
  asked := hc.asked.keep h hrun hstep hi fun ha => (hq ha).1
  at_ := lastAt?_keep hrun hstep (fun ha => (hq ha).2) hc.at_
  le := hc.le
  le_now := Int.le_trans hc.le_now (h.now_le_step hstep)
  eq := hc.eq

theorem Armed.keep (hc : Armed w s₀ l as s timer sleepMs wakeAt t u v z) (h : s.Tidy)
    (hrun : s₀.steps w as = some s) (hstep : s.step w a = some s')
    (hi : (s.workers.get l).isIdling = true) (ha : a.lane? ≠ some l) :
    Armed w s₀ l (as ++ [a]) s' timer sleepMs wakeAt t u v z where
  measured := hc.measured.keep h hrun hstep hi fun he => absurd he ha
  at_ := lastAt?_keep hrun hstep (fun he => absurd he ha) hc.at_
  le := hc.le
  le_now := Int.le_trans hc.le_now (h.now_le_step hstep)
  eq := hc.eq

end Keeping

/-- The readings of the clock behind a wait, and what they say about the backlog. -/
structure Watch (w : Wiring W) (s₀ : System σ W) (l : Lane) (as : List Action) (s : System σ W) :
    Prop where
  claimed : s.workers.get l = .showIdle ∨ s.workers.get l = .askWake →
    ∃ t, Claimed w s₀ l as s t
  asked : ∀ wakeAt, s.workers.get l = .measure wakeAt → ∃ t u, Asked w s₀ l as s wakeAt t u
  measured : ∀ sleepMs, s.workers.get l = .arm sleepMs →
    ∃ wakeAt t u v, Measured w s₀ l as s sleepMs wakeAt t u v
  parked : ∀ timer, s.workers.get l = .idle timer →
    ∃ sleepMs wakeAt t u v z, Armed w s₀ l as s timer sleepMs wakeAt t u v z

/-- A step of another party takes nothing from what a worker has found out. -/
theorem Watch.beside {as : List Action} (hw : Watch w s₀ l as s) (h : s.Tidy)
    (hrun : s₀.steps w as = some s) {a : Action} (hstep : s.step w a = some s')
    (ha : a.lane? ≠ some l) : Watch w s₀ l (as ++ [a]) s' := by
  have hsame := worker_beside hstep ha
  constructor
  · intro hp
    rw [hsame] at hp
    obtain ⟨t, hc⟩ := hw.claimed hp
    have hi : (s.workers.get l).isIdling = true := by rcases hp with hp | hp <;> rw [hp] <;> rfl
    exact ⟨t, hc.keep h hrun hstep hi fun he => absurd he ha⟩
  · intro wakeAt hp
    rw [hsame] at hp
    obtain ⟨t, u, hc⟩ := hw.asked wakeAt hp
    exact ⟨t, u, hc.keep h hrun hstep (by rw [hp]; rfl) fun he => absurd he ha⟩
  · intro sleepMs hp
    rw [hsame] at hp
    obtain ⟨wakeAt, t, u, v, hc⟩ := hw.measured sleepMs hp
    exact ⟨wakeAt, t, u, v, hc.keep h hrun hstep (by rw [hp]; rfl) fun he => absurd he ha⟩
  · intro timer hp
    rw [hsame] at hp
    obtain ⟨sleepMs, wakeAt, t, u, v, z, hc⟩ := hw.parked timer hp
    exact ⟨sleepMs, wakeAt, t, u, v, z, hc.keep h hrun hstep (by rw [hp]; rfl) ha⟩

/-- A step of the worker itself finds out what it is about to wait for. -/
theorem Watch.own {as : List Action} (hw : Watch w s₀ l as s) (h : s.Tidy)
    (ho : isOpen s.shared.store) (hstart : s₀.shared.now ≤ s.shared.now)
    (hrun : s₀.steps w as = some s) {signal : Signal}
    (hstep : s.step w (.work l signal none) = some s') :
    Watch w s₀ l (as ++ [.work l signal none]) s' := by
  have hnow := h.now_le_step hstep
  have hat : ∀ q : Point W → Bool, q (s.workers.get l) = true →
      lastAt? w l q (as ++ [.work l signal none]) s₀ = some s.shared.now :=
    fun q hq => by rw [lastAt?_snoc l q hrun hstep, if_pos ⟨rfl, hq⟩]
  obtain ⟨hshow, hask, hmeasure, harm, hidle⟩ := Point.step_toWait (worker_own hstep)
  constructor
  · rintro (hs' | hs')
    · -- the claim that has just found nothing
      obtain ⟨t, ht⟩ := hshow hs'
      exact ⟨s.shared.now, hat _ (by rw [ht]; rfl), hnow, passedOver_of_claim h ht hstep hs'⟩
    · have hp := hask hs'
      obtain ⟨t, hc⟩ := hw.claimed (.inl hp)
      exact ⟨t, hc.keep h hrun hstep (by rw [hp]; rfl) fun _ => by rw [hp]; rfl⟩
  · intro wakeAt hs'
    have hp := hmeasure wakeAt hs'
    obtain ⟨t, hc⟩ := hw.claimed (.inr hp)
    obtain ⟨x, hx, htimed⟩ := timedFrom_of_askWake h ho hp hstep
    cases hs'.symm.trans hx
    exact ⟨t, s.shared.now, hc.keep h hrun hstep (by rw [hp]; rfl) fun _ => by rw [hp]; rfl,
      hat _ (by rw [hp]; rfl), hstart, hc.le_now, hnow, htimed⟩
  · intro sleepMs hs'
    rcases harm sleepMs hs' with hp | ⟨wakeAt, hp⟩
    · -- the question was answered
      obtain ⟨x, hx, -⟩ := timedFrom_of_askWake h ho hp hstep
      cases hs'.symm.trans hx
    · obtain ⟨t, u, hc⟩ := hw.asked wakeAt hp
      have hown := worker_own hstep
      rw [hp, hs'] at hown
      simp only [Point.step, Option.some.injEq, Prod.mk.injEq, Point.arm.injEq] at hown
      exact ⟨wakeAt, t, u, s.shared.now,
        hc.keep h hrun hstep (by rw [hp]; rfl) fun _ => by rw [hp]; exact ⟨rfl, rfl⟩,
        hat _ (by rw [hp]; rfl), hc.le_now, hnow, hown.1.symm⟩
  · intro timer hs'
    obtain ⟨sleepMs, hp⟩ := hidle timer hs'
    obtain ⟨wakeAt, t, u, v, hc⟩ := hw.measured sleepMs hp
    have hown := worker_own hstep
    rw [hp, hs'] at hown
    simp only [Point.step, Option.some.injEq, Prod.mk.injEq, Point.idle.injEq] at hown
    exact ⟨sleepMs, wakeAt, t, u, v, s.shared.now,
      hc.keep h hrun hstep (by rw [hp]; rfl) fun _ => by rw [hp]; exact ⟨⟨rfl, rfl⟩, rfl⟩,
      hat _ (by rw [hp]; rfl), hc.le_now, hnow, hown.1.symm⟩

/-- Along a run without failures every wait is watched. -/
theorem watch_steps (h₀ : s₀.Tidy) (ho : isOpen s₀.shared.store)
    (hl : s₀.workers.get l = .top) {as : List Action} (hok : ∀ a ∈ as, a.fault? = none)
    (hrun : s₀.steps w as = some s) :
    s₀.shared.now ≤ s.shared.now ∧ isOpen s.shared.store ∧ Watch w s₀ l as s := by
  refine steps_induction (P := fun as t => (∀ a ∈ as, a.fault? = none) →
    s₀.shared.now ≤ t.shared.now ∧ isOpen t.shared.store ∧ Watch w s₀ l as t) ?_ ?_ hrun hok
  · intro _
    refine ⟨Int.le_refl _, ho, ?_, ?_, ?_, ?_⟩
    · intro hp
      rw [hl] at hp
      rcases hp with hp | hp <;> cases hp
    all_goals
      intro _ hp
      rw [hl] at hp
      cases hp
  · intro as a t t' ht ih hstep hok
    obtain ⟨hle, hopen, hw⟩ := ih fun b hb => hok b (List.mem_append_left _ hb)
    have htidy := h₀.steps ht
    refine ⟨Int.le_trans hle (htidy.now_le_step hstep), isOpen_step hopen hstep, ?_⟩
    by_cases ha : a.lane? = some l
    · cases a with
      | work m signal fault =>
        obtain rfl := Option.some.inj ha
        have hfault : fault = none := hok (.work m signal fault) (by simp)
        subst hfault
        exact hw.own htidy hopen hle ht hstep
      | request | advance | tick => cases ha
    · exact hw.beside htidy ht hstep ha

/-- A timer that is set after the time to an instant has been measured is late by what lies between. -/
theorem timer_le {x v z due : Int} (h : x ≤ due) : z + (x - v).toNat ≤ max due v + (z - v) := by omega

/-- Whether a timer goes off no later than a record falls due, or at once if it is due. -/
def Covers (timer : Option Instant) (r : Record) (now : Instant) : Prop :=
  ∃ x, timer = some x ∧ x ≤ max r.availableAt now

/-- **When a backoff is slept through.** Take any run in which no storage call fails, and a worker
that is parked at its end. Behind it are four readings of the clock: that of its last claim, that of
its last question when to wake up, that by which it measured how long that was, and that at which it
set its timer. Every unclaimed record of the lane that has been rescheduled falls due after the first
of them. If it falls due after the second one too there is a timer, which is late by no more than what
lies between the third and the fourth; so the record is covered where the timer is set at once. If it
does not, it is covered only by a timer that has gone off. -/
theorem covers_iff_due_after_askWake (w : Wiring W) {store : σ} (hs : (ledger store).Sound)
    (ho : isOpen store) {now : Instant} (hnow : Row.isInstant now) (world : W) {as : List Action}
    (hok : ∀ a ∈ as, a.fault? = none) {s : System σ W}
    (hrun : (System.init w.config store now world).steps w as = some s)
    (hend : Row.isInstant s.shared.now) {l : Lane} {timer : Option Instant}
    (hidle : s.workers.get l = .idle timer) :
    ∃ claimedAt askedAt measuredAt armedAt,
      lastAt? w l Point.isClaim as (.init w.config store now world) = some claimedAt ∧
      lastAt? w l Point.isAskWake as (.init w.config store now world) = some askedAt ∧
      lastAt? w l Point.isMeasure as (.init w.config store now world) = some measuredAt ∧
      lastAt? w l Point.isArm as (.init w.config store now world) = some armedAt ∧
      claimedAt ≤ askedAt ∧ askedAt ≤ measuredAt ∧ measuredAt ≤ armedAt ∧ armedAt ≤ s.shared.now ∧
      ∀ r, (ledger s.shared.store).Keeps r → r.lane = l →
        r.seq ∉ (ledger s.shared.store).claimed → r.retryCount ≠ 0 → Row.isInstant r.availableAt →
        claimedAt < r.availableAt ∧
          (askedAt < r.availableAt → ∃ x, timer = some x ∧
            x ≤ max r.availableAt measuredAt + (armedAt - measuredAt)) ∧
          (armedAt = measuredAt → (Covers timer r s.shared.now ↔
            askedAt < r.availableAt ∨ ∃ x, timer = some x ∧ x ≤ s.shared.now)) ∧
          (r.availableAt ≤ askedAt → (Covers timer r s.shared.now ↔
            ∃ x, timer = some x ∧ x ≤ s.shared.now)) := by
  have h₀ := Tidy.init (W := W) w.config hs now world
  have htop : (System.init w.config store now world).workers.get l = .top := PerLane.get_ofFn _ l
  obtain ⟨-, -, hw⟩ := watch_steps h₀ ho htop hok hrun
  obtain ⟨sleepMs, wakeAt, t, u, v, z, harmed⟩ := hw.parked timer hidle
  have hmeasured := harmed.measured
  have hasked := hmeasured.asked
  refine ⟨t, u, v, z, hasked.claimed.at_, hasked.at_, hmeasured.at_, harmed.at_, hasked.le,
    hmeasured.le, harmed.le, harmed.le_now, ?_⟩
  rintro r ⟨row, hrow, hshows⟩ hlane hq hretried hinst
  have hb : (ledger s.shared.store).Backlog l row := by
    refine ⟨hrow, Ledger.isWaiting_iff.2 ⟨hlane ▸ hshows.lane, hshows.seq ▸ hq⟩, ?_⟩
    rw [hshows.retryCount]
    exact hretried
  rw [← hshows.availableAt] at hinst
  have hcal : Row.isInstant u = true := by
    simp only [Row.isInstant, Instant.isDated, Bool.and_eq_true, decide_eq_true_eq] at hnow hend ⊢
    exact ⟨Int.le_trans hnow.1 hasked.start_le, Int.le_trans hasked.le_now hend.2⟩
  have hlate : u < r.availableAt → ∃ x, timer = some x ∧ x ≤ max r.availableAt v + (z - v) := by
    intro hlt
    rw [← hshows.availableAt] at hlt ⊢
    obtain ⟨x, hx, hle⟩ := hasked.timed hcal row hb hinst hlt
    exact ⟨z + (x - v).toNat, by rw [harmed.eq, hmeasured.eq, hx]; rfl, timer_le hle⟩
  have hgone : (∃ x, timer = some x ∧ x ≤ s.shared.now) → Covers timer r s.shared.now :=
    fun ⟨x, hx, hle⟩ => ⟨x, hx, Int.le_trans hle (Int.le_max_right _ _)⟩
  have hdue : r.availableAt ≤ u → Covers timer r s.shared.now →
      ∃ x, timer = some x ∧ x ≤ s.shared.now := by
    rintro hle ⟨x, hx, hxle⟩
    exact ⟨x, hx, by rwa [Int.max_eq_right (Int.le_trans hle hasked.le_now)] at hxle⟩
  refine ⟨hshows.availableAt ▸ hasked.claimed.passedOver row hb, hlate, fun hprompt => ?_,
    fun hle => ⟨hdue hle, hgone⟩⟩
  constructor
  · intro hcovers
    by_cases hlt : u < r.availableAt
    · exact .inl hlt
    · exact .inr (hdue (Int.not_lt.1 hlt) hcovers)
  · rintro (hlt | hpast)
    · obtain ⟨x, hx, hle⟩ := hlate hlt
      rw [hprompt, Int.sub_self, Int.add_zero] at hle
      exact ⟨x, hx, Int.le_trans hle
        (Int.max_le.2 ⟨Int.le_max_left _ _, Int.le_trans hmeasured.le_now (Int.le_max_right _ _)⟩)⟩
    · exact hgone hpast

def failing : UInt32 → Outcome := fun _ => .recoverable "x"

/-- A worker that waits takes up a command by its wake-up, fails it, and then finds nothing due. -/
def upToQuestion : List Action :=
  [.request .start, .advance 0 none, .advance 0 none, .advance 0 none] ++
    List.replicate 7 Trial.turn ++
    .request (.submit ⟨"Flaky", "f", .ok []⟩ {}) :: List.replicate 4 (.advance 1 none) ++
    .work .general .permit none :: List.replicate 14 Trial.turn

/-- The record of the command by then. -/
def failedOnce : Record :=
  { identity := "f", tag := "Flaky", lane := .general, priority := .default, payload := []
    bubbles := true, retryCount := 1, seq := 1, availableAt := 5 }

/-- A worker that asks at once, and sets its timer at once, is woken up in time for the second
attempt. -/
theorem covers_iff_due_after_askWake_prompt :
    ∃ s : System MemoryStore Unit,
      (Trial.init failing).steps (Trial.wiring failing) (upToQuestion ++ List.replicate 3 Trial.turn) =
          some s ∧
        s.shared.store.records = [failedOnce] ∧ Covers (some 5) failedOnce s.shared.now := by
  have hrun : ((Trial.init failing).steps (Trial.wiring failing)
      (upToQuestion ++ List.replicate 3 Trial.turn)).any fun s =>
        (s.workers.get .general).timer? = some (some 5) ∧ s.shared.now = 0 ∧
          s.shared.store.claimed = [] ∧ s.shared.store.records = [failedOnce] := by
    decide +kernel
  have hread : ∀ q ∈ [Point.isAskWake (W := Unit), Point.isMeasure, Point.isArm],
      lastAt? (Trial.wiring failing) .general q (upToQuestion ++ List.replicate 3 Trial.turn)
        (Trial.init failing) = some 0 := by decide +kernel
  have hok : ∀ a ∈ upToQuestion ++ List.replicate 3 Trial.turn, a.fault? = none := by decide +kernel
  obtain ⟨s, hs, hend⟩ := (Option.any_eq_true _ _).1 hrun
  obtain ⟨htimer, hnow, hclaimed, hrecords⟩ := of_decide_eq_true hend
  have hempty : (ledger MemoryStore.empty).Sound := Ledger.Sound.empty
  obtain ⟨t, u, v, z, -, hu, hv, hz, -, -, -, -, hcovers⟩ :=
    covers_iff_due_after_askWake (Trial.wiring failing) hempty rfl (by decide) () hok hs
      (by rw [hnow]; decide) (Point.timer?_eq_some.1 htimer)
  obtain rfl : u = 0 := Option.some.inj (hu.symm.trans (hread _ (by simp)))
  obtain rfl : v = 0 := Option.some.inj (hv.symm.trans (hread _ (by simp)))
  obtain rfl : z = 0 := Option.some.inj (hz.symm.trans (hread _ (by simp)))
  have hkeeps : (ledger s.shared.store).Keeps failedOnce := by
    refine ⟨.ofRecord failedOnce, MemoryStore.mem_rows.2 ⟨failedOnce, ?_, rfl⟩,
      Row.shows_ofRecord _⟩
    rw [hrecords]
    exact List.mem_singleton_self _
  have hfree : failedOnce.seq ∉ (ledger s.shared.store).claimed := by
    change failedOnce.seq ∉ s.shared.store.claimed
    rw [hclaimed]
    exact List.not_mem_nil
  obtain ⟨-, -, hiff, -⟩ := hcovers failedOnce hkeeps rfl hfree (by decide) (by decide)
  exact ⟨s, hs, hrecords, (hiff rfl).2 (.inl (by decide))⟩

/-- A worker that asks six milliseconds later waits for no instant, and the record, which fell due
at the fifth, waits for a wake-up that nothing gives. -/
theorem overslept_not_covered :
    ∃ s : System MemoryStore Unit,
      (Trial.init failing).steps (Trial.wiring failing)
          (upToQuestion ++ .tick 6 :: List.replicate 3 Trial.turn) = some s ∧
        (∀ a ∈ upToQuestion ++ .tick 6 :: List.replicate 3 Trial.turn, a.fault? = none) ∧
        s.workers.get .general = .idle none ∧ (s.shared.cell .general).paused = false ∧
        (s.shared.cell .general).permit = false ∧ (s.shared.cell .general).changed = false ∧
        s.shared.cancelled = false ∧ s.shared.store.records = [failedOnce] ∧
        s.shared.store.claimed = [] ∧ failedOnce.availableAt ≤ s.shared.now ∧
        ¬ Covers none failedOnce s.shared.now := by
  have hrun : ((Trial.init failing).steps (Trial.wiring failing)
      (upToQuestion ++ .tick 6 :: List.replicate 3 Trial.turn)).any fun s =>
        (s.workers.get .general).timer? = some none ∧ (s.shared.cell .general).paused = false ∧
          (s.shared.cell .general).permit = false ∧ (s.shared.cell .general).changed = false ∧
          s.shared.cancelled = false ∧ s.shared.store.records = [failedOnce] ∧
          s.shared.store.claimed = [] ∧ failedOnce.availableAt ≤ s.shared.now := by decide +kernel
  obtain ⟨s, hs, hend⟩ := (Option.any_eq_true _ _).1 hrun
  obtain ⟨htimer, hends⟩ := of_decide_eq_true hend
  obtain ⟨hpaused, hpermit, hchanged, hcancelled, hrecords, hclaimed, hdue⟩ := hends
  refine ⟨s, hs, by decide +kernel, Point.timer?_eq_some.1 htimer, hpaused, hpermit, hchanged,
    hcancelled, hrecords, hclaimed, hdue, ?_⟩
  rintro ⟨x, hx, -⟩
  cases hx

end System

end LaneQueue
