import LaneQueue.Proofs.Scheduler.Breakdown
import LaneQueue.Proofs.Scheduler.Claims
import LaneQueue.Proofs.Scheduler.Signals
import LaneQueue.Proofs.Store.Frame
import LaneQueue.Proofs.Store.Refusal
import LaneQueue.Scheduler.Run
/-!
# One command at a time in each lane

The workers are spawned once, whoever asks for a start and how often, so each lane has one worker, and
that executes one body at a time. All claims of the store are of records that the workers have in
hand, if nobody else claims: a record whose settlement has failed, before or after the store dropped
its claim, can be claimed again as soon as its worker has let go of it. A worker that breaks down never
lets go of its record (`claimed_without_worker`).
-/
namespace LaneQueue

namespace System

open LawfulStore (ledger)

variable {σ W : Type} {w : Wiring W} {s s' : System σ W} {l : Lane}

/-- The worker of a lane executes the body of the command of a record. -/
def Executes (s : System σ W) (l : Lane) (r : Record) : Prop :=
  (s.workers.get l).isInBody = true ∧ (s.workers.get l).record? = some r

variable [QueueStore σ] [LawfulStore σ]

/-- A settlement of a record that has to be made again, or leaves the record to be released, has
changed no row. -/
theorem Tidy.rows_of_unsettled (h : s.Tidy) {a : Action} (hstep : s.step w a = some s') {r : Record}
    {f : Fate} {t : Try} (ha : a.lane? = some l) (hp : s.workers.get l = .settle r f t)
    (hr : (s'.workers.get l).record? = some r) :
    (ledger s'.shared.store).rows = (ledger s.shared.store).rows := by
  cases a with
  | request | advance | tick => cases ha
  | work m signal fault =>
    obtain rfl : m = l := Option.some.inj ha
    have hstore := step_store hstep
    simp only [operation?, hp, Point.operation?] at hstore
    have hpoint := worker_own hstep
    rw [hp] at hpoint
    rw [hstore]
    rcases Point.settle_failed hpoint hr with hnone | ⟨e, he⟩
    · rw [hnone]
      rfl
    · cases hop : t.operation? fault (f.operation r) with
      | none => rfl
      | some op =>
        obtain ⟨rfl, -⟩ := Try.operation?_eq_some hop
        exact LawfulStore.rows_of_error h.sound he

/-- What goes on in the lanes at one moment. -/
structure Exclusive (w : Wiring W) (s : System σ W) : Prop where
  /-- Once the workers have been spawned nobody is about to spawn them. -/
  spawnedOnce : ∀ l, (s.shared.cell l).spawned = true →
    ∀ k c, s.callOf k = some c → c.isLaunching = false
  /-- A body is executed in the lane of its record, -/
  ownLane : ∀ l r, s.Executes l r → r.lane = l
  /-- and it is the only one there. -/
  alone : ∀ l m r x, s.Executes l r → s.Executes m x → r.lane = x.lane → l = m ∧ r = x
  /-- Every claimed place is that of a record which a worker of its lane processes, or has broken down
  over. -/
  processed : ∀ q ∈ (ledger s.shared.store).claimed, ∃ l r, r.seq = q ∧ r.lane = l ∧
    ((s.workers.get l).record? = some r ∧ (s.workers.get l).hasEnded = false ∨
      s.workers.get l = .collapsed r)
  /-- No stored record of a lane is claimed while its worker processes none, as at the top of its
  loop, -/
  free : ∀ l, (s.workers.get l).record? = none → ∀ row ∈ (ledger s.shared.store).rows,
    row.lane = l.index → row.seq ∉ (ledger s.shared.store).claimed
  /-- and what is due then is not passed over. -/
  claimable : ∀ l, (s.workers.get l).record? = none → ∀ now, ∀ row ∈ (ledger s.shared.store).rows,
    row.lane = l.index → row.availableAt ≤ now →
      (QueueStore.nextEligible l now s.shared.store).1 ≠ .ok none
  /-- A settlement that does not succeed leaves all rows stored. -/
  unsettled : ∀ a s', s.step w a = some s' → ∀ l r f t, a.lane? = some l →
    s.workers.get l = .settle r f t → (s'.workers.get l).record? = some r →
      (ledger s'.shared.store).rows = (ledger s.shared.store).rows

namespace Tidy

/-- A record that another worker has in hand is not of this lane. -/
theorem not_claimed_of_idle (h : s.Tidy) (hh : s.Held) (hn : (s.workers.get l).record? = none)
    {row : Row} (hr : row ∈ (ledger s.shared.store).rows) (hl : row.lane = l.index) :
    row.seq ∉ (ledger s.shared.store).claimed := by
  intro hq
  obtain ⟨m, x, hx, hseq⟩ := hh _ hq
  have hhand := h.inHand m x hx
  have hlane := (hhand.carries row hr hseq.symm).lane
  rw [hhand.lane, hl] at hlane
  obtain rfl := Lane.index_inj hlane
  rw [hx] at hn
  cases hn

theorem exclusive (h : s.Tidy) (hh : s.Held) : s.Exclusive w where
  spawnedOnce l hsp k c hc := by
    cases k with
    | body m => exact h.asking m c hc
    | client i =>
      cases hl : c.isLaunching with
      | false => rfl
      | true =>
        rw [h.not_spawned (List.mem_of_getElem? hc) hl l] at hsp
        cases hsp
  ownLane l r hr := (h.inHand l r hr.2).lane
  alone l m r x hr hx hlane := by
    have hl : l = m := by
      rw [← (h.inHand l r hr.2).lane, hlane, (h.inHand m x hx.2).lane]
    subst hl
    exact ⟨rfl, Option.some.inj (hr.2.symm.trans hx.2)⟩
  processed q hq := by
    obtain ⟨l, r, hr, hseq⟩ := hh q hq
    refine ⟨l, r, hseq, (h.inHand l r hr).lane, ?_⟩
    cases hend : (s.workers.get l).hasEnded with
    | false => exact .inl ⟨hr, rfl⟩
    | true => exact .inr (Point.eq_collapsed hend hr)
  free l hn row hr hl := h.not_claimed_of_idle hh hn hr hl
  claimable l hn now row hr hl hdue hnone := by
    have hlaw := LawfulStore.nextEligible h.sound l now
    rw [hnone] at hlaw
    have hfree := h.not_claimed_of_idle hh hn hr hl
    have hd := hlaw.1 row hr
    rw [Ledger.isDue_iff.2 ⟨hl, hfree, hdue⟩] at hd
    cases hd
  unsettled _ _ hstep _ _ _ _ ha hp hr := h.rows_of_unsettled hstep ha hp hr

end Tidy

/-- **One command at a time, and no leaked claims.** Take any run of a scheduler over a sound store
that nobody else has made a claim of: any requests, any failures of the medium and of the store, any
payloads and any bodies. At its end, and so at every moment of it, the lanes exclude each other; and a
worker that has broken down has met with a failure whose next instant is none of the calendar. -/
theorem exclusive_of_steps (w : Wiring W) {store : σ} (hs : (ledger store).Sound)
    (hclaims : (ledger store).claimed = []) (now : Instant) (world : W) {as : List Action}
    (hrun : (System.init w.config store now world).steps w as = some s) :
    s.Exclusive w ∧ ∀ l r, s.workers.get l = .collapsed r →
      BrokenDown w (.init w.config store now world) as l r := by
  have h₀ := Tidy.init (W := W) w.config hs now world
  have hheld := h₀.held_steps (held_of_claimed_eq_nil hclaims) hrun
  exact ⟨(h₀.steps hrun).exclusive hheld,
    fun l r hp => brokenDown_of_collapsed (record?_init w.config store now world l) hrun hp⟩

/-- A table whose medium refuses the fourth statement, which settles the first record. -/
def refusing : ShakyTable := ⟨.empty, [none, none, none, some (.storage "disk full")]⟩

/-- The settlement of a first attempt is refused after the claim has been dropped, that of a second
one fails before it. -/
def twoFailures : List Action :=
  Trial.upToStore ++ .advance 1 none :: List.replicate 18 Trial.turn ++
    .work .general .timer (some (.storage "gone")) :: List.replicate 3 Trial.turn

/-- The worker is back at the top; the record has been executed twice, is still stored and can be
claimed once more. -/
theorem exclusive_of_steps_twoFailures :
    ∃ s : System ShakyTable Unit,
      (System.init (Trial.wiring fun _ => .success).config refusing 0 ()).steps
          (Trial.wiring fun _ => .success) twoFailures = some s ∧
        s.Exclusive (Trial.wiring fun _ => .success) ∧ s.shared.store.refusals = [] ∧
        (∃ row ∈ (ledger s.shared.store).rows, row.seq ∉ (ledger s.shared.store).claimed) ∧
        (QueueStore.nextEligible .general 0 s.shared.store).1 ≠ .ok none := by
  have hrun : ((System.init (Trial.wiring fun _ => .success).config refusing 0 ()).steps
      (Trial.wiring fun _ => .success) twoFailures).any fun s =>
        (s.workers.get .general).record? = none ∧ s.shared.store.refusals = [] ∧
          s.shared.store.table.table.rows ≠ [] ∧
          ∀ row ∈ s.shared.store.table.table.rows,
            row.lane = (Lane.general.index : Int) ∧ row.availableAt ≤ 0 := by decide +kernel
  obtain ⟨s, hs, hend⟩ := (Option.any_eq_true _ _).1 hrun
  obtain ⟨hnone, hrefusals, hne, hrows⟩ := of_decide_eq_true hend
  have hempty : (ledger refusing).Sound := Ledger.Sound.empty
  obtain ⟨hex, -⟩ := exclusive_of_steps (Trial.wiring fun _ => .success) hempty rfl 0 () hs
  obtain ⟨row, hrow⟩ := List.exists_mem_of_ne_nil _ hne
  obtain ⟨hlane, hdue⟩ := hrows row hrow
  exact ⟨s, hs, hex, hrefusals, ⟨row, hrow, hex.free .general hnone row hrow hlane⟩,
    hex.claimable .general hnone 0 row hrow hlane hdue⟩

/-- A record is claimed and nobody goes on with it: its attempt has failed, and the next one would be
behind the end of the calendar. -/
theorem claimed_without_worker :
    ∃ (s : System MemoryStore Unit) (q : Int),
      let w := Trial.distant fun _ => .recoverable "x"
      (System.init w.config MemoryStore.empty 0 ()).steps w Trial.upToBreakdown = some s ∧
        q ∈ (ledger s.shared.store).claimed ∧ (∃ row ∈ (ledger s.shared.store).rows, row.seq = q) ∧
        ∀ l r, (s.workers.get l).record? = some r → r.seq = q →
          ∀ signal fault, s.step w (.work l signal fault) = none := by
  obtain ⟨s, x, hs, hp, hrecords, hclaimed, -, -, -, hother⟩ := Trial.exists_brokenDown
  have hrow : Row.ofRecord x ∈ (ledger s.shared.store).rows :=
    List.mem_map_of_mem (by rw [hrecords]; exact List.mem_singleton_self x)
  refine ⟨s, x.seq, hs, ?_, ⟨_, hrow, rfl⟩, fun l r hr _ signal fault => ?_⟩
  · have hmem : x.seq ∈ s.shared.store.claimed := by rw [hclaimed]; exact List.mem_singleton_self _
    exact hmem
  · by_cases hl : l = .general
    · exact work_of_hasEnded (by rw [hl, hp]; rfl) signal fault
    · rw [hother l hl] at hr
      cases hr

end System

end LaneQueue
