import LaneQueue.Proofs.Scheduler.Runs
import LaneQueue.Proofs.Store.Tokens
/-!
# The invariant of a running scheduler

`System.Tidy` ties the workers to the store. A store may set its order back when it forgets its
claims, and a place may then be given out again; that is harmless because only a start does it, once,
while no worker has been spawned and so no record is in any hand. From then on whatever a worker has
in hand is a record of its own lane, and no other record is ever stored at its place.
-/
namespace LaneQueue

namespace LawfulStore

open Ledger

variable {σ : Type} [QueueStore σ] [LawfulStore σ] {s : σ}

theorem sound_after (hs : (ledger s).Sound) (op : Option Operation) (now : Instant) :
    (ledger (Operation.after op now s)).Sound := by
  cases op with
  | none => exact hs
  | some op => exact sound_run hs op now

theorem inHand_after (hs : (ledger s).Sound) {op : Option Operation} (hop : op ≠ some .recover)
    (now : Instant) {lane : Lane} {r : Record} (hr : (ledger s).InHand lane r) :
    (ledger (Operation.after op now s)).InHand lane r := by
  cases op with
  | none => exact hr
  | some op =>
    have hedit := edit_run hs op now
    exact hedit.inHand (hedit.lastSeq_le fun h => hop (congrArg some h)) hr

end LawfulStore

/-! ## The invariant -/

namespace System

open LawfulStore (ledger)

variable {σ W : Type} [QueueStore σ] [LawfulStore σ] {w : Wiring W} {s s' : System σ W}

structure Tidy (s : System σ W) : Prop where
  sound : (ledger s.shared.store).Sound
  /-- One start at most is under way. -/
  once : s.calls.countP Call.isLaunching ≤ 1
  unstarted : s.shared.started = false → s.calls.countP Call.isLaunching = 0
  /-- None is once the workers have been spawned. -/
  launched : ∀ l, (s.shared.cell l).spawned = true →
    s.shared.started = true ∧ s.calls.countP Call.isLaunching = 0
  waiting : ∀ l, (s.shared.cell l).spawned = false → s.workers.get l = .top
  asking : ∀ l c, (s.workers.get l).request? = some c → c.isLaunching = false
  inHand : ∀ l r, (s.workers.get l).record? = some r → (ledger s.shared.store).InHand l r

theorem Tidy.init (config : QueueConfig) {store : σ} (hs : (ledger store).Sound) (now : Instant)
    (world : W) : (System.init config store now world).Tidy where
  sound := hs
  once := by simp [System.init]
  unstarted _ := by simp [System.init]
  launched l h := by simp [System.init, Shared.init, Shared.cell] at h
  waiting l _ := by simp [System.init]
  asking l c h := by simp [System.init, Point.request?] at h
  inHand l r h := by simp [System.init, Point.record?] at h

namespace Tidy

/-- Whoever has a record in hand has been spawned, so that no start is under way. -/
theorem spawned_of_record (h : s.Tidy) {l : Lane} {r : Record}
    (hr : (s.workers.get l).record? = some r) : (s.shared.cell l).spawned = true := by
  cases hsp : (s.shared.cell l).spawned with
  | true => rfl
  | false =>
    rw [h.waiting l hsp] at hr
    cases hr

theorem not_spawned (h : s.Tidy) {c : Call} (hc : c ∈ s.calls) (hl : c.isLaunching = true)
    (l : Lane) : (s.shared.cell l).spawned = false := by
  cases hsp : (s.shared.cell l).spawned with
  | false => rfl
  | true =>
    have h0 := List.countP_eq_zero.1 (h.launched l hsp).2 c hc
    exact absurd hl h0

/-- The store forgets its claims only before any lane has been spawned. -/
theorem operation?_ne_recover (h : s.Tidy) {l : Lane} (hsp : (s.shared.cell l).spawned = true)
    (a : Action) : s.operation? a ≠ some .recover := by
  intro hop
  rcases operation?_cases hop with ⟨k, c, -, hc, hop⟩ | ⟨m, -, hop | hop | ⟨r, f, t, -, hop⟩ | ⟨r, f, -, hop⟩⟩
  · obtain ⟨-, ⟨-, hl⟩ | ⟨d, p, hop⟩ | ⟨m, hop⟩ | ⟨m, hop⟩⟩ := Call.operation?_cases hop
    · -- a start is under way
      cases k with
      | client i =>
        rw [h.not_spawned (List.mem_of_getElem? hc) hl l] at hsp
        cases hsp
      | body m =>
        rw [h.asking m c hc] at hl
        cases hl
    all_goals cases hop
  · cases hop
  · cases hop
  · have hset := Fate.settled?_operation r f
    rw [← hop] at hset
    cases hset
  · cases hop

theorem inHand_step (h : s.Tidy) {a : Action} (hstep : s.step w a = some s') {l : Lane}
    {r : Record} (hr : (s.workers.get l).record? = some r) :
    (ledger s'.shared.store).InHand l r := by
  rw [step_store hstep]
  have hop := h.operation?_ne_recover (h.spawned_of_record hr) a
  exact LawfulStore.inHand_after h.sound hop _ (h.inHand l r hr)

/-- A worker that has just come by a record has claimed it. -/
theorem inHand_work (h : s.Tidy) {l : Lane} {signal : Signal} {fault : Option QueueError}
    (hstep : s.step w (.work l signal fault) = some s') {r : Record}
    (hr : (s'.workers.get l).record? = some r) : (ledger s'.shared.store).InHand l r := by
  have hstore := step_store hstep
  rcases Point.step_record (worker_own hstep) hr with hr | ⟨-, hop, hclaim⟩
  · exact h.inHand_step hstep hr
  · simp only [operation?, hop, Operation.after] at hstore
    have hlaw := LawfulStore.nextEligible h.sound l s.shared.now
    rw [hclaim] at hlaw
    rw [hstore]
    exact hlaw.inHand h.sound

theorem sound_step (h : s.Tidy) {a : Action} (hstep : s.step w a = some s') :
    (ledger s'.shared.store).Sound := by
  rw [step_store hstep]
  exact LawfulStore.sound_after h.sound _ _

/-- A request takes its step: at most the one that starts the lanes changes the flags of a start. -/
theorem advance (h : s.Tidy) {i : Nat} {fault : Option QueueError}
    (hstep : s.step w (.advance i fault) = some s') : s'.Tidy := by
  have hsound := h.sound_step hstep
  have hhand := fun l r => h.inHand_step hstep (l := l) (r := r)
  obtain ⟨c, c', x, hc, hcall, rfl⟩ := advance_cases hstep
  obtain ⟨hi, hci⟩ := List.getElem?_eq_some_iff.1 hc
  have hmem : c ∈ s.calls := List.mem_of_getElem? hc
  -- the number of starts under way changes by this request alone
  have hcount : (s.calls.set i c').countP Call.isLaunching + (if c.isLaunching then 1 else 0) =
      s.calls.countP Call.isLaunching + (if c'.isLaunching then 1 else 0) := by
    have hpos : c.isLaunching = true → 0 < s.calls.countP Call.isLaunching :=
      fun hl => List.countP_pos_iff.2 ⟨c, hmem, hl⟩
    rw [List.countP_set hi, hci]
    split
    · rename_i hl
      have := hpos hl
      omega
    · omega
  rcases Call.step_flags hcall with ⟨hsteady, himp⟩ | ⟨rfl, hn, rfl⟩ | ⟨hl, hl', hnow, hst⟩
  · -- nothing of a start changes
    have hle : (s.calls.set i c').countP Call.isLaunching ≤ s.calls.countP Call.isLaunching := by
      by_cases hl' : c'.isLaunching = true
      · simp only [hl', himp hl', if_true] at hcount
        omega
      · simp only [hl'] at hcount
        split at hcount <;> simp at hcount <;> omega
    refine ⟨hsound, Nat.le_trans hle h.once, ?_, ?_, ?_, h.asking, hhand⟩
    · intro hn
      have := h.unstarted (hsteady.started.symm.trans hn)
      simp only
      omega
    · intro l hsp
      obtain ⟨hs, h0⟩ := h.launched l ((hsteady.spawned l).symm.trans hsp)
      refine ⟨hsteady.started.trans hs, ?_⟩
      simp only
      omega
    · intro l hsp
      exact h.waiting l ((hsteady.spawned l).symm.trans hsp)
  · -- the start that is asked for first
    have h0 := h.unstarted hn
    have hc0 : Call.start.isLaunching = false := rfl
    rw [h0, hc0, if_neg Bool.false_ne_true] at hcount
    have hle : (s.calls.set i c').countP Call.isLaunching ≤ 1 := by
      split at hcount <;> omega
    refine ⟨hsound, hle, fun hs => (by cases hs), ?_, h.waiting, h.asking, hhand⟩
    intro l hsp
    have := (h.launched l hsp).1
    rw [hn] at this
    cases this
  · -- the workers are spawned
    have hpos : 0 < s.calls.countP Call.isLaunching := List.countP_pos_iff.2 ⟨c, hmem, hl⟩
    have honce := h.once
    simp only [hl, hl', if_true, Bool.false_eq_true, if_false] at hcount
    have h0 : (s.calls.set i c').countP Call.isLaunching = 0 := by omega
    have hstarted : s.shared.started = true := by
      cases hst : s.shared.started with
      | true => rfl
      | false => have := h.unstarted hst; omega
    refine ⟨hsound, by simp only; omega, fun _ => h0, fun l _ => ⟨hst.trans hstarted, h0⟩, ?_,
      h.asking, hhand⟩
    intro l _
    exact h.waiting l (h.not_spawned hmem hl l)

/-- A worker takes its step: nothing of a start changes, and what it has in hand it has claimed. -/
theorem work (h : s.Tidy) {l : Lane} {signal : Signal} {fault : Option QueueError}
    (hstep : s.step w (.work l signal fault) = some s') : s'.Tidy := by
  have hsound := h.sound_step hstep
  have hhand := fun r => h.inHand_work hstep (r := r)
  have hothers := fun m r => h.inHand_step hstep (l := m) (r := r)
  obtain ⟨p, x, hsp, hp, rfl⟩ := work_cases hstep
  obtain ⟨hstarted, h0⟩ := h.launched l hsp
  obtain ⟨hsteady, hasking⟩ := Point.step_steady hp hstarted (h.asking l)
  have hworker : ∀ m, l ≠ m → (s.setWorker l p x).workers.get m = s.workers.get m :=
    fun m hm => PerLane.get_set_ne _ _ hm
  have hown : (s.setWorker l p x).workers.get l = p := PerLane.get_set_self _ _ _
  refine ⟨hsound, h.once, ?_, ?_, ?_, ?_, ?_⟩
  · intro hn
    exact h.unstarted (hsteady.started.symm.trans hn)
  · intro m hm
    exact ⟨hsteady.started.trans hstarted, h0⟩
  · intro m hm
    have hm' := (hsteady.spawned m).symm.trans hm
    rw [hworker m fun he => by rw [he, hm'] at hsp; cases hsp]
    exact h.waiting m hm'
  · intro m c hc
    by_cases hm : l = m
    · subst hm
      rw [hown] at hc
      exact hasking c hc
    · rw [hworker m hm] at hc
      exact h.asking m c hc
  · intro m r hr
    by_cases hm : l = m
    · subst hm
      exact hhand r hr
    · rw [hworker m hm] at hr
      exact hothers m r hr

/-- Only the passing of time moves the clock. -/
theorem now_step (h : s.Tidy) {a : Action} (hstep : s.step w a = some s') :
    s'.shared.now = s.shared.now ∨ ∃ n : Nat, a = .tick n ∧ s'.shared.now = s.shared.now + n := by
  cases a with
  | request r => cases hstep; exact .inl rfl
  | tick n => cases hstep; exact .inr ⟨n, rfl, rfl⟩
  | advance i fault =>
    obtain ⟨c, c', x, -, hcall, rfl⟩ := advance_cases hstep
    rcases Call.step_flags hcall with ⟨hsteady, -⟩ | ⟨-, -, rfl⟩ | ⟨-, -, hnow, -⟩
    · exact .inl hsteady.now
    · exact .inl rfl
    · exact .inl hnow
  | work l signal fault =>
    obtain ⟨p, x, hsp, hp, rfl⟩ := work_cases hstep
    exact .inl (Point.step_steady hp (h.launched l hsp).1 (h.asking l)).1.now

theorem now_le_step (h : s.Tidy) {a : Action} (hstep : s.step w a = some s') :
    s.shared.now ≤ s'.shared.now := by
  rcases h.now_step hstep with heq | ⟨n, -, heq⟩
  · exact Int.le_of_eq heq.symm
  · rw [heq]
    exact Int.le_add_of_nonneg_right (Int.natCast_nonneg n)

/-- **The invariant is kept** by every step. -/
theorem step (h : s.Tidy) {a : Action} (hstep : s.step w a = some s') : s'.Tidy := by
  cases a with
  | request r =>
    cases hstep
    have h0 : (Call.ofRequest r).isLaunching = false := by cases r <;> rfl
    have hcount : (s.calls ++ [Call.ofRequest r]).countP Call.isLaunching =
        s.calls.countP Call.isLaunching := by
      simp [List.countP_append, h0]
    exact ⟨h.sound, hcount ▸ h.once, hcount ▸ h.unstarted, hcount ▸ h.launched, h.waiting,
      h.asking, h.inHand⟩
  | advance i fault => exact h.advance hstep
  | work l signal fault => exact h.work hstep
  | tick n =>
    cases hstep
    exact ⟨h.sound, h.once, h.unstarted, h.launched, h.waiting, h.asking, h.inHand⟩

theorem steps (h : s.Tidy) {as : List Action} (hrun : s.steps w as = some s') : s'.Tidy :=
  steps_induction (P := fun _ t => t.Tidy) h (fun _ ht hstep => ht.step hstep) hrun

end Tidy

end System

end LaneQueue
