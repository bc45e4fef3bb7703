import LaneQueue.Proofs.Scheduler.Runs
/-!
# Workers that break down

A failure that is to be repeated has a next instant, and the calendar ends. Where the wait leads past
its end the worker does not come to a settlement: it stops where it stands, with the record in hand, and
nobody goes on with it (`System.BrokenDown`). Nothing bounds the waits that a configuration asks for, so
this is met already by the first failure under `Trial.distant`.
-/
namespace LaneQueue

/-- Only a repetition behind the end of the calendar has no date. -/
theorem Fate.isDated_ofOutcome_eq_false {c : RetryConfig} {now : Instant} {r : Record} {o : Outcome} :
    (Fate.ofOutcome c now r o).isDated = false ↔
      ∃ reason, o = .recoverable reason ∧ r.bubbles = true ∧ c.exhausted r.attempt.toNat = false ∧
        (availableAt now (c.delayMs r.identity r.attempt.toNat)).isDated = false := by
  cases o with
  | success | fatal => simp [ofOutcome, isDated]
  | recoverable reason =>
    cases hb : r.bubbles with
    | false => simp [ofOutcome, isDated, hb]
    | true =>
      cases he : c.exhausted r.attempt.toNat with
      | true => simp [ofOutcome, isDated, hb, he]
      | false => simp [ofOutcome, isDated, hb, he]

namespace Point

variable {σ W : Type} [QueueStore σ] {w : Wiring W} {l : Lane} {signal : Signal}
  {fault : Option QueueError} {p : Point W} {s s' : Shared σ W} {x : Record}

theorem step_of_hasEnded (h : p.hasEnded = true) (s : Shared σ W) :
    p.step w l signal fault s = none := by
  cases p with
  | collapsed | exited => rfl
  | _ => cases h

/-- A worker whose task is over while it has a record in hand has broken down over it. -/
theorem eq_collapsed (hend : p.hasEnded = true) (hx : p.record? = some x) : p = collapsed x := by
  cases p with
  | collapsed y => rw [Option.some.inj hx]
  | exited => cases hx
  | _ => cases hend

/-- A worker breaks down at the end of a body, by a failure that has no next instant. -/
theorem step_collapsed (h : p.step w l signal fault s = some (collapsed x, s')) :
    ∃ fin reason, p = run x (.done fin) ∧ fin.toOutcome = .recoverable reason ∧ x.bubbles = true ∧
      w.config.retry.exhausted x.attempt.toNat = false ∧
      (Fate.availableAt s.now (w.config.retry.delayMs x.identity x.attempt.toNat)).isDated = false := by
  cases step_moves h with
  | collapse _ fin hdate =>
    obtain ⟨reason, hrest⟩ := Fate.isDated_ofOutcome_eq_false.1 hdate
    exact ⟨fin, reason, rfl, hrest⟩

end Point

namespace System

variable {σ W : Type} [QueueStore σ] {w : Wiring W} {s s' s₀ : System σ W} {a : Action} {l : Lane}
  {x : Record} {as : List Action}

/-- At some moment of a run the execution of a record had failed, and was to be repeated at an instant
behind the end of the calendar. -/
def BrokenDown (w : Wiring W) (s₀ : System σ W) (as : List Action) (l : Lane) (x : Record) : Prop :=
  ∃ bs u fin reason, bs <+: as ∧ s₀.steps w bs = some u ∧ u.workers.get l = .run x (.done fin) ∧
    fin.toOutcome = .recoverable reason ∧ x.bubbles = true ∧
    w.config.retry.exhausted x.attempt.toNat = false ∧
    (Fate.availableAt u.shared.now
      (w.config.retry.delayMs x.identity x.attempt.toNat)).isDated = false

theorem BrokenDown.snoc (h : BrokenDown w s₀ as l x) (a : Action) :
    BrokenDown w s₀ (as ++ [a]) l x := by
  obtain ⟨bs, u, fin, reason, hpre, hrest⟩ := h
  exact ⟨bs, u, fin, reason, hpre.trans (List.prefix_append as [a]), hrest⟩

/-- A worker whose task is over makes no step. -/
theorem work_of_hasEnded (h : (s.workers.get l).hasEnded = true) (signal : Signal)
    (fault : Option QueueError) : s.step w (.work l signal fault) = none := by
  cases hstep : s.step w (.work l signal fault) with
  | none => rfl
  | some s' =>
    have hown := worker_own hstep
    rw [Point.step_of_hasEnded h] at hown
    cases hown

/-- A worker that has broken down stands still. -/
theorem collapsed_step (hp : s.workers.get l = .collapsed x) (hstep : s.step w a = some s') :
    s'.workers.get l = .collapsed x := by
  rcases step_worker hstep l with heq | ⟨signal, fault, -, hown⟩
  · rw [heq, hp]
  · rw [hp] at hown
    cases hown

theorem collapsed_steps (hp : s₀.workers.get l = .collapsed x) (hrun : s₀.steps w as = some s) :
    s.workers.get l = .collapsed x :=
  steps_induction (P := fun _ t => t.workers.get l = .collapsed x) hp
    (fun _ ih hstep => collapsed_step ih hstep) hrun

/-- **Nothing else breaks a worker down.** -/
theorem brokenDown_of_collapsed (h₀ : (s₀.workers.get l).record? = none)
    (hrun : s₀.steps w as = some s) (hp : s.workers.get l = .collapsed x) :
    BrokenDown w s₀ as l x := by
  refine steps_induction (w := w) (P := fun as t => t.workers.get l = .collapsed x →
    BrokenDown w s₀ as l x) ?_ ?_ hrun hp
  · intro hp
    rw [hp] at h₀
    cases h₀
  · intro as a t t' ht ih hstep hp'
    rcases step_worker hstep l with heq | ⟨signal, fault, rfl, hown⟩
    · exact (ih (heq ▸ hp')).snoc a
    · rw [hp'] at hown
      obtain ⟨fin, reason, hrun, hrest⟩ := Point.step_collapsed hown
      exact ⟨as, t, fin, reason, List.prefix_append as _, ht, hrun, hrest⟩

end System

/-! ## A breakdown -/

namespace Trial

/-- A failure is to be retried after more than three hundred thousand years. -/
def distant (outcome : UInt32 → Outcome) : Wiring Unit :=
  { wiring outcome with
    config :=
      { retry :=
          { maxAttempts := 3, backoffBaseMs := 10000000000000000, backoffMaxMs := 10000000000000000,
            jitterRatio := ⟨0⟩ }
        storeRetryDelayMs := 1 } }

/-- A command is executed and fails. -/
def upToBreakdown : List Action := upToStore ++ .advance 1 none :: List.replicate 7 turn

/-- The worker has broken down with the record in hand, and no shutdown has been asked for. -/
theorem exists_brokenDown :
    ∃ (s : System MemoryStore Unit) (x : Record),
      let w := distant fun _ => .recoverable "x"
      (System.init w.config MemoryStore.empty 0 ()).steps w upToBreakdown = some s ∧
        s.workers.get .general = .collapsed x ∧ s.shared.store.records = [x] ∧
        s.shared.store.claimed = [x.seq] ∧ s.shared.cancelled = false ∧
        (s.shared.cell .general).exited = true ∧
        (s.shared.cell .general).current.isSome = true ∧
        ∀ l, l ≠ .general → (s.workers.get l).record? = none := by
  let w := distant fun _ => .recoverable "x"
  have hrun : ((System.init w.config MemoryStore.empty 0 ()).steps w upToBreakdown).any fun s =>
      ((s.workers.get .general).record?).any fun x =>
        (s.workers.get .general).hasEnded = true ∧ s.shared.store.records = [x] ∧
          s.shared.store.claimed = [x.seq] ∧ s.shared.cancelled = false ∧
          (s.shared.cell .general).exited = true ∧
          (s.shared.cell .general).current.isSome = true ∧
          (s.workers.get .hasher).record? = none ∧ (s.workers.get .images).record? = none := by
    decide +kernel
  obtain ⟨s, hs, hrun⟩ := (Option.any_eq_true _ _).1 hrun
  obtain ⟨x, hx, hend⟩ := (Option.any_eq_true _ _).1 hrun
  obtain ⟨hended, hrecords, hclaimed, hcancelled, hexited, hshown, hhasher, himages⟩ :=
    of_decide_eq_true hend
  refine ⟨s, x, hs, Point.eq_collapsed hended hx, hrecords, hclaimed, hcancelled, hexited, hshown,
    fun l hl => ?_⟩
  cases l with
  | general => exact absurd rfl hl
  | hasher => exact hhasher
  | images => exact himages

end Trial

end LaneQueue
