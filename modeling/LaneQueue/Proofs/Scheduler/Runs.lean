import Mathlib.Data.List.Induction
import LaneQueue.Proofs.Scheduler.Moves
import LaneQueue.Store.Memory
/-!
# Runs

A run is a list of actions, each possible where the one before has led. What holds at the start of a
run and is kept by every step holds at its end; what a run went through on the way is told by
`System.Visits` and `System.lastAt?`.
-/
namespace LaneQueue

/-- The lane whose worker an action moves. -/
def Action.lane? : Action → Option Lane
  | .work l _ _ => some l
  | .request _ | .advance _ _ | .tick _ => none

theorem Action.eq_work_of_lane? {a : Action} {l : Lane} (h : a.lane? = some l) :
    ∃ signal fault, a = .work l signal fault := by
  cases a with
  | work m signal fault => cases h; exact ⟨signal, fault, rfl⟩
  | request | advance | tick => cases h

/-- Whoever a request is under way for: the client who has brought it, or the body of a lane. -/
inductive Caller where
  | client (call : Nat)
  | body (lane : Lane)
  deriving DecidableEq

/-- The caller whose request an action moves, if it has one under way. -/
def Action.caller? : Action → Option Caller
  | .advance i _ => some (.client i)
  | .work l _ _ => some (.body l)
  | .request _ | .tick _ => none

namespace System

/-! ## Before the start -/

theorem workers_init {σ W : Type} (config : QueueConfig) (store : σ) (now : Instant) (world : W)
    (l : Lane) : (System.init config store now world).workers.get l = .top := PerLane.get_ofFn _ l

theorem record?_init {σ W : Type} (config : QueueConfig) (store : σ) (now : Instant) (world : W)
    (l : Lane) : ((System.init config store now world).workers.get l).record? = none := by
  rw [workers_init]
  rfl

section Callers

variable {σ W : Type} {s : System σ W}

/-- The request that is under way for a caller, or the last one that was. -/
def callOf (s : System σ W) : Caller → Option Call
  | .client i => s.calls[i]?
  | .body l => (s.workers.get l).request?

/-- The request that is under way for the caller whom an action moves. -/
def moved? (s : System σ W) (a : Action) : Option Call := a.caller?.bind s.callOf

theorem moved?_eq {a : Action} {k : Caller} {c : Call} (hk : a.caller? = some k)
    (hc : s.callOf k = some c) : s.moved? a = some c := by
  simp [moved?, hk, hc]

/-- **What an action asks of the store**: what the request of its caller asks for, or on the worker's
own account a claim, the next instant to wake at, or the settlement of the record in hand. -/
theorem operation?_cases {a : Action} {op : Operation} (h : s.operation? a = some op) :
    (∃ k c, a.caller? = some k ∧ s.callOf k = some c ∧ c.operation? a.fault? = some op) ∨
      ∃ l, a.lane? = some l ∧ (op = .nextEligible l ∨ op = .nextWakeAt l ∨
        (∃ r f t, s.workers.get l = .settle r f t ∧ op = f.operation r) ∨
          ∃ r f, s.workers.get l = .release r f ∧ op = .release r) := by
  cases a with
  | request | tick => cases h
  | advance i fault =>
    obtain ⟨c, hc, hop⟩ := Option.bind_eq_some_iff.1 h
    exact .inl ⟨.client i, c, rfl, hc, hop⟩
  | work l signal fault =>
    rcases Point.operation?_cases h with hop | hop | ⟨r, f, t, hp, hop, -⟩ | ⟨r, f, hp, hop⟩ |
      ⟨r, c, next, hp, hop⟩
    · exact .inr ⟨l, rfl, .inl hop⟩
    · exact .inr ⟨l, rfl, .inr (.inl hop)⟩
    · exact .inr ⟨l, rfl, .inr (.inr (.inl ⟨r, f, t, hp, hop⟩))⟩
    · exact .inr ⟨l, rfl, .inr (.inr (.inr ⟨r, f, hp, hop⟩))⟩
    · exact .inl ⟨.body l, c, rfl, by simp only [callOf, hp]; rfl, hop⟩

/-- A scheduler never inserts without regard to conflicts, and never deletes by identity alone. -/
theorem operation?_ne_insert_delete {a : Action} {op : Operation} (h : s.operation? a = some op) :
    (∀ c, op ≠ .insert c) ∧ ∀ i, op ≠ .deleteByIdentity i := by
  rcases operation?_cases h with ⟨k, c, -, -, hop⟩ | ⟨l, -, rfl | rfl | ⟨r, f, t, -, rfl⟩ | ⟨r, f, -, rfl⟩⟩
  · obtain ⟨-, ⟨rfl, -⟩ | ⟨d, p, rfl⟩ | ⟨m, rfl⟩ | ⟨m, rfl⟩⟩ := Call.operation?_cases hop <;>
      exact ⟨nofun, nofun⟩
  · exact ⟨nofun, nofun⟩
  · exact ⟨nofun, nofun⟩
  · unfold Fate.operation
    split <;> exact ⟨nofun, nofun⟩
  · exact ⟨nofun, nofun⟩

/-- Who stores a command is the caller whose submission it is. -/
theorem operation?_eq_submit {a : Action} {d : NewCommand} {p : ConflictPolicy}
    (h : s.operation? a = some (.submit d p)) :
    ∃ k t, a.caller? = some k ∧ s.callOf k = some (.store d p t) ∧
      t.operation? a.fault? (.submit d p) = some (.submit d p) := by
  rcases operation?_cases h with ⟨k, c, hk, hc, hop⟩ | ⟨l, -, hop | hop | ⟨r, f, t, -, hop⟩ | ⟨r, f, -, hop⟩⟩
  · obtain ⟨t, rfl, ht⟩ := Call.operation?_eq_submit hop
    exact ⟨k, t, hk, hc, ht⟩
  · cases hop
  · cases hop
  · have hset := Fate.settled?_operation r f
    rw [← hop] at hset
    cases hset
  · cases hop

/-- Whoever settles a record has it in hand. -/
theorem record?_of_settled? {a : Action} {op : Operation} (h : s.operation? a = some op)
    {r : Record} (hr : op.settled? = some r) : ∃ l, (s.workers.get l).record? = some r := by
  rcases operation?_cases h with ⟨k, c, -, -, hop⟩ | ⟨l, -, rfl | rfl | ⟨x, f, t, hp, rfl⟩ | ⟨x, f, hp, rfl⟩⟩
  · rw [Call.settled?_operation? hop] at hr
    cases hr
  · cases hr
  · cases hr
  · exact ⟨l, by rw [hp]; exact (Fate.settled?_operation x f).symm.trans hr⟩
  · exact ⟨l, by rw [hp]; exact hr⟩

end Callers

variable {σ W : Type} [QueueStore σ] {w : Wiring W} {s s' s₀ : System σ W}

/-! ## One step -/

theorem advance_cases {i : Nat} {fault : Option QueueError} (h : s.advance w i fault = some s') :
    ∃ c c' x, s.calls[i]? = some c ∧ c.step w fault s.shared = some (c', x) ∧
      s' = { s with shared := x, calls := s.calls.set i c' } := by
  unfold advance at h
  split at h
  · cases h
  · rename_i c hc
    obtain ⟨⟨c', x⟩, hstep, rfl⟩ := Option.map_eq_some_iff.1 h
    exact ⟨c, c', x, hc, hstep, rfl⟩

theorem work_cases {l : Lane} {signal : Signal} {fault : Option QueueError}
    (h : s.work w l signal fault = some s') :
    ∃ p x, (s.shared.cell l).spawned = true ∧
      (s.workers.get l).step w l signal fault s.shared = some (p, x) ∧ s' = s.setWorker l p x := by
  unfold work at h
  split at h
  · rename_i hsp
    obtain ⟨⟨p, x⟩, hstep, rfl⟩ := Option.map_eq_some_iff.1 h
    exact ⟨p, x, hsp, hstep, rfl⟩
  · cases h

theorem work_of_step {l : Lane} {signal : Signal} {fault : Option QueueError} {p : Point W}
    {x : Shared σ W} (hsp : (s.shared.cell l).spawned = true)
    (hp : (s.workers.get l).step w l signal fault s.shared = some (p, x)) :
    s.step w (.work l signal fault) = some (s.setWorker l p x) := by
  simp only [step, work, hsp, if_true, hp, Option.map_some]

/-- **Every step** carries out the operation that is named for it, and no other. -/
theorem step_store {a : Action} (h : s.step w a = some s') :
    s'.shared.store =
      Operation.after (s.operation? a) s.shared.now s.shared.store := by
  cases a with
  | request r | tick n => cases h; rfl
  | advance i fault =>
    obtain ⟨c, c', x, hc, hstep, rfl⟩ := advance_cases h
    simp only [operation?, hc]
    exact Call.step_store hstep
  | work l signal fault =>
    obtain ⟨p, x, -, hstep, rfl⟩ := work_cases h
    exact Point.step_store hstep

/-- The worker of a lane stands where it stood, unless the step was its own. -/
theorem worker_beside {a : Action} (h : s.step w a = some s') {l : Lane} (ha : a.lane? ≠ some l) :
    s'.workers.get l = s.workers.get l := by
  cases a with
  | request r | tick n => cases h; rfl
  | advance i fault =>
    obtain ⟨c, c', x, -, -, rfl⟩ := advance_cases h
    rfl
  | work m signal fault =>
    obtain ⟨p, x, -, -, rfl⟩ := work_cases h
    exact PerLane.get_set_ne _ _ fun hm => ha (congrArg some hm)

/-- A step of its own takes it from the point where it stood. -/
theorem worker_own {l : Lane} {signal : Signal} {fault : Option QueueError}
    (h : s.step w (.work l signal fault) = some s') :
    (s.workers.get l).step w l signal fault s.shared = some (s'.workers.get l, s'.shared) := by
  obtain ⟨p, x, -, hstep, rfl⟩ := work_cases h
  simpa [setWorker] using hstep

theorem step_worker {a : Action} (h : s.step w a = some s') (l : Lane) :
    s'.workers.get l = s.workers.get l ∨ ∃ signal fault, a = .work l signal fault ∧
      (s.workers.get l).step w l signal fault s.shared = some (s'.workers.get l, s'.shared) := by
  by_cases ha : a.lane? = some l
  · cases a with
    | request | advance | tick => cases ha
    | work m signal fault =>
      cases ha
      exact .inr ⟨signal, fault, rfl, worker_own h⟩
  · exact .inl (worker_beside h ha)

/-! ## All steps of a run -/

theorem steps_snoc {as : List Action} {a : Action} :
    s₀.steps w (as ++ [a]) = some s' ↔
      ∃ s, s₀.steps w as = some s ∧ s.step w a = some s' := by
  rw [steps_append]
  constructor
  · intro h
    obtain ⟨s, hs, hstep⟩ := Option.bind_eq_some_iff.1 h
    refine ⟨s, hs, ?_⟩
    simp only [steps] at hstep
    split at hstep
    · cases hstep
    · cases hstep
      assumption
  · rintro ⟨s, hs, hstep⟩
    simp only [hs, Option.bind_some, steps, hstep]

/-- Induction along a run: what holds at its start and is kept by each of its steps. -/
theorem steps_induction {P : List Action → System σ W → Prop} (start : P [] s₀)
    (step : ∀ {as : List Action} {a : Action} {s s' : System σ W}, s₀.steps w as = some s →
      P as s → s.step w a = some s' → P (as ++ [a]) s')
    {as : List Action} (h : s₀.steps w as = some s) : P as s := by
  induction as using List.reverseRecOn generalizing s with
  | nil => cases h; exact start
  | append_singleton as a ih =>
    obtain ⟨t, ht, hstep⟩ := steps_snoc.1 h
    exact step ht (ih ht) hstep

/-- The same for a run of actions of one kind. -/
theorem steps_induction_forall {Q : Action → Prop} {P : List Action → System σ W → Prop}
    (start : P [] s₀)
    (step : ∀ {as : List Action} {a : Action} {s s' : System σ W}, s₀.steps w as = some s →
      (∀ b ∈ as, Q b) → Q a → P as s → s.step w a = some s' → P (as ++ [a]) s')
    {as : List Action} (has : ∀ a ∈ as, Q a) (h : s₀.steps w as = some s) : P as s := by
  refine steps_induction (P := fun as s => (∀ a ∈ as, Q a) → P as s) (fun _ => start) ?_ h has
  intro as a s s' hs ih hstep has
  have hbefore : ∀ b ∈ as, Q b := fun b hb => has b (List.mem_append_left _ hb)
  exact step hs hbefore (has a (by simp)) (ih hbefore) hstep

/-! ## What a run went through -/

/-- At some moment of a run, its end included, the worker of a lane stood at a point. -/
def Visits (w : Wiring W) (s₀ : System σ W) (as : List Action) (l : Lane) (p : Point W) : Prop :=
  ∃ bs s, bs <+: as ∧ s₀.steps w bs = some s ∧ s.workers.get l = p

theorem Visits.here {as : List Action} (h : s₀.steps w as = some s) (l : Lane) :
    Visits w s₀ as l (s.workers.get l) :=
  ⟨as, s, List.prefix_rfl, h, rfl⟩

theorem Visits.snoc {as : List Action} {l : Lane} {p : Point W} (h : Visits w s₀ as l p)
    (a : Action) : Visits w s₀ (as ++ [a]) l p := by
  obtain ⟨bs, s, hbs, hs, hp⟩ := h
  exact ⟨bs, s, hbs.trans (List.prefix_append as [a]), hs, hp⟩

/-- The clock at the last step that the worker of a lane made from a point of some kind. -/
def lastAt? (w : Wiring W) (l : Lane) (q : Point W → Bool) :
    List Action → System σ W → Option Instant
  | [], _ => none
  | a :: as, s =>
    match s.step w a with
    | none => none
    | some s' =>
      (lastAt? w l q as s').or
        (if a.lane? = some l ∧ q (s.workers.get l) then some s.shared.now else none)

theorem lastAt?_snoc (l : Lane) (q : Point W → Bool) {as : List Action} {a : Action}
    (h : s₀.steps w as = some s) (hstep : s.step w a = some s') :
    lastAt? w l q (as ++ [a]) s₀ =
      if a.lane? = some l ∧ q (s.workers.get l) then some s.shared.now
      else lastAt? w l q as s₀ := by
  induction as generalizing s₀ with
  | nil =>
    cases h
    simp only [List.nil_append, lastAt?, hstep, Option.none_or]
  | cons b as ih =>
    simp only [steps] at h
    split at h
    · cases h
    · rename_i t hb
      simp only [List.cons_append, lastAt?, hb, ih h]
      split <;> rfl

/-- It stays the last one while the worker makes no step of that kind. -/
theorem lastAt?_keep {l : Lane} {q : Point W → Bool} {as : List Action} {a : Action}
    {t : Option Instant} (h : s₀.steps w as = some s) (hstep : s.step w a = some s')
    (hq : a.lane? = some l → q (s.workers.get l) = false) (ht : lastAt? w l q as s₀ = t) :
    lastAt? w l q (as ++ [a]) s₀ = t := by
  rw [lastAt?_snoc l q h hstep, if_neg, ht]
  rintro ⟨ha, hl⟩
  rw [hq ha] at hl
  cases hl

end System

/-! ## A small scheduler -/

namespace Trial

/-- One class, whose commands end at once, each attempt with an outcome of its own; a failure is
retried after five milliseconds. -/
def wiring (outcome : UInt32 → Outcome) : Wiring Unit where
  config :=
    { retry := { maxAttempts := 3, backoffBaseMs := 5, backoffMaxMs := 20, jitterRatio := ⟨0⟩ }
      storeRetryDelayMs := 1 }
  registry :=
    ⟨[{ descriptor := { tag := "Flaky", lane := .general, bubbles := true }
        decode := fun _ =>
          .ok ⟨"f", "Retrying f", .ok [], fun x => .done (.outcome (outcome x.attempt))⟩ }]⟩

/-- Nothing is stored and nothing started. -/
def init (outcome : UInt32 → Outcome) : System MemoryStore Unit :=
  .init (wiring outcome).config .empty 0 ()

/-- The lanes are started, and a command is submitted up to the point where it is stored. -/
def upToStore : List Action :=
  [.request .start, .advance 0 none, .advance 0 none, .advance 0 none,
    .request (.submit ⟨"Flaky", "f", .ok []⟩ {}), .advance 1 none]

/-- A step of the worker of the general lane. -/
def turn : Action := .work .general .timer none

end Trial

end LaneQueue
