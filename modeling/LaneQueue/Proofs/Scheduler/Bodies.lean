import LaneQueue.Proofs.Scheduler.Moves
import LaneQueue.Scheduler.Run
/-!
# Bodies in the hands of a worker

A worker that carries out a body settles its record in the end, or breaks down where the fate of the
record has no date. `Point.Executes` is one way there, with what the body asks on it, and
`Point.Completes` says that every way ends there. Between two of the worker's steps anything may happen;
all that is known is a condition on what it finds. Where the store takes every submission, a body that
submits a command gets its answer and goes on.
-/
namespace LaneQueue

namespace Point

variable {σ W : Type}

/-- What a body asks at a point. -/
def asks : Point W → List Request
  | run _ (.ask request _) => [request]
  | _ => []

variable [QueueStore σ]

/-- A worker goes on, from what it finds, to the settling of its record, or breaks down over it: what is
asked on the way, and what is to become of the record. The storage is not disturbed. -/
inductive Executes (w : Wiring W) (l : Lane) (ok : Shared σ W → Prop) :
    Point W → Shared σ W → List Request → Fate → Prop
  | settle {r : Record} {fate : Fate} {s : Shared σ W} : Executes w l ok (settle r fate .first) s [] fate
  | collapse {r : Record} {f : Finish} {s : Shared σ W} : ok s →
      (Fate.ofOutcome w.config.retry s.now r f.toOutcome).isDated = false →
        Executes w l ok (run r (.done f)) s [] (.ofOutcome w.config.retry s.now r f.toOutcome)
  | step {p p' : Point W} {s s' t : Shared σ W} {signal : Signal} {log : List Request} {fate : Fate} :
      p.isInBody → ok s → p.step w l signal none s = some (p', s') → Executes w l ok p' t log fate →
        Executes w l ok p s (p.asks ++ log) fate

/-- Whatever a worker finds, it can go on, and it comes to the settling of its record unless it breaks
down over it. -/
inductive Completes (w : Wiring W) (l : Lane) (ok : Shared σ W → Prop) : Point W → Prop
  | settle {r : Record} {fate : Fate} : Completes w l ok (settle r fate .first)
  | step {p : Point W} : p.isInBody →
      (∀ s signal, ok s → (p.step w l signal none s).isSome) →
      (∀ s signal p' s', ok s → p.step w l signal none s = some (p', s') →
        (∀ r, p' ≠ collapsed r) → Completes w l ok p') →
        Completes w l ok p

variable {w : Wiring W} {l : Lane} {ok : Shared σ W → Prop} {r : Record} {s : Shared σ W}
  {log : List Request} {fate : Fate}

theorem Completes.executes {p : Point W} (h : Completes w l ok p) (hs : ok s) :
    ∃ log fate, Executes w l ok p s log fate := by
  induction h with
  | settle => exact ⟨_, _, .settle⟩
  | step hin hgoes _ ih =>
    obtain ⟨⟨p', s'⟩, hstep⟩ := Option.isSome_iff_exists.1 (hgoes s .timer hs)
    by_cases hp : ∃ r, p' = collapsed r
    · obtain ⟨r, rfl⟩ := hp
      cases step_moves hstep with
      | collapse _ f hdate => exact ⟨_, _, .collapse hs hdate⟩
    · obtain ⟨log, fate, hrest⟩ := ih s .timer p' s' hs hstep fun r hr => hp ⟨r, hr⟩
      exact ⟨_, fate, .step hin hs hstep hrest⟩

/-- A step that can always be taken. -/
theorem Completes.of_step {p : Point W} (hin : p.isInBody)
    (h : ∀ s signal, ok s → ∃ p' s', p.step w l signal none s = some (p', s') ∧ Completes w l ok p') :
    Completes w l ok p := by
  refine .step hin (fun s signal hs => ?_) fun s signal p' s' hs hstep => ?_
  · obtain ⟨p', s', hstep, -⟩ := h s signal hs
    exact Option.isSome_iff_exists.2 ⟨_, hstep⟩
  · intro _
    obtain ⟨q, t, hq, hcompletes⟩ := h s signal hs
    obtain ⟨rfl, -⟩ := Prod.mk.inj (Option.some.inj (hstep.symm.trans hq))
    exact hcompletes

/-! ## One step of a body -/

section Run

variable {effect : W → W} {act : W → Body W} {request : Request} {next : Reply → Body W}

theorem Executes.of_done {f : Finish} (h : Executes w l ok (run r (.done f)) s log fate) :
    log = [] ∧ fate = .ofOutcome w.config.retry s.now r f.toOutcome := by
  cases h with
  | collapse => exact ⟨rfl, rfl⟩
  | step _ _ hstep hrest =>
    obtain ⟨-, rfl, rfl⟩ | ⟨-, rfl, rfl⟩ := done_cases hstep
    · cases hrest with
      | settle => exact ⟨rfl, rfl⟩
      | step hin => cases hin
    · cases hrest with
      | step hin => cases hin

theorem Executes.of_act (h : Executes w l ok (run r (.act effect act)) s log fate) :
    ∃ t, Executes w l ok (run r (act s.world)) t log fate := by
  cases h with
  | step _ _ hstep hrest =>
    cases hstep
    exact ⟨_, hrest⟩

theorem Executes.of_ask (h : Executes w l ok (run r (.ask request next)) s log fate) :
    ∃ t rest, log = request :: rest ∧
      Executes w l ok (asking r (.ofRequest request) next) t rest fate := by
  cases h with
  | step _ _ hstep hrest =>
    cases hstep
    exact ⟨_, _, rfl, hrest⟩

theorem completes_done (f : Finish) : Completes w l ok (run r (.done f)) := by
  refine .step rfl (fun _ _ _ => rfl) fun s signal p' s' _ hstep hp => ?_
  obtain ⟨-, rfl, -⟩ | ⟨-, rfl, -⟩ := done_cases hstep
  · exact .settle
  · exact absurd rfl (hp r)

theorem completes_act (h : ∀ v, Completes w l ok (run r (act v))) :
    Completes w l ok (run r (.act effect act)) :=
  .of_step rfl fun s _ _ => ⟨_, _, rfl, h s.world⟩

theorem completes_ask (h : Completes w l ok (asking r (.ofRequest request) next)) :
    Completes w l ok (run r (.ask request next)) :=
  .of_step rfl fun _ _ _ => ⟨_, _, rfl, h⟩

end Run

/-! ## One step of a request -/

section Asking

variable {call : Call} {next : Reply → Body W}

/-- A step towards an answer is a step of the request. -/
theorem step_asking {p : Point W} {s' : Shared σ W} {signal : Signal} (hcall : call.reply? = none)
    (h : (asking r call next).step w l signal none s = some (p, s')) :
    ∃ call', call.step w none s = some (call', s') ∧ p = asking r call' next := by
  simp only [step, hcall] at h
  obtain ⟨⟨call', t⟩, hnext, heq⟩ := Option.map_eq_some_iff.1 h
  cases heq
  exact ⟨call', hnext, rfl⟩

theorem Executes.of_reply {reply : Reply} (h : Executes w l ok (asking r (.done reply) next) s log fate) :
    ∃ t, Executes w l ok (run r (next reply)) t log fate := by
  cases h with
  | step _ _ hstep hrest =>
    cases hstep
    exact ⟨_, hrest⟩

theorem Executes.of_call (h : Executes w l ok (asking r call next) s log fate)
    (hcall : call.reply? = none) : ∃ call' s' t, ok s ∧ call.step w none s = some (call', s') ∧
      Executes w l ok (asking r call' next) t log fate := by
  cases h with
  | step _ hs hstep hrest =>
    obtain ⟨call', hnext, rfl⟩ := step_asking hcall hstep
    exact ⟨call', _, _, hs, hnext, hrest⟩

theorem completes_reply {reply : Reply} (h : Completes w l ok (run r (next reply))) :
    Completes w l ok (asking r (.done reply) next) :=
  .of_step rfl fun _ _ _ => ⟨_, _, rfl, h⟩

theorem completes_call (hcall : call.reply? = none)
    (h : ∀ s : Shared σ W, ok s → ∃ call' s', call.step w none s = some (call', s') ∧
      Completes w l ok (asking r call' next)) : Completes w l ok (asking r call next) := by
  refine .of_step rfl fun s signal hs => ?_
  obtain ⟨call', s', hstep, hrest⟩ := h s hs
  exact ⟨_, s', by simp only [step, hcall, hstep, Option.map_some], hrest⟩

end Asking

end Point

/-! ## A submission -/

/-- The store takes every submission. -/
def Shared.Accepts {σ W : Type} [QueueStore σ] (s : Shared σ W) : Prop :=
  ∀ c policy, ∃ x, (QueueStore.submit c policy s.now s.store).1 = .ok x

/-- Where a submission stands from when it comes to the store. -/
inductive Call.IsStoring (c : NewCommand) (policy : ConflictPolicy) : Call → Prop
  | store : IsStoring c policy (.store c policy .first)
  | announce (lane : Lane) (body : EventBody) (outcome : SubmitOutcome) :
      IsStoring c policy (.announce lane body outcome)
  | wake (lane : Lane) (outcome : SubmitOutcome) : IsStoring c policy (.wake lane (.submitted outcome))
  | done (outcome : SubmitOutcome) : IsStoring c policy (.done (.submitted outcome))

section Submission

variable {σ W : Type} [QueueStore σ] {w : Wiring W} {c : NewCommand} {policy : ConflictPolicy}
  {s : Shared σ W}

namespace Call

theorem isStoring_ofSubmission (lane : Lane) (x : Submission) :
    IsStoring c policy (ofSubmission lane x) := by
  cases x with
  | inserted r => exact .announce _ _ _
  | replaced old r => exact .announce _ _ _
  | kept r => exact .done _
  | refused r => exact .done _

/-- The store answers at once. -/
theorem step_storing (hs : s.Accepts) :
    ∃ x s', (store c policy .first).step w none s = some (ofSubmission c.lane x, s') := by
  obtain ⟨x, hx⟩ := hs c policy
  refine ⟨x, { s with store := (QueueStore.submit c policy s.now s.store).2 }, ?_⟩
  simp [step, trying, Try.step, Shared.access, hx]

theorem IsStoring.step {a b : Call} {s' : Shared σ W} (h : IsStoring c policy a) (hs : s.Accepts)
    (hstep : a.step w none s = some (b, s')) : IsStoring c policy b := by
  cases h with
  | store =>
    obtain ⟨x, t, hx⟩ := step_storing (w := w) (c := c)  hs
    obtain ⟨rfl, -⟩ := Prod.mk.inj (Option.some.inj (hstep.symm.trans hx))
    exact isStoring_ofSubmission c.lane x
  | announce lane body outcome =>
    cases hstep
    exact .wake lane outcome
  | wake lane outcome =>
    cases hstep
    exact .done outcome
  | done outcome => cases hstep

end Call

namespace Point

variable {l : Lane} {r : Record} {log : List Request} {fate : Fate} {next : Reply → Body W}
  {call : Call}

/-- A submission that has come to the store is answered. -/
theorem Executes.of_storing (h : call.IsStoring c policy)
    (hx : Executes w l Shared.Accepts (asking r call next) s log fate) :
    ∃ outcome, ∃ t : Shared σ W,
      Executes w l Shared.Accepts (run r (next (.submitted outcome))) t log fate := by
  generalize hp : (asking r call next : Point W) = p at hx
  -- along the execution; the submission stays one that has come to the store until it is answered
  induction hx generalizing call with
  | settle | collapse => cases hp
  | @step p p' s s' t signal log fate _ hs hstep hrest ih =>
    subst hp
    cases hreply : call.reply? with
    | some reply =>
      cases h with
      | done outcome =>
        cases hstep
        exact ⟨outcome, t, hrest⟩
      | store | announce | wake => cases hreply
    | none =>
      obtain ⟨call', hcall, rfl⟩ := step_asking hreply hstep
      exact ih (h.step hs hcall) rfl

/-- Wherever a submission stands, its answer comes. -/
theorem completes_storing (h : ∀ outcome,
      Completes w l (Shared.Accepts (σ := σ)) (run r (next (.submitted outcome))))
    (hcall : call.IsStoring c policy) :
    Completes w l (Shared.Accepts (σ := σ)) (asking r call next) := by
  have hdone : ∀ outcome, Completes w l (Shared.Accepts (σ := σ))
      (asking r (.done (.submitted outcome)) next) := fun outcome => completes_reply (h outcome)
  have hwake : ∀ lane outcome, Completes w l (Shared.Accepts (σ := σ))
      (asking r (.wake lane (.submitted outcome)) next) :=
    fun lane outcome => completes_call rfl fun s _ => ⟨_, _, rfl, hdone outcome⟩
  have hannounce : ∀ lane body outcome, Completes w l (Shared.Accepts (σ := σ))
      (asking r (.announce lane body outcome) next) :=
    fun lane body outcome => completes_call rfl fun s _ => ⟨_, _, rfl, hwake lane outcome⟩
  cases hcall with
  | store =>
    refine completes_call rfl fun s hs => ?_
    obtain ⟨x, s', hstep⟩ := Call.step_storing hs
    refine ⟨_, s', hstep, ?_⟩
    cases x with
    | inserted r => exact hannounce _ _ _
    | replaced old r => exact hannounce _ _ _
    | kept r => exact hdone _
    | refused r => exact hdone _
  | announce lane body outcome => exact hannounce lane body outcome
  | wake lane outcome => exact hwake lane outcome
  | done outcome => exact hdone outcome

end Point

end Submission

end LaneQueue
