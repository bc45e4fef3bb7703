import LaneQueue.Proofs.Scheduler.Replacement
/-!
# Submissions

Whatever the lanes are doing, a submission of a registered class comes to the store in its next steps,
and an answer of the store leaves the identity stored. The record that is stored for it waits, and
nobody has it in hand.
-/
namespace LaneQueue

namespace System

open LawfulStore (ledger)

variable {σ W : Type} [QueueStore σ] {w : Wiring W} {s s' : System σ W} {a : Action}

/-- A client submits a draft and goes on up to the storing of it. -/
def submitting (s : System σ W) (d : Draft) (o : SubmitOptions) : List Action :=
  [.request (.submit d o), .advance s.calls.length none, .advance s.calls.length none]

/-- The steps of a submission are there to be taken, and they store what the store answers. -/
theorem steps_submitting {d : Draft} {o : SubmitOptions} {k : Descriptor}
    (hk : w.registry.descriptor? d.tag = some k) {c : NewCommand} (hc : d.toCommand k o = .ok c)
    {x : Submission}
    (hx : (QueueStore.submit c k.conflict s.shared.now s.shared.store).1 = .ok x) :
    ∃ u t, s.steps w [.request (.submit d o), .advance s.calls.length none] = some u ∧
      u.step w (.advance s.calls.length none) = some t ∧
      s.steps w (s.submitting d o) = some t ∧ u.shared = s.shared ∧
      u.operation? (.advance s.calls.length none) = some (.submit c k.conflict) := by
  have hdraft : Call.ofDraft w d o = .store c k.conflict .first := by
    simp only [Call.ofDraft, hk, hc]
  have hu : s.steps w [.request (.submit d o), .advance s.calls.length none] =
      some { s with calls := s.calls ++ [.store c k.conflict .first] } := by
    simp [steps, step, advance, Call.ofRequest, Call.step, hdraft]
  have hmade : Try.first.operation? none (.submit c k.conflict) = some (.submit c k.conflict) := rfl
  have hcall : (Call.store c k.conflict .first).step w none s.shared =
      some (.ofSubmission c.lane x,
        { s.shared with store := (QueueStore.submit c k.conflict s.shared.now s.shared.store).2 }) := by
    simp only [Call.step, Call.trying, Try.step_of_ok hmade hx]
  have ht : (System.step w (.advance s.calls.length none)
      { s with calls := s.calls ++ [.store c k.conflict .first] }).isSome := by
    simp [step, advance, hcall]
  obtain ⟨t, ht⟩ := Option.isSome_iff_exists.1 ht
  refine ⟨_, t, hu, ht, steps_snoc.2 ⟨_, hu, ht⟩, rfl, ?_⟩
  simp [operation?, Call.operation?, Try.operation?]

variable [LawfulStore σ]

/-- **A submission is stored**, whatever the lanes are doing: the steps up to its storing can be taken,
and an answer of the store leaves its identity stored, and a new record waiting. -/
theorem Tidy.submit_stored (h : s.Tidy) {d : Draft} {o : SubmitOptions} {k : Descriptor}
    (hk : w.registry.descriptor? d.tag = some k) {c : NewCommand} (hc : d.toCommand k o = .ok c)
    {x : Submission}
    (hx : (QueueStore.submit c k.conflict s.shared.now s.shared.store).1 = .ok x) :
    ∃ t, s.steps w (s.submitting d o) = some t ∧ (ledger t.shared.store).Holds c.identity ∧
      ∀ r, (Answer.submission x).created? = some r → r.toNewCommand = c ∧ t.Waits r := by
  obtain ⟨u, t, hu, hstep, ht, hshared, hop⟩ := steps_submitting hk hc hx
  have hlaw := LawfulStore.submit h.sound c k.conflict s.shared.now
  rw [hx] at hlaw
  have hstore := step_store hstep
  rw [hop, hshared] at hstore
  refine ⟨t, ht, by rw [hstore]; exact hlaw.holds, fun r hr => ?_⟩
  have hrun : ((Operation.submit c k.conflict).run u.shared.now u.shared.store).1 =
      .ok (.submission x) := by
    rw [hshared]
    exact congrArg (Except.map Answer.submission) hx
  have hacc : u.accepted? (.advance s.calls.length none) = some r := by
    unfold accepted?
    rw [hop, Option.bind_some, hrun]
    exact hr
  refine ⟨?_, ((h.steps hu).waits_of_accepted hacc hstep).1⟩
  cases x with
  | inserted y =>
    obtain ⟨-, hy, -⟩ := hlaw
    obtain rfl := Option.some.inj hr
    rw [hy]
    rfl
  | replaced old y =>
    obtain ⟨-, -, hy, -⟩ := hlaw
    obtain rfl := Option.some.inj hr
    rw [hy]
    rfl
  | kept | refused => cases hr

end System

end LaneQueue
