import LaneQueue.Proofs.Scheduler.Telling
/-!
# What is dropped

A record is told to be dropped only if its payload cannot be read. The chronicle keeps with every such
note the record that it is about, and a worker comes by an event of this kind nowhere but where it fails
to read the record that it is busy with.
-/
namespace LaneQueue

/-- Whether an event says that a payload could not be read. -/
def EventBody.isDrop : EventBody → Bool
  | dropped .. => true
  | _ => false

theorem Fate.isDrop_ofOutcome (c : RetryConfig) (now : Instant) (r : Record) (o : Outcome) :
    (ofOutcome c now r o).event.isDrop = false := by
  cases o with
  | success | fatal => rfl
  | recoverable reason =>
    simp only [ofOutcome]
    split
    · rfl
    · split <;> rfl

/-- Whether the payload of a record cannot be read. -/
def Registry.Refuses {W : Type} (g : Registry W) (r : Record) : Prop := ∃ e, g.decode r = .error e

namespace Point

variable {W : Type} {p p' : Point W} {e : EventBody}

/-- A drop is noted by a worker that was about to tell it. -/
theorem toTell?_of_note? (h : p.note? = some (.told e)) (he : e.isDrop = true) :
    p.toTell? = some e := by
  cases p with
  | publish lane e' => cases h; rfl
  | announce => cases h; cases he
  | run r b => cases b <;> cases h
  | release => cases h
  | top | readPause | showPaused | paused | claim | claimFailed | showIdle | askWake | measure | arm |
    idle | decode | begin | asking | settle | collapsed | finish | stop | exited => cases h

/-- A worker comes to tell of a drop only where it fails to read a record. -/
theorem toTell?_step_drop {σ : Type} [QueueStore σ] {w : Wiring W} {l : Lane} {signal : Signal}
    {fault : Option QueueError} {s s' : Shared σ W} (h : p.step w l signal fault s = some (p', s'))
    (he : p'.toTell? = some e) (hd : e.isDrop = true) :
    p.toTell? = some e ∨ ∃ r, p = decode r ∧ w.registry.Refuses r := by
  cases step_moves h with
  | reject r d hr => exact .inr ⟨r, rfl, d, hr⟩
  | finish r f =>
    cases he
    rw [Fate.isDrop_ofOutcome] at hd
    cases hd
  | settleAgain | settled | giveUp | release => exact .inl he
  | look | leave | hold | pass | park | cancel | rouse | claimAgain | claimFails | findNone | find |
    rest | learn | refuse | measure | sleep | accept | begin | execute | act | await | ask | proceed |
    hear | collapse | publish | again | exit => cases he

end Point

namespace System

variable {σ W : Type} {s s' s₀ : System σ W} {c c₀ : Chronicle} {a : Action} {w : Wiring W}

/-- Whatever has been told to be dropped, or is about to be, is a record that cannot be read. -/
structure Chronicle.DropsUnread (w : Wiring W) (c : Chronicle) (s : System σ W) : Prop where
  notes : ∀ x e, (x, Note.told e) ∈ c.notes → e.isDrop = true → w.registry.Refuses x
  toTell : ∀ l x e, c.subject? s l = some x → (s.workers.get l).toTell? = some e →
    e.isDrop = true → w.registry.Refuses x

namespace Chronicle.DropsUnread

theorem init (config : QueueConfig) (store : σ) (now : Instant) (world : W) :
    ({} : Chronicle).DropsUnread w (System.init config store now world) where
  notes x e h := by cases h
  toTell l x e hx := by simp [subject?, System.init, Point.subject?, Point.record?] at hx

variable [QueueStore σ]

theorem step (h : c.DropsUnread w s) (hstep : s.step w a = some s') :
    (c.after s a).DropsUnread w s' where
  notes x e hn he := by
    rcases List.mem_append.1 hn with hn | hn
    · exact h.notes x e hn he
    · obtain ⟨l, -, hx, hnote⟩ := noted?_eq_some (Option.mem_toList.1 hn)
      exact h.toTell l x e hx (Point.toTell?_of_note? hnote he) he
  toTell l x e hx ht he := by
    rcases subject_cases hstep hx with hold | ⟨hp, -, -⟩
    · rcases step_worker hstep l with heq | ⟨signal, fault, -, hown⟩
      · exact h.toTell l x e hold (heq ▸ ht) he
      · rcases Point.toTell?_step_drop hown ht he with ht | ⟨r, hp, hr⟩
        · exact h.toTell l x e hold ht he
        · obtain rfl : r = x := by
            simp only [subject?, hp, Point.subject?, Point.record?, Option.some.injEq] at hold
            exact hold
          exact hr
    · rw [hp] at ht
      cases ht

/-- **In a run** nothing is dropped that can be read. -/
theorem steps (h : c₀.DropsUnread w s₀) {as : List Action} (hrun : s₀.steps w as = some s) :
    (s₀.chronicle w as c₀).DropsUnread w s := by
  refine steps_induction (P := fun as t => (s₀.chronicle w as c₀).DropsUnread w t) h ?_ hrun
  intro as a t t' ht ih hstep
  rw [chronicle_snoc ht hstep]
  exact ih.step hstep

end Chronicle.DropsUnread

end System

end LaneQueue
