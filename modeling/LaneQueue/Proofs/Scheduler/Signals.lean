import LaneQueue.Proofs.Scheduler.Runs
/-!
# Callers and signals

A request is under way for a caller: the client who has brought it, or the body of a command. It moves
by the steps of its caller only. What a caller tells a worker waits for it in the cell of its lane, as
a permit or as a change of the pause flag, and nobody but that worker takes it away.
-/
namespace LaneQueue

/-! ## What a step does to the signals of a lane -/

/-- No signal is taken away, and a change of the pause flag is one. -/
structure LaneCell.Signals (c c' : LaneCell) : Prop where
  permit : c.permit = true → c'.permit = true
  flag : c'.changed = true ∨ (c'.paused = c.paused ∧ c'.changed = c.changed)

namespace LaneCell.Signals

variable {c c' c'' : LaneCell}

theorem refl (c : LaneCell) : c.Signals c := ⟨id, .inr ⟨rfl, rfl⟩⟩

theorem trans (h : c.Signals c') (h' : c'.Signals c'') : c.Signals c'' where
  permit hp := h'.permit (h.permit hp)
  flag := by
    rcases h'.flag with hc | ⟨hp', hc'⟩
    · exact .inl hc
    · rcases h.flag with hc | ⟨hp, hc⟩
      · exact .inl (hc'.trans hc)
      · exact .inr ⟨hp'.trans hp, hc'.trans hc⟩

theorem setState (c : LaneCell) (state : LaneState) : c.Signals (c.setState state) := by
  unfold LaneCell.setState
  split <;> exact ⟨id, .inr ⟨rfl, rfl⟩⟩

/-- A flag that is up stays up, or the worker is told. -/
theorem paused_or_changed (h : c.Signals c') (hc : c.paused = true ∨ c.changed = true) :
    c'.paused = true ∨ c'.changed = true := by
  rcases h.flag with hc' | ⟨hp, hch⟩
  · exact .inr hc'
  · rw [hp, hch]
    exact hc

/-- A change stays there to be noticed. -/
theorem changed (h : c.Signals c') (hc : c.changed = true) : c'.changed = true := by
  rcases h.flag with hc' | ⟨-, hch⟩
  · exact hc'
  · exact hch.trans hc

end LaneCell.Signals

variable {σ W : Type} {w : Wiring W} {fault : Option QueueError}

theorem Shared.signals_modifyCell (s : Shared σ W) (l m : Lane) {f : LaneCell → LaneCell}
    (hf : ∀ c, LaneCell.Signals c (f c)) :
    (s.cell m).Signals ((s.modifyCell l f).cell m) := by
  rw [Shared.cell_modifyCell]
  split
  · exact hf _
  · exact .refl _

theorem Shared.signals_setState (s : Shared σ W) (l : Lane) (state : LaneState) (m : Lane) :
    (s.cell m).Signals ((s.setState l state).cell m) :=
  s.signals_modifyCell l m fun c => .setState c state

variable [QueueStore σ] {s s' : Shared σ W}

/-- A request takes no signal away. -/
theorem Call.step_signals {c c' : Call} (h : c.step w fault s = some (c', s')) (m : Lane) :
    (s.cell m).Signals (s'.cell m) := by
  cases Call.step_changes h with
  | same | stored | started | told | cancelled | gathered => exact .refl _
  | spawned =>
    simp only [Shared.cell, PerLane.get_ofFn]
    exact ⟨id, .inr ⟨rfl, rfl⟩⟩
  | woken l => exact s.signals_modifyCell l m fun _ => ⟨fun _ => rfl, .inr ⟨rfl, rfl⟩⟩
  | paused l | resumed l => exact s.signals_modifyCell l m fun _ => ⟨id, .inl rfl⟩
  | shown l state => exact s.signals_setState l state m

/-- Whether a worker takes signals away in its next step. -/
def Point.heeds : Point W → Bool
  | readPause | paused | idle _ => true
  | _ => false

/-- A worker takes away no signal but one that is for it and that it has been waiting for. -/
theorem Point.step_signals {l : Lane} {signal : Signal} {p p' : Point W}
    (h : p.step w l signal fault s = some (p', s')) {m : Lane} (hm : l ≠ m ∨ p.heeds = false) :
    (s.cell m).Signals (s'.cell m) := by
  have hother : ∀ f : LaneCell → LaneCell, l ≠ m → (s.cell m).Signals ((s.modifyCell l f).cell m) := by
    intro f hne
    rw [Shared.cell_modifyCell, if_neg hne]
    exact .refl _
  cases step_changes h with
  | same | stored | acted | announced | published => exact .refl _
  | noticed hp =>
    rcases hm with hne | hh
    · exact hother _ hne
    · obtain rfl | rfl | ⟨t, rfl⟩ := hp <;> cases hh
  | roused t =>
    rcases hm with hne | hh
    · exact hother _ hne
    · cases hh
  | shown state => exact s.signals_setState l state m
  | begun | stopped =>
    exact (s.signals_setState l _ m).trans
      (Shared.signals_modifyCell _ l m fun _ => ⟨id, .inr ⟨rfl, rfl⟩⟩)
  | asked r c c' next hc => exact Call.step_signals hc m
  | collapsed | finished => exact s.signals_modifyCell l m fun _ => ⟨id, .inr ⟨rfl, rfl⟩⟩

/-- How a worker comes to wait for its flag: it has just found it up. -/
theorem Point.step_toPause {l : Lane} {signal : Signal} {p p' : Point W}
    (h : p.step w l signal fault s = some (p', s')) :
    (p' = showPaused → (s'.cell l).paused = true) ∧ (p' = paused → p = showPaused) := by
  refine ⟨?_, by cases step_moves h <;> simp⟩
  rintro rfl
  cases step_moves h with
  | hold hup =>
    simp only [step, hup, if_true, Option.some.injEq, Prod.mk.injEq, true_and] at h
    rw [← h, Shared.cell_modifyCell, if_pos rfl]
    exact hup

/-! ## Workers that wait -/

namespace Point

/-- Whether a worker has found its flag up. -/
def isPausing : Point W → Bool
  | showPaused | paused => true
  | _ => false

end Point

/-! ## The requests of a caller -/

namespace System

variable {s s' : System σ W} {a : Action} {k : Caller} {c : Call}

/-- Nobody else moves the request of a caller. -/
theorem callOf_beside (hstep : s.step w a = some s') (hk : a.caller? ≠ some k)
    (hc : s.callOf k = some c) : s'.callOf k = some c := by
  cases k with
  | client i =>
    cases a with
    | request r =>
      cases hstep
      have hi : i < s.calls.length := (List.getElem?_eq_some_iff.1 hc).1
      exact (List.getElem?_append_left hi).trans hc
    | tick n => cases hstep; exact hc
    | work l signal fault =>
      obtain ⟨p, x, -, -, rfl⟩ := work_cases hstep
      exact hc
    | advance j fault =>
      obtain ⟨d, d', x, -, -, rfl⟩ := advance_cases hstep
      have hne : j ≠ i := fun he => hk (congrArg (some ∘ Caller.client) he)
      exact (List.getElem?_set_ne hne).trans hc
  | body l =>
    rcases step_worker hstep l with heq | ⟨signal, fault, rfl, -⟩
    · simp only [callOf, heq]
      exact hc
    · exact absurd rfl hk

/-- A caller moves its request by a step of it, as long as that is not answered. -/
theorem callOf_own (hstep : s.step w a = some s') (hk : a.caller? = some k)
    (hc : s.callOf k = some c) (hn : c.reply? = none) :
    ∃ c', c.step w a.fault? s.shared = some (c', s'.shared) ∧ s'.callOf k = some c' := by
  cases a with
  | request | tick => cases hk
  | advance i fault =>
    cases hk
    obtain ⟨d, d', x, hd, hcall, rfl⟩ := advance_cases hstep
    obtain rfl : d = c := Option.some.inj (hd.symm.trans hc)
    refine ⟨d', hcall, ?_⟩
    simp only [callOf, List.getElem?_set_self (List.getElem?_eq_some_iff.1 hd).1]
  | work l signal fault =>
    cases hk
    have hp := worker_own hstep
    simp only [callOf] at hc ⊢
    cases hw : s.workers.get l with
    | asking r d next =>
      rw [hw] at hc hp
      obtain rfl : d = c := Option.some.inj hc
      simp only [Point.step, hn] at hp
      obtain ⟨⟨d', y⟩, hd, hp⟩ := Option.map_eq_some_iff.1 hp
      obtain ⟨hget, rfl⟩ := Prod.mk.inj hp
      exact ⟨d', hd, by rw [← hget]; rfl⟩
    | top | readPause | showPaused | paused | claim | claimFailed | showIdle | askWake | measure | arm |
      idle | decode | begin | announce | run | settle | collapsed | release | publish | finish | stop |
      exited =>
      rw [hw] at hc
      cases hc

/-- Where a request of a caller comes from: it has been there before, it has just been brought, or its
caller has moved it. -/
theorem callOf_step {c' : Call} (hstep : s.step w a = some s') (hc' : s'.callOf k = some c') :
    s.callOf k = some c' ∨ (∃ r, c' = .ofRequest r) ∨
      ∃ c, a.caller? = some k ∧ s.callOf k = some c ∧
        c.step w a.fault? s.shared = some (c', s'.shared) := by
  cases k with
  | client i =>
    cases a with
    | request r =>
      cases hstep
      simp only [callOf, List.getElem?_append] at hc'
      split at hc'
      · exact .inl hc'
      · obtain rfl := List.mem_singleton.1 (List.mem_of_getElem? hc')
        exact .inr (.inl ⟨r, rfl⟩)
    | tick n => cases hstep; exact .inl hc'
    | work l signal fault =>
      obtain ⟨p, x, -, -, rfl⟩ := work_cases hstep
      exact .inl hc'
    | advance j fault =>
      obtain ⟨d, d', x, hd, hcall, rfl⟩ := advance_cases hstep
      by_cases hj : j = i
      · subst hj
        simp only [callOf, List.getElem?_set_self (List.getElem?_eq_some_iff.1 hd).1] at hc'
        obtain rfl := Option.some.inj hc'
        exact .inr (.inr ⟨d, rfl, hd, hcall⟩)
      · exact .inl ((List.getElem?_set_ne hj).symm.trans hc')
  | body l =>
    rcases step_worker hstep l with heq | ⟨signal, fault, rfl, hp⟩
    · simp only [callOf, heq] at hc'
      exact .inl hc'
    · simp only [callOf] at hc' ⊢
      generalize s.workers.get l = p at hp
      generalize s'.workers.get l = p' at hp hc'
      cases Point.step_moves hp with
      | ask r request next =>
        obtain rfl := Option.some.inj hc'
        exact .inr (.inl ⟨request, rfl⟩)
      | proceed r c d next =>
        obtain rfl := Option.some.inj hc'
        rcases Point.asking_cases hp with ⟨-, -, b, hb⟩ | ⟨d', hcall, hd⟩
        · cases hb
        · cases hd
          exact .inr (.inr ⟨c, rfl, rfl, hcall⟩)
      | look | leave | hold | pass | park | cancel | rouse | claimAgain | claimFails | findNone | find |
        rest | learn | refuse | measure | sleep | accept | reject | begin | execute | act | await | hear |
        finish | collapse | settleAgain | settled | giveUp | release | publish | again | exit => cases hc'

/-- The signals of a lane are taken away by nobody but its worker. -/
theorem step_signals (hstep : s.step w a = some s') {l : Lane}
    (ha : a.lane? ≠ some l ∨ (s.workers.get l).heeds = false) :
    (s.shared.cell l).Signals (s'.shared.cell l) := by
  cases a with
  | request | tick => cases hstep; exact .refl _
  | advance i fault =>
    obtain ⟨d, d', x, -, hcall, rfl⟩ := advance_cases hstep
    exact Call.step_signals hcall l
  | work m signal fault =>
    obtain ⟨p, x, -, hp, rfl⟩ := work_cases hstep
    by_cases hm : m = l
    · subst hm
      exact Point.step_signals hp (.inr (ha.resolve_left fun hne => hne rfl))
    · exact Point.step_signals hp (.inl hm)

/-- A caller that takes its wake step leaves a permit. -/
theorem permit_of_wake (hstep : s.step w a = some s') (hk : a.caller? = some k) {l : Lane}
    {r : Reply} (hc : s.callOf k = some (.wake l r)) : (s'.shared.cell l).permit = true := by
  obtain ⟨c', hcall, -⟩ := callOf_own hstep hk hc rfl
  simp only [Call.step, Option.some.injEq, Prod.mk.injEq] at hcall
  rw [← hcall.2, Shared.wake, Shared.cell_modifyCell, if_pos rfl]

/-- Whoever waits for work after a step has waited before, and has taken no signal, or has just found
nothing. -/
theorem idling_cases (hstep : s.step w a = some s') (hi : (s'.workers.get l).isIdling = true) :
    ((s.workers.get l).isIdling = true ∧
        (a.lane? ≠ some l ∨ (s.workers.get l).heeds = false)) ∨
      ∃ signal fault t, a = .work l signal fault ∧ s.workers.get l = .claim t ∧
        s'.workers.get l = .showIdle := by
  by_cases ha : a.lane? = some l
  · cases a with
    | request | advance | tick => cases ha
    | work m signal fault =>
      cases ha
      obtain ⟨hshow, hask, hmeasure, harm, hidle⟩ := Point.step_toWait (worker_own hstep)
      cases hp : s'.workers.get l with
      | showIdle =>
        obtain ⟨t, ht⟩ := hshow hp
        exact .inr ⟨signal, fault, t, rfl, ht, rfl⟩
      | askWake => rw [hask hp]; exact .inl ⟨rfl, .inr rfl⟩
      | measure t => rw [hmeasure t hp]; exact .inl ⟨rfl, .inr rfl⟩
      | arm d =>
        rcases harm d hp with heq | ⟨t, heq⟩
        · rw [heq]; exact .inl ⟨rfl, .inr rfl⟩
        · rw [heq]; exact .inl ⟨rfl, .inr rfl⟩
      | idle t =>
        obtain ⟨d, heq⟩ := hidle t hp
        rw [heq]
        exact .inl ⟨rfl, .inr rfl⟩
      | top | readPause | showPaused | paused | claim | claimFailed | decode | begin | announce |
        run | asking | settle | collapsed | release | publish | finish | stop | exited =>
        rw [hp] at hi
        cases hi
  · rw [worker_beside hstep ha] at hi
    exact .inl ⟨hi, .inl ha⟩

/-- Whoever waits for its flag after a step has waited before, and has taken no signal, or has just
found the flag up. -/
theorem pausing_cases (hstep : s.step w a = some s') (hp : (s'.workers.get l).isPausing = true) :
    ((s.workers.get l).isPausing = true ∧
        (a.lane? ≠ some l ∨ (s.workers.get l).heeds = false)) ∨
      (s'.shared.cell l).paused = true := by
  by_cases ha : a.lane? = some l
  · cases a with
    | request | advance | tick => cases ha
    | work m signal fault =>
      cases ha
      obtain ⟨hshow, hpaused⟩ := Point.step_toPause (worker_own hstep)
      cases hq : s'.workers.get l with
      | showPaused => exact .inr (hshow hq)
      | paused => rw [hpaused hq]; exact .inl ⟨rfl, .inr rfl⟩
      | top | readPause | claim | claimFailed | showIdle | askWake | measure | arm | idle | decode |
        begin | announce | run | asking | settle | collapsed | release | publish | finish | stop |
        exited =>
        rw [hq] at hp
        cases hp
  · rw [worker_beside hstep ha] at hp
    exact .inl ⟨hp, .inl ha⟩

/-- A worker that waits for its flag has found it up, or the change of it is there to be noticed. -/
theorem paused_or_changed_step (hstep : s.step w a = some s')
    (h : (s.workers.get l).isPausing = true →
      (s.shared.cell l).paused = true ∨ (s.shared.cell l).changed = true)
    (hp : (s'.workers.get l).isPausing = true) :
    (s'.shared.cell l).paused = true ∨ (s'.shared.cell l).changed = true := by
  rcases pausing_cases hstep hp with ⟨hold, hheeds⟩ | hup
  · exact (step_signals hstep hheeds).paused_or_changed (h hold)
  · exact .inl hup

end System

end LaneQueue
