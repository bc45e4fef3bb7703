import LaneQueue.Proofs.Scheduler.Signals
/-!
# Who steers the lanes

The pause flag of a lane goes up by a pause and down by a resume, and the workers are told to end by a
shutdown; no other step touches these (`System.step_steered`), so what they say holds throughout a run
in which nobody takes such a step.
-/
namespace LaneQueue

/-- What only the requests that steer the lanes change. -/
structure Shared.Unsteered {σ W : Type} (s s' : Shared σ W) : Prop where
  cancelled : s'.cancelled = s.cancelled
  paused : ∀ l, (s'.cell l).paused = (s.cell l).paused

namespace Shared.Unsteered

variable {σ W : Type} {s s' s'' : Shared σ W}

theorem refl (s : Shared σ W) : Unsteered s s := ⟨rfl, fun _ => rfl⟩

theorem trans (h : Unsteered s s') (h' : Unsteered s' s'') : Unsteered s s'' where
  cancelled := h'.cancelled.trans h.cancelled
  paused l := (h'.paused l).trans (h.paused l)

theorem modifyCell (s : Shared σ W) (l : Lane) {f : LaneCell → LaneCell}
    (hf : ∀ c, (f c).paused = c.paused) : Unsteered s (s.modifyCell l f) where
  cancelled := rfl
  paused m := by
    rw [Shared.cell_modifyCell]
    split
    · exact hf _
    · rfl

theorem setState (s : Shared σ W) (l : Lane) (state : LaneState) : Unsteered s (s.setState l state) :=
  modifyCell s l fun c => by unfold LaneCell.setState; split <;> rfl

end Shared.Unsteered

section Steps

variable {σ W : Type} [QueueStore σ] {w : Wiring W} {fault : Option QueueError} {s s' : Shared σ W}

/-- The pause flag that a request is about to set, and whether up or down. -/
def Call.sets? : Call → Option (Lane × Bool)
  | pause l => some (l, true)
  | resume l => some (l, false)
  | _ => none

theorem Call.sets?_eq_some {c : Call} {l : Lane} {up : Bool} :
    c.sets? = some (l, up) ↔ c = if up then .pause l else .resume l := by
  cases c <;> cases up <;> simp [sets?]

/-- What the step of a request does to the flags. -/
inductive Call.Steers (s s' : Shared σ W) : Call → Prop
  | none {c : Call} : Shared.Unsteered s s' → Steers s s' c
  | pause (l : Lane) : s' = s.setPaused l true → Steers s s' (.pause l)
  | resume (l : Lane) : s' = s.setPaused l false → Steers s s' (.resume l)
  | cancel : s' = { s with cancelled := true } → Steers s s' .cancel

theorem Call.step_steers {c c' : Call} (h : c.step w fault s = some (c', s')) : c.Steers s s' := by
  cases step_changes h with
  | same | stored | started | told | gathered => exact .none ⟨rfl, fun _ => rfl⟩
  | spawned => exact .none ⟨rfl, fun l => by simp [Shared.cell]⟩
  | woken l => exact .none (.modifyCell s l fun _ => rfl)
  | paused l => exact .pause l rfl
  | resumed l => exact .resume l rfl
  | shown l state => exact .none (.setState s l state)
  | cancelled => exact .cancel rfl

/-- A worker steers nothing but by a request of its body. -/
theorem Point.step_steers {l : Lane} {signal : Signal} {p p' : Point W}
    (h : p.step w l signal fault s = some (p', s')) :
    Shared.Unsteered s s' ∨ ∃ c, p.request? = some c ∧ c.Steers s s' := by
  cases step_changes h with
  | asked r c c' next hc => exact .inr ⟨c, rfl, Call.step_steers hc⟩
  | same => exact .inl (.refl s)
  | stored | acted | announced | published => exact .inl ⟨rfl, fun _ => rfl⟩
  | noticed | roused | collapsed | finished => exact .inl (.modifyCell s l fun _ => rfl)
  | shown state => exact .inl (.setState s l state)
  | begun | stopped =>
    exact .inl ((Shared.Unsteered.setState s l _).trans (.modifyCell _ l fun _ => rfl))

end Steps

namespace System

section Unpauses

variable {σ W : Type} {s : System σ W} {a : Action} {l : Lane}

/-- A caller sets the pause flag of a lane down. -/
def Unpauses (l : Lane) (s : System σ W) (a : Action) : Prop :=
  ∃ k, a.caller? = some k ∧ s.callOf k = some (.resume l)

theorem unpauses_iff :
    s.Unpauses l a ↔ (a.caller?.bind fun k => (s.callOf k).bind Call.sets?) = some (l, false) := by
  simp [Unpauses, Option.bind_eq_some_iff, Call.sets?_eq_some]

instance : Decidable (s.Unpauses l a) := decidable_of_iff _ unpauses_iff.symm

end Unpauses

variable {σ W : Type} [QueueStore σ] {w : Wiring W} {s s' s₀ : System σ W} {a : Action} {l : Lane}

/-- **Every step** leaves the flags alone, or is one of a request that steers the lanes. -/
theorem step_steered (hstep : s.step w a = some s') :
    Shared.Unsteered s.shared s'.shared ∨
      ∃ k c, a.caller? = some k ∧ s.callOf k = some c ∧ c.Steers s.shared s'.shared := by
  cases a with
  | request | tick => cases hstep; exact .inl ⟨rfl, fun _ => rfl⟩
  | advance i fault =>
    obtain ⟨c, c', x, hc, hcall, rfl⟩ := advance_cases hstep
    exact .inr ⟨.client i, c, rfl, hc, Call.step_steers hcall⟩
  | work m signal fault =>
    rcases Point.step_steers (worker_own hstep) with h | ⟨c, hc, h⟩
    · exact .inl h
    · exact .inr ⟨.body m, c, rfl, hc, h⟩

theorem paused_step (hstep : s.step w a = some s') (hup : (s.shared.cell l).paused = true)
    (hno : ¬ s.Unpauses l a) : (s'.shared.cell l).paused = true := by
  rcases step_steered hstep with h | ⟨k, c, hk, hc, h⟩
  · rw [h.paused]
    exact hup
  · cases h with
    | none h => rw [h.paused]; exact hup
    | cancel h => rw [h]; exact hup
    | pause m h =>
      rw [h, Shared.setPaused, Shared.cell_modifyCell]
      split
      · rfl
      · exact hup
    | resume m h =>
      have hm : m ≠ l := fun he => hno ⟨k, hk, he ▸ hc⟩
      rw [h, Shared.setPaused, Shared.cell_modifyCell, if_neg hm]
      exact hup

/-- The step of a caller that pauses a lane sets its flag up. -/
theorem paused_of_pause (hstep : s.step w a = some s') {k : Caller} (hk : a.caller? = some k)
    (hc : s.callOf k = some (.pause l)) : (s'.shared.cell l).paused = true := by
  obtain ⟨c', hcall, -⟩ := callOf_own hstep hk hc rfl
  simp only [Call.step, Option.some.injEq, Prod.mk.injEq] at hcall
  rw [← hcall.2, Shared.setPaused, Shared.cell_modifyCell, if_pos rfl]

/-- Nobody takes the cancellation back. -/
theorem cancelled_step (hstep : s.step w a = some s') (hc : s.shared.cancelled = true) :
    s'.shared.cancelled = true := by
  rcases step_steered hstep with h | ⟨k, c, -, -, h⟩
  · rw [h.cancelled]
    exact hc
  · cases h with
    | none h => rw [h.cancelled]; exact hc
    | cancel h => rw [h]
    | pause m h | resume m h => rw [h]; exact hc

/-- It comes from the step of a shutdown. -/
theorem cancels_of_step (hstep : s.step w a = some s') (hc : s.shared.cancelled = false)
    (hc' : s'.shared.cancelled = true) : ∃ k, a.caller? = some k ∧ s.callOf k = some .cancel := by
  rcases step_steered hstep with h | ⟨k, c, hk, hcall, h⟩
  · rw [h.cancelled, hc] at hc'
    cases hc'
  · cases h with
    | none h => rw [h.cancelled, hc] at hc'; cases hc'
    | cancel => exact ⟨k, hk, hcall⟩
    | pause m h | resume m h =>
      rw [h] at hc'
      cases hc.symm.trans hc'

theorem cancelled_of_cancel (hstep : s.step w a = some s') {k : Caller} (hk : a.caller? = some k)
    (hc : s.callOf k = some .cancel) : s'.shared.cancelled = true := by
  obtain ⟨c', hcall, -⟩ := callOf_own hstep hk hc rfl
  simp only [Call.step, Option.some.injEq, Prod.mk.injEq] at hcall
  rw [← hcall.2]

/-! ## What every step of a run does -/

/-- Every step of a run is taken in a certain way. -/
def Throughout (w : Wiring W) (s₀ : System σ W) (as : List Action)
    (Q : System σ W → Action → Prop) : Prop :=
  ∀ bs b u, bs ++ [b] <+: as → s₀.steps w bs = some u → Q u b

namespace Throughout

variable {Q : System σ W → Action → Prop} {as bs : List Action}

theorem of_prefix (h : Throughout w s₀ as Q) (hpre : bs <+: as) : Throughout w s₀ bs Q :=
  fun cs b u hcs => h cs b u (hcs.trans hpre)

theorem left (h : Throughout w s₀ (as ++ bs) Q) : Throughout w s₀ as Q :=
  h.of_prefix (List.prefix_append as bs)

theorem right (h : Throughout w s₀ (as ++ bs) Q) (hs : s₀.steps w as = some s) :
    Throughout w s bs Q := by
  intro cs b u hpre hu
  refine h (as ++ cs) b u ?_ (by rw [steps_append, hs]; exact hu)
  rw [List.append_assoc]
  exact (List.prefix_append_right_inj as).2 hpre

theorem last (h : Throughout w s₀ (as ++ [a]) Q) (hs : s₀.steps w as = some s) : Q s a :=
  h as a s List.prefix_rfl hs

end Throughout

/-- Induction along a run whose steps are all taken in a certain way. -/
theorem steps_induction_throughout {Q : System σ W → Action → Prop}
    {P : List Action → System σ W → Prop} (start : P [] s₀)
    (step : ∀ {as : List Action} {a : Action} {s s' : System σ W}, s₀.steps w as = some s →
      Q s a → P as s → s.step w a = some s' → P (as ++ [a]) s')
    {as : List Action} (hQ : Throughout w s₀ as Q) (h : s₀.steps w as = some s) : P as s := by
  refine steps_induction (P := fun as s => Throughout w s₀ as Q → P as s) (fun _ => start) ?_ h hQ
  intro as a s s' hs ih hstep hQ
  exact step hs (hQ.last hs) (ih hQ.left) hstep

theorem paused_steps (hup : (s₀.shared.cell l).paused = true) {as : List Action}
    (hno : Throughout w s₀ as fun u b => ¬ u.Unpauses l b) (hrun : s₀.steps w as = some s) :
    (s.shared.cell l).paused = true :=
  steps_induction_throughout (P := fun _ t => (t.shared.cell l).paused = true) hup
    (fun _ hb ht hstep => paused_step hstep ht hb) hno hrun

theorem cancelled_steps (hc : s₀.shared.cancelled = true) {as : List Action}
    (hrun : s₀.steps w as = some s) : s.shared.cancelled = true :=
  steps_induction (P := fun _ t => t.shared.cancelled = true) hc
    (fun _ ht hstep => cancelled_step hstep ht) hrun

end System

end LaneQueue
