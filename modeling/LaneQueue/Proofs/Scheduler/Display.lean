import LaneQueue.Proofs.Scheduler.Moves
import LaneQueue.Proofs.Scheduler.Runs
/-!
# What a lane shows

The worker of a lane and any number of shutdowns write to the same cell, each in steps of its own. A
shutdown only ever sets a state from which there is no way back, and shows no command and takes none
away (`LaneCell.Beside`); whatever state the worker sets afterwards is of no effect, except that the lane
stops in the end (`LaneCell.Turns`). So what a lane shows always agrees with where its worker stands
(`Point.Showing`). A worker that breaks down sets nothing any more, and its command stays on show.
-/
namespace LaneQueue

theorem LaneState.eq_of_isTerminal {x : LaneState} (h : x.isTerminal = true) :
    x = .draining ∨ x = .stopped := by
  cases x with
  | draining => exact .inl rfl
  | stopped => exact .inr rfl
  | idle | running | paused => cases h

/-! ## What a step does to the cell of a lane -/

namespace LaneCell

/-- What others do to the cell of a lane: they show no command and take none away, and they change the
state only to one from which there is no way back. -/
structure Beside (c c' : LaneCell) : Prop where
  current : c'.current = c.current
  exited : c'.exited = c.exited
  state : c'.state = c.state ∨
    c'.state.isTerminal = true ∧ (c.state = .stopped → c'.state = .stopped)

/-- A lane that shuts down goes on to do so, and one that has stopped stays stopped. -/
structure Lasts (c c' : LaneCell) : Prop where
  terminal : c.state.isTerminal = true → c'.state.isTerminal = true
  stopped : c.state = .stopped → c'.state = .stopped

variable {c c' c'' : LaneCell}

theorem Beside.refl (c : LaneCell) : Beside c c := ⟨rfl, rfl, .inl rfl⟩

theorem Beside.of_eq (hcurrent : c'.current = c.current) (hexited : c'.exited = c.exited)
    (hstate : c'.state = c.state) : Beside c c' := ⟨hcurrent, hexited, .inl hstate⟩

theorem Beside.setState (c : LaneCell) {state : LaneState} (h : state.isTerminal = true) :
    Beside c (c.setState state) := by
  have hsame : (c.setState state).current = c.current ∧ (c.setState state).exited = c.exited := by
    unfold LaneCell.setState
    split <;> exact ⟨rfl, rfl⟩
  refine ⟨hsame.1, hsame.2, ?_⟩
  cases hc : c.state.isTerminal with
  | false =>
    rw [state_setState_of_not_terminal hc]
    refine .inr ⟨h, fun hs => ?_⟩
    rw [hs] at hc
    cases hc
  | true =>
    rw [state_setState_of_terminal hc]
    split
    · exact .inr ⟨rfl, fun _ => rfl⟩
    · exact .inl rfl

theorem Beside.lasts (h : Beside c c') : Lasts c c' := by
  rcases h.state with heq | ⟨hterm, hstop⟩
  · exact ⟨fun hc => heq ▸ hc, fun hc => heq.trans hc⟩
  · exact ⟨fun _ => hterm, hstop⟩

theorem Lasts.refl (c : LaneCell) : Lasts c c := ⟨id, id⟩

theorem Lasts.trans (h : Lasts c c') (h' : Lasts c' c'') : Lasts c c'' :=
  ⟨fun hc => h'.terminal (h.terminal hc), fun hc => h'.stopped (h.stopped hc)⟩

theorem Lasts.setState (c : LaneCell) (state : LaneState) : Lasts c (c.setState state) := by
  constructor
  · intro hc
    rw [state_setState_of_terminal hc]
    split
    · rfl
    · exact hc
  · intro hc
    rw [state_setState_of_terminal (by rw [hc]; rfl), hc]
    split <;> rfl

/-- A command is shown as running, unless the lane shuts down. -/
theorem running_or_terminal (c : LaneCell) :
    (c.setState .running).state = .running ∨ (c.setState .running).state.isTerminal = true := by
  cases hc : c.state.isTerminal with
  | false => exact .inl (state_setState_of_not_terminal hc _)
  | true => exact .inr ((Lasts.setState c .running).terminal hc)

theorem stopped_setState (c : LaneCell) : (c.setState .stopped).state = .stopped := by
  cases hc : c.state.isTerminal with
  | false => exact state_setState_of_not_terminal hc _
  | true => rw [state_setState_of_terminal hc, if_pos rfl]

theorem current_setState (c : LaneCell) (state : LaneState) :
    (c.setState state).current = c.current := by
  unfold LaneCell.setState
  split <;> rfl

theorem exited_setState (c : LaneCell) (state : LaneState) : (c.setState state).exited = c.exited := by
  unfold LaneCell.setState
  split <;> rfl

end LaneCell

/-- The command of a record, as it is shown from some instant on. -/
def Record.shownAs {W : Type} (r : Record) (c : Command W) (now : Instant) : CurrentCommand :=
  ⟨r.identity, r.tag, c.description, r.attempt, .ofMillis now⟩

namespace Point

variable {W : Type}

/-- Whether a worker sets the state of its lane, or the command that is shown, in its next step. -/
def displays : Point W → Bool
  | showPaused | showIdle | begin .. | finish | stop => true
  | _ => false

/-- Whether a worker has shown a command and has not yet done with it. -/
def isProcessing : Point W → Bool
  | announce .. | run .. | asking .. | settle .. | collapsed _ | release .. | publish .. | finish => true
  | _ => false

theorem isProcessing_of_waits {p : Point W} (h : p.waits = true) : p.isProcessing = false := by
  cases p with
  | paused | claimFailed | idle => rfl
  | _ => cases h

end Point

/-- What a worker does to the cell of its lane in the step from one point to another. -/
inductive LaneCell.Turns {W : Type} (now : Instant) :
    Point W → Point W → LaneCell → LaneCell → Prop
  | beside {p p' : Point W} {c c' : LaneCell} : p.displays = false → p'.hasEnded = false →
      Beside c c' → Turns now p p' c c'
  | pause (c : LaneCell) : Turns now .showPaused .paused c (c.setState .paused)
  | rest (c : LaneCell) : Turns now .showIdle .askWake c (c.setState .idle)
  | begin (r : Record) (d : Command W) (c : LaneCell) :
      Turns now (.begin r d) (.announce r d) c
        { c.setState .running with current := some (r.shownAs d now) }
  | finish (c : LaneCell) : Turns now .finish .top c { c with current := none }
  | collapse (r : Record) (f : Finish) (c : LaneCell) :
      Turns now (.run r (.done f)) (.collapsed r) c { c with exited := true }
  | stop (c : LaneCell) : Turns now .stop .exited c { c.setState .stopped with exited := true }

theorem LaneCell.Turns.lasts {W : Type} {now : Instant} {p p' : Point W} {c c' : LaneCell}
    (h : Turns now p p' c c') : Lasts c c' := by
  cases h with
  | beside _ _ h => exact h.lasts
  | pause | rest => exact .setState c _
  | begin r d => exact .trans (.setState c .running) ⟨id, id⟩
  | finish | collapse => exact ⟨id, id⟩
  | stop => exact .trans (.setState c .stopped) ⟨id, id⟩

section Steps

variable {σ W : Type} {w : Wiring W} {fault : Option QueueError} {s s' : Shared σ W}

theorem Shared.beside_modifyCell (s : Shared σ W) (l m : Lane) {f : LaneCell → LaneCell}
    (hf : ∀ c, LaneCell.Beside c (f c)) : (s.cell m).Beside ((s.modifyCell l f).cell m) := by
  rw [Shared.cell_modifyCell]
  split
  · exact hf _
  · exact .refl _

theorem Shared.cell_modifyCell_self (s : Shared σ W) (l : Lane) (f : LaneCell → LaneCell) :
    (s.modifyCell l f).cell l = f (s.cell l) := by
  rw [Shared.cell_modifyCell, if_pos rfl]

variable [QueueStore σ]

/-- A request leaves to the worker what the lane shows. -/
theorem Call.step_cell {c c' : Call} (h : c.step w fault s = some (c', s')) (m : Lane) :
    (s.cell m).Beside (s'.cell m) := by
  cases Call.step_changes h with
  | same | stored | started | told | cancelled | gathered => exact .refl _
  | spawned =>
    simp only [Shared.cell, PerLane.get_ofFn]
    exact .of_eq rfl rfl rfl
  | woken l | paused l | resumed l => exact s.beside_modifyCell l m fun _ => .of_eq rfl rfl rfl
  | shown l state hterm => exact s.beside_modifyCell l m fun c => .setState c hterm

namespace Point

variable {l : Lane} {signal : Signal} {p p' : Point W}

/-- A step that does not set what the lane shows, and after which the worker goes on. -/
theorem step_cell_of_not_displays (h : p.step w l signal fault s = some (p', s'))
    (hp : p.displays = false) (hp' : p'.hasEnded = false) (m : Lane) :
    (s.cell m).Beside (s'.cell m) := by
  cases step_changes h with
  | same | stored | acted | announced | published => exact .refl _
  | noticed | roused => exact s.beside_modifyCell l m fun _ => .of_eq rfl rfl rfl
  | asked r c c' next hc => exact Call.step_cell hc m
  | shown state hshow => obtain rfl | rfl := hshow <;> cases hp
  | begun | finished | stopped => cases hp
  | collapsed => cases hp'

/-- The task of a worker ends as it leaves its loop, or breaks down over the end of a body. -/
theorem step_hasEnded (h : p.step w l signal fault s = some (p', s')) (hp' : p'.hasEnded = true) :
    (p = stop ∧ p' = exited) ∨ ∃ r f, p = run r (.done f) ∧ p' = collapsed r ∧
      s' = s.modifyCell l fun c => { c with exited := true } := by
  cases step_moves h with
  | exit => exact .inl ⟨rfl, rfl⟩
  | collapse r f =>
    obtain ⟨-, hp, -⟩ | ⟨-, -, hs⟩ := done_cases h
    · cases hp
    · exact .inr ⟨r, f, rfl, rfl, hs⟩
  | _ => cases hp'

/-- **What a worker does to the cell of its lane.** -/
theorem step_turns (h : p.step w l signal fault s = some (p', s')) :
    LaneCell.Turns s.now p p' (s.cell l) (s'.cell l) := by
  have hquiet : p.displays = false → LaneCell.Turns s.now p p' (s.cell l) (s'.cell l) := by
    intro hp
    cases hp' : p'.hasEnded with
    | false => exact .beside hp hp' (step_cell_of_not_displays h hp hp' l)
    | true =>
      obtain ⟨rfl, -⟩ | ⟨r, f, rfl, rfl, rfl⟩ := step_hasEnded h hp'
      · cases hp
      · rw [s.cell_modifyCell_self]
        exact .collapse r f _
  cases p with
  | showPaused => cases h; rw [Shared.setState, s.cell_modifyCell_self]; exact .pause _
  | showIdle => cases h; rw [Shared.setState, s.cell_modifyCell_self]; exact .rest _
  | begin r d =>
    cases h
    rw [Shared.cell_modifyCell_self, Shared.setState, s.cell_modifyCell_self]
    exact .begin r d _
  | finish => cases h; rw [s.cell_modifyCell_self]; exact .finish _
  | stop =>
    cases h
    rw [Shared.cell_modifyCell_self, Shared.setState, s.cell_modifyCell_self]
    exact .stop _
  | top | readPause | paused | claim | claimFailed | askWake | measure | arm | idle | decode | announce |
    run | asking | settle | collapsed | release | publish | exited => exact hquiet rfl

/-- It leaves alone what another lane shows. -/
theorem step_cell_of_ne (h : p.step w l signal fault s = some (p', s')) {m : Lane} (hm : l ≠ m) :
    (s.cell m).Beside (s'.cell m) := by
  have hother : ∀ (x : Shared σ W) (f : LaneCell → LaneCell), (x.modifyCell l f).cell m = x.cell m :=
    fun x f => by rw [Shared.cell_modifyCell, if_neg hm]
  have hquiet : p.displays = false → (s.cell m).Beside (s'.cell m) := by
    intro hp
    cases hp' : p'.hasEnded with
    | false => exact step_cell_of_not_displays h hp hp' m
    | true =>
      obtain ⟨rfl, -⟩ | ⟨r, f, rfl, rfl, rfl⟩ := step_hasEnded h hp'
      · cases hp
      · rw [hother]
        exact .refl _
  cases p with
  | showPaused | showIdle | begin | finish | stop =>
    cases h
    simp only [Shared.setState, hother]
    exact .refl _
  | top | readPause | paused | claim | claimFailed | askWake | measure | arm | idle | decode | announce |
    run | asking | settle | collapsed | release | publish | exited => exact hquiet rfl

/-- A worker that processes a command goes on with it until it has done. -/
theorem isProcessing_step (h : p.step w l signal fault s = some (p', s')) (hp : p.isProcessing = true) :
    p'.isProcessing = true ∨ p = finish := by
  cases step_moves h with
  | execute | act | await | ask | proceed | hear | finish | collapse | settleAgain | settled | giveUp |
    release | publish => exact .inl rfl
  | again => exact .inr rfl
  | cancel hw | rouse hw => rw [isProcessing_of_waits hw] at hp; cases hp
  | look | leave | hold | pass | park | claimAgain | claimFails | findNone | find | rest | learn |
    refuse | measure | sleep | accept | reject | begin | exit => cases hp

end Point

end Steps

/-- What a lane shows agrees with where its worker stands. -/
structure Point.Showing {W : Type} (p : Point W) (c : LaneCell) : Prop where
  processing : c.current.isSome = true → p.isProcessing = true
  state : c.current.isSome = true → c.state = .running ∨ c.state.isTerminal = true
  exited : c.exited = true ↔ p.hasEnded = true
  stopped : p = .exited → c.state = .stopped

namespace Point.Showing

variable {W : Type} {p p' : Point W} {c c' : LaneCell}

/-- While no command is processed, none is shown. -/
theorem current_eq_none (h : p.Showing c) (hp : p.isProcessing = false) : c.current = none := by
  cases hc : c.current with
  | none => rfl
  | some x =>
    have := h.processing (by rw [hc]; rfl)
    rw [hp] at this
    cases this

/-- Where nothing is shown, nothing but the end of the worker has to agree. -/
theorem of_current (hcurrent : c.current = none) (hexited : c.exited = true ↔ p.hasEnded = true)
    (hstopped : p = .exited → c.state = .stopped) : p.Showing c where
  processing hc := by rw [hcurrent] at hc; cases hc
  state hc := by rw [hcurrent] at hc; cases hc
  exited := hexited
  stopped := hstopped

theorem beside (h : p.Showing c) (hcell : c.Beside c') : p.Showing c' where
  processing := hcell.current ▸ h.processing
  state hc := by
    rcases hcell.state with heq | ⟨hterm, -⟩
    · exact heq ▸ h.state (hcell.current ▸ hc)
    · exact .inr hterm
  exited := hcell.exited ▸ h.exited
  stopped hp := hcell.lasts.stopped (h.stopped hp)

/-- A worker that does not set what the lane shows, and goes on, stays where that agrees. -/
theorem goOn (h : p.Showing c) (hp : p.displays = false) (hnot : p.hasEnded = false)
    (hnot' : p'.hasEnded = false)
    (hgoes : p.isProcessing = true → p'.isProcessing = true ∨ p = finish) : p'.Showing c where
  processing hc := by
    refine (hgoes (h.processing hc)).resolve_right ?_
    rintro rfl
    cases hp
  state := h.state
  exited := by rw [h.exited, hnot, hnot']
  stopped hp' := by
    rw [hp'] at hnot'
    cases hnot'

/-- **A step of the worker keeps the agreement.** -/
theorem turn {σ : Type} [QueueStore σ] {w : Wiring W} {l : Lane} {signal : Signal}
    {fault : Option QueueError} {s s' : Shared σ W} (h : p.Showing (s.cell l))
    (hstep : p.step w l signal fault s = some (p', s')) : p'.Showing (s'.cell l) := by
  have hgoes := isProcessing_step hstep
  have hnot : p.hasEnded = false := by
    cases p with
    | collapsed | exited => cases hstep
    | _ => rfl
  have hexited : (s.cell l).exited = false :=
    Bool.eq_false_iff.2 fun he => by rw [h.exited, hnot] at he; cases he
  have hturns := step_turns hstep
  generalize s'.cell l = c' at hturns ⊢
  generalize s.cell l = c at h hturns hexited ⊢
  cases hturns with
  | beside hp hp' hcell => exact (h.goOn hp hnot hp' hgoes).beside hcell
  | pause | rest =>
    exact .of_current ((c.current_setState _).trans (h.current_eq_none rfl))
      (by simp [c.exited_setState, hexited, hasEnded]) nofun
  | begin =>
    exact ⟨fun _ => rfl, fun _ => c.running_or_terminal,
      by simp [c.exited_setState, hexited, hasEnded], nofun⟩
  | finish => exact .of_current rfl (by simp [hexited, hasEnded]) nofun
  | collapse => exact ⟨fun _ => rfl, h.state, by simp [hasEnded], nofun⟩
  | stop =>
    exact .of_current (by simp [c.current_setState, h.current_eq_none rfl]) (by simp [hasEnded])
      fun _ => c.stopped_setState

end Point.Showing

/-! ## The state of a lane -/

namespace System

variable {σ W : Type} {w : Wiring W} {s s' s₀ : System σ W} {a : Action} {l : Lane} {as : List Action}

theorem showing_init (config : QueueConfig) (store : σ) (now : Instant) (world : W) (l : Lane) :
    ((System.init config store now world).workers.get l).Showing
      ((System.init config store now world).shared.cell l) := by
  constructor <;> simp [System.init, Shared.init, Shared.cell, Point.hasEnded]

variable [QueueStore σ]

theorem step_cell_beside (hstep : s.step w a = some s') (ha : a.lane? ≠ some l) :
    (s.shared.cell l).Beside (s'.shared.cell l) := by
  cases a with
  | request | tick => cases hstep; exact .refl _
  | advance i fault =>
    obtain ⟨c, c', y, -, hcall, rfl⟩ := advance_cases hstep
    exact Call.step_cell hcall l
  | work m signal fault =>
    obtain ⟨p, y, -, hp, rfl⟩ := work_cases hstep
    exact Point.step_cell_of_ne hp fun hm => ha (congrArg some hm)

theorem step_turns (hstep : s.step w a = some s') (ha : a.lane? = some l) :
    LaneCell.Turns s.shared.now (s.workers.get l) (s'.workers.get l) (s.shared.cell l)
      (s'.shared.cell l) := by
  obtain ⟨signal, fault, rfl⟩ := Action.eq_work_of_lane? ha
  exact Point.step_turns (worker_own hstep)

theorem lasts_step (hstep : s.step w a = some s') (l : Lane) :
    (s.shared.cell l).Lasts (s'.shared.cell l) := by
  by_cases ha : a.lane? = some l
  · exact (step_turns hstep ha).lasts
  · exact (step_cell_beside hstep ha).lasts

/-- **There is no way back** from a lane that shuts down, nor from one that has stopped. -/
theorem lasts_steps (hrun : s₀.steps w as = some s) (l : Lane) :
    (s₀.shared.cell l).Lasts (s.shared.cell l) :=
  steps_induction (P := fun _ t => (s₀.shared.cell l).Lasts (t.shared.cell l)) (.refl _)
    (fun _ ih hstep => ih.trans (lasts_step hstep l)) hrun

theorem showing_steps (h : (s₀.workers.get l).Showing (s₀.shared.cell l))
    (hrun : s₀.steps w as = some s) : (s.workers.get l).Showing (s.shared.cell l) := by
  refine steps_induction (P := fun _ t => (t.workers.get l).Showing (t.shared.cell l)) h ?_ hrun
  intro as a t t' _ ih hstep
  by_cases ha : a.lane? = some l
  · obtain ⟨signal, fault, rfl⟩ := Action.eq_work_of_lane? ha
    exact ih.turn (worker_own hstep)
  · rw [worker_beside hstep ha]
    exact ih.beside (step_cell_beside hstep ha)

end System

end LaneQueue
