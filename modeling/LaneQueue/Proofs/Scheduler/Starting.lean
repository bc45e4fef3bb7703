import LaneQueue.Proofs.Scheduler.Yields
/-!
# How the lanes are started

The first request for a start is let in, and all others are refused (`System.StartsOnce`). The one that is
let in recovers the store, a second time after a transient failure, and then spawns the worker of every
lane (`Launch`). But it is let in before it recovers, and nothing lets another one in when that fails: such
a scheduler is never started (`System.start_lost`).
-/
namespace LaneQueue

variable {σ W : Type}

/-! ## One start -/

namespace Call

/-- Whether a request is about to ask for the start. -/
def isStart : Call → Bool
  | start => true
  | _ => false

@[simp] theorem isStart_iff {c : Call} : c.isStart = true ↔ c = start := by
  cases c <;> simp [isStart]

/-- What has been found by a request that is about to spawn the workers. -/
def spawning? : Call → Option (PerLane Nat)
  | spawn found => some found
  | _ => none

/-- What an attempt to recover the store is answered, if a request is about to make one. -/
def recovery? [QueueStore σ] (fault : Option QueueError) (s : Shared σ W) :
    Call → Option (Except QueueError (PerLane Nat))
  | recover .first | recover .second => some (s.access fault QueueStore.recover).1
  | _ => none

theorem spawning?_eq_some {c : Call} {found : PerLane Nat} :
    c.spawning? = some found ↔ c = spawn found := by
  cases c <;> simp [spawning?]

theorem spawning?_eq_none {c : Call} (h : c.isLaunching = false) : c.spawning? = none := by
  cases c <;> first | rfl | cases h

theorem recovery?_eq_none [QueueStore σ] {fault : Option QueueError} {s : Shared σ W} {c : Call}
    (h : c.isLaunching = false) : c.recovery? fault s = none := by
  cases c <;> first | rfl | cases h

section Step

variable [QueueStore σ] {w : Wiring W} {fault : Option QueueError} {s s' : Shared σ W} {c' : Call}
  {t : Try}

/-- What a step of a recovery leads to: an attempt is answered, and what that means is decided at once. -/
theorem recover_cases (h : (recover t).step w fault s = some (c', s')) :
    (∃ d, t = .pause d ∧ c' = recover .second) ∨
      ∃ x, (recover t).recovery? fault s = some x ∧
        ((∃ e d, t = .first ∧ x = .error e ∧ e.isTransient = true ∧ c' = recover (.pause d)) ∨
          (t = .first → ∀ e, x = .error e → e.isTransient = false) ∧
            ((∃ found, x = .ok found ∧ c' = spawn found) ∨
              ∃ e, x = .error e ∧ c' = done (.failed e))) := by
  cases t with
  | pause d =>
    left
    by_cases hd : d ≤ s.now
    · simp only [step, trying, Try.step, hd, if_true, Option.some.injEq, Prod.mk.injEq] at h
      exact ⟨d, rfl, h.1.symm⟩
    · simp [step, trying, Try.step, hd] at h
  | first =>
    refine .inr ⟨_, rfl, ?_⟩
    simp only [step, trying, Try.step] at h
    cases hanswer : (s.access fault QueueStore.recover).1 with
    | ok found =>
      simp only [hanswer, Option.some.injEq, Prod.mk.injEq] at h
      refine .inr ⟨fun _ e he => ?_, .inl ⟨found, rfl, h.1.symm⟩⟩
      cases he
    | error e =>
      cases htransient : e.isTransient with
      | true =>
        simp only [hanswer, htransient, if_true, Option.some.injEq, Prod.mk.injEq] at h
        exact .inl ⟨e, _, rfl, rfl, htransient, h.1.symm⟩
      | false =>
        simp only [hanswer, htransient, Bool.false_eq_true, if_false, Option.some.injEq,
          Prod.mk.injEq] at h
        exact .inr ⟨fun _ e' he => Except.error.inj he ▸ htransient, .inr ⟨e, rfl, h.1.symm⟩⟩
  | second =>
    refine .inr ⟨_, rfl, .inr ⟨fun ht => ?_, ?_⟩⟩
    · cases ht
    · simp only [step, trying, Try.step] at h
      cases hanswer : (s.access fault QueueStore.recover).1 with
      | ok found =>
        simp only [hanswer, Option.some.injEq, Prod.mk.injEq] at h
        exact .inl ⟨found, rfl, h.1.symm⟩
      | error e =>
        simp only [hanswer, Option.some.injEq, Prod.mk.injEq] at h
        exact .inr ⟨e, rfl, h.1.symm⟩

/-- A recovery waits only for the pause before its second attempt. -/
theorem recover_eq_none (h : (recover t).step w fault s = none) : ∃ d, t = .pause d ∧ s.now < d := by
  simp only [step, trying] at h
  split at h
  · exact Try.step_eq_none ‹_›
  all_goals cases h

end Step

end Call

/-- What one or two attempts come to: the second is made if the first has failed and that may pass. -/
inductive Attempts {α : Type} : List (Except QueueError α) → Except QueueError α → Prop
  | once {x : Except QueueError α} : (∀ e, x = .error e → e.isTransient = false) → Attempts [x] x
  | twice {e : QueueError} {x : Except QueueError α} :
      e.isTransient = true → Attempts [.error e, x] x

/-- Where a start stands that has been let in, by what its attempts to recover the store have been answered
and what has been found where it has spawned the workers. -/
inductive Launch : List (Except QueueError (PerLane Nat)) → List (PerLane Nat) → Call → Prop
  | first : Launch [] [] (.recover .first)
  | again {e : QueueError} {t : Try} :
      e.isTransient = true → t ≠ .first → Launch [.error e] [] (.recover t)
  | found {answers : List (Except QueueError (PerLane Nat))} {found : PerLane Nat} :
      Attempts answers (.ok found) → Launch answers [] (.spawn found)
  | running {answers : List (Except QueueError (PerLane Nat))} {found : PerLane Nat} :
      Attempts answers (.ok found) → Launch answers [found] (.done (.started found))
  | failed {answers : List (Except QueueError (PerLane Nat))} {e : QueueError} :
      Attempts answers (.error e) → Launch answers [] (.done (.failed e))

namespace Launch

variable [QueueStore σ] {w : Wiring W} {fault : Option QueueError} {s s' : Shared σ W} {c c' : Call}
  {answers : List (Except QueueError (PerLane Nat))} {spawned : List (PerLane Nat)}

theorem eq_nil_of_spawn {found : PerLane Nat} (h : Launch answers spawned (.spawn found)) :
    spawned = [] := by
  cases h
  rfl

theorem eq_nil_of_failed {e : QueueError} (h : Launch answers spawned (.done (.failed e))) :
    spawned = [] := by
  cases h
  rfl

/-- **One step of a start** that has been let in. -/
theorem step (h : Launch answers spawned c) (hstep : c.step w fault s = some (c', s')) :
    Launch (answers ++ (c.recovery? fault s).toList) (spawned ++ c.spawning?.toList) c' := by
  have hspawning : ∀ t, (Call.recover t).spawning? = none := fun _ => rfl
  cases h with
  | first =>
    rcases Call.recover_cases hstep with ⟨d, hd, -⟩ | ⟨x, hx, hcases⟩
    · cases hd
    rw [hx, hspawning]
    rcases hcases with ⟨e, d, -, rfl, htransient, rfl⟩ | ⟨hpermanent, ⟨found, rfl, rfl⟩ | ⟨e, rfl, rfl⟩⟩
    · exact .again htransient nofun
    · exact .found (.once nofun)
    · exact .failed (.once (hpermanent rfl))
  | @again e t htransient ht =>
    rcases Call.recover_cases hstep with ⟨d, rfl, rfl⟩ | ⟨x, hx, hcases⟩
    · exact .again htransient nofun
    rw [hx, hspawning]
    rcases hcases with ⟨-, d, rfl, -⟩ | ⟨-, ⟨found, rfl, rfl⟩ | ⟨e', rfl, rfl⟩⟩
    · exact absurd rfl ht
    · exact .found (.twice htransient)
    · exact .failed (.twice htransient)
  | found h =>
    cases hstep
    simpa [Call.recovery?, Call.spawning?] using running h
  | running | failed => cases hstep

/-- It leaves the flags of a start alone until it spawns all workers. -/
theorem flags (h : Launch answers spawned c) (hstep : c.step w fault s = some (c', s')) :
    s'.started = s.started ∧
      ∀ l, (s'.cell l).spawned = ((s.cell l).spawned || c.spawning?.isSome) := by
  cases h with
  | first | again =>
    obtain ⟨hs, -⟩ := Call.trying_cases hstep .recover fun _ => rfl
    rw [hs]
    exact ⟨rfl, fun l => by simp [Call.spawning?, Shared.cell]⟩
  | found =>
    cases hstep
    exact ⟨rfl, fun l => by simp [Call.spawning?, Shared.cell]⟩
  | running | failed => cases hstep

/-- Nothing holds it up but the pause before the second attempt. -/
theorem goesOn (h : Launch answers spawned c) (hn : c.reply? = none) (w : Wiring W)
    (fault : Option QueueError) (s : Shared σ W) :
    (c.step w fault s).isSome ∨ ∃ d, c = .recover (.pause d) ∧ s.now < d := by
  cases hstep : c.step w fault s with
  | some x => exact .inl rfl
  | none =>
    right
    cases h with
    | first =>
      obtain ⟨d, hd, -⟩ := Call.recover_eq_none hstep
      cases hd
    | again =>
      obtain ⟨d, rfl, hd⟩ := Call.recover_eq_none hstep
      exact ⟨d, rfl, hd⟩
    | found => cases hstep
    | running | failed => cases hn

end Launch

/-! ## The starts of a run -/

namespace System

section Starting

variable {s : System σ W} {a : Action} {k : Caller}

/-- The caller whose request for a start an action moves. -/
def starting? (s : System σ W) (a : Action) : Option Caller :=
  a.caller?.filter fun k => (s.callOf k).any Call.isStart

theorem starting?_eq_some :
    s.starting? a = some k ↔ a.caller? = some k ∧ s.callOf k = some .start := by
  simp [starting?, Option.filter_eq_some_iff, Option.any_eq_true]

/-- What the start that an action moves has found, if it spawns the workers. -/
def spawning? (s : System σ W) (a : Action) : Option (PerLane Nat) :=
  (s.moved? a).bind Call.spawning?

theorem spawning?_eq_none (h : ∀ c, s.moved? a = some c → c.isLaunching = false) :
    s.spawning? a = none :=
  Option.bind_eq_none_iff.2 fun c hc => Call.spawning?_eq_none (h c hc)

variable [QueueStore σ]

/-- What an attempt to recover the store is answered, if an action makes one. -/
def recovery? (s : System σ W) (a : Action) : Option (Except QueueError (PerLane Nat)) :=
  (s.moved? a).bind (Call.recovery? a.fault? s.shared)

theorem recovery?_eq_none (h : ∀ c, s.moved? a = some c → c.isLaunching = false) :
    s.recovery? a = none :=
  Option.bind_eq_none_iff.2 fun c hc => Call.recovery?_eq_none (h c hc)

/-- The callers who ask for the start in a run, in their order. -/
def starters (w : Wiring W) (as : List Action) (s : System σ W) : List Caller := s.yields w starting? as

/-- What the attempts to recover the store are answered in a run. -/
def recoveries (w : Wiring W) (as : List Action) (s : System σ W) :
    List (Except QueueError (PerLane Nat)) := s.yields w recovery? as

/-- What has been found whenever workers are spawned in a run. -/
def spawnings (w : Wiring W) (as : List Action) (s : System σ W) : List (PerLane Nat) :=
  s.yields w spawning? as

end Starting

variable [QueueStore σ] {w : Wiring W} {s s' s₀ : System σ W} {a : Action} {as : List Action}

/-- A step that moves no start under way leaves its flags alone. -/
theorem flags_of_quiet (hstarted : s.shared.started = true)
    (h : ∀ c, s.moved? a = some c → c.isLaunching = false) (hstep : s.step w a = some s') :
    s'.shared.started = s.shared.started ∧
      ∀ l, (s'.shared.cell l).spawned = (s.shared.cell l).spawned := by
  cases a with
  | request | tick => cases hstep; exact ⟨rfl, fun _ => rfl⟩
  | advance i fault =>
    obtain ⟨c, c', x, hc, hcall, rfl⟩ := advance_cases hstep
    have hquiet : c.isLaunching = false := h c hc
    rcases Call.step_flags hcall with ⟨hsteady, -⟩ | ⟨-, hn, -⟩ | ⟨hl, -⟩
    · exact ⟨hsteady.started, hsteady.spawned⟩
    · rw [hstarted] at hn
      cases hn
    · rw [hquiet] at hl
      cases hl
  | work l signal fault =>
    have hsteady := (Point.step_steady (worker_own hstep) hstarted h).1
    exact ⟨hsteady.started, hsteady.spawned⟩

/-- Nobody has asked for the start in a run. -/
structure Unasked (w : Wiring W) (s₀ : System σ W) (as : List Action) (s : System σ W) : Prop where
  starters : s₀.starters w as = []
  recoveries : s₀.recoveries w as = []
  spawnings : s₀.spawnings w as = []
  started : s.shared.started = false
  spawned : ∀ l, (s.shared.cell l).spawned = false
  quiet : ∀ k c, s.callOf k = some c → c.isLaunching = false

/-- A client has been let in, first of all who have asked for the start in a run, and its request stands at
a certain point. -/
structure LetIn (w : Wiring W) (s₀ : System σ W) (as : List Action) (s : System σ W) (i : Nat)
    (c : Call) : Prop where
  starters : ∃ later, s₀.starters w as = .client i :: later
  call : s.calls[i]? = some c
  launch : Launch (s₀.recoveries w as) (s₀.spawnings w as) c
  started : s.shared.started = true
  spawned : ∀ l, (s.shared.cell l).spawned = true ↔ s₀.spawnings w as ≠ []
  quiet : ∀ k d, k ≠ .client i → s.callOf k = some d → d.isLaunching = false

/-- A request that comes about has been quiet, and stays so unless it is let in. -/
theorem quiet_step (hstep : s.step w a = some s') {k : Caller} {c' : Call} (hc' : s'.callOf k = some c')
    (hquiet : ∀ c, s.callOf k = some c → c.isLaunching = false)
    (hstart : s.starting? a = some k → s.shared.started = true) : c'.isLaunching = false := by
  rcases callOf_step hstep hc' with hold | ⟨r, rfl⟩ | ⟨c, hk, hc, hcall⟩
  · exact hquiet c' hold
  · cases r <;> rfl
  · rcases Call.step_flags hcall with ⟨-, himp⟩ | ⟨rfl, hn, -⟩ | ⟨-, hl, -⟩
    · exact Bool.eq_false_iff.2 fun hl => Bool.eq_false_iff.1 (hquiet c hc) (himp hl)
    · rw [hstart (starting?_eq_some.2 ⟨hk, hc⟩)] at hn
      cases hn
    · exact hl

section Lists

variable (hrun : s₀.steps w as = some s) (hstep : s.step w a = some s')
include hrun hstep

theorem starters_snoc : s₀.starters w (as ++ [a]) = s₀.starters w as ++ (s.starting? a).toList :=
  yields_snoc hrun hstep

theorem recoveries_snoc : s₀.recoveries w (as ++ [a]) = s₀.recoveries w as ++ (s.recovery? a).toList :=
  yields_snoc hrun hstep

theorem spawnings_snoc : s₀.spawnings w (as ++ [a]) = s₀.spawnings w as ++ (s.spawning? a).toList :=
  yields_snoc hrun hstep

end Lists

theorem Unasked.init (config : QueueConfig) (store : σ) (now : Instant) (world : W) :
    Unasked w (System.init config store now world) [] (System.init config store now world) where
  starters := rfl
  recoveries := rfl
  spawnings := rfl
  started := rfl
  spawned l := by simp [System.init, Shared.init, Shared.cell]
  quiet k c hc := by cases k <;> simp [System.init, callOf, Point.request?] at hc

namespace Unasked

theorem quiet_moved (h : Unasked w s₀ as s) {c : Call} (hc : s.moved? a = some c) :
    c.isLaunching = false := by
  obtain ⟨k, -, hc⟩ := Option.bind_eq_some_iff.1 hc
  exact h.quiet k c hc

theorem recoveries_nil (h : Unasked w s₀ as s) (hrun : s₀.steps w as = some s)
    (hstep : s.step w a = some s') : s₀.recoveries w (as ++ [a]) = [] := by
  rw [recoveries_snoc hrun hstep, h.recoveries, recovery?_eq_none fun _ => h.quiet_moved]
  rfl

theorem spawnings_nil (h : Unasked w s₀ as s) (hrun : s₀.steps w as = some s)
    (hstep : s.step w a = some s') : s₀.spawnings w (as ++ [a]) = [] := by
  rw [spawnings_snoc hrun hstep, h.spawnings, spawning?_eq_none fun _ => h.quiet_moved]
  rfl

/-- No worker is there to take a step. -/
theorem not_work (h : Unasked w s₀ as s) {l : Lane} {signal : Signal} {fault : Option QueueError} :
    s.step w (.work l signal fault) ≠ some s' := by
  intro hstep
  obtain ⟨p, x, hsp, -⟩ := work_cases hstep
  rw [h.spawned l] at hsp
  cases hsp

/-- The flags stay down as long as nobody asks. -/
theorem flags (h : Unasked w s₀ as s) (hstep : s.step w a = some s') (hnone : s.starting? a = none) :
    s'.shared.started = false ∧ ∀ l, (s'.shared.cell l).spawned = false := by
  cases a with
  | work => exact absurd hstep h.not_work
  | request | tick => cases hstep; exact ⟨h.started, h.spawned⟩
  | advance i fault =>
    obtain ⟨c, c', x, hc, hcall, rfl⟩ := advance_cases hstep
    have hcaller : s.callOf (.client i) = some c := hc
    rcases Call.step_flags hcall with ⟨hsteady, -⟩ | ⟨rfl, -, -⟩ | ⟨hl, -⟩
    · exact ⟨hsteady.started.trans h.started, fun l => (hsteady.spawned l).trans (h.spawned l)⟩
    · have hstart : s.starting? (.advance i fault) = some (.client i) :=
        starting?_eq_some.2 ⟨rfl, hcaller⟩
      rw [hnone] at hstart
      cases hstart
    · rw [h.quiet _ c hcaller] at hl
      cases hl

/-- The first who asks is a client, and is let in. -/
theorem letsIn (h : Unasked w s₀ as s) (hrun : s₀.steps w as = some s) (hstep : s.step w a = some s')
    {k : Caller} (hk : s.starting? a = some k) :
    ∃ i, LetIn w s₀ (as ++ [a]) s' i (.recover .first) := by
  obtain ⟨ha, hc⟩ := starting?_eq_some.1 hk
  cases a with
  | request | tick => cases ha
  | work => exact absurd hstep h.not_work
  | advance i fault =>
    cases ha
    obtain ⟨d, c', x, hd, hcall, hs'⟩ := advance_cases hstep
    obtain rfl : d = .start := Option.some.inj (hd.symm.trans hc)
    simp only [Call.step, h.started, Bool.false_eq_true, if_false, Option.some.injEq,
      Prod.mk.injEq] at hcall
    obtain ⟨rfl, rfl⟩ := hcall
    refine ⟨i, ⟨[], ?_⟩, ?_, ?_, ?_, fun l => ?_, fun k d hk' hd => ?_⟩
    · rw [starters_snoc hrun hstep, h.starters, hk]
      rfl
    · rw [hs']
      simp [List.getElem?_set_self (List.getElem?_eq_some_iff.1 hc).1]
    · rw [h.recoveries_nil hrun hstep, h.spawnings_nil hrun hstep]
      exact .first
    · rw [hs']
    · rw [hs', h.spawnings_nil hrun hstep]
      simpa [Shared.cell] using h.spawned l
    · refine quiet_step hstep hd (h.quiet k) fun hother => ?_
      rw [hk] at hother
      exact absurd (Option.some.inj hother).symm hk'

/-- As long as nobody has asked for it, the next step lets a client in or leaves the start alone. -/
theorem step (h : Unasked w s₀ as s) (hrun : s₀.steps w as = some s) (hstep : s.step w a = some s') :
    Unasked w s₀ (as ++ [a]) s' ∨ ∃ i, LetIn w s₀ (as ++ [a]) s' i (.recover .first) := by
  cases hstart : s.starting? a with
  | some k => exact .inr (h.letsIn hrun hstep hstart)
  | none =>
    obtain ⟨hstarted, hspawned⟩ := h.flags hstep hstart
    refine .inl ⟨?_, h.recoveries_nil hrun hstep, h.spawnings_nil hrun hstep, hstarted, hspawned,
      fun k c hc => quiet_step hstep hc (h.quiet k) fun hk => ?_⟩
    · rw [starters_snoc hrun hstep, h.starters, hstart]
      rfl
    · rw [hstart] at hk
      cases hk

end Unasked

/-- From then on only that client goes on with a start. -/
theorem LetIn.step {i : Nat} {c : Call} (h : LetIn w s₀ as s i c) (hrun : s₀.steps w as = some s)
    (hstep : s.step w a = some s') : ∃ c', LetIn w s₀ (as ++ [a]) s' i c' := by
  obtain ⟨later, hlater⟩ := h.starters
  have hstarters := starters_snoc hrun hstep
  have hrecoveries := recoveries_snoc hrun hstep
  have hspawnings := spawnings_snoc hrun hstep
  rw [hlater, List.cons_append] at hstarters
  have hquiet : ∀ k d, k ≠ .client i → s'.callOf k = some d → d.isLaunching = false :=
    fun k d hk hd => quiet_step hstep hd (fun c hc => h.quiet k c hk hc) fun _ => h.started
  by_cases ha : a.caller? = some (.client i)
  · cases a with
    | request | tick | work => cases ha
    | advance j fault =>
      cases ha
      obtain ⟨d, c', x, hd, hcall, hs'⟩ := advance_cases hstep
      obtain rfl : d = c := Option.some.inj (hd.symm.trans h.call)
      have hlaunch := h.launch.step hcall
      obtain ⟨hstarted, hspawned⟩ := h.launch.flags hcall
      have hmoved : s.moved? (.advance i fault) = some d := moved?_eq rfl hd
      simp only [recovery?, hmoved, Option.bind_some] at hrecoveries
      simp only [spawning?, hmoved, Option.bind_some] at hspawnings
      refine ⟨c', ⟨_, hstarters⟩, ?_, ?_, ?_, fun l => ?_, hquiet⟩
      · rw [hs']
        simp [List.getElem?_set_self (List.getElem?_eq_some_iff.1 hd).1]
      · rw [hrecoveries, hspawnings]
        exact hlaunch
      · rw [hs']
        exact hstarted.trans h.started
      · rw [hs', hspawnings]
        simp only [hspawned l, Bool.or_eq_true, h.spawned l, ne_eq, List.append_eq_nil_iff,
          Option.toList_eq_nil_iff, not_and_or, Option.isSome_iff_ne_none]
  · have hmoved : ∀ d, s.moved? a = some d → d.isLaunching = false := by
      intro d hd
      obtain ⟨k, hk, hd⟩ := Option.bind_eq_some_iff.1 hd
      exact h.quiet k d (fun he => ha (he ▸ hk)) hd
    rw [recovery?_eq_none hmoved, Option.toList_none, List.append_nil] at hrecoveries
    rw [spawning?_eq_none hmoved, Option.toList_none, List.append_nil] at hspawnings
    obtain ⟨hstarted, hspawned⟩ := flags_of_quiet h.started hmoved hstep
    refine ⟨c, ⟨_, hstarters⟩, callOf_beside (k := .client i) hstep ha h.call, ?_,
      hstarted.trans h.started, fun l => ?_, hquiet⟩
    · rw [hrecoveries, hspawnings]
      exact h.launch
    · rw [hspawned l, hspawnings]
      exact h.spawned l

/-- **Every run** either has not been asked for the start yet or has let one client in. -/
theorem unasked_or_letIn (store : σ) (now : Instant) (world : W)
    (hrun : (System.init w.config store now world).steps w as = some s) :
    Unasked w (System.init w.config store now world) as s ∨
      ∃ i c, LetIn w (System.init w.config store now world) as s i c := by
  refine steps_induction (P := fun as t => Unasked w (System.init w.config store now world) as t ∨
    ∃ i c, LetIn w (System.init w.config store now world) as t i c)
    (.inl (.init w.config store now world)) ?_ hrun
  intro as a t t' ht ih hstep
  rcases ih with hun | ⟨i, c, hin⟩
  · rcases hun.step ht hstep with hun' | ⟨i, hin⟩
    · exact .inl hun'
    · exact .inr ⟨i, _, hin⟩
  · exact .inr ⟨i, hin.step ht hstep⟩

/-- A start whose recovery has failed stays the one that was let in, and no worker is ever spawned. -/
theorem LetIn.usedUp {i : Nat} {e : QueueError} (h : LetIn w s₀ as s i (.done (.failed e)))
    (hrun : s₀.steps w as = some s) {bs : List Action} {t : System σ W} (hbs : s.steps w bs = some t) :
    LetIn w s₀ (as ++ bs) t i (.done (.failed e)) := by
  refine steps_induction (P := fun bs t => LetIn w s₀ (as ++ bs) t i (.done (.failed e)))
    (by rwa [List.append_nil]) ?_ hbs
  intro bs b u u' hu hin hstep
  have hrun' : s₀.steps w (as ++ bs) = some u := by rw [steps_append, hrun]; exact hu
  obtain ⟨c, hin'⟩ := hin.step hrun' hstep
  have hne : b.caller? ≠ some (.client i) := by
    intro hb
    cases b with
    | request | tick | work => cases hb
    | advance j fault =>
      cases hb
      obtain ⟨d, c', x, hd, hcall, -⟩ := advance_cases hstep
      obtain rfl : d = .done (.failed e) := Option.some.inj (hd.symm.trans hin.call)
      cases hcall
  have hcall := callOf_beside (k := .client i) hstep hne hin.call
  obtain rfl : c = .done (.failed e) := Option.some.inj (hin'.call.symm.trans hcall)
  rwa [← List.append_assoc]

theorem LetIn.not_spawned {i : Nat} {e : QueueError} (h : LetIn w s₀ as s i (.done (.failed e)))
    (l : Lane) : (s.shared.cell l).spawned = false :=
  Bool.eq_false_iff.2 fun hsp => (h.spawned l).1 hsp h.launch.eq_nil_of_failed

/-- How the start stands at a moment of a run, and what the next step may do about it. -/
structure StartsOnce (w : Wiring W) (s₀ : System σ W) (as : List Action) (s : System σ W) : Prop where
  /-- As long as nobody has asked for it, the store is not recovered and no worker is there. -/
  unasked : s₀.starters w as = [] → s₀.recoveries w as = [] ∧ s₀.spawnings w as = [] ∧
    ∀ l, (s.shared.cell l).spawned = false
  /-- The first who asks is a client; all attempts to recover the store and all spawning are those of its
  request, -/
  asked : ∀ k later, s₀.starters w as = k :: later → ∃ i c, k = .client i ∧ s.calls[i]? = some c ∧
    Launch (s₀.recoveries w as) (s₀.spawnings w as) c ∧
      ∀ l, (s.shared.cell l).spawned = true ↔ s₀.spawnings w as ≠ []
  /-- which begins with the recovery. -/
  letIn : ∀ a s' k, s.step w a = some s' → s.starting? a = some k → s₀.starters w as = [] →
    s'.callOf k = some (.recover .first)
  /-- Whoever asks later is refused at once, and nothing changes. -/
  refused : ∀ a s' k, s.step w a = some s' → s.starting? a = some k → s₀.starters w as ≠ [] →
    s'.callOf k = some (.done (.failed (.internal "scheduler already started"))) ∧
      s'.shared = s.shared
  /-- One step spawns one worker for each lane, where there has been none, and answers what was found. -/
  spawns : ∀ a s' found, s.step w a = some s' → s.spawning? a = some found →
    s₀.spawnings w as = [] ∧ (∀ l, (s.shared.cell l).spawned = false) ∧
      (∀ l, (s'.shared.cell l).spawned = true) ∧
      s'.shared.handles = s.shared.handles ++ Lane.all ∧
      ∃ i later, s₀.starters w as = .client i :: later ∧
        s'.calls[i]? = some (.done (.started found))
  /-- The first start goes on until it is answered, but for the pause before a second attempt. -/
  goesOn : ∀ i later c, s₀.starters w as = .client i :: later → s.calls[i]? = some c →
    c.reply? = none → (∀ fault, (s.step w (.advance i fault)).isSome) ∨
      ∃ d, c = .recover (.pause d) ∧ s.shared.now < d
  /-- If its recovery has failed, no worker is spawned in the rest of the run. -/
  usedUp : ∀ i later e, s₀.starters w as = .client i :: later →
    s.calls[i]? = some (.done (.failed e)) → ∀ bs t, s.steps w bs = some t →
      ∀ l, (t.shared.cell l).spawned = false

theorem Unasked.startsOnce (h : Unasked w s₀ as s) : StartsOnce w s₀ as s where
  unasked _ := ⟨h.recoveries, h.spawnings, h.spawned⟩
  asked k later hk := by
    rw [h.starters] at hk
    cases hk
  letIn a s' k hstep hk _ := by
    obtain ⟨hk, hc⟩ := starting?_eq_some.1 hk
    obtain ⟨c', hcall, hc'⟩ := callOf_own hstep hk hc rfl
    simp only [Call.step, h.started, Bool.false_eq_true, if_false, Option.some.injEq,
      Prod.mk.injEq] at hcall
    rw [hc', ← hcall.1]
  refused _ _ _ _ _ hne := absurd h.starters hne
  spawns a s' found _ hfound := by
    rw [spawning?_eq_none fun _ => h.quiet_moved] at hfound
    cases hfound
  goesOn i later c hi := by
    rw [h.starters] at hi
    cases hi
  usedUp i later e hi := by
    rw [h.starters] at hi
    cases hi

theorem LetIn.eq_of_starters {i j : Nat} {c : Call} {later : List Caller} (h : LetIn w s₀ as s i c)
    (hj : s₀.starters w as = .client j :: later) : j = i := by
  obtain ⟨rest, hrest⟩ := h.starters
  rw [hrest] at hj
  cases hj
  rfl

/-- Once a client has been let in, all others are refused. -/
theorem LetIn.refuses {i : Nat} {c : Call} (h : LetIn w s₀ as s i c) (hstep : s.step w a = some s')
    {k : Caller} (hk : s.starting? a = some k) :
    s'.callOf k = some (.done (.failed (.internal "scheduler already started"))) ∧
      s'.shared = s.shared := by
  obtain ⟨hk, hc⟩ := starting?_eq_some.1 hk
  obtain ⟨c', hcall, hc'⟩ := callOf_own hstep hk hc rfl
  simp only [Call.step, h.started, if_true, Option.some.injEq, Prod.mk.injEq] at hcall
  exact ⟨by rw [hc', ← hcall.1], hcall.2.symm⟩

/-- It is that client who spawns the workers, all of them and once. -/
theorem LetIn.spawns {i : Nat} {c : Call} (h : LetIn w s₀ as s i c) (hstep : s.step w a = some s')
    {found : PerLane Nat} (hfound : s.spawning? a = some found) :
    s₀.spawnings w as = [] ∧ (∀ l, (s.shared.cell l).spawned = false) ∧
      (∀ l, (s'.shared.cell l).spawned = true) ∧
      s'.shared.handles = s.shared.handles ++ Lane.all ∧
      s'.calls[i]? = some (.done (.started found)) := by
  obtain ⟨d, hd, hfound⟩ := Option.bind_eq_some_iff.1 hfound
  obtain ⟨k, hk, hd⟩ := Option.bind_eq_some_iff.1 hd
  have hki : k = .client i := by
    by_contra hne
    rw [Call.spawning?_eq_none (h.quiet k d hne hd)] at hfound
    cases hfound
  subst hki
  obtain rfl := Call.spawning?_eq_some.1 hfound
  obtain rfl : c = .spawn found := Option.some.inj (h.call.symm.trans hd)
  have hnone := h.launch.eq_nil_of_spawn
  obtain ⟨c', hcall, hc'⟩ := callOf_own hstep hk hd rfl
  simp only [Call.step, Option.some.injEq, Prod.mk.injEq] at hcall
  refine ⟨hnone, fun l => ?_, fun l => ?_, ?_, ?_⟩
  · exact Bool.eq_false_iff.2 fun hsp => (h.spawned l).1 hsp hnone
  · rw [← hcall.2]
    simp [Shared.cell]
  · rw [← hcall.2]
  · rw [hcall.1]
    exact hc'

/-- Nothing holds that client up but the pause before a second attempt. -/
theorem LetIn.goesOn {i : Nat} {c : Call} (h : LetIn w s₀ as s i c) (hn : c.reply? = none) :
    (∀ fault, (s.step w (.advance i fault)).isSome) ∨
      ∃ d, c = .recover (.pause d) ∧ s.shared.now < d := by
  by_cases hpause : ∃ d, c = .recover (.pause d) ∧ s.shared.now < d
  · exact .inr hpause
  · refine .inl fun fault => ?_
    rcases h.launch.goesOn hn w fault s.shared with hgoes | hwaits
    · simpa [System.step, System.advance, h.call] using hgoes
    · exact absurd hwaits hpause

theorem LetIn.startsOnce {i : Nat} {c : Call} (h : LetIn w s₀ as s i c) (hrun : s₀.steps w as = some s) :
    StartsOnce w s₀ as s := by
  obtain ⟨rest, hrest⟩ := h.starters
  have hasked : s₀.starters w as ≠ [] := by
    rw [hrest]
    nofun
  exact {
    unasked := fun hnone => absurd hnone hasked
    asked := by
      intro k later hk
      rw [hrest] at hk
      cases hk
      exact ⟨i, c, rfl, h.call, h.launch, h.spawned⟩
    letIn := fun _ _ _ _ _ hnone => absurd hnone hasked
    refused := fun _ _ _ hstep hk _ => h.refuses hstep hk
    spawns := by
      intro a s' found hstep hfound
      obtain ⟨hnone, hbefore, hafter, hhandles, hreply⟩ := h.spawns hstep hfound
      exact ⟨hnone, hbefore, hafter, hhandles, i, rest, hrest, hreply⟩
    goesOn := by
      intro j later d hj hd hn
      obtain rfl := h.eq_of_starters hj
      obtain rfl : d = c := Option.some.inj (hd.symm.trans h.call)
      exact h.goesOn hn
    usedUp := by
      intro j later e hj hd bs t hbs l
      obtain rfl := h.eq_of_starters hj
      obtain rfl : c = .done (.failed e) := Option.some.inj (h.call.symm.trans hd)
      exact (h.usedUp hrun hbs).not_spawned l }

/-- **A scheduler is started once.** Take any run of a new scheduler, over any store: any requests, in any
interleaving, any failures of the medium and of the store. At its end, and so at every moment of it, the
first who has asked for the start is the only one who recovers the store and spawns the workers. -/
theorem starts_once (w : Wiring W) (store : σ) (now : Instant) (world : W)
    (hrun : (System.init w.config store now world).steps w as = some s) :
    StartsOnce w (System.init w.config store now world) as s := by
  rcases unasked_or_letIn store now world hrun with h | ⟨i, c, h⟩
  · exact h.startsOnce
  · exact h.startsOnce hrun

/-- The store is busy at first, and the second attempt recovers it; a second start comes too late. -/
def secondAttempt : List Action :=
  [.request .start, .advance 0 none, .advance 0 (some (.transientStorage "database is locked")),
    .tick 1, .advance 0 none, .advance 0 none, .advance 0 none, .request .start, .advance 1 none]

theorem starts_once_secondAttempt :
    let w := Trial.wiring fun _ => .success
    let s₀ := Trial.init fun _ => .success
    ∃ s, s₀.steps w secondAttempt = some s ∧ StartsOnce w s₀ secondAttempt s ∧
      s₀.starters w secondAttempt = [.client 0, .client 1] ∧
      s₀.recoveries w secondAttempt =
        [.error (.transientStorage "database is locked"), .ok ⟨0, 0, 0⟩] ∧
      s₀.spawnings w secondAttempt = [⟨0, 0, 0⟩] ∧ ∀ l, (s.shared.cell l).spawned = true := by
  intro w s₀
  have hrun : (s₀.steps w secondAttempt).isSome := by decide +kernel
  obtain ⟨s, hs⟩ := Option.isSome_iff_exists.1 hrun
  have honce : StartsOnce w s₀ secondAttempt s := starts_once w MemoryStore.empty 0 () hs
  have hstarters : s₀.starters w secondAttempt = [.client 0, .client 1] := by decide +kernel
  have hspawnings : s₀.spawnings w secondAttempt = [⟨0, 0, 0⟩] := by decide +kernel
  obtain ⟨i, c, -, -, -, hspawned⟩ := honce.asked _ _ hstarters
  refine ⟨s, hs, honce, hstarters, by decide +kernel, hspawnings, fun l => (hspawned l).2 ?_⟩
  rw [hspawnings]
  nofun

/-- The medium fails when the store is to be recovered. -/
def failedStart : List Action :=
  [.request .start, .advance 0 none, .advance 0 (some (.storage "disk failure"))]

/-- One more start, with a store that serves. -/
def anotherStart (i : Nat) : List Action := .request .start :: List.replicate 3 (.advance i none)

/-- A start that comes after one whose recovery has failed spawns no worker, although the store serves. -/
theorem start_lost :
    ¬ (∀ (w : Wiring Unit) (as : List Action) (s : System MemoryStore Unit),
      (System.init w.config .empty 0 ()).steps w as = some s → (∀ c ∈ s.calls, (c.reply?).isSome) →
      (System.init w.config MemoryStore.empty 0 ()).spawnings w as = [] →
      ∃ t, s.steps w (anotherStart s.calls.length) = some t ∧
        ∀ l, (t.shared.cell l).spawned = true) := by
  intro h
  have hrun : ((Trial.init fun _ => .success).steps (Trial.wiring fun _ => .success) failedStart).any
      fun s => s.calls.length = 1 ∧ ∀ c ∈ s.calls, (c.reply?).isSome := by decide +kernel
  obtain ⟨s, hs, hend⟩ := (Option.any_eq_true _ _).1 hrun
  obtain ⟨hlength, hanswered⟩ := of_decide_eq_true hend
  obtain ⟨t, ht, -⟩ := h (Trial.wiring fun _ => .success) failedStart s hs hanswered (by decide +kernel)
  have hlost : ((Trial.init fun _ => .success).steps (Trial.wiring fun _ => .success)
      (failedStart ++ anotherStart 1)).isNone := by decide +kernel
  rw [hlength] at ht
  rw [steps_append, hs, Option.bind_some, ht] at hlost
  cases hlost

end System

end LaneQueue
