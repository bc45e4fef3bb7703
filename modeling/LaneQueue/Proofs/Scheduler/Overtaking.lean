import LaneQueue.Proofs.Scheduler.Telling
import LaneQueue.Proofs.Scheduler.Wakeups
/-!
# Announcements and overtaking

A submission stores its record, tells subscribers of it, and wakes the lane, in this order. So a worker
that sleeps is not woken for a record that has still to be announced. But a worker that is on its way to a
claim needs no wake-up: it may claim the record in between, and tell of its execution and of its end
before anybody has heard that it was queued (`announced_last`). Such a claim is the only thing that can
come between (`announced_unless_overtaken`).
-/
namespace LaneQueue

/-! ## What has been published stays -/

section Published

variable {σ W : Type} {w : Wiring W} {fault : Option QueueError} {s s' : Shared σ W}

theorem Shared.published_prefix (s : Shared σ W) (l : Lane) (b : EventBody) :
    s.bus.published <+: (s.publish l b).bus.published := by
  rw [published_publish]
  exact List.prefix_append _ _

variable [QueueStore σ]

theorem Call.step_published {c c' : Call} (h : c.step w fault s = some (c', s')) :
    s.bus.published <+: s'.bus.published := by
  cases Call.step_changes h with
  | told l b => exact s.published_prefix l b
  | same | stored | started | spawned | woken | paused | resumed | shown | cancelled | gathered =>
    exact List.prefix_rfl

theorem Point.step_published {p p' : Point W} {l : Lane} {signal : Signal}
    (h : p.step w l signal fault s = some (p', s')) : s.bus.published <+: s'.bus.published := by
  cases step_changes h with
  | announced | published => exact s.published_prefix _ _
  | asked r c c' next hc => exact Call.step_published hc
  | same | stored | acted | noticed | roused | shown | begun | collapsed | finished | stopped =>
    exact List.prefix_rfl

end Published

namespace System

open LawfulStore (ledger)

variable {σ W : Type} [QueueStore σ] {w : Wiring W} {s s' s₀ s₁ u : System σ W}
  {c c₀ : Chronicle} {a : Action} {l : Lane} {k : Caller} {r : Record} {as bs : List Action}

theorem step_published (hstep : s.step w a = some s') :
    s.shared.bus.published <+: s'.shared.bus.published := by
  cases a with
  | request | tick => cases hstep; exact List.prefix_rfl
  | advance i fault =>
    obtain ⟨d, d', x, -, hcall, rfl⟩ := advance_cases hstep
    exact Call.step_published hcall
  | work l signal fault => exact Point.step_published (worker_own hstep)

theorem steps_published (hrun : s₀.steps w as = some s) :
    s₀.shared.bus.published <+: s.shared.bus.published :=
  steps_induction (P := fun _ t => s₀.shared.bus.published <+: t.shared.bus.published) List.prefix_rfl
    (fun _ ih hstep => ih.trans (step_published hstep)) hrun

/-! ## Between storing and telling -/

theorem callOf_steps_beside {d : Call} (hc : s₀.callOf k = some d) (h : ∀ b ∈ as, b.caller? ≠ some k)
    (hrun : s₀.steps w as = some s) : s.callOf k = some d :=
  steps_induction_forall (P := fun _ t => t.callOf k = some d) hc
    (fun _ _ hb ht hstep => callOf_beside hstep hb ht) h hrun

/-- The announcement goes right behind what has been published, stays there, and is followed by the
waking of the lane. -/
theorem announce_step {lane : Lane} {e : EventBody} {o : SubmitOutcome}
    (hc : s.callOf k = some (.announce lane e o)) (hk : a.caller? = some k)
    (hstep : s.step w a = some s') :
    s'.callOf k = some (.wake lane (.submitted o)) ∧ ∀ cs t, s'.steps w cs = some t →
      s.shared.bus.published ++ [⟨lane, .ofMillis s.shared.now, e⟩] <+: t.shared.bus.published := by
  obtain ⟨d, hcall, hd⟩ := callOf_own hstep hk hc rfl
  simp only [Call.step, Option.some.injEq, Prod.mk.injEq] at hcall
  obtain ⟨rfl, hs⟩ := hcall
  refine ⟨hd, fun cs t ht => ?_⟩
  have hpre := steps_published ht
  rwa [← hs, Shared.published_publish] at hpre

/-- A worker that waits for work was roused at some moment of a run: one of its signals had come. -/
def Roused (w : Wiring W) (s₀ : System σ W) (as : List Action) (l : Lane) (timer : Option Instant) :
    Prop :=
  ∃ bs u, ∃ signal : Signal, bs <+: as ∧ s₀.steps w bs = some u ∧
    u.workers.get l = .idle timer ∧ signal.isReady u.shared l timer = true

/-- It waits until it is. -/
theorem idle_or_roused {timer : Option Instant} (hp : s₀.workers.get l = .idle timer)
    (hrun : s₀.steps w as = some s) : s.workers.get l = .idle timer ∨ Roused w s₀ as l timer := by
  refine steps_induction (P := fun as t => t.workers.get l = .idle timer ∨ Roused w s₀ as l timer)
    (.inl hp) ?_ hrun
  intro as a t t' ht ih hstep
  rcases ih with hidle | ⟨bs, u, signal, hpre, hroused⟩
  · rcases step_worker hstep l with heq | ⟨signal, fault, -, hown⟩
    · exact .inl (heq.trans hidle)
    · rw [hidle] at hown
      exact .inr ⟨as, t, signal, List.prefix_append as [a], ht, hidle, (Point.wait_cases hown).1⟩
  · exact .inr ⟨bs, u, signal, hpre.trans (List.prefix_append as [a]), hroused⟩

/-- A claim answers a record, in whatever version, while its announcement may still be to come. -/
structure Overtakes (s s' : System σ W) (r : Record) (a : Action) : Prop where
  operation : s.operation? a = some (.nextEligible r.lane)
  answer : ∃ y, y.IsVersionOf r ∧ s'.workers.get r.lane = .decode y

/-- At some moment of a run a claim answered a record. -/
def OvertakenIn (w : Wiring W) (s₀ : System σ W) (as : List Action) (r : Record) : Prop :=
  ∃ bs b u u', bs ++ [b] <+: as ∧ s₀.steps w bs = some u ∧ u.step w b = some u' ∧ Overtakes u u' r b

namespace OvertakenIn

theorem snoc (h : OvertakenIn w s₀ as r) (a : Action) : OvertakenIn w s₀ (as ++ [a]) r := by
  obtain ⟨bs, b, u, u', hpre, hclaim⟩ := h
  exact ⟨bs, b, u, u', hpre.trans (List.prefix_append as [a]), hclaim⟩

/-- It was a step of the worker of its lane. -/
theorem exists_work (h : OvertakenIn w s₀ as r) : ∃ b ∈ as, b.lane? = some r.lane := by
  obtain ⟨bs, b, u, u', hpre, -, -, hclaim⟩ := h
  obtain ⟨signal, fault, t, rfl, -⟩ := operation?_eq_nextEligible hclaim.operation
  exact ⟨_, hpre.subset (List.mem_append_right bs (List.mem_singleton_self _)), rfl⟩

/-- A worker that waited for work had been roused before. -/
theorem roused (h : OvertakenIn w s₀ as r) {timer : Option Instant}
    (hp : s₀.workers.get r.lane = .idle timer) : Roused w s₀ as r.lane timer := by
  obtain ⟨bs, b, u, u', hpre, hu, -, hclaim⟩ := h
  obtain ⟨signal, fault, t, rfl, hc, -⟩ := operation?_eq_nextEligible hclaim.operation
  rcases idle_or_roused hp hu with hidle | ⟨cs, v, sig, hcs, hroused⟩
  · cases hidle.symm.trans hc
  · exact ⟨cs, v, sig, hcs.trans ((List.prefix_append bs _).trans hpre), hroused⟩

end OvertakenIn

/-- Nothing has been noted of a record, and nobody is busy with it. -/
structure Chronicle.Unheard (c : Chronicle) (s : System σ W) (r : Record) : Prop where
  notes : ∀ n ∈ c.notes, ¬ n.1.IsVersionOf r
  subject : ∀ l x, c.subject? s l = some x → ¬ x.IsVersionOf r

variable [LawfulStore σ]

/-- **One step**: a record is heard of only after a claim has answered it. -/
theorem Chronicle.Unheard.step (h : c.Unheard s r) (htidy : s.Tidy) (hstep : s.step w a = some s') :
    (c.after s a).Unheard s' r ∨ Overtakes s s' r a := by
  by_cases hclaim : ∃ l x, (c.after s a).subject? s' l = some x ∧ x.IsVersionOf r
  · obtain ⟨l, x, hx, hv⟩ := hclaim
    rcases Chronicle.subject_cases hstep hx with hold | ⟨hp, hop, -⟩
    · exact absurd hv (h.subject l x hold)
    · have hhand := (htidy.step hstep).inHand l x (by rw [hp]; rfl)
      have hlane : r.lane = l := (congrArg NewCommand.lane hv.command).symm.trans hhand.lane
      subst hlane
      exact .inr ⟨hop, x, hv, hp⟩
  · refine .inl ⟨fun n hn => ?_, fun l x hx hv => hclaim ⟨l, x, hx, hv⟩⟩
    rcases List.mem_append.1 hn with hn | hn
    · exact h.notes n hn
    · obtain ⟨l, -, hx, -⟩ := noted?_eq_some (Option.mem_toList.1 hn)
      exact h.subject l n.1 hx

theorem Chronicle.Unheard.steps (h : c₀.Unheard s₀ r) (htidy : s₀.Tidy)
    (hrun : s₀.steps w as = some s) :
    (s₀.chronicle w as c₀).Unheard s r ∨ OvertakenIn w s₀ as r := by
  refine steps_induction (P := fun as t => (s₀.chronicle w as c₀).Unheard t r ∨ OvertakenIn w s₀ as r)
    (.inl h) ?_ hrun
  intro as a t t' ht ih hstep
  rcases ih with hno | hover
  · rw [chronicle_snoc ht hstep]
    rcases hno.step (htidy.steps ht) hstep with hno' | hclaim
    · exact .inl hno'
    · exact .inr ⟨as, a, t, t', List.prefix_rfl, ht, hstep, hclaim⟩
  · exact .inr (hover.snoc a)

/-- A record that has just been stored is unheard of. -/
theorem Chronicle.Sound.unheard (hc : c.Sound s) (htidy : s.Tidy) (hacc : s.accepted? a = some r)
    (hstep : s.step w a = some s') : (c.after s a).Unheard s' r := by
  obtain ⟨habout, hfree⟩ := hc.fresh htidy hacc hstep
  refine ⟨fun n hn hv => ?_, fun l x hx hv => hfree l x hx hv.seq⟩
  have hnone := List.filterMap_eq_nil_iff.1 habout n hn
  rw [if_pos hv.seq] at hnone
  cases hnone

/-- Nothing holds a caller up whose request can go on. -/
theorem Tidy.step_of_callOf (h : s.Tidy) {d : Call} (hc : s.callOf k = some d)
    (hd : (d.step w none s.shared).isSome = true) :
    ∃ a s', a.caller? = some k ∧ s.step w a = some s' := by
  obtain ⟨⟨d', x'⟩, hstep⟩ := Option.isSome_iff_exists.1 hd
  cases k with
  | client i =>
    simp only [callOf] at hc
    refine ⟨.advance i none, { s with shared := x', calls := s.calls.set i d' }, rfl, ?_⟩
    simp only [System.step, System.advance, hc, hstep, Option.map_some]
  | body l =>
    simp only [callOf] at hc
    cases hp : s.workers.get l with
    | asking x e next =>
      rw [hp] at hc
      obtain rfl : e = d := Option.some.inj hc
      have hsp := h.spawned_of_record (l := l) (r := x) (by rw [hp]; rfl)
      have hnone : e.reply? = none := by
        cases e with
        | done => cases hstep
        | _ => rfl
      refine ⟨.work l .timer none, _, rfl, work_of_step (p := .asking x d' next) (x := x') hsp ?_⟩
      simp only [hp, Point.step, hnone, hstep, Option.map_some]
    | top | readPause | showPaused | paused | claim | claimFailed | showIdle | askWake | measure | arm |
      idle | decode | begin | announce | run | settle | collapsed | release | publish | finish | stop |
      exited =>
      rw [hp] at hc
      cases hc

/-- **A record is announced before anything else is told of it, unless a claim overtakes it.** Take any
run of a scheduler, any step of it by which a caller stores a record, and any run from there in which the
caller makes no step. Then the caller is about to announce the record, and nothing holds it up; the event
goes right behind what has been published so far and stays there, and the caller wakes the lane only
afterwards. What has been published of executions so far is what the chronicle has noted as told, and none
of its notes is about the record, unless a claim has answered the record since it was stored. No claim
does if the caller is the body of the record's own lane; and if the worker of the lane was waiting for
work, a claim does only after one of its signals has come. -/
theorem announced_unless_overtaken (w : Wiring W) {store : σ} (hs : (ledger store).Sound)
    (now : Instant) (world : W)
    (hrun : (System.init w.config store now world).steps w as = some s)
    (hacc : s.accepted? a = some r) (hk : a.caller? = some k) (hstep : s.step w a = some s₁)
    (hbs : s₁.steps w bs = some u) (hbeside : ∀ b ∈ bs, b.caller? ≠ some k) :
    ∃ e o, e.Announces r ∧ u.callOf k = some (.announce r.lane e o) ∧
      (∃ b u', b.caller? = some k ∧ u.step w b = some u') ∧
      (∀ b u', b.caller? = some k → u.step w b = some u' →
        u'.callOf k = some (.wake r.lane (.submitted o)) ∧ ∀ cs t, u'.steps w cs = some t →
          u.shared.bus.published ++ [⟨r.lane, .ofMillis u.shared.now, e⟩] <+:
            t.shared.bus.published) ∧
      u.shared.executions =
        ((System.init w.config store now world).chronicle w (as ++ a :: bs) {}).told ∧
      ((∀ n ∈ ((System.init w.config store now world).chronicle w (as ++ a :: bs) {}).notes,
          ¬ n.1.IsVersionOf r) ∨
        OvertakenIn w s₁ bs r ∧ k ≠ .body r.lane ∧
          ∀ timer, s₁.workers.get r.lane = .idle timer → Roused w s₁ bs r.lane timer) := by
  have hinit := Tidy.init (W := W) w.config hs now world
  have htidy := hinit.steps hrun
  have hsound := (Chronicle.sound_init w.config store now world).steps hinit hrun
  obtain ⟨k', e, o, hk', he, hc₁⟩ := announce_of_accepted htidy hacc hstep
  obtain rfl : k = k' := Option.some.inj (hk.symm.trans hk')
  have hc := callOf_steps_beside hc₁ hbeside hbs
  have hall : (System.init w.config store now world).steps w (as ++ a :: bs) = some u := by
    rw [steps_append, hrun, Option.bind_some]
    simp only [steps, hstep]
    exact hbs
  have hchronicle : (System.init w.config store now world).chronicle w (as ++ a :: bs) {} =
      s₁.chronicle w bs (((System.init w.config store now world).chronicle w as {}).after s a) := by
    rw [chronicle_append hrun]
    simp only [chronicle, hstep]
  refine ⟨e, o, he, hc, ((htidy.step hstep).steps hbs).step_of_callOf hc rfl,
    fun b u' hb hstep' => announce_step hc hb hstep',
    ((Chronicle.tells_init w.config store now world).steps hall).told, ?_⟩
  rw [hchronicle]
  rcases (hsound.unheard htidy hacc hstep).steps (htidy.step hstep) hbs with hno | hover
  · exact .inl hno.notes
  · refine .inr ⟨hover, ?_, fun timer hidle => hover.roused hidle⟩
    rintro rfl
    obtain ⟨b, hb, hlane⟩ := hover.exists_work
    obtain ⟨signal, fault, rfl⟩ := Action.eq_work_of_lane? hlane
    exact hbeside _ hb rfl

/-- The worker of a lane is about to claim, and a client about to store a command. -/
def upToRace : List Action :=
  [.request .start, .advance 0 none, .advance 0 none, .advance 0 none, Trial.turn, Trial.turn,
    .request (.submit ⟨"Flaky", "f", .ok []⟩ {}), .advance 1 none]

/-- The worker claims the record, executes it and tells of its end. -/
def execution : List Action := List.replicate 7 Trial.turn

/-- **The announcement may come last**, after the record has been executed and removed. -/
theorem announced_last :
    ∃ (s s₁ t : System MemoryStore Unit) (r : Record),
      (Trial.init fun _ => .success).steps (Trial.wiring fun _ => .success) upToRace = some s ∧
        s.accepted? (.advance 1 none) = some r ∧
        s.step (Trial.wiring fun _ => .success) (.advance 1 none) = some s₁ ∧
        s₁.steps (Trial.wiring fun _ => .success) (execution ++ [.advance 1 none]) = some t ∧
        t.shared.store.records = [] ∧
        t.shared.bus.published.map (·.body) =
          [.started r.identity r.tag r.attempt, .completed r.identity r.tag r.attempt,
            .queued r.identity r.tag r.priority] := by
  have hrun : ((Trial.init fun _ => .success).steps (Trial.wiring fun _ => .success) upToRace).any
      fun s => (s.accepted? (.advance 1 none)).any fun r =>
        (s.step (Trial.wiring fun _ => .success) (.advance 1 none)).any fun s₁ =>
          (s₁.steps (Trial.wiring fun _ => .success) (execution ++ [.advance 1 none])).any fun t =>
            t.shared.store.records = [] ∧ t.shared.bus.published.map (·.body) =
              [.started r.identity r.tag r.attempt, .completed r.identity r.tag r.attempt,
                .queued r.identity r.tag r.priority] := by decide +kernel
  obtain ⟨s, hs, hrun⟩ := (Option.any_eq_true _ _).1 hrun
  obtain ⟨r, hr, hrun⟩ := (Option.any_eq_true _ _).1 hrun
  obtain ⟨s₁, hs₁, hrun⟩ := (Option.any_eq_true _ _).1 hrun
  obtain ⟨t, ht, hend⟩ := (Option.any_eq_true _ _).1 hrun
  exact ⟨s, s₁, t, r, hs, hr, hs₁, ht, of_decide_eq_true hend⟩

/-- In that run a claim has overtaken the announcement, which is still to be made. -/
theorem announced_unless_overtaken_raced :
    ∃ (s s₁ u : System MemoryStore Unit) (r : Record) (e : EventBody) (o : SubmitOutcome),
      (Trial.init fun _ => .success).steps (Trial.wiring fun _ => .success) upToRace = some s ∧
        s.accepted? (.advance 1 none) = some r ∧
        s₁.steps (Trial.wiring fun _ => .success) execution = some u ∧ e.Announces r ∧
        u.callOf (.client 1) = some (.announce .general e o) ∧
        OvertakenIn (Trial.wiring fun _ => .success) s₁ execution r := by
  have hrun : ((Trial.init fun _ => .success).steps (Trial.wiring fun _ => .success) upToRace).any
      fun s => (s.accepted? (.advance 1 none)).any fun r =>
        (s.step (Trial.wiring fun _ => .success) (.advance 1 none)).any fun s₁ =>
          (s₁.steps (Trial.wiring fun _ => .success) execution).any fun u =>
            r.lane = .general ∧
              (r, .told (.started r.identity r.tag r.attempt)) ∈
                ((Trial.init fun _ => .success).chronicle (Trial.wiring fun _ => .success)
                  (upToRace ++ .advance 1 none :: execution) {}).notes := by decide +kernel
  obtain ⟨s, hs, hrun⟩ := (Option.any_eq_true _ _).1 hrun
  obtain ⟨r, hr, hrun⟩ := (Option.any_eq_true _ _).1 hrun
  obtain ⟨s₁, hs₁, hrun⟩ := (Option.any_eq_true _ _).1 hrun
  obtain ⟨u, hu, hend⟩ := (Option.any_eq_true _ _).1 hrun
  obtain ⟨hlane, hnote⟩ := of_decide_eq_true hend
  have hempty : (ledger MemoryStore.empty).Sound := Ledger.Sound.empty
  have hbeside : ∀ b ∈ execution, b.caller? ≠ some (.client 1) := by
    intro b hb
    rw [List.eq_of_mem_replicate hb]
    decide
  obtain ⟨e, o, he, hc, -, -, -, hnotes⟩ :=
    announced_unless_overtaken (Trial.wiring fun _ => .success) hempty 0 () hs hr rfl hs₁ hu hbeside
  rcases hnotes with hno | ⟨hover, -⟩
  · exact absurd ⟨rfl, rfl⟩ (hno _ hnote)
  · exact ⟨s, s₁, u, r, e, o, hs, hr, hu, he, hlane ▸ hc, hover⟩

end System

end LaneQueue
