import LaneQueue.Proofs.Scheduler.Breakdown
import LaneQueue.Proofs.Scheduler.Submissions
import LaneQueue.Proofs.Scheduler.Yields
/-!
# Shutting down

A shutdown tells the workers to end and waits for them, but not for ever. A worker takes notice at the
top of its loop and where it waits; one that has passed the top may still claim once, and one that has a
record in hand goes on with it as if nothing had happened, also when nobody waits for it any more. The
shutdown itself asks nothing of the store, so what is queued stays queued. Without any shutdown a worker
ends only where it breaks down over its record, and that is never settled then (`ended_unsettled`).
-/
namespace LaneQueue

namespace Point

variable {σ W : Type} {p p' : Point W}

/-- Whether a worker has found the lanes running and may claim before it looks again. -/
def mayClaim : Point W → Bool
  | readPause | claim _ => true
  | _ => false

/-- Whether a worker has left its loop. -/
def hasLeft : Point W → Bool
  | stop | exited => true
  | _ => false

theorem mayClaim_of_hasLeft (h : p.hasLeft = true) : p.mayClaim = false := by
  cases p with
  | stop | exited => rfl
  | _ => cases h

section Steps

variable [QueueStore σ] {w : Wiring W} {l : Lane} {signal : Signal} {fault : Option QueueError}
  {s s' : Shared σ W}

/-- Once the workers are told to end, none passes the top of its loop. -/
theorem mayClaim_step (h : p.step w l signal fault s = some (p', s')) (hc : s.cancelled = true)
    (hp : p.mayClaim = false) : p'.mayClaim = false := by
  cases step_moves h with
  | look hno =>
    rw [hc] at hno
    cases hno
  | pass | claimAgain => cases hp
  | leave | hold | park | cancel | rouse | claimFails | findNone | find | rest | learn | refuse |
    measure | sleep | accept | reject | begin | execute | act | await | ask | proceed | hear | finish |
    collapse | settleAgain | settled | giveUp | release | publish | again | exit => rfl

/-- No worker leaves its loop before it is told to. -/
theorem hasLeft_step (h : p.step w l signal fault s = some (p', s')) (hp' : p'.hasLeft = true) :
    p.hasLeft = true ∨ s.cancelled = true := by
  cases step_moves h with
  | leave hc => exact .inr hc
  | cancel _ hc => exact .inr hc
  | exit => exact .inl rfl
  | look | hold | pass | park | rouse | claimAgain | claimFails | findNone | find | rest | learn |
    refuse | measure | sleep | accept | reject | begin | execute | act | await | ask | proceed | hear |
    finish | collapse | settleAgain | settled | giveUp | release | publish | again => cases hp'

/-- Nobody comes back. -/
theorem hasLeft_of_hasLeft (h : p.step w l signal fault s = some (p', s')) (hp : p.hasLeft = true) :
    p'.hasLeft = true := by
  cases p with
  | stop => cases step_moves h with
    | cancel hw | rouse hw => cases hw
    | exit => rfl
  | exited => cases h
  | _ => cases hp

/-! ## The record in hand -/

/-- What a worker with a record in hand may have to wait for: its body, a request of its body, and the
pause before the second try of the settlement. -/
inductive IsHeldUp (w : Wiring W) (fault : Option QueueError) (s : Shared σ W) : Point W → Prop
  | body {r : Record} {effect? : W → Option W} {next : Body W} :
      effect? s.world = none → IsHeldUp w fault s (run r (.await effect? next))
  | request {r : Record} {c : Call} {next : Reply → Body W} :
      c.reply? = none → c.step w fault s = none → IsHeldUp w fault s (asking r c next)
  | pause {r : Record} {f : Fate} {deadline : Instant} :
      s.now < deadline → IsHeldUp w fault s (settle r f (.pause deadline))

/-- **Nothing else holds it up**, whether the lanes are running or not, unless it has broken down. -/
theorem step_or_isHeldUp {r : Record} (hr : p.record? = some r) (hend : p.hasEnded = false)
    (w : Wiring W) (l : Lane) (signal : Signal) (fault : Option QueueError) (s : Shared σ W) :
    (∃ p' s', p.step w l signal fault s = some (p', s')) ∨ p.IsHeldUp w fault s := by
  cases p with
  | decode x =>
    refine .inl ?_
    simp only [step]
    split <;> exact ⟨_, _, rfl⟩
  | begin | announce | release => exact .inl ⟨_, _, rfl⟩
  | collapsed => cases hend
  | run x b =>
    cases b with
    | done | act | ask => exact .inl ⟨_, _, rfl⟩
    | await effect? next =>
      cases he : effect? s.world with
      | none => exact .inr (.body he)
      | some world =>
        have hstep : (run x (.await effect? next) : Point W).step w l signal fault s =
            some (run x next, { s with world := world }) := by
          simp only [step, runBody, he, Option.map_some]
        exact .inl ⟨_, _, hstep⟩
  | asking x c next =>
    cases hreply : c.reply? with
    | some reply =>
      have hstep : (asking x c next).step w l signal fault s = some (run x (next reply), s) := by
        simp only [step, hreply]
      exact .inl ⟨_, _, hstep⟩
    | none =>
      cases hc : c.step w fault s with
      | none => exact .inr (.request hreply hc)
      | some y =>
        have hstep : (asking x c next).step w l signal fault s = some (asking x y.1 next, y.2) := by
          simp only [step, hreply, hc, Option.map_some]
        exact .inl ⟨_, _, hstep⟩
  | settle x f t =>
    cases ht : t.step w.config fault (settling x f) s with
    | none =>
      obtain ⟨d, rfl, hd⟩ := Try.step_eq_none ht
      exact .inr (.pause hd)
    | some y =>
      refine .inl ?_
      simp only [step, ht]
      split
      · rename_i h; cases h
      all_goals exact ⟨_, _, rfl⟩
  | top | readPause | showPaused | paused | claim | claimFailed | showIdle | askWake | measure | arm |
    idle | publish | finish | stop | exited => cases hr

end Steps

end Point

/-- Whether a request is on its way through a shutdown. -/
def Call.isOfShutdown : Call → Bool
  | drain _ | cancel | gather | await .. | halt _ => true
  | _ => false

theorem Call.operation?_of_isOfShutdown {c : Call} (h : c.isOfShutdown = true)
    (fault : Option QueueError) : c.operation? fault = none := by
  cases c with
  | drain | cancel | gather | await | halt => rfl
  | _ => cases h

namespace System

open LawfulStore (ledger)

variable {σ W : Type} {w : Wiring W} {s s' s₀ t : System σ W} {a : Action} {l : Lane} {x : Record}
  {as bs : List Action}

/-- What a caller asks of the store by a step of a request is what the request asks. -/
theorem operation?_of_callOf {k : Caller} (hk : a.caller? = some k) {c : Call}
    (hc : s.callOf k = some c) : s.operation? a = c.operation? a.fault? := by
  cases a with
  | request | tick => cases hk
  | advance i fault =>
    cases hk
    have hc : s.calls[i]? = some c := hc
    simp only [operation?, hc, Option.bind_some]
    rfl
  | work m signal fault =>
    cases hk
    simp only [callOf] at hc
    cases hp : s.workers.get m with
    | asking r d next =>
      rw [hp] at hc
      cases hc
      simp only [operation?, hp]
      rfl
    | _ =>
      rw [hp] at hc
      cases hc

variable [QueueStore σ]

/-! ## The cancellation -/

/-- In some step of a run a shutdown has told the workers to end. -/
def CancelledIn (w : Wiring W) (s₀ : System σ W) (as : List Action) : Prop :=
  ∃ bs b u k, bs ++ [b] <+: as ∧ s₀.steps w bs = some u ∧ b.caller? = some k ∧
    u.callOf k = some .cancel

theorem cancelled_iff (h₀ : s₀.shared.cancelled = false) (hrun : s₀.steps w as = some s) :
    s.shared.cancelled = true ↔ CancelledIn w s₀ as := by
  constructor
  · refine steps_induction (P := fun as t => t.shared.cancelled = true → CancelledIn w s₀ as) ?_ ?_ hrun
    · intro hc
      rw [h₀] at hc
      cases hc
    · intro as a t t' ht ih hstep hc'
      cases hc : t.shared.cancelled with
      | true =>
        obtain ⟨bs, b, u, k, hpre, hrest⟩ := ih hc
        exact ⟨bs, b, u, k, hpre.trans (List.prefix_append as [a]), hrest⟩
      | false =>
        obtain ⟨k, hk, hcall⟩ := cancels_of_step hstep hc hc'
        exact ⟨as, a, t, k, List.prefix_rfl, ht, hk, hcall⟩
  · rintro ⟨bs, b, u, k, ⟨cs, rfl⟩, hu, hk, hcall⟩
    rw [steps_append] at hrun
    obtain ⟨u', hu', hrest⟩ := Option.bind_eq_some_iff.1 hrun
    obtain ⟨v, hv, hstep⟩ := steps_snoc.1 hu'
    cases hu.symm.trans hv
    exact cancelled_steps (cancelled_of_cancel hstep hk hcall) hrest

/-- No worker leaves its loop before the cancellation. -/
theorem cancelled_of_hasLeft (h₀ : ∀ l, s₀.workers.get l = .top) (hrun : s₀.steps w as = some s)
    (hp : (s.workers.get l).hasLeft = true) : s.shared.cancelled = true := by
  refine steps_induction (w := w) (P := fun _ t => (t.workers.get l).hasLeft = true →
    t.shared.cancelled = true) ?_ ?_ hrun hp
  · intro hp
    rw [h₀ l] at hp
    cases hp
  · intro as a t t' _ ih hstep hp'
    apply cancelled_step hstep
    rcases step_worker hstep l with heq | ⟨signal, fault, -, hown⟩
    · exact ih (heq ▸ hp')
    · exact (Point.hasLeft_step hown hp').elim ih id

theorem hasLeft_steps (hp : (s₀.workers.get l).hasLeft = true) (hrun : s₀.steps w as = some s) :
    (s.workers.get l).hasLeft = true := by
  refine steps_induction (P := fun _ t => (t.workers.get l).hasLeft = true) hp ?_ hrun
  intro as a t t' _ ih hstep
  rcases step_worker hstep l with heq | ⟨signal, fault, -, hown⟩
  · rw [heq]
    exact ih
  · exact Point.hasLeft_of_hasLeft hown ih

/-- **Once the workers are told to end**, each claims only what it was about to claim. -/
theorem claims_of_cancelled (hc : s₀.shared.cancelled = true) (hrun : s₀.steps w as = some s) :
    (s₀.claims w l as).length ≤ 1 ∧
      ((s₀.workers.get l).mayClaim = false → s₀.claims w l as = []) := by
  refine claims_of_stays (Q := Point.mayClaim) (fun _ => rfl) (fun _ => rfl) ?_ hrun
  intro bs b u _ hu u' hstep hq
  rcases step_worker hstep l with heq | ⟨signal, fault, -, hown⟩
  · rw [heq]
    exact hq
  · exact Point.mayClaim_step hown (cancelled_steps hc hu) hq

/-! ## The record in hand -/

/-- The worker of a lane has a record in hand that it has had all through a run; if it settles it, that
is by a fate that the body or the payload has come to. -/
structure InFlight (w : Wiring W) (s₀ : System σ W) (as : List Action) (s : System σ W) (l : Lane)
    (x : Record) : Prop where
  record : (s.workers.get l).record? = some x
  fate : ∀ f, (s.workers.get l).settling? = some (x, f) →
    (s₀.workers.get l).settling? = some (x, f) ∨ Justified w s₀ as l x f

/-- In some step of a run the worker has given up the claim of a record that was in flight, by its
settlement or after that has failed. -/
def SettledIn (w : Wiring W) (s₀ : System σ W) (as : List Action) (l : Lane) (x : Record) : Prop :=
  ∃ bs b u f op, bs ++ [b] <+: as ∧ s₀.steps w bs = some u ∧ b.lane? = some l ∧
    InFlight w s₀ bs u l x ∧ (u.workers.get l).settling? = some (x, f) ∧
    u.operation? b = some op ∧ op.settled? = some x

/-- A worker keeps what it has in hand, or settles it by a step of its own. -/
theorem InFlight.step (h : InFlight w s₀ as s l x) (hs : s₀.steps w as = some s)
    (hstep : s.step w a = some s') :
    InFlight w s₀ (as ++ [a]) s' l x ∨ ∃ f op, a.lane? = some l ∧
      (s.workers.get l).settling? = some (x, f) ∧ s.operation? a = some op ∧
      op.settled? = some x := by
  rcases step_worker hstep l with heq | ⟨signal, fault, rfl, hown⟩
  · refine .inl ⟨by rw [heq]; exact h.record, fun f hf => ?_⟩
    rw [heq] at hf
    exact (h.fate f hf).imp_right fun hj => hj.snoc a
  · rcases Point.step_letsGo hown h.record with hrec | ⟨op, hop, hx⟩
    · refine .inl ⟨hrec, fun f hf => ?_⟩
      have hv := (Visits.here hs l).snoc (.work l signal fault)
      rcases Point.step_settling hown hf with hf | ⟨fin, hrun, hfate⟩ | ⟨e, hdec, he, hfate⟩
      · exact (h.fate f hf).imp_right fun hj => hj.snoc _
      · rw [hrun] at hv
        exact .inr (.inl ⟨fin, _, hv, hfate⟩)
      · rw [hdec] at hv
        exact .inr (.inr ⟨e, hv, he, hfate⟩)
    · have hop : s.operation? (.work l signal fault) = some op := hop
      obtain ⟨m, f, hm, hp⟩ := settling_of_settled? hop hx
      obtain rfl := Option.some.inj hm
      refine .inr ⟨f, op, rfl, ?_, hop, hx⟩
      rcases hp with ⟨t, hp, -⟩ | ⟨hp, -⟩ <;> rw [hp] <;> rfl

/-- **What is in flight** stays so until its worker settles it. -/
theorem inFlight_or_settledIn (hx : (s₀.workers.get l).record? = some x)
    (hrun : s₀.steps w as = some s) : InFlight w s₀ as s l x ∨ SettledIn w s₀ as l x := by
  refine steps_induction (w := w) (P := fun as t => InFlight w s₀ as t l x ∨ SettledIn w s₀ as l x)
    (.inl ⟨hx, fun _ hf => .inl hf⟩) ?_ hrun
  intro as a t t' ht ih hstep
  rcases ih with hin | ⟨bs, b, u, f, op, hpre, hrest⟩
  · rcases hin.step ht hstep with hin' | ⟨f, op, ha, hf, hop⟩
    · exact .inl hin'
    · exact .inr ⟨as, a, t, f, op, List.prefix_rfl, ht, ha, hin, hf, hop⟩
  · exact .inr ⟨bs, b, u, f, op, hpre.trans (List.prefix_append as [a]), hrest⟩

/-- It is held up by nothing but its own business, unless its worker has broken down. -/
theorem work_or_isHeldUp (hsp : (s.shared.cell l).spawned = true)
    (hx : (s.workers.get l).record? = some x) (hend : (s.workers.get l).hasEnded = false)
    (signal : Signal) (fault : Option QueueError) :
    (∃ s', s.step w (.work l signal fault) = some s') ∨
      (s.workers.get l).IsHeldUp w fault s.shared := by
  rcases Point.step_or_isHeldUp hx hend w l signal fault s.shared with ⟨p', y, hp⟩ | hheld
  · exact .inl ⟨_, work_of_step hsp hp⟩
  · exact .inr hheld

/-! ## What stays stored -/

/-- No step of a shutdown touches the store. -/
theorem store_of_isOfShutdown (hstep : s.step w a = some s') {k : Caller} (hk : a.caller? = some k)
    {c : Call} (hc : s.callOf k = some c) (hs : c.isOfShutdown = true) :
    s'.shared.store = s.shared.store := by
  rw [step_store hstep, operation?_of_callOf hk hc, Call.operation?_of_isOfShutdown hs]
  rfl

variable [LawfulStore σ]

/-- In the later part of a run a step ended a record. -/
def EndedAfter (w : Wiring W) (s₀ : System σ W) (as : List Action) (s : System σ W)
    (bs : List Action) (r : Record) : Prop :=
  ∃ cs b u u', cs ++ [b] <+: bs ∧ s.steps w cs = some u ∧ u.step w b = some u' ∧
    (ledger u.shared.store).Stores r.toNewCommand r.seq ∧
    ¬ (ledger u'.shared.store).Stores r.toNewCommand r.seq ∧ Ends w s₀ (as ++ cs) u r b

/-- A record that is stored at some moment of a run stays stored until a step ends it, also if it is in
hand at that moment. -/
theorem stores_or_endedAfter (h : s₀.Tidy) (h₀ : ∀ l, (s₀.workers.get l).record? = none)
    (hrun : s₀.steps w as = some s) {r : Record}
    (hst : (ledger s.shared.store).Stores r.toNewCommand r.seq) (hrest : s.steps w bs = some t) :
    (ledger t.shared.store).Stores r.toNewCommand r.seq ∨ EndedAfter w s₀ as s bs r := by
  refine steps_induction (P := fun bs t => (ledger t.shared.store).Stores r.toNewCommand r.seq ∨
    EndedAfter w s₀ as s bs r) (.inl hst) ?_ hrest
  intro cs b u u' hu ih hstep
  rcases ih with hs | ⟨ds, d, v, v', hpre, hend⟩
  · by_cases hs' : (ledger u'.shared.store).Stores r.toNewCommand r.seq
    · exact .inl hs'
    · have hall : s₀.steps w (as ++ cs) = some u := by
        rw [steps_append, hrun]
        exact hu
      -- the fates are traced back to the start of the whole run, where nobody has a record in hand
      have hj := justified_of_steps (q := r.seq) (fun l x hx => by rw [h₀ l] at hx; cases hx) hall
      exact .inr ⟨cs, b, u, u', List.prefix_rfl, hu, hstep, hs, hs',
        ends_of_not_stores (h.steps hall) hj hstep hs hs'⟩
  · exact .inr ⟨ds, d, v, v', hpre.trans (List.prefix_append cs [b]), hend⟩

/-- **A shutdown drains the lanes and keeps what is queued.** Take any run of a scheduler, in two parts,
with any shutdowns, starts, submissions, pauses and clearings in it, any unreadable payloads and any
failures of the storage. No worker has left its loop unless a shutdown has told the workers to end. If
one has, each worker claims at most once in the second part, and not at all unless it had found the lanes
running and not come to its claim; and one that has left its loop claims nothing and does not come
back. What a worker has in hand is in flight until the worker settles it, however long that takes:
nothing holds it up but its body, a request of its body, and the pause before the second try of the
settlement, unless the worker has broken down over a failure whose next instant is none of the calendar.
No step of a shutdown touches the store. What is stored stays stored until it is executed to
its end, found unreadable, replaced or cleared; and a submission is stored like any other. -/
theorem shutdown_drains (w : Wiring W) {store : σ} (hs : (ledger store).Sound) (now : Instant)
    (world : W) (hrun : (System.init w.config store now world).steps w as = some s)
    (hrest : s.steps w bs = some t) :
    let s₀ := System.init w.config store now world
    (∀ l, (s.workers.get l).hasLeft = true → CancelledIn w s₀ as) ∧
      (CancelledIn w s₀ as → ∀ l, (s.claims w l bs).length ≤ 1 ∧
        ((s.workers.get l).mayClaim = false → s.claims w l bs = [])) ∧
      (∀ l, (s.workers.get l).hasLeft = true →
        (t.workers.get l).hasLeft = true ∧ s.claims w l bs = []) ∧
      (∀ l x, (s.workers.get l).record? = some x →
        InFlight w s bs t l x ∧ ((∀ signal fault, (∃ t', t.step w (.work l signal fault) = some t') ∨
            (t.workers.get l).IsHeldUp w fault t.shared) ∨
          t.workers.get l = .collapsed x ∧ BrokenDown w s₀ (as ++ bs) l x) ∨
        SettledIn w s bs l x) ∧
      (∀ b t' k c, t.step w b = some t' → b.caller? = some k → t.callOf k = some c →
        c.isOfShutdown = true → t'.shared.store = t.shared.store) ∧
      (∀ r : Record, (ledger s.shared.store).Stores r.toNewCommand r.seq →
        (ledger t.shared.store).Stores r.toNewCommand r.seq ∨ EndedAfter w s₀ as s bs r) ∧
      ∀ d o kind c x, w.registry.descriptor? d.tag = some kind → d.toCommand kind o = .ok c →
        (QueueStore.submit c kind.conflict t.shared.now t.shared.store).1 = .ok x →
        ∃ t', t.steps w (t.submitting d o) = some t' ∧ (ledger t'.shared.store).Holds c.identity ∧
          ∀ r, (Answer.submission x).created? = some r → r.toNewCommand = c ∧ t'.Waits r := by
  intro s₀
  have htidy : s₀.Tidy := Tidy.init w.config hs now world
  have htop : ∀ l, s₀.workers.get l = .top := fun l => PerLane.get_ofFn _ l
  have hiff : s.shared.cancelled = true ↔ CancelledIn w s₀ as := cancelled_iff rfl hrun
  have htidyt := (htidy.steps hrun).steps hrest
  have hall : s₀.steps w (as ++ bs) = some t := by
    rw [steps_append, hrun]
    exact hrest
  refine ⟨fun l hp => hiff.1 (cancelled_of_hasLeft htop hrun hp),
    fun hc l => claims_of_cancelled (hiff.2 hc) hrest, fun l hp => ⟨hasLeft_steps hp hrest, ?_⟩,
    fun l x hx => ?_, fun b t' k c hstep hk hc hsd => store_of_isOfShutdown hstep hk hc hsd,
    fun r hst => ?_, fun d o kind c x hkind hc hx => htidyt.submit_stored hkind hc hx⟩
  · have hc := cancelled_of_hasLeft htop hrun hp
    exact (claims_of_cancelled hc hrest).2 (Point.mayClaim_of_hasLeft hp)
  · rcases inFlight_or_settledIn hx hrest with hin | hset
    · refine .inl ⟨hin, ?_⟩
      cases hend : (t.workers.get l).hasEnded with
      | false =>
        have hsp := htidyt.spawned_of_record hin.record
        exact .inl fun signal fault => work_or_isHeldUp hsp hin.record hend signal fault
      | true =>
        have hp := Point.eq_collapsed hend hin.record
        exact .inr ⟨hp, brokenDown_of_collapsed (by rw [htop l]; rfl) hall hp⟩
    · exact .inr hset
  · exact stores_or_endedAfter htidy (fun l => by rw [htop l]; rfl) hrun hst hrest

/-- A worker is about to execute a command when a shutdown tells the workers to end. -/
def upToCancellation : List Action :=
  Trial.upToStore ++ .advance 1 none :: List.replicate 4 Trial.turn ++
    .request .shutdown :: List.replicate 5 (.advance 2 none)

/-- The shutdown waits in vain and is answered. -/
def pastGrace : List Action :=
  [.advance 2 none, .tick 60000, .advance 2 none] ++ List.replicate 4 (.advance 2 none)

/-- The command is still in flight, and can go on. -/
theorem shutdown_drains_pastGrace :
    ∃ (s t : System MemoryStore Unit) (x : Record),
      let w := Trial.wiring fun _ => .success
      (Trial.init fun _ => .success).steps w upToCancellation = some s ∧
        s.steps w pastGrace = some t ∧ (t.calls[2]?.bind Call.reply?).isSome = true ∧
        s.claims w .general pastGrace = [] ∧ InFlight w s pastGrace t .general x ∧
        t.shared.store.records = [x] ∧ ∃ t', t.step w Trial.turn = some t' := by
  let w := Trial.wiring fun _ => .success
  have hrun : ((Trial.init fun _ => .success).steps w upToCancellation).any fun s =>
      (s.steps w pastGrace).any fun t =>
        ((s.workers.get .general).record?).any fun x =>
          (t.calls[2]?.bind Call.reply?).isSome ∧ s.shared.cancelled = true ∧
            (s.workers.get .general).mayClaim = false ∧ t.shared.store.records = [x] ∧
            (t.step w Trial.turn).isSome := by decide +kernel
  obtain ⟨s, hs, hrun⟩ := (Option.any_eq_true _ _).1 hrun
  obtain ⟨t, ht, hrun⟩ := (Option.any_eq_true _ _).1 hrun
  obtain ⟨x, hx, hend⟩ := (Option.any_eq_true _ _).1 hrun
  obtain ⟨hreply, hc, hmay, hrecords, hgoes⟩ := of_decide_eq_true hend
  have hempty : (ledger MemoryStore.empty).Sound := Ledger.Sound.empty
  obtain ⟨-, hclaims, -, hflight, -⟩ := shutdown_drains w hempty 0 () hs ht
  have hcancelled : CancelledIn w (.init w.config MemoryStore.empty 0 ()) upToCancellation :=
    (cancelled_iff rfl hs).1 hc
  -- the worker of the lane does not move
  have hbeside : ∀ b ∈ pastGrace, b.lane? ≠ some .general := by decide
  refine ⟨s, t, x, hs, ht, hreply, (hclaims hcancelled .general).2 hmay, ?_, hrecords,
    Option.isSome_iff_exists.1 hgoes⟩
  rcases hflight .general x hx with ⟨hin, -⟩ | ⟨cs, b, u, f, op, hpre, -, hb, -⟩
  · exact hin
  · exact absurd hb (hbeside b (hpre.subset (by simp)))

/-- The task of a worker is over before any shutdown, and the record that it has in hand is not settled,
whatever happens from then on. -/
theorem ended_unsettled :
    ∃ (s : System MemoryStore Unit) (x : Record),
      let w := Trial.distant fun _ => .recoverable "x"
      (System.init w.config MemoryStore.empty 0 ()).steps w Trial.upToBreakdown = some s ∧
        s.shared.cancelled = false ∧ (s.shared.cell .general).exited = true ∧
        (s.workers.get .general).record? = some x ∧
        ∀ bs t, s.steps w bs = some t →
          (t.workers.get .general).record? = some x ∧ ¬ SettledIn w s bs .general x := by
  obtain ⟨s, x, hs, hp, -, -, hcancelled, hexited, -, -⟩ := Trial.exists_brokenDown
  refine ⟨s, x, hs, hcancelled, hexited, by rw [hp]; rfl, fun bs t hrest => ⟨?_, ?_⟩⟩
  · rw [collapsed_steps hp hrest]
    rfl
  · rintro ⟨cs, b, u, f, op, -, hu, -, -, hf, -⟩
    rw [collapsed_steps hp hu] at hf
    cases hf

end System

end LaneQueue
