import LaneQueue.Proofs.Scheduler.Submissions
import LaneQueue.Proofs.Scheduler.Yields
/-!
# A paused lane

The worker of a lane looks at the pause flag once in every turn of its loop, right before it claims. So
while the flag is up it comes to no claim but the one that it may have been about to make when the flag
went up. Everything else goes on: a command that is being executed is settled, and submissions are
stored; what is stored in the lane waits there.
-/
namespace LaneQueue

namespace Point

variable {σ W : Type} {p p' : Point W}

/-- Whether a worker has passed the pause flag and is about to claim. -/
def isClaiming : Point W → Bool
  | claim _ => true
  | _ => false

variable [QueueStore σ] {w : Wiring W} {l : Lane} {signal : Signal} {fault : Option QueueError}
  {s s' : Shared σ W}

/-- While its flag is up, no worker comes to a claim. -/
theorem isClaiming_step (h : p.step w l signal fault s = some (p', s'))
    (hup : (s.cell l).paused = true) (hp : p.isClaiming = false) : p'.isClaiming = false := by
  cases step_moves h with
  | pass hdown =>
    rw [hup] at hdown
    cases hdown
  | claimAgain => cases hp
  | look | leave | hold | park | cancel | rouse | claimFails | findNone | find | rest | learn | refuse |
    measure | sleep | accept | reject | begin | execute | act | await | ask | proceed | hear | finish |
    collapse | settleAgain | settled | giveUp | release | publish | again | exit => rfl

/-- What a worker does for a request of its body, it does with the record in hand. -/
theorem isClaiming_of_request? {c : Call} (hc : p.request? = some c)
    (h : p.step w l signal fault s = some (p', s')) : p'.isClaiming = false := by
  cases p with
  | asking r d next => cases step_moves h <;> rfl
  | _ => cases hc

end Point

namespace System

open LawfulStore (ledger)

variable {σ W : Type} [QueueStore σ] {w : Wiring W} {s s' s₀ : System σ W} {a : Action} {l : Lane}

/-- **While the flag of a lane is up**, its worker claims only what it was about to claim at first. -/
theorem claims_of_paused (hup : (s₀.shared.cell l).paused = true) {as : List Action}
    (hno : Throughout w s₀ as fun u b => ¬ u.Unpauses l b) (hrun : s₀.steps w as = some s) :
    (s₀.claims w l as).length ≤ 1 ∧
      ((s₀.workers.get l).isClaiming = false → s₀.claims w l as = []) := by
  refine claims_of_stays (Q := Point.isClaiming) (fun _ => rfl) (fun _ => rfl) ?_ hrun
  intro bs b u hpre hu u' hstep hq
  have hupu := paused_steps hup (hno.of_prefix ((List.prefix_append bs [b]).trans hpre)) hu
  rcases step_worker hstep l with heq | ⟨signal, fault, -, hown⟩
  · rw [heq]
    exact hq
  · exact Point.isClaiming_step hown hupu hq

/-- The request that pauses a lane brings no worker to a claim. -/
theorem isClaiming_of_caller (hstep : s.step w a = some s') {k : Caller} (hk : a.caller? = some k)
    {c : Call} (hc : s.callOf k = some c) (hp : (s.workers.get l).isClaiming = false) :
    (s'.workers.get l).isClaiming = false := by
  rcases step_worker hstep l with heq | ⟨signal, fault, rfl, hown⟩
  · rw [heq]
    exact hp
  · cases hk
    exact Point.isClaiming_of_request? hc hown

variable [LawfulStore σ]

/-- **A pause stops the lane.** Take any run of a scheduler, a step of it by which somebody pauses a
lane, and any run from there in which nobody resumes that lane: with any submissions, clearings and
steps of the workers, and any failures of the storage. The flag stays up. The worker of the lane makes
one claim at most, and none unless it had already passed the flag when the flag went up. Whatever waits
in the lane at a moment of the run, with nobody having it in hand, waits to the end of the run, unless it
is what that one claim answers, or is replaced or cleared. A record that is stored for a submission is
such a one; and a submission of a registered class that is brought at the end of the run is stored
like any other, as far as the store answers. -/
theorem pause_stops (w : Wiring W) {store : σ} (hs : (ledger store).Sound) (now : Instant) (world : W)
    {as bs : List Action} {a : Action} {s s₁ t : System σ W} {k : Caller}
    (hrun : (System.init w.config store now world).steps w as = some s) (hk : a.caller? = some k)
    (hpause : s.callOf k = some (.pause l)) (hstep : s.step w a = some s₁)
    (hrest : s₁.steps w bs = some t) (hno : Throughout w s₁ bs fun u b => ¬ u.Unpauses l b) :
    (t.shared.cell l).paused = true ∧
      ((s₁.claims w l bs).length ≤ 1 ∧
        ((s.workers.get l).isClaiming = false → s₁.claims w l bs = [])) ∧
      (∀ bs₁ bs₂ u r, bs = bs₁ ++ bs₂ → s₁.steps w bs₁ = some u → r.lane = l → u.Waits r →
        u.OutOfHand r → t.Waits r ∨ s₁.claims w l bs = [r] ∨ DisplacedIn w u bs₂ r) ∧
      (∀ bs₁ b u u' r, bs₁ ++ [b] <+: bs → s₁.steps w bs₁ = some u → u.step w b = some u' →
        u.accepted? b = some r → u'.Waits r ∧ u'.OutOfHand r) ∧
      ∀ d o kind c x, w.registry.descriptor? d.tag = some kind → d.toCommand kind o = .ok c →
        (QueueStore.submit c kind.conflict t.shared.now t.shared.store).1 = .ok x →
        ∃ t', t.steps w (t.submitting d o) = some t' ∧ (ledger t'.shared.store).Holds c.identity ∧
          ∀ r, (Answer.submission x).created? = some r → r.toNewCommand = c ∧ t'.Waits r := by
  have htidy : s₁.Tidy := ((Tidy.init w.config hs now world).steps hrun).step hstep
  have hup := paused_of_pause hstep hk hpause
  obtain ⟨hone, hnone⟩ := claims_of_paused hup hno hrest
  refine ⟨paused_steps hup hno hrest, ⟨hone, fun hp => ?_⟩, ?_, ?_, ?_⟩
  · exact hnone (isClaiming_of_caller hstep hk hpause hp)
  · rintro bs₁ bs₂ u r rfl hu rfl hwaits hout
    rw [steps_append, hu, Option.bind_some] at hrest
    rcases (htidy.steps hu).waits_or_claimed hwaits hout hrest with hwaits | hclaim | hdis
    · exact .inl hwaits
    · -- the one claim of the whole run
      have hmem : r ∈ s₁.claims w r.lane (bs₁ ++ bs₂) := by
        rw [claims, yields_append hu]
        exact List.mem_append_right _ hclaim
      obtain ⟨x, hx⟩ := List.length_eq_one_iff.1 (Nat.le_antisymm hone (List.length_pos_of_mem hmem))
      rw [hx, List.mem_singleton] at hmem
      exact .inr (.inl (hmem ▸ hx))
    · exact .inr (.inr hdis)
  · intro bs₁ b u u' r hpre hu hb hacc
    exact (htidy.steps hu).waits_of_accepted hacc hb
  · intro d o kind c x hkind hc hx
    exact (htidy.steps hrest).submit_stored hkind hc hx

/-- A command is stored and the worker has passed the flag when somebody is about to pause the lane. -/
def upToPause : List Action :=
  Trial.upToStore ++ [.advance 1 none, Trial.turn, Trial.turn, .request (.pause .general)]

/-- The worker executes that command and parks; another one is submitted meanwhile. -/
def whilePaused : List Action :=
  List.replicate 11 Trial.turn ++
    [.request (.submit ⟨"Flaky", "f", .ok []⟩ {}), .advance 3 none, .advance 3 none]

/-- The first command is claimed, and the second one waits. -/
theorem pause_stops_passed :
    ∃ (s s₁ t : System MemoryStore Unit) (r : Record),
      let w := Trial.wiring fun _ => .success
      (Trial.init fun _ => .success).steps w upToPause = some s ∧
        s.step w (.advance 2 none) = some s₁ ∧ s₁.steps w whilePaused = some t ∧
        (s₁.claims w .general whilePaused).map (·.seq) = [1] ∧
        (t.shared.cell .general).paused = true ∧ r.seq = 2 ∧ t.Waits r := by
  let w := Trial.wiring fun _ => .success
  have hrun : ((Trial.init fun _ => .success).steps w upToPause).any fun s =>
      (s.step w (.advance 2 none)).any fun s₁ =>
        (s₁.steps w whilePaused.dropLast).any fun u =>
          (u.step w (.advance 3 none)).any fun t =>
            (u.accepted? (.advance 3 none)).any fun r =>
              (s.calls[2]?.bind Call.sets?) = some (.general, true) ∧
                (s₁.claims w .general whilePaused).map (·.seq) = [1] ∧ r.seq = 2 ∧
                s₁.yields w (fun u b => if ¬ u.Unpauses .general b then none else some b)
                  whilePaused = [] := by decide +kernel
  obtain ⟨s, hs, hrun⟩ := (Option.any_eq_true _ _).1 hrun
  obtain ⟨s₁, hs₁, hrun⟩ := (Option.any_eq_true _ _).1 hrun
  obtain ⟨u, hu, hrun⟩ := (Option.any_eq_true _ _).1 hrun
  obtain ⟨t, ht, hrun⟩ := (Option.any_eq_true _ _).1 hrun
  obtain ⟨r, hr, hend⟩ := (Option.any_eq_true _ _).1 hrun
  obtain ⟨hcall, hclaims, hseq, hquiet⟩ := of_decide_eq_true hend
  obtain ⟨c, hc, hsets⟩ := Option.bind_eq_some_iff.1 hcall
  obtain rfl := Call.sets?_eq_some.1 hsets
  have hrest : s₁.steps w whilePaused = some t := steps_snoc.2 ⟨u, hu, ht⟩
  have hempty : (ledger MemoryStore.empty).Sound := Ledger.Sound.empty
  have hk : (Action.advance 2 none).caller? = some (.client 2) := rfl
  obtain ⟨hup, -, -, hstored, -⟩ :=
    pause_stops w hempty 0 () hs hk hc hs₁ hrest (throughout_of_yields hrest hquiet)
  exact ⟨s, s₁, t, r, hs, hs₁, hrest, hclaims, hup, hseq,
    (hstored _ _ u t r List.prefix_rfl hu ht hr).1⟩

end System

end LaneQueue
