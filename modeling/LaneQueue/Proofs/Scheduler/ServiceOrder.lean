import LaneQueue.Proofs.Scheduler.Draining
import LaneQueue.Proofs.Scheduler.Pausing
import LaneQueue.Proofs.Scheduler.Pending
/-!
# The order of service

While a lane is held back, submissions and clearings decide what is stored in it and nothing of it is
claimed. Once it is resumed the worker claims what is there, lower numbers first, and among equal ones
what was stored first; a record that was put in the place of another one counts from then. If the drain
goes on as long as it can, every record is claimed, and once.
-/
namespace LaneQueue

/-- Wherever an element stands in a list, another one comes later. -/
def ComesAfter {α : Type} (xs : List α) (x y : α) : Prop :=
  ∀ ys zs, xs = ys ++ x :: zs → y ∈ zs

namespace ComesAfter

variable {α : Type} {xs : List α} {x y z : α}

theorem nil : ComesAfter [] x y := by
  intro ys zs h
  simp at h

/-- An element of a longer list is the new one, or it stands before that. -/
theorem split {ys zs : List α} (h : xs ++ [z] = ys ++ x :: zs) :
    z = x ∨ ∃ vs, zs = vs ++ [z] ∧ xs = ys ++ x :: vs := by
  rcases List.eq_nil_or_concat zs with rfl | ⟨vs, v, rfl⟩
  · obtain ⟨-, hzx⟩ := List.append_inj' h rfl
    exact .inl (List.singleton_inj.1 hzx)
  · have h' : xs ++ [z] = (ys ++ x :: vs) ++ [v] := by simpa using h
    obtain ⟨hxs, hzv⟩ := List.append_inj' h' rfl
    obtain rfl := List.singleton_inj.1 hzv
    exact .inr ⟨vs, by simp, hxs⟩

/-- What comes after goes on to do so, unless the first one is added again. -/
theorem snoc (h : ComesAfter xs x y) (hz : z ≠ x) : ComesAfter (xs ++ [z]) x y := by
  intro ys zs heq
  rcases split heq with hzx | ⟨vs, rfl, hxs⟩
  · exact absurd hzx hz
  · exact List.mem_append_left _ (h ys vs hxs)

/-- The last one comes after all the others. -/
theorem concat (xs : List α) (hyx : y ≠ x) : ComesAfter (xs ++ [y]) x y := by
  intro ys zs heq
  rcases split heq with hyx' | ⟨vs, rfl, -⟩
  · exact absurd hyx' hyx
  · exact List.mem_append_right _ (List.mem_singleton_self y)

end ComesAfter

namespace System

open LawfulStore (ledger)

variable {σ W : Type} [QueueStore σ] [LawfulStore σ] {w : Wiring W} {s s' s₀ s₁ t : System σ W}
  {a : Action} {l : Lane} {r x y : Record} {as bs : List Action}

/-! ## A lane that is held back -/

/-- A paused lane whose worker has nothing in hand and has not passed the flag; whatever is stored in it
could be claimed. -/
structure HeldBack (s : System σ W) (l : Lane) : Prop where
  paused : (s.shared.cell l).paused = true
  free : (s.workers.get l).record? = none
  stopped : (s.workers.get l).isClaiming = false
  due : ∀ r ∈ s.stored l, r.availableAt ≤ s.shared.now

namespace HeldBack

/-- A stored record of the lane was there before, or a submission has just stored it. -/
theorem stored_step (hb : s.HeldBack l) (h : s.Tidy) (hstep : s.step w a = some s')
    (hr : r ∈ s'.stored l) :
    r ∈ s.stored l ∨ s.accepted? a = some r ∧ r.availableAt = s.shared.now := by
  obtain ⟨⟨row, hrow, hshows⟩, hlane⟩ := mem_stored.1 hr
  rcases h.row_step hstep hrow (hlane ▸ hshows.lane) with hold | ⟨x, hacc, rfl, hnow⟩ | ⟨x, f, t, hp, -⟩
  · exact .inl (mem_stored.2 ⟨⟨row, hold, hshows⟩, hlane⟩)
  · obtain rfl := (Row.shows_ofRecord x).unique hshows
    exact .inr ⟨hacc, hnow⟩
  · have hfree := hb.free
    rw [hp] at hfree
    cases hfree

/-- A lane is held back until somebody resumes it. -/
theorem step (hb : s.HeldBack l) (h : s.Tidy) (hno : ¬ s.Unpauses l a)
    (hstep : s.step w a = some s') : s'.HeldBack l where
  paused := paused_step hstep hb.paused hno
  free := by
    refine Option.eq_none_iff_forall_ne_some.2 fun x hx => ?_
    rcases comesBy_cases hstep hx with hold | ⟨-, hop, -⟩
    · rw [hb.free] at hold
      cases hold
    · obtain ⟨signal, fault, t, -, hp, -⟩ := operation?_eq_nextEligible hop
      have hstopped := hb.stopped
      rw [hp] at hstopped
      cases hstopped
  stopped := by
    rcases step_worker hstep l with heq | ⟨signal, fault, -, hown⟩
    · rw [heq]
      exact hb.stopped
    · exact Point.isClaiming_step hown hb.paused hb.stopped
  due r hr := by
    have hnow := h.now_le_step hstep
    rcases hb.stored_step h hstep hr with hold | ⟨-, heq⟩
    · exact Int.le_trans (hb.due r hold) hnow
    · exact heq ▸ hnow

theorem steps (hb : s₀.HeldBack l) (h : s₀.Tidy)
    (hno : Throughout w s₀ as fun u b => ¬ u.Unpauses l b) (hrun : s₀.steps w as = some s) :
    s.HeldBack l :=
  steps_induction_throughout (P := fun _ t => t.HeldBack l) hb
    (fun ht hno hbt hstep => hbt.step (h.steps ht) hno hstep) hno hrun

end HeldBack

/-- A record that is stored for a submission takes the last place of all. -/
theorem Tidy.seq_le_of_accepted (h : s.Tidy) (hacc : s.accepted? a = some x)
    (hstep : s.step w a = some s') (hr : r ∈ s'.stored l) : r.seq ≤ x.seq := by
  obtain ⟨row, hrow, hshows⟩ := (mem_stored.1 hr).1
  have hle := (h.sound_step hstep).stored_le row hrow
  rw [step_store hstep] at hle
  obtain ⟨op, hop, hcr⟩ := Option.bind_eq_some_iff.1 hacc
  have hcr : op.created? s.shared.now s.shared.store = some x := hcr
  rcases LawfulStore.created?_cases h.sound op s.shared.now with ⟨hnone, -⟩ | ⟨c, hc, -, hlast⟩
  · cases hnone.symm.trans hcr
  · obtain rfl := Option.some.inj (hc.symm.trans hcr)
    rw [hop] at hle
    have hle : row.seq ≤ (ledger (op.run s.shared.now s.shared.store).2).lastSeq := hle
    rw [hlast, hshows.seq] at hle
    exact hle

/-- **The places of stored records** are in the order of the submissions that stored them last. -/
theorem HeldBack.comesAfter (hb : s₀.HeldBack l) (h : s₀.Tidy)
    (hno : Throughout w s₀ as fun u b => ¬ u.Unpauses l b) (hrun : s₀.steps w as = some s)
    (hx : x ∈ s.stored l) (hy : y ∈ s.stored l) (hlt : x.seq < y.seq) :
    ComesAfter (s₀.storings w as) x y := by
  refine steps_induction_throughout (w := w) (P := fun as t => t.HeldBack l ∧
    (x ∈ t.stored l → y ∈ t.stored l → ComesAfter (s₀.storings w as) x y)) ⟨hb, ?_⟩ ?_ hno hrun
    |>.2 hx hy
  · intro _ _
    exact .nil
  · rintro as a t t' ht hno ⟨hbt, ih⟩ hstep
    have htidy := h.steps ht
    refine ⟨hbt.step htidy hno hstep, fun hx hy => ?_⟩
    have hsnoc : s₀.storings w (as ++ [a]) = s₀.storings w as ++ (t.accepted? a).toList :=
      yields_snoc ht hstep
    rw [hsnoc]
    have hxold : x ∈ t.stored l := by
      rcases hbt.stored_step htidy hstep hx with hold | ⟨hacc, -⟩
      · exact hold
      · -- the later one would be at an earlier place
        have := htidy.seq_le_of_accepted hacc hstep hy
        omega
    rcases hbt.stored_step htidy hstep hy with hyold | ⟨hacc, -⟩
    · cases hacc : t.accepted? a with
      | none => simpa using ih hxold hyold
      | some z =>
        refine (ih hxold hyold).snoc ?_
        rintro rfl
        have := htidy.seq_le_of_accepted hacc hstep hy
        omega
    · rw [hacc]
      refine .concat _ ?_
      rintro rfl
      omega

/-! ## A drain goes on -/

end System

namespace Point

variable {σ W : Type} {l : Lane} {s : Shared σ W} {p : Point W}

/-- What a worker that is about to claim may have to wait for: the pause before the second try of the
claim, and the pause after it has failed. -/
inductive IsPutOff (s : Shared σ W) : Point W → Prop
  | again {deadline : Instant} : s.now < deadline → IsPutOff s (claim (.pause deadline))
  | failed {deadline : Instant} : s.now < deadline → IsPutOff s (claimFailed deadline)

theorem wait_of_ready {signals : List Signal} {deadline : Option Instant} {signal : Signal}
    (hmem : signals.contains signal = true) (hready : signal.isReady s l deadline = true) :
    wait l signals deadline signal s = some (heed l s signal) := by
  simp only [wait, hmem, hready, Bool.and_self, if_true]

variable [QueueStore σ]

/-- A worker that has nothing in hand and has not left its loop waits for nothing else, if a change of
the flag is there for it. -/
theorem step_or_isPutOff (hr : p.record? = none) (hleft : p.hasLeft = false)
    (hwaits : p.isPausing = true ∨ p.isIdling = true → (s.cell l).changed = true) (w : Wiring W)
    (fault : Option QueueError) :
    (∃ signal p' s', p.step w l signal fault s = some (p', s')) ∨ p.IsPutOff s := by
  cases p with
  | top | readPause | showPaused | showIdle | measure | arm | publish | finish =>
    exact .inl ⟨.timer, _, _, rfl⟩
  | paused => exact .inl ⟨.flag, _, _, wait_of_ready rfl (hwaits (.inl rfl))⟩
  | idle t => exact .inl ⟨.flag, _, _, wait_of_ready rfl (hwaits (.inr rfl))⟩
  | claim t =>
    cases ht : t.step w.config fault (QueueStore.nextEligible l s.now) s with
    | none =>
      obtain ⟨d, rfl, hd⟩ := Try.step_eq_none ht
      exact .inr (.again hd)
    | some y =>
      refine .inl ⟨.timer, ?_⟩
      simp only [step, ht]
      split
      · rename_i h; cases h
      all_goals exact ⟨_, _, rfl⟩
  | claimFailed d =>
    by_cases hd : d ≤ s.now
    · have hready : Signal.timer.isReady s l (some d) = true := decide_eq_true hd
      exact .inl ⟨.timer, _, _, wait_of_ready rfl hready⟩
    · exact .inr (.failed (Int.not_le.1 hd))
  | askWake =>
    refine .inl ⟨.timer, ?_⟩
    simp only [step]
    split <;> exact ⟨_, _, rfl⟩
  | stop | exited => cases hleft
  | decode | begin | announce | run | asking | settle | collapsed | release => cases hr

end Point

namespace System

open LawfulStore (ledger)

variable {σ W : Type} [QueueStore σ] [LawfulStore σ] {w : Wiring W} {s s' s₀ s₁ t : System σ W}
  {a : Action} {l : Lane} {r x y : Record} {as bs : List Action}

/-- A worker that waits has nothing to claim, or has been told that its flag has changed. -/
structure Alert (s : System σ W) (l : Lane) : Prop where
  idle : (s.workers.get l).isIdling = true → s.pending l = [] ∨ (s.shared.cell l).changed = true
  paused : (s.workers.get l).isPausing = true →
    (s.shared.cell l).paused = true ∨ (s.shared.cell l).changed = true

theorem Alert.step (hal : s.Alert l) (hd : Drainable w s l) (he : s.Emptying l a)
    (hstep : s.step w a = some s') : s'.Alert l where
  idle hi := by
    have hnone : s.pending l = [] → s'.pending l = [] := by
      intro h
      refine List.eq_nil_iff_forall_not_mem.2 fun r hr => ?_
      have hr := ((he.mem_pending_step hd.tidy hd.apart hstep).1 hr).1
      rw [h] at hr
      cases hr
    rcases idling_cases hstep hi with ⟨hold, hheeds⟩ | ⟨signal, fault, t, rfl, hclaim, hshow⟩
    · rcases hal.idle hold with hnil | hch
      · exact .inl (hnone hnil)
      · exact .inr ((step_signals hstep hheeds).changed hch)
    · have hsp := hd.tidy.spawned_of_ne_top (l := l) (by rw [hclaim]; exact nofun)
      have hdue := (hd.tidy.claim_none hclaim hstep hshow).2
      exact .inl (hnone (hd.tidy.pending_eq_nil (hd.held [] s rfl hsp) hd.ready hdue))
  paused := paused_or_changed_step hstep hal.paused

/-- **A drain is not stuck** as long as anything is pending: the worker can make a step, or it waits for
its body, a request of its body, or the end of a pause that a failure of the storage has brought, or it
has broken down. -/
theorem Alert.goes_on (hal : s.Alert l) (hsp : (s.shared.cell l).spawned = true)
    (hdown : (s.shared.cell l).paused = false) (hleft : (s.workers.get l).hasLeft = false)
    (hpending : s.pending l ≠ []) (fault : Option QueueError) :
    (∃ signal s', s.step w (.work l signal fault) = some s') ∨
      (s.workers.get l).IsHeldUp w fault s.shared ∨ (s.workers.get l).IsPutOff s.shared ∨
        ∃ x, s.workers.get l = .collapsed x := by
  cases hr : (s.workers.get l).record? with
  | some x =>
    cases hend : (s.workers.get l).hasEnded with
    | false =>
      rcases work_or_isHeldUp hsp hr hend .timer fault with ⟨s', hstep⟩ | hheld
      · exact .inl ⟨.timer, s', hstep⟩
      · exact .inr (.inl hheld)
    | true => exact .inr (.inr (.inr ⟨x, Point.eq_collapsed hend hr⟩))
  | none =>
    have hwaits : (s.workers.get l).isPausing = true ∨ (s.workers.get l).isIdling = true →
        (s.shared.cell l).changed = true := by
      rintro (hp | hi)
      · rcases hal.paused hp with hup | hch
        · cases hdown.symm.trans hup
        · exact hch
      · exact (hal.idle hi).resolve_left hpending
    rcases Point.step_or_isPutOff hr hleft hwaits w fault with ⟨signal, p', y, hp⟩ | hput
    · exact .inl ⟨signal, _, work_of_step hsp hp⟩
    · exact .inr (.inr (.inl hput))

/-! ## From the resume on -/

/-- Resuming a lane that has been held back touches nothing that is stored, and tells the worker. -/
theorem HeldBack.resumed (hb : s.HeldBack l) {k : Caller} (hk : a.caller? = some k)
    (hresume : s.callOf k = some (.resume l)) (hstep : s.step w a = some s₁) :
    (s₁.workers.get l).record? = none ∧ s₁.pending l = s.stored l ∧
      (s₁.shared.cell l).changed = true := by
  obtain ⟨c, hcall, -⟩ := callOf_own hstep hk hresume rfl
  simp only [Call.step, Option.some.injEq, Prod.mk.injEq] at hcall
  have hfree : (s₁.workers.get l).record? = none := by
    refine Option.eq_none_iff_forall_ne_some.2 fun x hx => ?_
    rcases comesBy_cases hstep hx with hold | ⟨-, hop, -⟩
    · rw [hb.free] at hold
      cases hold
    · rw [operation?_of_callOf hk hresume] at hop
      cases hop
  refine ⟨hfree, ?_, ?_⟩
  · rw [pending_of_free hfree, stored, stored, ← hcall.2]
    rfl
  · rw [← hcall.2, Shared.setPaused, Shared.cell_modifyCell, if_pos rfl]

/-- If a claim of a drain has found nothing, nothing is pending any more. -/
theorem Drainable.of_answer_none (hd : Drainable w s₀ l)
    (hempty : Throughout w s₀ as (Emptying l)) (hrun : s₀.steps w as = some s)
    (hnone : none ∈ s₀.answers w l as) : s.pending l = [] := by
  obtain ⟨bs, b, u, u', ⟨cs, rfl⟩, hu, -, hanswer⟩ := exists_of_mem_yields hrun hnone
  rw [List.append_assoc] at hrun hempty
  have hdu := (hd.steps hempty.left hu).1
  have hrest : u.steps w ([b] ++ cs) = some s := by
    rw [steps_append, hu] at hrun
    exact hrun
  obtain ⟨signal, fault, t, -, hp⟩ := claim_of_answer? hanswer
  have hsp := hdu.tidy.spawned_of_ne_top (l := l) (by rw [hp]; exact nofun)
  have hlaw := LawfulStore.nextEligible hdu.tidy.sound l u.shared.now
  rw [(answer?_eq_some.1 hanswer).2] at hlaw
  have hpending := hdu.tidy.pending_eq_nil (hdu.held [] u rfl hsp) hdu.ready hlaw.1
  exact (hdu.of_pending_eq_nil (hempty.right hu) hrest hpending).2

theorem Drainable.alert_steps (hd : Drainable w s₀ l) (hal : s₀.Alert l)
    (hempty : Throughout w s₀ as (Emptying l)) (hrun : s₀.steps w as = some s) : s.Alert l :=
  (steps_induction_throughout (P := fun _ t => Drainable w t l ∧ t.Alert l) ⟨hd, hal⟩
    (fun _ he ht hstep => ⟨ht.1.step he hstep, ht.2.step ht.1 he hstep⟩) hempty hrun).2

/-- **A lane drains in the order of service.** Take any run of a scheduler up to a moment at which a lane
is held back, any run from there in which nobody resumes it, with any submissions and clearings, the step
by which somebody does resume it, and any run from there in which nothing is stored in the lane or taken
from it but by its worker, and that settles every record at its first attempt. Nothing is claimed before
the lane is resumed. What is claimed after it, followed by what has still to be claimed, are the records
that were stored when the lane was resumed, each once, in the order of service; as soon as a claim finds
nothing, they have all been claimed. So the numbers of the claimed records never go down, and records of
equal numbers are claimed in the order of the submissions that stored them last. And as long as anything
has still to be claimed the worker goes on, unless it waits for a body or for the end of a pause, or the
lane is paused or shut down; a failure that is to be repeated behind the end of the calendar, which is
settled at no attempt, breaks it down. -/
theorem drains_in_order (w : Wiring W) {store : σ} (hs : (ledger store).Sound) (now : Instant)
    (world : W) (before : List Action) {k : Caller}
    (hbefore : (System.init w.config store now world).steps w before = some s₀)
    (hheld : s₀.HeldBack l) (has : s₀.steps w as = some s)
    (hno : Throughout w s₀ as fun u b => ¬ u.Unpauses l b) (hk : a.caller? = some k)
    (hresume : s.callOf k = some (.resume l)) (hstep : s.step w a = some s₁)
    (hbs : s₁.steps w bs = some t) (hempty : Throughout w s₁ bs (Emptying l)) :
    s₀.claims w l as = [] ∧
      s₁.claims w l bs ++ Record.inOrder (t.pending l) = Record.inOrder (s.stored l) ∧
      (none ∈ s₁.answers w l bs → s₁.claims w l bs = Record.inOrder (s.stored l)) ∧
      (s₁.claims w l bs).Pairwise (fun x y => x.priority.toNat < y.priority.toNat ∨
        x.priority = y.priority ∧ x.seq < y.seq ∧ ComesAfter (s₀.storings w as) x y) ∧
      (t.pending l ≠ [] → (t.shared.cell l).spawned = true → (t.shared.cell l).paused = false →
        t.shared.cancelled = false → ∀ fault,
          (∃ signal t', t.step w (.work l signal fault) = some t') ∨
            (t.workers.get l).IsHeldUp w fault t.shared ∨ (t.workers.get l).IsPutOff t.shared ∨
              ∃ x, BrokenDown w s₁ bs l x) := by
  have hinit := Tidy.init (W := W) w.config hs now world
  have htidy := hinit.steps hbefore
  have hb := hheld.steps htidy hno has
  obtain ⟨hfree, hpending, hchanged⟩ := hb.resumed hk hresume hstep
  have hall : (System.init w.config store now world).steps w (before ++ as ++ [a]) = some s₁ :=
    steps_snoc.2 ⟨s, by rw [steps_append, hbefore]; exact has, hstep⟩
  have hd : Drainable w s₁ l :=
    { tidy := (htidy.steps has).step hstep
      apart := hinit.apart_steps (apart_init _ _ _ _) hall
      ready := fun r hr => Int.le_trans (hb.due r (hpending ▸ hr)) ((htidy.steps has).now_le_step hstep)
      held := fun cs u hu hsp =>
        hinit.held_of_spawned (not_launched_init _ _ _ _)
          (by rw [steps_append, hall]; exact hu) hsp }
  obtain ⟨hdt, hline⟩ := hd.steps hempty hbs
  rw [hpending] at hline
  refine ⟨(claims_of_paused hheld.paused hno has).2 hheld.stopped, hline, fun hnone => ?_, ?_, ?_⟩
  · rw [hd.of_answer_none hempty hbs hnone, Record.inOrder_eq_nil.2 rfl, List.append_nil] at hline
    exact hline
  · have hsorted := Record.pairwise_inOrder ((htidy.steps has).nodup_stored l)
    have hstored : ∀ x ∈ s₁.claims w l bs, x ∈ s.stored l := fun x hx =>
      Record.mem_inOrder.1 (hline ▸ List.mem_append_left _ hx)
    rw [← hline] at hsorted
    refine (List.pairwise_append.1 hsorted).1.imp_of_mem fun hx hy hxy => hxy.imp id ?_
    rintro ⟨heq, hlt⟩
    exact ⟨heq, hlt, hheld.comesAfter htidy hno has (hstored _ hx) (hstored _ hy) hlt⟩
  · intro hne hsp hdown hrunning fault
    have hal : t.Alert l := hd.alert_steps ⟨fun _ => .inr hchanged, fun _ => .inr hchanged⟩ hempty hbs
    have hrun : (System.init w.config store now world).steps w (before ++ as ++ [a] ++ bs) =
        some t := by
      rw [steps_append, hall]
      exact hbs
    have hleft : (t.workers.get l).hasLeft = false := by
      refine Bool.eq_false_iff.2 fun hleft => ?_
      cases hrunning.symm.trans (cancelled_of_hasLeft (workers_init _ _ _ _) hrun hleft)
    rcases hal.goes_on hsp hdown hleft hne fault with hgoes | hheld | hput | ⟨x, hp⟩
    · exact .inl hgoes
    · exact .inr (.inl hheld)
    · exact .inr (.inr (.inl hput))
    · exact .inr (.inr (.inr ⟨x, brokenDown_of_collapsed hfree hbs hp⟩))

/-- A lane that is paused from the start, and a class whose submissions replace each other. -/
def pausedFirst : Wiring Unit :=
  let w := Trial.wiring fun _ => .success
  { config := { w.config with pausedLanes := [.general] }
    registry := ⟨w.registry.registrations.map fun k =>
      { k with descriptor := { k.descriptor with conflict := .replace } }⟩ }

/-- Two commands are submitted and cleared, then three, the first of them twice and the last one with a
lower number; somebody is about to resume the lane. -/
def upToResume : List Action :=
  let submit (call : Nat) (identity : String) (o : SubmitOptions) : List Action :=
    [.request (.submit ⟨"Flaky", identity, .ok []⟩ o), .advance call none, .advance call none]
  [.request .start, .advance 0 none, .advance 0 none, .advance 0 none] ++ submit 1 "a" {} ++
    submit 2 "b" {} ++ [.request (.clear .general), .advance 3 none] ++ submit 4 "a" {} ++
    submit 5 "b" {} ++ submit 6 "a" {} ++ submit 7 "c" { priority := some (.ofNat 1) } ++
    [.request (.resume .general)]

/-- The worker executes all that it finds, and finds nothing more. -/
def afterResume : List Action := List.replicate 33 Trial.turn

/-- The command with the lower number is claimed first, and the replaced one last. -/
theorem drains_in_order_replaced :
    ∃ s s₁ t : System MemoryStore Unit,
      (System.init pausedFirst.config .empty 0 ()).steps pausedFirst upToResume = some s ∧
        s.step pausedFirst (.advance 8 none) = some s₁ ∧
        s₁.steps pausedFirst afterResume = some t ∧
        (s₁.claims pausedFirst .general afterResume).map (fun r => (r.identity, r.seq)) =
          [("c", 6), ("b", 4), ("a", 5)] ∧
        s₁.claims pausedFirst .general afterResume = Record.inOrder (s.stored .general) := by
  have hrun : ((System.init pausedFirst.config MemoryStore.empty 0 ()).steps pausedFirst
      upToResume).any fun s => (s.step pausedFirst (.advance 8 none)).any fun s₁ =>
        (s₁.steps pausedFirst afterResume).any fun _ =>
          (s.calls[8]?.bind Call.sets?) = some (.general, false) ∧
            (s₁.claims pausedFirst .general afterResume).map (fun r => (r.identity, r.seq)) =
              [("c", 6), ("b", 4), ("a", 5)] ∧
            none ∈ s₁.answers pausedFirst .general afterResume ∧
            (System.init pausedFirst.config MemoryStore.empty 0 ()).yields pausedFirst
              (fun u b => if ¬ u.Unpauses .general b then none else some b) upToResume = [] ∧
            s₁.yields pausedFirst (fun u b => if u.Emptying .general b then none else some b)
              afterResume = [] := by decide +kernel
  obtain ⟨s, hs, hrun⟩ := (Option.any_eq_true _ _).1 hrun
  obtain ⟨s₁, hs₁, hrun⟩ := (Option.any_eq_true _ _).1 hrun
  obtain ⟨t, ht, hend⟩ := (Option.any_eq_true _ _).1 hrun
  obtain ⟨hcall, hclaims, hnone, hquiet, hempty⟩ := of_decide_eq_true hend
  obtain ⟨c, hc, hsets⟩ := Option.bind_eq_some_iff.1 hcall
  obtain rfl := Call.sets?_eq_some.1 hsets
  have hsound : (ledger MemoryStore.empty).Sound := Ledger.Sound.empty
  have hheld : (System.init pausedFirst.config MemoryStore.empty 0 ()).HeldBack .general :=
    { paused := by decide
      free := rfl
      stopped := rfl
      due := fun r hr => by cases hr }
  have hk : (Action.advance 8 none).caller? = some (.client 8) := rfl
  obtain ⟨-, -, hall, -⟩ := drains_in_order pausedFirst hsound 0 () [] rfl hheld hs
    (throughout_of_yields hs hquiet) hk hc hs₁ ht (throughout_of_yields ht hempty)
  exact ⟨s, s₁, t, hs, hs₁, ht, hclaims, hall hnone⟩

end System

end LaneQueue
