import LaneQueue.Proofs.Scheduler.Accepted
import LaneQueue.Proofs.Scheduler.Claims
/-!
# Replacing a command that is being executed

A submission may put a new record in the place of one that a worker has in hand. The place of the
old record is vacant from then on: nothing is ever stored there again, so no claim answers it, and
whatever the worker goes on to do with the old record meets no row. The new record waits, as it was
submitted, until a claim answers it, its identity is replaced once more, or its lane is cleared.
-/
namespace LaneQueue

namespace Ledger

variable {l l' : Ledger} {now : Instant}

/-- A submission that stores a record in the place of one in hand leaves the place of that vacant. -/
theorem Submits.vacant {lane : Lane} {x : Record} (hx : l.InHand lane x) {c : NewCommand}
    (hid : c.identity = x.identity) {p : ConflictPolicy} {a : Submission} {r : Record}
    (h : l.Submits c p now (.ok a) l') (hr : (Answer.submission a).created? = some r) :
    r = l.fresh c now ∧ l'.Vacant x.seq := by
  have hold : ∀ row ∈ l.rows, row.seq = x.seq → row.identity = c.identity :=
    fun row hrow hq => (hx.carries row hrow hq).identity.trans hid.symm
  have hle := hx.seq_le
  have hnew : (l.fresh c now).seq = l.lastSeq + 1 := rfl
  cases a with
  | inserted y =>
    obtain ⟨hf, hy, rfl⟩ := h
    obtain rfl := Option.some.inj hr
    refine ⟨hy, Int.le_trans hle (by simp only [add]; omega), fun row hrow hq => ?_⟩
    rcases List.mem_append.1 hrow with hrow | hrow
    · exact hf ⟨row, hrow, hold row hrow hq⟩
    · rw [List.mem_singleton.1 hrow] at hq
      have hq : (l.fresh c now).seq = x.seq := hq
      omega
  | replaced old y =>
    obtain ⟨-, -, hy, rfl⟩ := h
    obtain rfl := Option.some.inj hr
    refine ⟨hy, Int.le_trans hle (by simp only [add, without]; omega), fun row hrow hq => ?_⟩
    rcases List.mem_append.1 hrow with hrow | hrow
    · obtain ⟨hrow, hne⟩ := List.mem_filter.1 hrow
      simp [hold row hrow hq] at hne
    · rw [List.mem_singleton.1 hrow] at hq
      have hq : (l.fresh c now).seq = x.seq := hq
      omega
  | kept | refused => cases hr

end Ledger

/-! ## How far an execution has come -/

namespace Point

variable {σ W : Type}

/-- How far a worker has come with the record that it has in hand. -/
def stage : Point W → Nat
  | decode _ => 0
  | begin .. => 1
  | announce .. => 2
  | run .. | asking .. => 3
  | settle .. | collapsed _ => 4
  | release .. => 5
  | _ => 6

variable [QueueStore σ] {w : Wiring W} {l : Lane} {signal : Signal} {fault : Option QueueError}
  {p p' : Point W} {s s' : Shared σ W}

/-- A worker never goes back to an earlier stage of an execution. -/
theorem stage_le_step (h : p.step w l signal fault s = some (p', s')) {r : Record}
    (hr : p.record? = some r) : p.stage ≤ p'.stage := by
  cases step_moves h with
  | cancel hp | rouse hp =>
    rw [record?_of_waits hp] at hr
    cases hr
  | accept | reject | begin | execute | act | await | ask | proceed | hear | finish | collapse |
    settleAgain | settled | giveUp | release => simp [stage]
  | look | leave | hold | pass | park | claimAgain | claimFails | findNone | find | rest | learn |
    refuse | measure | sleep | publish | again | exit => cases hr

end Point

namespace System

open LawfulStore (ledger)

variable {σ W : Type} [QueueStore σ] {w : Wiring W} {s s' s₀ : System σ W} {l : Lane}

/-- Whoever has the place of a record in hand has had that record in hand since an earlier moment, in
its lane, and has only gone forward with it. -/
def Onward (u : System σ W) (l : Lane) (x : Record) (s : System σ W) : Prop :=
  ∀ m y, (s.workers.get m).record? = some y → y.seq = x.seq →
    m = l ∧ y = x ∧ (u.workers.get l).record? = some x ∧
      (u.workers.get l).stage ≤ (s.workers.get l).stage

variable [LawfulStore σ]

namespace Tidy

/-- Workers that have been spawned stay so. -/
theorem spawned_step (h : s.Tidy) (hsp : (s.shared.cell l).spawned = true) {a : Action}
    (hstep : s.step w a = some s') : (s'.shared.cell l).spawned = true := by
  cases a with
  | request | tick => cases hstep; exact hsp
  | work m signal fault =>
    obtain ⟨p, x, hm, hp, rfl⟩ := work_cases hstep
    have hsteady := (Point.step_steady hp (h.launched m hm).1 (h.asking m)).1
    exact (hsteady.spawned l).trans hsp
  | advance i fault =>
    obtain ⟨c, c', x, hc, hcall, rfl⟩ := advance_cases hstep
    rcases Call.step_flags hcall with ⟨hsteady, -⟩ | ⟨-, -, rfl⟩ | ⟨hl, -⟩
    · exact (hsteady.spawned l).trans hsp
    · exact hsp
    · rw [h.not_spawned (List.mem_of_getElem? hc) hl l] at hsp
      cases hsp

/-- A vacant place stays vacant once the workers have been spawned. -/
theorem vacant_step (h : s.Tidy) (hsp : (s.shared.cell l).spawned = true) {q : Int}
    (hv : (ledger s.shared.store).Vacant q) {a : Action} (hstep : s.step w a = some s') :
    (ledger s'.shared.store).Vacant q := by
  rw [step_store hstep]
  cases hop : s.operation? a with
  | none => exact hv
  | some op =>
    have hedit := LawfulStore.edit_run h.sound op s.shared.now
    have hne : op ≠ .recover := fun he => h.operation?_ne_recover hsp a (he ▸ hop)
    exact hedit.vacant (hedit.lastSeq_le hne) hv

/-- Nobody comes by a record at a vacant place, so an execution of one only goes on. -/
theorem onward_step (h : s.Tidy) {u : System σ W} {x : Record}
    (hv : (ledger s.shared.store).Vacant x.seq) (ho : Onward u l x s) {a : Action}
    (hstep : s.step w a = some s') : Onward u l x s' := by
  intro m y hy hq
  rcases comesBy_cases hstep hy with hy | ⟨-, -, hclaim⟩
  · obtain ⟨rfl, rfl, hu, hle⟩ := ho m y hy hq
    refine ⟨rfl, rfl, hu, Nat.le_trans hle ?_⟩
    rcases step_worker hstep m with heq | ⟨signal, fault, -, hp⟩
    · exact Nat.le_of_eq (congrArg Point.stage heq.symm)
    · exact Point.stage_le_step hp hy
  · obtain ⟨row, hrow, hshows, -⟩ := h.claims_due hclaim
    exact absurd (hshows.seq.trans hq) (hv.empty row hrow)

/-- From a moment on at which the place of a record in hand is vacant, nothing is stored there and
its execution only goes on. -/
theorem onward_steps (h : s₀.Tidy) (hsp : (s₀.shared.cell l).spawned = true) {x : Record}
    (hv : (ledger s₀.shared.store).Vacant x.seq) {u : System σ W} (ho : Onward u l x s₀)
    {as : List Action} (hrun : s₀.steps w as = some s) :
    (s.shared.cell l).spawned = true ∧ (ledger s.shared.store).Vacant x.seq ∧ Onward u l x s :=
  steps_induction
    (P := fun _ t => (t.shared.cell l).spawned = true ∧ (ledger t.shared.store).Vacant x.seq ∧
      Onward u l x t) ⟨hsp, hv, ho⟩
    (fun ht ⟨hsp, hv, ho⟩ hstep =>
      have htidy := h.steps ht
      ⟨htidy.spawned_step hsp hstep, htidy.vacant_step hsp hv hstep, htidy.onward_step hv ho hstep⟩)
    hrun

end Tidy

/-! ## How long a record waits -/

/-- A record is stored as it is, and not claimed. -/
def Waits (s : System σ W) (r : Record) : Prop :=
  (ledger s.shared.store).Keeps r ∧ r.seq ∉ (ledger s.shared.store).claimed

/-- What an action takes a waiting record away by. -/
inductive Takes (s s' : System σ W) (r : Record) : Action → Prop
  /-- A claim of the worker of its lane answers it. -/
  | claimed {a : Action} : s.operation? a = some (.nextEligible r.lane) →
      s'.workers.get r.lane = .decode r → Takes s s' r a
  /-- A later submission of its identity takes its place. -/
  | replaced {a : Action} {c : NewCommand} : s.operation? a = some (.submit c .replace) →
      c.identity = r.identity → Takes s s' r a
  /-- Its lane is cleared. -/
  | cleared {a : Action} : s.operation? a = some (.purgeLane r.lane) → Takes s s' r a

/-- At some moment of a run a step took a waiting record away. -/
def TakenIn (w : Wiring W) (s₀ : System σ W) (as : List Action) (r : Record) : Prop :=
  ∃ bs b u u', bs ++ [b] <+: as ∧ s₀.steps w bs = some u ∧ u.step w b = some u' ∧ u.Waits r ∧
    Takes u u' r b

/-- An operation that is about a record which nobody has in hand takes it away: it settles none. -/
theorem takes_of_concerns {r : Record}
    (hn : ∀ l x, (s.workers.get l).record? = some x → x.seq ≠ r.seq) {row : Row}
    (hshows : row.Shows r) {a : Action} {op : Operation} (hop : s.operation? a = some op)
    (hcon : op.Concerns (ledger s.shared.store) row) : Takes s s' r a := by
  have hset : ∀ x, op.settled? = some x → row.seq ≠ x.seq := by
    intro x hx hq
    obtain ⟨m, hm⟩ := record?_of_settled? hop hx
    exact hn m x hm (hq.symm.trans hshows.seq)
  cases op with
  | submit c p =>
    obtain ⟨rfl, hi⟩ := hcon
    exact .replaced hop (hi.trans hshows.identity)
  | deleteByIdentity i => exact absurd rfl ((operation?_ne_insert_delete hop).2 i)
  | retire x => exact absurd hcon.2 (hset x rfl)
  | reschedule x n t => exact absurd hcon.2 (hset x rfl)
  | purgeLane lane =>
    obtain rfl : lane = r.lane := Lane.index_inj (hcon.1.symm.trans hshows.lane)
    exact .cleared hop
  | insert | findByIdentity | nextEligible | release | pendingCount | nextWakeAt | recover =>
    cases hcon

namespace Tidy

/-- A record that is stored for a submission waits, out of everybody's hands. -/
theorem waits_of_accepted (h : s.Tidy) {a : Action} {r : Record} (hacc : s.accepted? a = some r)
    (hstep : s.step w a = some s') :
    s'.Waits r ∧ ∀ l x, (s'.workers.get l).record? = some x → x.seq ≠ r.seq := by
  obtain ⟨hkeeps, hne⟩ := seq_ne_of_accepted h hacc hstep
  refine ⟨⟨hkeeps, fun hq => ?_⟩, hne⟩
  obtain ⟨op, hop, hcr⟩ := Option.bind_eq_some_iff.1 hacc
  obtain ⟨y, hok, hcr⟩ := Operation.exists_of_created? hcr
  have hfree := (LawfulStore.created_run h.sound hok hcr).1
  rw [step_store hstep, hop] at hq
  rcases LawfulStore.claimed_run h.sound op _ hq with hold | ⟨l, x, rfl, -⟩
  · exact hfree.unclaimed hold
  · -- a claim creates no record
    obtain ⟨z, -, rfl⟩ := exists_of_map_eq_ok hok
    cases hcr

/-- A claim that answers the place of a waiting record answers that record. -/
theorem takes_of_claim (h : s.Tidy) {r : Record} (hw : s.Waits r) {a : Action}
    (hstep : s.step w a = some s') (hop : s.operation? a = some (.nextEligible l)) {y : Record}
    (hy : (QueueStore.nextEligible l s.shared.now s.shared.store).1 = .ok (some y))
    (hq : y.seq = r.seq) : Takes s s' r a := by
  obtain ⟨row, hrow, hshows⟩ := hw.1
  obtain ⟨x, hx, hxshows, hdue⟩ := h.claims_due hy
  obtain rfl := h.sound.eq_of_seq hx hrow (hxshows.seq.trans (hq.trans hshows.seq.symm))
  obtain rfl := hxshows.unique hshows
  obtain rfl : y.lane = l :=
    Lane.index_inj (hxshows.lane.symm.trans (Ledger.isDue_iff.1 hdue).1)
  exact .claimed hop (decode_of_claimed hstep hop hy)

/-- A waiting record goes on to wait, out of everybody's hands, unless a step takes it away. -/
theorem waits_or_takes (h : s.Tidy) {r : Record} (hw : s.Waits r)
    (hn : ∀ l x, (s.workers.get l).record? = some x → x.seq ≠ r.seq) {a : Action}
    (hstep : s.step w a = some s') :
    (s'.Waits r ∧ ∀ l x, (s'.workers.get l).record? = some x → x.seq ≠ r.seq) ∨
      Takes s s' r a := by
  by_cases hclaim : ∃ l y, s.operation? a = some (.nextEligible l) ∧
      (QueueStore.nextEligible l s.shared.now s.shared.store).1 = .ok (some y) ∧ y.seq = r.seq
  · obtain ⟨l, y, hop, hy, hq⟩ := hclaim
    exact .inr (h.takes_of_claim hw hstep hop hy hq)
  have hhands : ∀ l x, (s'.workers.get l).record? = some x → x.seq ≠ r.seq := by
    intro l x hx
    rcases comesBy_cases hstep hx with hx | ⟨-, hop, hy⟩
    · exact hn l x hx
    · exact fun hq => hclaim ⟨l, x, hop, hy, hq⟩
  obtain ⟨⟨row, hrow, hshows⟩, hfree⟩ := hw
  cases hop : s.operation? a with
  | none =>
    refine .inl ⟨⟨?_, ?_⟩, hhands⟩ <;> rw [step_store hstep, hop]
    · exact ⟨row, hrow, hshows⟩
    · exact hfree
  | some op =>
    by_cases hcon : op.Concerns (ledger s.shared.store) row
    · exact .inr (takes_of_concerns hn hshows hop hcon)
    · refine .inl ⟨⟨?_, fun hq => ?_⟩, hhands⟩
      · rw [step_store hstep, hop]
        exact ⟨row, (LawfulStore.edit_run h.sound op _).keeps_row hrow hcon, hshows⟩
      · rw [step_store hstep, hop] at hq
        rcases LawfulStore.claimed_run h.sound op _ hq with hold | ⟨l, y, rfl, hy, hseq⟩
        · exact hfree hold
        · exact hclaim ⟨l, y, hop, hy, hseq⟩

/-- A waiting record waits until a step of the run takes it away. -/
theorem waits_or_takenIn (h : s₀.Tidy) {r : Record} (hw : s₀.Waits r)
    (hn : ∀ l x, (s₀.workers.get l).record? = some x → x.seq ≠ r.seq) {as : List Action}
    (hrun : s₀.steps w as = some s) : s.Waits r ∨ TakenIn w s₀ as r := by
  have hind := steps_induction (w := w) (P := fun as t =>
    (t.Waits r ∧ ∀ l x, (t.workers.get l).record? = some x → x.seq ≠ r.seq) ∨ TakenIn w s₀ as r)
    (.inl ⟨hw, hn⟩) ?_ hrun
  · exact hind.imp And.left id
  · intro as a t t' ht ih hstep
    rcases ih with ⟨hwt, hnt⟩ | ⟨bs, b, u, u', hpre, hend⟩
    · rcases (h.steps ht).waits_or_takes hwt hnt hstep with hnext | htakes
      · exact .inl hnext
      · exact .inr ⟨as, a, t, t', List.prefix_rfl, ht, hstep, hwt, htakes⟩
    · exact .inr ⟨bs, b, u, u', hpre.trans (List.prefix_append as [a]), hend⟩

end Tidy

/-! ## A record in hand is replaced -/

/-- What a submission makes of the store and of the workers if it stores a record in the place of one
in hand. -/
structure Replaced (s : System σ W) (l : Lane) (x : Record) (c : NewCommand) (r : Record) : Prop where
  command : r.toNewCommand = c
  retryCount : r.retryCount = 0
  seq_lt : x.seq < r.seq
  waits : s.Waits r
  apart : ∀ m y, (s.workers.get m).record? = some y → y.seq ≠ r.seq
  vacant : (ledger s.shared.store).Vacant x.seq
  onward : Onward s l x s

theorem Tidy.replaced (h : s.Tidy) (hapart : s.Apart) {x : Record}
    (hx : (s.workers.get l).record? = some x) {a : Action} {c : NewCommand} {p : ConflictPolicy}
    (hop : s.operation? a = some (.submit c p)) (hid : c.identity = x.identity) {r : Record}
    (hacc : s.accepted? a = some r) (hstep : s.step w a = some s') : s'.Replaced l x c r := by
  have hcr : (Operation.submit c p).created? s.shared.now s.shared.store = some r := by
    unfold accepted? at hacc
    rw [hop] at hacc
    exact hacc
  obtain ⟨y, hok, hy⟩ := Operation.exists_of_created? hcr
  obtain ⟨sub, hsub, rfl⟩ := exists_of_map_eq_ok hok
  have hlaw := LawfulStore.submit h.sound c p s.shared.now
  rw [hsub] at hlaw
  have hstore : s'.shared.store = (QueueStore.submit c p s.shared.now s.shared.store).2 := by
    rw [step_store hstep, hop]
    rfl
  rw [← hstore] at hlaw
  have hhand := h.inHand l x hx
  obtain ⟨hr, hvacant⟩ := hlaw.vacant hhand hid hy
  obtain ⟨hwaits, hne⟩ := h.waits_of_accepted hacc hstep
  have hx' : (s'.workers.get l).record? = some x := by
    rcases letsGo_cases hstep hx with hx' | ⟨op, hop', hset⟩
    · exact hx'
    · rw [hop] at hop'
      cases hop'
      cases hset
  refine ⟨by rw [hr]; rfl, by rw [hr]; rfl, ?_, hwaits, hne, hvacant, ?_⟩
  · have hnext : r.seq = (ledger s.shared.store).lastSeq + 1 := by rw [hr]; rfl
    have := hhand.seq_le
    omega
  · intro m y hy hq
    rcases comesBy_cases hstep hy with hold | ⟨-, hop', -⟩
    · obtain rfl := hapart m l y x hold hx hq
      exact ⟨rfl, Option.some.inj (hold.symm.trans hx), hx', Nat.le_refl _⟩
    · rw [hop] at hop'
      cases hop'

/-- **Replacing a command that is being executed** harms neither side. Take any run of a scheduler, a
moment of it at which a worker has a record in hand, a step there by which a submission of its
identity stores another record to replace it, and any run from there, with any outcome of the old
execution. The new record holds the submitted command, has not failed, and waits as it is until it is
taken away by a claim that answers it, by another replacement or by a clearing. The place of the old
record is answered by no claim; nobody has it in hand but the worker that had it all the time, and
that one only goes forward with it; and once the worker has let go of it, it is not claimed. -/
theorem replaced_in_hand (w : Wiring W) {store : σ} (hs : (ledger store).Sound) (now : Instant)
    (world : W) {as bs : List Action} {a : Action} {s s₁ t : System σ W} {x r : Record}
    {c : NewCommand} (hrun : (System.init w.config store now world).steps w as = some s)
    (hx : (s.workers.get l).record? = some x)
    (hop : s.operation? a = some (.submit c .replace)) (hid : c.identity = x.identity)
    (hacc : s.accepted? a = some r) (hstep : s.step w a = some s₁)
    (hrest : s₁.steps w bs = some t) :
    (r.toNewCommand = c ∧ r.retryCount = 0 ∧ x.seq < r.seq) ∧
      (t.Waits r ∨ TakenIn w s₁ bs r) ∧
      (∀ m u y, (QueueStore.nextEligible m u t.shared.store).1 = .ok (some y) → y.seq ≠ x.seq) ∧
      (∀ bs₁ bs₂ u, bs = bs₁ ++ bs₂ → s₁.steps w bs₁ = some u → Onward u l x t) ∧
      ((t.workers.get l).record? ≠ some x → x.seq ∉ (ledger t.shared.store).claimed) := by
  have h₀ := Tidy.init (W := W) w.config hs now world
  have htidy := h₀.steps hrun
  have hsp := htidy.spawned_of_record hx
  have hrep := htidy.replaced (h₀.apart_steps (apart_init _ _ _ _) hrun) hx hop hid hacc hstep
  have htidy₁ := htidy.step hstep
  have hsp₁ := htidy.spawned_step hsp hstep
  obtain ⟨hspt, hvacant, honward⟩ := htidy₁.onward_steps hsp₁ hrep.vacant hrep.onward hrest
  refine ⟨⟨hrep.command, hrep.retryCount, hrep.seq_lt⟩,
    htidy₁.waits_or_takenIn hrep.waits hrep.apart hrest, ?_, ?_, ?_⟩
  · intro m u y hy
    have hlaw := LawfulStore.nextEligible (htidy₁.steps hrest).sound m u
    rw [hy] at hlaw
    obtain ⟨row, hfirst, hshows, -⟩ := hlaw
    exact fun hq => hvacant.empty row hfirst.mem (hshows.seq.trans hq)
  · rintro bs₁ bs₂ u rfl hu
    obtain ⟨hspu, hvu, hou⟩ := htidy₁.onward_steps hsp₁ hrep.vacant hrep.onward hu
    have hself : Onward u l x u := by
      intro m y hy hq
      obtain ⟨rfl, rfl, -⟩ := hou m y hy hq
      exact ⟨rfl, rfl, hy, Nat.le_refl _⟩
    rw [steps_append, hu, Option.bind_some] at hrest
    exact ((htidy₁.steps hu).onward_steps hspu hvu hself hrest).2.2
  · intro hgone hq
    have hstepped : (System.init w.config store now world).steps w (as ++ a :: bs) = some t := by
      rw [steps_append, hrun, Option.bind_some]
      simp only [steps, hstep]
      exact hrest
    obtain ⟨m, y, hy, hseq⟩ :=
      h₀.held_of_spawned (not_launched_init _ _ _ _) hstepped hspt _ hq
    obtain ⟨rfl, rfl, -⟩ := honward m y hy hseq
    exact hgone hy

/-- A class whose submissions replace what is queued under their identity. -/
def replacing : Wiring Unit :=
  let w := Trial.wiring fun _ => .recoverable "x"
  { w with
    registry := ⟨w.registry.registrations.map fun k =>
      { k with descriptor := { k.descriptor with conflict := .replace } }⟩ }

/-- A worker executes the first command, and the second one is about to be stored. -/
def upToReplacement : List Action :=
  Trial.upToStore ++ .advance 1 none :: List.replicate 6 Trial.turn ++
    [.request (.submit ⟨"Flaky", "f", .ok [2]⟩ {}), .advance 2 none]

/-- The first execution fails and would be repeated; its record is gone, and the second command waits
as it was submitted. -/
theorem replaced_in_hand_failing :
    ∃ (s s₁ t : System MemoryStore Unit) (x r : Record),
      (System.init replacing.config .empty 0 ()).steps replacing upToReplacement = some s ∧
        (s.workers.get .general).record? = some x ∧ s.accepted? (.advance 2 none) = some r ∧
        s.step replacing (.advance 2 none) = some s₁ ∧
        s₁.steps replacing (List.replicate 4 Trial.turn) = some t ∧ t.shared.store.records = [r] ∧
        r.payload = [2] ∧ r.retryCount = 0 ∧
        (t.Waits r ∨ TakenIn replacing s₁ (List.replicate 4 Trial.turn) r) ∧
        x.seq ∉ (ledger t.shared.store).claimed := by
  have hrun : ((System.init replacing.config MemoryStore.empty 0 ()).steps replacing
      upToReplacement).any fun s =>
        ((s.workers.get .general).record?).any fun x =>
          (s.accepted? (.advance 2 none)).any fun r =>
            (s.step replacing (.advance 2 none)).any fun s₁ =>
              (s₁.steps replacing (List.replicate 4 Trial.turn)).any fun t =>
                s.operation? (.advance 2 none) =
                    some (.submit ⟨"f", "Flaky", .general, .default, [2], true⟩ .replace) ∧
                  x.identity = "f" ∧ t.shared.store.records = [r] ∧
                  (t.workers.get .general).record? = none := by decide +kernel
  obtain ⟨s, hs, hrun⟩ := (Option.any_eq_true _ _).1 hrun
  obtain ⟨x, hx, hrun⟩ := (Option.any_eq_true _ _).1 hrun
  obtain ⟨r, hr, hrun⟩ := (Option.any_eq_true _ _).1 hrun
  obtain ⟨s₁, hs₁, hrun⟩ := (Option.any_eq_true _ _).1 hrun
  obtain ⟨t, ht, hend⟩ := (Option.any_eq_true _ _).1 hrun
  obtain ⟨hop, hid, hrecords, hnone⟩ := of_decide_eq_true hend
  have hempty : (ledger MemoryStore.empty).Sound := Ledger.Sound.empty
  obtain ⟨⟨hcommand, hretry, -⟩, hwaits, -, -, hgone⟩ :=
    replaced_in_hand replacing hempty 0 () hs hx hop hid.symm hr hs₁ ht
  refine ⟨s, s₁, t, x, r, hs, hx, hr, hs₁, ht, hrecords, ?_, hretry, hwaits, hgone ?_⟩
  · rw [hcommand]
  · rw [hnone]
    exact nofun

end System

end LaneQueue
