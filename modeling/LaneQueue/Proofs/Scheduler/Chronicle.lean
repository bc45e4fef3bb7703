import LaneQueue.Proofs.Scheduler.Replacement
/-!
# The chronicle of a run

An event names an identity, and one record after another may go by it. The chronicle stands beside a
run and notes of which record each execution event is told, with what its bodies came to and the
settlements that were given up. It decides nothing: `System.Chronicle.Tells` says that what it notes as
told is what was published, in that order.
-/
namespace LaneQueue

/-- What there is to note of a record. -/
inductive Note where
  /-- Subscribers are told an event about it. -/
  | told (event : EventBody)
  /-- A body of it has ended. -/
  | ended (outcome : Outcome)
  /-- It could not be settled, and its claim is given up. -/
  | givenUp
  deriving DecidableEq

def Note.event? : Note → Option EventBody
  | told e => some e
  | _ => none

/-- Whether it tells that the record has left the queue. -/
def Note.isTerminal : Note → Bool
  | told e => e.isTerminal
  | _ => false

namespace Point

variable {W : Type}

/-- What the next step of a worker notes. -/
def note? : Point W → Option Note
  | announce r _ => some (.told (.started r.identity r.tag r.attempt))
  | run _ (.done f) => some (.ended f.toOutcome)
  | release _ _ => some .givenUp
  | publish _ e => some (.told e)
  | _ => none

/-- The record that a worker is busy with: the one in hand, or the one that it has let go of last and
has still to tell of. -/
def subject? (last : Option Record) : Point W → Option Record
  | publish _ _ => last
  | p => p.record?

theorem subject?_of_record? {p : Point W} {r : Record} (h : p.record? = some r)
    (last : Option Record) : p.subject? last = some r := by
  cases p with
  | publish => cases h
  | top | readPause | showPaused | paused | claim | claimFailed | showIdle | askWake | measure | arm |
    idle | decode | begin | announce | run | asking | settle | collapsed | release | finish | stop |
    exited => exact h

/-- Only a worker that tells of a record may be busy with one that it has let go of. -/
theorem record?_or_publish {p : Point W} {last : Option Record} {r : Record}
    (h : p.subject? last = some r) :
    p.record? = some r ∨ (∃ lane e, p = publish lane e) ∧ last = some r := by
  cases p with
  | publish lane e => exact .inr ⟨⟨lane, e, rfl⟩, h⟩
  | top | readPause | showPaused | paused | claim | claimFailed | showIdle | askWake | measure | arm |
    idle | decode | begin | announce | run | asking | settle | collapsed | release | finish | stop |
    exited => exact .inl h

/-- An end is noted only by a worker that tells it. -/
theorem eq_publish_of_note? {p : Point W} {n : Note} (h : p.note? = some n)
    (hn : n.isTerminal = true) : ∃ lane e, p = publish lane e ∧ n = .told e := by
  cases p with
  | publish lane e => cases h; exact ⟨lane, e, rfl, rfl⟩
  | run r b =>
    cases b with
    | done f => cases h; cases hn
    | act | ask | await => cases h
  | announce | release => cases h; cases hn
  | top | readPause | showPaused | paused | claim | claimFailed | showIdle | askWake | measure | arm |
    idle | decode | begin | asking | settle | collapsed | finish | stop | exited => cases h

section Step

variable {σ : Type} [QueueStore σ] {w : Wiring W} {l : Lane} {signal : Signal}
  {fault : Option QueueError} {p p' : Point W} {s s' : Shared σ W} {last : Option Record} {x : Record}

/-- A worker comes to be busy with a record only through a claim. -/
theorem subject?_step (h : p.step w l signal fault s = some (p', s'))
    (hx : p'.subject? (p.record?.or last) = some x) :
    p.subject? last = some x ∨
      (p' = decode x ∧ p.operation? l fault = some (.nextEligible l) ∧
        (QueueStore.nextEligible l s.now s.store).1 = .ok (some x)) := by
  rcases record?_or_publish hx with hr | ⟨⟨lane, e, rfl⟩, hlast⟩
  · exact (step_record h hr).imp_left fun hr => subject?_of_record? hr last
  · -- it has just let go of the record
    cases step_moves h with
    | settled | release => exact .inl hlast

end Step

end Point

namespace System

variable {σ W : Type}

structure Chronicle where
  /-- In each lane the record that its worker has had in hand last. -/
  last : PerLane (Option Record) := .ofFn fun _ => none
  notes : List (Record × Note) := []

namespace Chronicle

/-- The record that the worker of a lane is busy with. -/
def subject? (c : Chronicle) (s : System σ W) (l : Lane) : Option Record :=
  (s.workers.get l).subject? (c.last.get l)

/-- Nobody is busy with the record at a place. -/
def Unattended (c : Chronicle) (s : System σ W) (q : Int) : Prop :=
  ∀ l x, c.subject? s l = some x → x.seq ≠ q

/-- What the next action notes, and of which record. -/
def noted? (c : Chronicle) (s : System σ W) : Action → Option (Record × Note)
  | .work l _ _ => (c.subject? s l).bind fun x => (s.workers.get l).note?.map fun n => (x, n)
  | _ => none

/-- The chronicle after an action. -/
def after (c : Chronicle) (s : System σ W) (a : Action) : Chronicle where
  last :=
    match a with
    | .work l _ _ => c.last.modify l fun x => (s.workers.get l).record?.or x
    | _ => c.last
  notes := c.notes ++ (c.noted? s a).toList

/-- The notes about the record at one place. -/
def about (c : Chronicle) (q : Int) : List Note :=
  c.notes.filterMap fun n => if n.1.seq = q then some n.2 else none

/-- All that has been told, about whatever record. -/
def told (c : Chronicle) : List EventBody := c.notes.filterMap fun n => n.2.event?

end Chronicle

variable {s s' s₀ : System σ W} {c c₀ : Chronicle} {a : Action} {l : Lane} {x : Record}

namespace Chronicle

/-! ## One step -/

theorem noted?_of_lane (ha : a.lane? = some l) :
    c.noted? s a = (c.subject? s l).bind fun x => (s.workers.get l).note?.map fun n => (x, n) := by
  obtain ⟨signal, fault, rfl⟩ := Action.eq_work_of_lane? ha
  rfl

/-- A note is taken by a worker, of the record that it is busy with. -/
theorem noted?_eq_some {n : Note} (h : c.noted? s a = some (x, n)) :
    ∃ l, a.lane? = some l ∧ c.subject? s l = some x ∧ (s.workers.get l).note? = some n := by
  cases a with
  | request | advance | tick => cases h
  | work m signal fault =>
    obtain ⟨y, hy, h⟩ := Option.bind_eq_some_iff.1 h
    obtain ⟨k, hk, h⟩ := Option.map_eq_some_iff.1 h
    cases h
    exact ⟨m, rfl, hy, hk⟩

theorem subject?_of_publish {lane : Lane} {e : EventBody} (hp : s.workers.get l = .publish lane e)
    (hx : c.last.get l = some x) : c.subject? s l = some x := by
  simp only [subject?, hp, Point.subject?]
  exact hx

theorem last_after_beside (ha : a.lane? ≠ some l) : (c.after s a).last.get l = c.last.get l := by
  cases a with
  | request | advance | tick => rfl
  | work m signal fault =>
    have hm : m ≠ l := fun he => ha (congrArg some he)
    simp [after, PerLane.get_modify, hm]

theorem last_after_own (ha : a.lane? = some l) :
    (c.after s a).last.get l = (s.workers.get l).record?.or (c.last.get l) := by
  obtain ⟨signal, fault, rfl⟩ := Action.eq_work_of_lane? ha
  simp [after, PerLane.get_modify]

/-- Nothing is noted about a place with whose record the worker that moves is not busy. -/
theorem about_after_beside {q : Int}
    (h : ∀ l x, a.lane? = some l → c.subject? s l = some x → x.seq ≠ q) :
    (c.after s a).about q = c.about q := by
  simp only [about, after, List.filterMap_append]
  cases hn : c.noted? s a with
  | none => simp
  | some n =>
    obtain ⟨x, n⟩ := n
    obtain ⟨l, ha, hx, -⟩ := noted?_eq_some hn
    simp [h l x ha hx]

/-- A worker notes what its step notes about the record that it is busy with. -/
theorem about_after_own (ha : a.lane? = some l) (hx : c.subject? s l = some x) :
    (c.after s a).about x.seq = c.about x.seq ++ (s.workers.get l).note?.toList := by
  simp only [about, after, noted?_of_lane ha, hx, Option.bind_some, List.filterMap_append]
  cases (s.workers.get l).note? <;> simp

variable [QueueStore σ] {w : Wiring W}

theorem subject?_beside (hstep : s.step w a = some s') (ha : a.lane? ≠ some l) :
    (c.after s a).subject? s' l = c.subject? s l := by
  simp only [subject?, worker_beside hstep ha, last_after_beside ha]

/-- A worker comes to be busy with a record only through a claim. -/
theorem subject_cases (hstep : s.step w a = some s') (hx : (c.after s a).subject? s' l = some x) :
    c.subject? s l = some x ∨
      s'.workers.get l = .decode x ∧ s.operation? a = some (.nextEligible l) ∧
        (QueueStore.nextEligible l s.shared.now s.shared.store).1 = .ok (some x) := by
  by_cases ha : a.lane? = some l
  · simp only [subject?, last_after_own ha] at hx
    obtain ⟨signal, fault, rfl⟩ := Action.eq_work_of_lane? ha
    exact Point.subject?_step (worker_own hstep) hx
  · rw [subject?_beside hstep ha] at hx
    exact .inl hx

end Chronicle

/-! ## A run -/

variable [QueueStore σ] {w : Wiring W}

/-- The chronicle of some actions, as long as they are possible. -/
def chronicle (w : Wiring W) : List Action → System σ W → Chronicle → Chronicle
  | [], _, c => c
  | a :: as, s, c =>
    match s.step w a with
    | none => c
    | some s' => chronicle w as s' (c.after s a)

theorem chronicle_snoc {as : List Action} (h : s₀.steps w as = some s) (hstep : s.step w a = some s') :
    s₀.chronicle w (as ++ [a]) c₀ = (s₀.chronicle w as c₀).after s a := by
  induction as generalizing s₀ c₀ with
  | nil =>
    cases h
    simp [chronicle, hstep]
  | cons b as ih =>
    simp only [steps] at h
    split at h
    · cases h
    · rename_i t hb
      simp only [List.cons_append, chronicle, hb]
      exact ih h

theorem chronicle_append {as bs : List Action} (h : s₀.steps w as = some s) :
    s₀.chronicle w (as ++ bs) c₀ = s.chronicle w bs (s₀.chronicle w as c₀) := by
  induction as generalizing s₀ c₀ with
  | nil => cases h; rfl
  | cons b as ih =>
    simp only [steps] at h
    split at h
    · cases h
    · rename_i t hb
      simp only [List.cons_append, chronicle, hb]
      exact ih h

/-! ## The chronicle is about the right records -/

open LawfulStore (ledger)

section Sound

variable [LawfulStore σ]

/-- What a worker is busy with is a record of its lane, no two are busy with the record at one place,
and whatever has been noted is about a place that has been given out. -/
structure Chronicle.Sound (c : Chronicle) (s : System σ W) : Prop where
  inHand : ∀ l x, c.subject? s l = some x → (ledger s.shared.store).InHand l x
  apart : ∀ l m x y, c.subject? s l = some x → c.subject? s m = some y → x.seq = y.seq → l = m
  dated : ∀ n ∈ c.notes, n.1.seq ≤ (ledger s.shared.store).lastSeq
  /-- Nothing is noted before the workers have been spawned. -/
  silent : (∀ l, (s.shared.cell l).spawned = false) → c.notes = []

namespace Chronicle

theorem sound_init (config : QueueConfig) (store : σ) (now : Instant) (world : W) :
    ({} : Chronicle).Sound (System.init config store now world) where
  inHand l x hx := by simp [subject?, System.init, Point.subject?, Point.record?] at hx
  apart l m x y hx := by simp [subject?, System.init, Point.subject?, Point.record?] at hx
  dated n hn := by cases hn
  silent _ := rfl

theorem spawned_of_subject? (h : s.Tidy) (hx : c.subject? s l = some x) :
    (s.shared.cell l).spawned = true := by
  apply h.spawned_of_ne_top
  intro htop
  simp [subject?, htop, Point.subject?, Point.record?] at hx

namespace Sound

theorem inHand_step (hc : c.Sound s) (h : s.Tidy) (hstep : s.step w a = some s')
    (hx : (c.after s a).subject? s' l = some x) : (ledger s'.shared.store).InHand l x := by
  rcases subject_cases hstep hx with hold | ⟨hp, -, -⟩
  · rw [step_store hstep]
    have hop := h.operation?_ne_recover (spawned_of_subject? h hold) a
    exact LawfulStore.inHand_after h.sound hop _ (hc.inHand l x hold)
  · exact (h.step hstep).inHand l x (by rw [hp]; rfl)

/-- Nobody claims the place of a record that somebody is busy with: what is stored there is of the
lane of the latter. -/
theorem apart_step (hc : c.Sound s) (h : s.Tidy) (hstep : s.step w a = some s') {m : Lane}
    {y : Record} (hx : (c.after s a).subject? s' l = some x)
    (hy : (c.after s a).subject? s' m = some y) (hq : x.seq = y.seq) : l = m := by
  have hclaim : ∀ {l m : Lane} {x y : Record}, c.subject? s l = some x →
      (QueueStore.nextEligible m s.shared.now s.shared.store).1 = .ok (some y) →
        x.seq = y.seq → l = m := by
    intro l m x y hx hy hq
    obtain ⟨row, hrow, hshows, hdue⟩ := h.claims_due hy
    have hhand := hc.inHand l x hx
    have hlane := (hhand.carries row hrow (hshows.seq.trans hq.symm)).lane
    rw [hhand.lane] at hlane
    exact Lane.index_inj (hlane.symm.trans (Ledger.isDue_iff.1 hdue).1)
  rcases subject_cases hstep hx with hx | ⟨-, hopx, hcx⟩ <;>
    rcases subject_cases hstep hy with hy | ⟨-, hopy, hcy⟩
  · exact hc.apart l m x y hx hy hq
  · exact hclaim hx hcy hq
  · exact (hclaim hy hcx hq.symm).symm
  · cases hopx.symm.trans hopy
    rfl

theorem dated_step (hc : c.Sound s) (h : s.Tidy) (hstep : s.step w a = some s')
    {n : Record × Note} (hn : n ∈ (c.after s a).notes) :
    n.1.seq ≤ (ledger s'.shared.store).lastSeq := by
  have hspawned : ∃ l, (s.shared.cell l).spawned = true := by
    by_contra hno
    have hall : ∀ l, (s.shared.cell l).spawned = false :=
      fun l => Bool.eq_false_iff.2 fun hl => hno ⟨l, hl⟩
    simp only [after, hc.silent hall, List.nil_append, Option.mem_toList] at hn
    obtain ⟨l, -, hx, -⟩ := noted?_eq_some hn
    exact hno ⟨l, spawned_of_subject? h hx⟩
  obtain ⟨l, hl⟩ := hspawned
  have hle : (ledger s.shared.store).lastSeq ≤ (ledger s'.shared.store).lastSeq := by
    have hne := h.operation?_ne_recover hl a
    rw [step_store hstep]
    cases hop : s.operation? a with
    | none => exact Int.le_refl _
    | some op =>
      exact (LawfulStore.edit_run h.sound op _).lastSeq_le fun he => hne (he ▸ hop)
  refine Int.le_trans ?_ hle
  rcases List.mem_append.1 hn with hn | hn
  · exact hc.dated n hn
  · obtain ⟨m, -, hx, -⟩ := noted?_eq_some (Option.mem_toList.1 hn)
    exact (hc.inHand m _ hx).seq_le

theorem step (hc : c.Sound s) (h : s.Tidy) (hstep : s.step w a = some s') :
    (c.after s a).Sound s' where
  inHand _ _ := hc.inHand_step h hstep
  apart _ _ _ _ := hc.apart_step h hstep
  dated _ := hc.dated_step h hstep
  silent hno := by
    have hold : ∀ l, (s.shared.cell l).spawned = false := by
      intro l
      by_contra hl
      have := h.spawned_step (Bool.not_eq_false _ ▸ hl) hstep
      rw [hno l] at this
      cases this
    simp only [after, hc.silent hold, List.nil_append, Option.toList_eq_nil_iff]
    cases hn : c.noted? s a with
    | none => rfl
    | some n =>
      obtain ⟨l, -, hx, -⟩ := noted?_eq_some hn
      have := spawned_of_subject? h hx
      rw [hold l] at this
      cases this

theorem steps (h : s₀.Tidy) (hc : c₀.Sound s₀) {as : List Action} (hrun : s₀.steps w as = some s) :
    (s₀.chronicle w as c₀).Sound s := by
  refine steps_induction (P := fun as t => (s₀.chronicle w as c₀).Sound t) hc ?_ hrun
  intro as a t t' ht ih hstep
  rw [chronicle_snoc ht hstep]
  exact ih.step (h.steps ht) hstep

/-- A note about a place is taken by the worker that is busy with its record. -/
theorem about_after_of_subject? (hc : c.Sound s) {q : Int}
    (hx : c.subject? s l = some x) (hq : x.seq = q) :
    (c.after s a).about q =
      c.about q ++ if a.lane? = some l then (s.workers.get l).note?.toList else [] := by
  subst hq
  split
  · rename_i ha
    exact about_after_own ha hx
  · rename_i ha
    rw [List.append_nil]
    refine about_after_beside fun m y hm hy hq => ha ?_
    rw [hm, hc.apart m l y x hy hx hq]

/-- When a record is stored for a submission, nothing has been noted about its place and nobody is
busy with it. -/
theorem fresh (hc : c.Sound s) (h : s.Tidy) {r : Record} (hacc : s.accepted? a = some r)
    (hstep : s.step w a = some s') :
    (c.after s a).about r.seq = [] ∧ (c.after s a).Unattended s' r.seq := by
  obtain ⟨op, hop, hcr⟩ := Option.bind_eq_some_iff.1 hacc
  obtain ⟨y, hok, hcr⟩ := Operation.exists_of_created? hcr
  have hnext := (LawfulStore.created_run h.sound hok hcr).1.next
  have hold : ∀ l x, c.subject? s l = some x → x.seq ≠ r.seq := by
    intro l x hx hq
    have := (hc.inHand l x hx).seq_le
    omega
  constructor
  · rw [about_after_beside fun l x _ hx => hold l x hx]
    refine List.filterMap_eq_nil_iff.2 fun n hn => if_neg fun hq => ?_
    have := hc.dated n hn
    omega
  · intro l x hx
    rcases subject_cases hstep hx with hx | ⟨hp, -, -⟩
    · exact hold l x hx
    · exact (seq_ne_of_accepted h hacc hstep).2 l x (by rw [hp]; rfl)

end Sound

end Chronicle

end Sound

end System

end LaneQueue
