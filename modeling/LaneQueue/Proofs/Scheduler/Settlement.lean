import LaneQueue.Proofs.Scheduler.Chronicle
import LaneQueue.Proofs.Scheduler.Exclusive
import LaneQueue.Proofs.Scheduler.Wakeups
/-!
# What a settlement does

A worker goes on to tell of a record either because the store has answered the call that settles it, or
because it has given up the claim after the storage failed. In the first case the row of the record is
gone or waits for its next attempt; in the second no row has changed. Between two settlements a record
stays stored as it is, unless it is displaced: replaced by a later submission, or cleared with its lane.
-/
namespace LaneQueue

/-- The record after a failed attempt. -/
def Record.postponed (r : Record) (n : UInt32) (t : Instant) : Record :=
  { r with retryCount := n, availableAt := t }

theorem Row.Shows.postponed {row : Row} {r : Record} (h : row.Shows r) (n : UInt32) (t : Instant) :
    ({ row with retryCount := n.toNat, availableAt := t } : Row).Shows (r.postponed n t) :=
  ⟨h.toCarries.postponed _ _, Row.retries_postponed row n t, rfl⟩

namespace Ledger

variable {l : Ledger} {lane : Lane} {x : Record}

/-- The place of a record in hand is vacant once its row has been removed. -/
theorem InHand.vacant_remove (h : l.InHand lane x) : ((l.drop x.seq).remove x).Vacant x.seq where
  le := h.seq_le
  empty row hr hq := by
    obtain ⟨hrow, hno⟩ := List.mem_filter.1 hr
    have howns := isRowOf_iff.2 ⟨(h.carries row hrow hq).identity, hq⟩
    simp [howns] at hno

/-- A stored record is stored as it is after its failed attempt. -/
theorem Keeps.postpone (h : l.Keeps x) (n : UInt32) (t : Instant) :
    ((l.drop x.seq).postpone x n t).Keeps (x.postponed n t) := by
  obtain ⟨row, hrow, hshows⟩ := h
  have howns := isRowOf_iff.2 ⟨hshows.identity, hshows.seq⟩
  exact ⟨_, List.mem_map.2 ⟨row, hrow, if_pos howns⟩, hshows.postponed n t⟩

theorem not_mem_claimed_drop (l : Ledger) (q : Int) : q ∉ (l.drop q).claimed := by
  simp [drop]

end Ledger

namespace Point

variable {σ W : Type} [QueueStore σ] {w : Wiring W} {l : Lane} {signal : Signal}
  {fault : Option QueueError} {p p' : Point W} {s s' : Shared σ W}

/-- A worker that goes from a settlement to the telling has had the call answered. -/
theorem settle_answered {r : Record} {f : Fate} {t : Try} {lane : Lane} {e : EventBody}
    (h : (settle r f t : Point W).step w l signal fault s = some (publish lane e, s')) :
    (lane = r.lane ∧ e = f.event) ∧ t.operation? fault (f.operation r) = some (f.operation r) ∧
      ∃ b, (settling r f s.store).1 = .ok b := by
  simp only [step] at h
  split at h
  · cases h
  · cases h
  · rename_i hstep
    obtain ⟨hop, hok, -⟩ := Try.step_ok hstep
    cases h
    exact ⟨⟨rfl, rfl⟩, hop _, _, hok⟩
  · cases h

/-- A settlement is given up only if its storage call fails. -/
theorem settle_givenUp {r x : Record} {f g : Fate} {t : Try}
    (h : (settle r f t : Point W).step w l signal fault s = some (release x g, s')) :
    fault.isSome = true ∨ t.operation? fault (f.operation r) = some (f.operation r) ∧
      ∃ e, ((f.operation r).run s.now s.store).1 = .error e := by
  have hrec : (release x g : Point W).record? = some r := by
    rcases settle_cases h with ⟨-, ⟨t', hp⟩ | ⟨hp, -⟩ | hp⟩ <;> cases hp
    rfl
  cases hf : fault with
  | some e => exact .inl rfl
  | none =>
    subst hf
    right
    cases t with
    | pause d =>
      -- after the pause comes the second try
      simp only [step, Try.step] at h
      split at h
      · cases h
      · rename_i hd
        split at hd <;> cases hd
        cases h
      all_goals
        rename_i hd
        split at hd <;> cases hd
    | first | second =>
      refine ⟨rfl, ?_⟩
      rcases settle_failed h hrec with hnone | herr
      · cases hnone
      · exact herr

end Point

/-- Whether an operation may take away a record that nobody settles. -/
def Operation.mayDisplace : Operation → Bool
  | .submit _ .replace | .purgeLane _ => true
  | _ => false

/-- A store in memory answers whatever a scheduler asks. -/
theorem MemoryStore.run_ok {op : Operation} (hop : ∀ c, op ≠ .insert c) (now : Instant)
    (s : MemoryStore) : ∃ y, (op.run now s).1 = .ok y := by
  cases op with
  | insert c => exact absurd rfl (hop c)
  | submit c p =>
    obtain ⟨y, hy⟩ := submit_ok s c p now
    exact ⟨.submission y, congrArg (Except.map Answer.submission) hy⟩
  | retire r => exact settles_ok (.inl rfl) now s
  | reschedule r n t => exact settles_ok (.inr ⟨n, t, rfl⟩) now s
  | nextEligible l =>
    change ∃ y, (nextEligible l now s).1.map _ = _
    unfold nextEligible
    split <;> exact ⟨_, rfl⟩
  | deleteByIdentity | findByIdentity | release | pendingCount | nextWakeAt | purgeLane | recover =>
    exact ⟨_, rfl⟩

namespace System

open LawfulStore (ledger)

variable {σ W : Type} {w : Wiring W} {s s' s₀ : System σ W} {l : Lane} {a : Action} {x : Record}

/-- Whoever gives up a claim by a step of its own settles its record or releases it. -/
theorem settling_of_settled? {op : Operation} (h : s.operation? a = some op)
    (hx : op.settled? = some x) : ∃ l f, a.lane? = some l ∧
      ((∃ t, s.workers.get l = .settle x f t ∧ op = f.operation x) ∨
        s.workers.get l = .release x f ∧ op = .release x) := by
  rcases operation?_cases h with ⟨k, c, -, -, hop⟩ |
    ⟨l, ha, rfl | rfl | ⟨y, f, t, hp, rfl⟩ | ⟨y, f, hp, rfl⟩⟩
  · rw [Call.settled?_operation? hop] at hx
    cases hx
  · cases hx
  · cases hx
  · obtain rfl : y = x := Option.some.inj ((Fate.settled?_operation y f).symm.trans hx)
    exact ⟨l, f, ha, .inl ⟨t, hp, rfl⟩⟩
  · obtain rfl : y = x := Option.some.inj hx
    exact ⟨l, f, ha, .inr ⟨hp, rfl⟩⟩

section Operations

variable [QueueStore σ]

/-- The operations that a run carries out on the store. -/
def operations (w : Wiring W) : List Action → System σ W → List Operation
  | [], _ => []
  | a :: as, s =>
    (s.operation? a).toList ++
      match s.step w a with
      | none => []
      | some s' => operations w as s'

theorem mem_operations {as bs : List Action} {b : Action} {u : System σ W} {op : Operation}
    (hpre : bs ++ [b] <+: as) (hu : s₀.steps w bs = some u) (hop : u.operation? b = some op) :
    op ∈ s₀.operations w as := by
  induction bs generalizing s₀ as with
  | nil =>
    obtain ⟨cs, rfl⟩ := hpre
    cases hu
    simp [operations, hop]
  | cons d bs ih =>
    obtain ⟨cs, rfl⟩ := hpre
    simp only [steps] at hu
    split at hu
    · cases hu
    · rename_i t hd
      simp only [List.cons_append, operations, hd]
      exact List.mem_append_right _ (ih ⟨cs, rfl⟩ hu)

end Operations

section Displaced

variable [QueueStore σ] [LawfulStore σ]

/-- An action that takes a stored record away from outside: a later submission of its identity that
replaces it, or the clearing of its lane while it is not claimed. -/
inductive Displaces (s : System σ W) (r : Record) (a : Action) : Prop
  | replaced {c : NewCommand} :
      s.operation? a = some (.submit c .replace) → c.identity = r.identity → Displaces s r a
  | cleared : s.operation? a = some (.purgeLane r.lane) →
      r.seq ∉ (ledger s.shared.store).claimed → Displaces s r a

/-- At some moment of a run a stored record was displaced. -/
def DisplacedIn (w : Wiring W) (s₀ : System σ W) (as : List Action) (r : Record) : Prop :=
  ∃ bs b u, bs ++ [b] <+: as ∧ s₀.steps w bs = some u ∧
    (ledger u.shared.store).Stores r.toNewCommand r.seq ∧ u.Displaces r b

theorem DisplacedIn.of_keeps {as bs : List Action} {b : Action} {u : System σ W} {r : Record}
    (hpre : bs ++ [b] <+: as) (hu : s₀.steps w bs = some u) (hk : (ledger u.shared.store).Keeps r)
    (hdis : u.Displaces r b) : DisplacedIn w s₀ as r := by
  obtain ⟨row, hrow, hshows⟩ := hk
  exact ⟨bs, b, u, hpre, hu, ⟨row, hrow, hshows.toCarries⟩, hdis⟩

theorem DisplacedIn.snoc {as : List Action} {r : Record} (h : DisplacedIn w s₀ as r) (a : Action) :
    DisplacedIn w s₀ (as ++ [a]) r := by
  obtain ⟨bs, b, u, hpre, hu⟩ := h
  exact ⟨bs, b, u, hpre.trans (List.prefix_append as [a]), hu⟩

theorem DisplacedIn.append {as bs : List Action} {r : Record} (h : DisplacedIn w s bs r)
    (hrun : s₀.steps w as = some s) : DisplacedIn w s₀ (as ++ bs) r := by
  obtain ⟨cs, b, u, hpre, hu, hdis⟩ := h
  refine ⟨as ++ cs, b, u, ?_, by rw [steps_append, hrun]; exact hu, hdis⟩
  rw [List.append_assoc]
  exact (List.prefix_append_right_inj as).2 hpre

/-- No record is displaced in a run whose operations do not displace any. -/
theorem not_displacedIn {as : List Action} {r : Record}
    (h : ∀ op ∈ s₀.operations w as, op.mayDisplace = false) : ¬ DisplacedIn w s₀ as r := by
  rintro ⟨bs, b, u, hpre, hu, -, hdis⟩
  have hno : ∀ op, u.operation? b = some op → op.mayDisplace = false :=
    fun op hop => h op (mem_operations hpre hu hop)
  cases hdis with
  | replaced hop => cases hno _ hop
  | cleared hop => cases hno _ hop

namespace Tidy

theorem vacant_steps (h : s₀.Tidy) (hsp : (s₀.shared.cell l).spawned = true) {q : Int}
    (hv : (ledger s₀.shared.store).Vacant q) {as : List Action} (hrun : s₀.steps w as = some s) :
    (s.shared.cell l).spawned = true ∧ (ledger s.shared.store).Vacant q :=
  steps_induction (P := fun _ t => (t.shared.cell l).spawned = true ∧
      (ledger t.shared.store).Vacant q) ⟨hsp, hv⟩
    (fun ht ⟨hsp, hv⟩ hstep => ⟨(h.steps ht).spawned_step hsp hstep,
      (h.steps ht).vacant_step hsp hv hstep⟩) hrun

/-- A stored record stays stored as it is, unless it is displaced or its settlement is tried. -/
theorem keeps_step (h : s.Tidy) (hk : (ledger s.shared.store).Keeps x) (hstep : s.step w a = some s')
    (hd : ¬ s.Displaces x a) :
    (ledger s'.shared.store).Keeps x ∨
      ∃ l y f t, a.lane? = some l ∧ s.workers.get l = .settle y f t ∧ y.seq = x.seq := by
  obtain ⟨row, hrow, hshows⟩ := hk
  rw [step_store hstep]
  cases hop : s.operation? a with
  | none => exact .inl ⟨row, hrow, hshows⟩
  | some op =>
    by_cases hcon : op.Concerns (ledger s.shared.store) row
    · have hsettled : ∀ y, op.settled? = some y → (∀ y, op ≠ .release y) → row.seq = y.seq →
          ∃ l y f t, a.lane? = some l ∧ s.workers.get l = .settle y f t ∧ y.seq = x.seq := by
        intro y hy hne hq
        obtain ⟨l, f, ha, ⟨t, hp, -⟩ | ⟨-, hr⟩⟩ := settling_of_settled? hop hy
        · exact ⟨l, y, f, t, ha, hp, hq.symm.trans hshows.seq⟩
        · exact absurd hr (hne y)
      cases op with
      | submit c p =>
        obtain ⟨rfl, hi⟩ := hcon
        exact absurd (.replaced hop (hi.trans hshows.identity)) hd
      | deleteByIdentity i => exact absurd rfl ((operation?_ne_insert_delete hop).2 i)
      | retire y => exact .inr (hsettled y rfl nofun hcon.2)
      | reschedule y n t => exact .inr (hsettled y rfl nofun hcon.2)
      | purgeLane lane =>
        obtain rfl : lane = x.lane := Lane.index_inj (hcon.1.symm.trans hshows.lane)
        exact absurd (.cleared hop (hshows.seq ▸ hcon.2)) hd
      | insert | findByIdentity | nextEligible | release | pendingCount | nextWakeAt | recover =>
        cases hcon
    · exact .inl ⟨row, (LawfulStore.edit_run h.sound op _).keeps_row hrow hcon, hshows⟩

end Tidy

end Displaced

variable [QueueStore σ]

/-! ## Storage that serves -/

/-- The storage does what an action asks of it. -/
structure Served (s : System σ W) (a : Action) : Prop where
  faultless : a.fault? = none
  answered : ∀ op, s.operation? a = some op →
    ∃ y, (op.run s.shared.now s.shared.store).1 = .ok y

/-- The storage serves every action of a run. -/
def Unfailing (w : Wiring W) (s₀ : System σ W) (as : List Action) : Prop :=
  ∀ bs b u, bs ++ [b] <+: as → s₀.steps w bs = some u → u.Served b

theorem Unfailing.left {as bs : List Action} (h : Unfailing w s₀ (as ++ bs)) : Unfailing w s₀ as :=
  fun cs b u hpre => h cs b u (hpre.trans (List.prefix_append as bs))

theorem Unfailing.init {as : List Action} (h : Unfailing w s₀ (as ++ [a])) : Unfailing w s₀ as :=
  h.left

theorem Unfailing.last {as : List Action} (h : Unfailing w s₀ (as ++ [a]))
    (hs : s₀.steps w as = some s) : s.Served a :=
  h as a s List.prefix_rfl hs

/-- While the storage serves no settlement is given up. -/
theorem Served.not_givenUp (h : s.Served a) (hstep : s.step w a = some s') {f : Fate}
    (hp : s'.workers.get l = .release x f) : s.workers.get l = .release x f := by
  rcases step_worker hstep l with heq | ⟨signal, fault, rfl, hown⟩
  · rw [← heq]
    exact hp
  · have hfault : fault = none := h.faultless
    rw [hp] at hown
    cases hq : s.workers.get l with
    | settle y g t =>
      rw [hq] at hown
      rcases Point.settle_givenUp hown with hf | ⟨hop, e, he⟩
      · rw [hfault] at hf
        cases hf
      · obtain ⟨z, hz⟩ := h.answered (g.operation y) (by
          simp only [operation?, hq, Point.operation?]
          exact hop)
        rw [hz] at he
        cases he
    | _ =>
      rw [hq] at hown
      cases Point.step_moves hown

theorem Unfailing.not_release {q : Int} (h₀ : ∀ l x f, s₀.workers.get l = .release x f → x.seq ≠ q)
    {as : List Action} (hrun : s₀.steps w as = some s) (hserved : Unfailing w s₀ as) :
    ∀ l x f, s.workers.get l = .release x f → x.seq ≠ q := by
  refine steps_induction (w := w) (P := fun as t => Unfailing w s₀ as →
    ∀ l x f, t.workers.get l = .release x f → x.seq ≠ q) (fun _ => h₀) ?_ hrun hserved
  intro as a t t' ht ih hstep hserved l x f hp
  exact ih hserved.init l x f ((hserved.last ht).not_givenUp hstep hp)

/-- While the storage serves, no settlement of a record is noted to be given up. -/
theorem not_givenUp_of_unfailing {c₀ : Chronicle} {q : Int} (hq : c₀.about q = [])
    (hn : c₀.Unattended s₀ q) {as : List Action} (hrun : s₀.steps w as = some s)
    (hserved : Unfailing w s₀ as) : Note.givenUp ∉ (s₀.chronicle w as c₀).about q := by
  have h₀ : ∀ l x f, s₀.workers.get l = .release x f → x.seq ≠ q := fun l x f hp =>
    hn l x (Point.subject?_of_record? (by rw [hp]; rfl) _)
  refine steps_induction (w := w) (P := fun as _ => Unfailing w s₀ as →
    Note.givenUp ∉ (s₀.chronicle w as c₀).about q) ?_ ?_ hrun hserved
  · intro _
    simp [chronicle, hq]
  · intro as a t t' ht ih hstep hserved
    have hrel := Unfailing.not_release h₀ ht hserved.init
    rw [chronicle_snoc ht hstep]
    intro hmem
    simp only [Chronicle.about, Chronicle.after, List.filterMap_append, List.mem_append] at hmem
    rcases hmem with hmem | hmem
    · exact ih hserved.init hmem
    · obtain ⟨⟨x, n⟩, hx, hn⟩ := List.mem_filterMap.1 hmem
      obtain ⟨l, -, hsub, hnote⟩ := Chronicle.noted?_eq_some (Option.mem_toList.1 hx)
      simp only [Option.ite_none_right_eq_some, Option.some.injEq] at hn
      obtain ⟨hxq, rfl⟩ := hn
      cases hp : t.workers.get l with
      | release y f =>
        rw [Chronicle.subject?, hp] at hsub
        cases hsub
        exact hrel l x f hp hxq
      | run y b =>
        rw [hp] at hnote
        cases b <;> cases hnote
      | _ =>
        rw [hp] at hnote
        cases hnote

/-- A store in memory serves every action that meets no failure before it. -/
theorem unfailing_of_memory {w : Wiring W} {s₀ : System MemoryStore W} {as : List Action}
    (h : ∀ b ∈ as, b.fault? = none) : Unfailing w s₀ as := by
  intro bs b u hpre hu
  have hb : b ∈ as := hpre.subset (List.mem_append_right bs (List.mem_singleton_self b))
  exact ⟨h b hb, fun op hop => MemoryStore.run_ok (operation?_ne_insert_delete hop).1 _ _⟩

/-! ## A settlement that is answered -/

/-- The worker of a lane goes from the settlement of a record to the telling of it. -/
structure Settles (w : Wiring W) (s s' : System σ W) (l : Lane) (x : Record) (f : Fate) : Prop where
  settling : ∃ t, s.workers.get l = .settle x f t
  telling : s'.workers.get l = .publish x.lane f.event
  answered : ∃ b, (Point.settling x f s.shared.store).1 = .ok b
  store : s'.shared.store = ((f.operation x).run s.shared.now s.shared.store).2

theorem settles_of_publish {signal : Signal} {fault : Option QueueError} {f : Fate} {t : Try}
    (hp : s.workers.get l = .settle x f t) (hstep : s.step w (.work l signal fault) = some s')
    {lane : Lane} {e : EventBody} (hp' : s'.workers.get l = .publish lane e) :
    Settles w s s' l x f := by
  have hown := worker_own hstep
  rw [hp, hp'] at hown
  obtain ⟨⟨rfl, rfl⟩, hop, hok⟩ := Point.settle_answered hown
  refine ⟨⟨t, hp⟩, hp', hok, ?_⟩
  rw [step_store hstep]
  simp only [operation?, hp, Point.operation?, hop]
  rfl

variable [LawfulStore σ]

namespace Settles

variable {f : Fate}

/-- A record that is removed is gone. -/
theorem ledger_removed (h : Settles w s s' l x f) (htidy : s.Tidy) (hf : f.retry = none) :
    ledger s'.shared.store = ((ledger s.shared.store).drop x.seq).remove x := by
  obtain ⟨b, hb⟩ := h.answered
  have hlaw := LawfulStore.retire htidy.sound x
  simp only [Point.settling, hf] at hb
  rw [hb] at hlaw
  rw [h.store, Fate.operation, hf]
  exact hlaw.2

/-- A record that is to be repeated waits for its next attempt. -/
theorem ledger_postponed (h : Settles w s s' l x f) (htidy : s.Tidy) {n : UInt32} {u : Instant}
    (hf : f.retry = some (n, u)) :
    ledger s'.shared.store = ((ledger s.shared.store).drop x.seq).postpone x n u := by
  obtain ⟨b, hb⟩ := h.answered
  have hlaw := LawfulStore.reschedule htidy.sound x n u
  simp only [Point.settling, hf] at hb
  rw [hb] at hlaw
  rw [h.store, Fate.operation, hf]
  exact hlaw.2

theorem inHand (h : Settles w s s' l x f) (htidy : s.Tidy) : (ledger s.shared.store).InHand l x := by
  obtain ⟨t, ht⟩ := h.settling
  exact htidy.inHand l x (by rw [ht]; rfl)

theorem vacant (h : Settles w s s' l x f) (htidy : s.Tidy) (hf : f.retry = none) :
    (ledger s'.shared.store).Vacant x.seq := by
  rw [h.ledger_removed htidy hf]
  exact (h.inHand htidy).vacant_remove

theorem waits (h : Settles w s s' l x f) (htidy : s.Tidy) {n : UInt32} {u : Instant}
    (hf : f.retry = some (n, u)) (hk : (ledger s.shared.store).Keeps x) :
    s'.Waits (x.postponed n u) := by
  unfold Waits
  rw [h.ledger_postponed htidy hf]
  exact ⟨hk.postpone n u, Ledger.not_mem_claimed_drop _ _⟩

end Settles

end System

end LaneQueue
