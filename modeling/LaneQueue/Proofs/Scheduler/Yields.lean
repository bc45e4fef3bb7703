import LaneQueue.Proofs.Scheduler.Breakdown
import LaneQueue.Proofs.Scheduler.Settlement
import LaneQueue.Proofs.Scheduler.Steering
/-!
# What the steps of a run yield

A run is also told by what its steps bring one after the other: the records that the worker of a lane
claims (`System.claims`), those that are stored for submissions (`System.storings`). Only a worker that
is about to claim claims, and then it has a record in hand, so a bound on how often it comes to that
point is a bound on its claims (`System.claims_step`).
-/
namespace LaneQueue

namespace System

variable {σ W : Type} [QueueStore σ] {w : Wiring W} {s s' s₀ : System σ W} {a : Action} {l : Lane}

section Yields

variable {β : Type} {f : System σ W → Action → Option β} {as bs : List Action}

/-- What the steps of a run yield, in their order. -/
def yields (w : Wiring W) (f : System σ W → Action → Option β) :
    List Action → System σ W → List β
  | [], _ => []
  | a :: as, s =>
    match s.step w a with
    | none => []
    | some s' => (f s a).toList ++ yields w f as s'

theorem yields_append (h : s₀.steps w as = some s) :
    s₀.yields w f (as ++ bs) = s₀.yields w f as ++ s.yields w f bs := by
  induction as generalizing s₀ with
  | nil => cases h; rfl
  | cons a as ih =>
    simp only [steps] at h
    split at h
    · cases h
    · rename_i t ht
      simp only [List.cons_append, yields, ht, ih h, List.append_assoc]

theorem yields_singleton (hstep : s.step w a = some s') : s.yields w f [a] = (f s a).toList := by
  simp [yields, hstep]

theorem yields_snoc (h : s₀.steps w as = some s) (hstep : s.step w a = some s') :
    s₀.yields w f (as ++ [a]) = s₀.yields w f as ++ (f s a).toList := by
  rw [yields_append h, yields_singleton hstep]

/-- Whatever a run yields is yielded by one of its steps. -/
theorem exists_of_mem_yields {x : β} (hrun : s₀.steps w as = some s) (hx : x ∈ s₀.yields w f as) :
    ∃ bs b u u', bs ++ [b] <+: as ∧ s₀.steps w bs = some u ∧ u.step w b = some u' ∧
      f u b = some x := by
  refine steps_induction (P := fun as _ => x ∈ s₀.yields w f as →
    ∃ bs b u u', bs ++ [b] <+: as ∧ s₀.steps w bs = some u ∧ u.step w b = some u' ∧
      f u b = some x) (fun hx => by cases hx) ?_ hrun hx
  intro as a t t' ht ih hstep hx
  rw [yields_snoc ht hstep, List.mem_append] at hx
  rcases hx with hx | hx
  · obtain ⟨bs, b, u, u', hpre, hrest⟩ := ih hx
    exact ⟨bs, b, u, u', hpre.trans (List.prefix_append as [a]), hrest⟩
  · exact ⟨as, a, t, t', List.prefix_rfl, ht, hstep, Option.mem_toList.1 hx⟩

theorem mem_yields {b : Action} {u u' : System σ W} {x : β} (hpre : bs ++ [b] <+: as)
    (hu : s₀.steps w bs = some u) (hstep : u.step w b = some u') (hx : f u b = some x) :
    x ∈ s₀.yields w f as := by
  obtain ⟨cs, rfl⟩ := hpre
  rw [yields_append (steps_snoc.2 ⟨u, hu, hstep⟩), yields_snoc hu hstep, hx]
  simp

/-- Whether every step of a possible run is taken in a certain way can be found out by going through
it. -/
theorem throughout_of_yields {Q : System σ W → Action → Prop} [∀ u b, Decidable (Q u b)]
    (hrun : s₀.steps w as = some s)
    (h : s₀.yields w (fun u b => if Q u b then none else some b) as = []) : Throughout w s₀ as Q := by
  intro bs b u hpre hu
  by_contra hno
  obtain ⟨cs, rfl⟩ := hpre
  rw [steps_append] at hrun
  obtain ⟨u', hu', -⟩ := Option.bind_eq_some_iff.1 hrun
  obtain ⟨v, hv, hstep⟩ := steps_snoc.1 hu'
  cases hu.symm.trans hv
  have hb : b ∈ s₀.yields w (fun u b => if Q u b then none else some b) (bs ++ [b] ++ cs) :=
    mem_yields (List.prefix_append _ cs) hu hstep (if_neg hno)
  rw [h] at hb
  cases hb

end Yields

/-! ## Claims -/

/-- What the store answers to a claim of the worker of a lane, if an action makes one. -/
def answer? (l : Lane) (s : System σ W) (a : Action) : Option (Option Record) :=
  if s.operation? a = some (.nextEligible l) then
    (QueueStore.nextEligible l s.shared.now s.shared.store).1.toOption
  else none

theorem answer?_eq_some {x : Option Record} : s.answer? l a = some x ↔
    s.operation? a = some (.nextEligible l) ∧
      (QueueStore.nextEligible l s.shared.now s.shared.store).1 = .ok x := by
  unfold answer?
  split
  · rename_i h
    simp only [h, true_and]
    cases (QueueStore.nextEligible l s.shared.now s.shared.store).1 <;> simp [Except.toOption]
  · rename_i h
    simp [h]

/-- The record that an action claims for the worker of a lane. -/
def claimed? (l : Lane) (s : System σ W) (a : Action) : Option Record := (s.answer? l a).join

theorem claimed?_eq_some {r : Record} : s.claimed? l a = some r ↔ s.answer? l a = some (some r) :=
  Option.join_eq_some_iff

/-- The records that the worker of a lane claims in a run, in their order. -/
def claims (w : Wiring W) (l : Lane) (as : List Action) (s : System σ W) : List Record :=
  s.yields w (claimed? l) as

/-- What the claims of the worker of a lane are answered in a run; nothing, if nothing is due. -/
def answers (w : Wiring W) (l : Lane) (as : List Action) (s : System σ W) : List (Option Record) :=
  s.yields w (answer? l) as

theorem claim_of_answer? {x : Option Record} (h : s.answer? l a = some x) :
    ∃ signal fault t, a = .work l signal fault ∧ s.workers.get l = .claim t :=
  have ⟨signal, fault, t, ha, hp, _⟩ := operation?_eq_nextEligible (answer?_eq_some.1 h).1
  ⟨signal, fault, t, ha, hp⟩

theorem decode_of_claimed? (hstep : s.step w a = some s') {r : Record}
    (h : s.claimed? l a = some r) : s'.workers.get l = .decode r :=
  have ⟨hop, hr⟩ := answer?_eq_some.1 (claimed?_eq_some.1 h)
  decode_of_claimed hstep hop hr

theorem claimed?_of_decode (hstep : s.step w a = some s')
    (hop : s.operation? a = some (.nextEligible l)) {r : Record}
    (hp : s'.workers.get l = .decode r) : s.claimed? l a = some r := by
  rcases comesBy_cases hstep (l := l) (by rw [hp]; rfl) with hold | ⟨-, -, hr⟩
  · obtain ⟨signal, fault, t, -, ht, -⟩ := operation?_eq_nextEligible hop
    rw [ht] at hold
    cases hold
  · exact claimed?_eq_some.2 (answer?_eq_some.2 ⟨hop, hr⟩)

/-- **A claim is paid for**: if a worker claims at certain points only, where it has nothing in hand, and
a step does not lead it there from elsewhere, then a claim takes it away from them. -/
theorem claims_step {Q : Point W → Bool} (hclaim : ∀ t, Q (.claim t) = true)
    (hdecode : ∀ r, Q (.decode r) = false) (hstep : s.step w a = some s')
    (hstay : Q (s.workers.get l) = false → Q (s'.workers.get l) = false) :
    (s.claimed? l a).toList.length + (Q (s'.workers.get l)).toNat ≤ (Q (s.workers.get l)).toNat := by
  cases h : s.claimed? l a with
  | none =>
    simp only [Option.toList_none, List.length_nil, Nat.zero_add]
    cases hq : Q (s.workers.get l) with
    | true => exact Bool.toNat_le _
    | false => exact Nat.le_of_eq (congrArg Bool.toNat (hstay hq))
  | some r =>
    obtain ⟨signal, fault, t, -, hp⟩ := claim_of_answer? (claimed?_eq_some.1 h)
    simp [hp, hclaim, decode_of_claimed? hstep h, hdecode]

/-- So throughout a run whose steps never lead the worker to one of these points from elsewhere, it
claims once at most, and not at all if it stands elsewhere at first. -/
theorem claims_of_stays {Q : Point W → Bool} (hclaim : ∀ t, Q (.claim t) = true)
    (hdecode : ∀ r, Q (.decode r) = false) {as : List Action}
    (hstay : Throughout w s₀ as fun u b =>
      ∀ u', u.step w b = some u' → Q (u.workers.get l) = false → Q (u'.workers.get l) = false)
    (hrun : s₀.steps w as = some s) :
    (s₀.claims w l as).length ≤ 1 ∧ (Q (s₀.workers.get l) = false → s₀.claims w l as = []) := by
  have hle : (s₀.claims w l as).length + (Q (s.workers.get l)).toNat ≤
      (Q (s₀.workers.get l)).toNat := by
    refine steps_induction_throughout (w := w) (P := fun as t =>
      (s₀.claims w l as).length + (Q (t.workers.get l)).toNat ≤ (Q (s₀.workers.get l)).toNat)
      (by simp [claims, yields]) ?_ hstay hrun
    intro as b t t' ht hb ih hstep
    have hone := claims_step hclaim hdecode hstep (hb t' hstep)
    have hsnoc : s₀.claims w l (as ++ [b]) = s₀.claims w l as ++ (t.claimed? l b).toList :=
      yields_snoc ht hstep
    rw [hsnoc, List.length_append]
    omega
  constructor
  · have := Bool.toNat_le (Q (s₀.workers.get l))
    omega
  · intro hq
    rw [hq, Bool.toNat_false] at hle
    exact List.eq_nil_of_length_eq_zero (by omega)

/-- A worker that has broken down claims nothing more. -/
theorem claims_of_collapsed {x : Record} {as : List Action} (hp : s₀.workers.get l = .collapsed x)
    (hrun : s₀.steps w as = some s) : s₀.claims w l as = [] := by
  refine List.eq_nil_iff_forall_not_mem.2 fun y hy => ?_
  obtain ⟨bs, b, u, u', -, hu, hstep, hclaim⟩ := exists_of_mem_yields hrun hy
  have hdecode := decode_of_claimed? hstep hclaim
  rw [collapsed_step (collapsed_steps hp hu) hstep] at hdecode
  cases hdecode

/-! ## Records that wait -/

section Waits

variable [LawfulStore σ] {r : Record} {as : List Action}

/-- Nobody has the record at its place in hand. -/
def OutOfHand (s : System σ W) (r : Record) : Prop :=
  ∀ l x, (s.workers.get l).record? = some x → x.seq ≠ r.seq

/-- A waiting record that is taken away is claimed or displaced. -/
theorem Takes.claimed_or_displaces (h : Takes s s' r a) (hw : s.Waits r)
    (hstep : s.step w a = some s') : s.claimed? r.lane a = some r ∨ s.Displaces r a := by
  cases h with
  | claimed hop hp => exact .inl (claimed?_of_decode hstep hop hp)
  | replaced hop hid => exact .inr (.replaced hop hid)
  | cleared hop => exact .inr (.cleared hop hw.2)

/-- **A waiting record** waits until the worker of its lane claims it or it is displaced. -/
theorem Tidy.waits_or_claimed (h : s₀.Tidy) (hw : s₀.Waits r) (hn : s₀.OutOfHand r)
    (hrun : s₀.steps w as = some s) :
    s.Waits r ∨ r ∈ s₀.claims w r.lane as ∨ DisplacedIn w s₀ as r := by
  rcases h.waits_or_takenIn hw hn hrun with hwaits | ⟨bs, b, u, u', hpre, hu, hstep, hwu, htakes⟩
  · exact .inl hwaits
  · rcases htakes.claimed_or_displaces hwu hstep with hclaim | hdis
    · exact .inr (.inl (mem_yields hpre hu hstep hclaim))
    · exact .inr (.inr (.of_keeps hpre hu hwu.1 hdis))

end Waits

/-! ## Submissions -/

/-- The records that are stored for submissions in a run, in their order. -/
def storings (w : Wiring W) (as : List Action) (s : System σ W) : List Record :=
  s.yields w accepted? as

end System

end LaneQueue
