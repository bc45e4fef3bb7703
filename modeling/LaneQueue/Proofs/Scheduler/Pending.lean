import LaneQueue.Proofs.Scheduler.Yields
import LaneQueue.Proofs.Store.Lineup
/-!
# Emptying a lane

`System.pending` is what the worker of a lane has still to claim: the stored records of the lane that it
has not in hand. While nobody brings a record or takes one away, and no record is given back, a step
changes it by what it claims (`System.Tidy.mem_pending_step`), and a claim answers its first record. So
what has been claimed and what is pending, in the order of service, is the same line all the time.
-/
namespace LaneQueue

/-- Whether a worker lets go of its record without removing it: the record is set back for another
attempt, or its settlement has failed. -/
def Point.givesBack {W : Type} : Point W → Bool
  | settle _ f _ => f.retry.isSome
  | release .. => true
  | _ => false

/-- Whether an operation takes a stored record away that nobody settles. -/
def Operation.displaces (l : Ledger) (r : Record) : Operation → Bool
  | .submit c .replace => c.identity == r.identity
  | .purgeLane lane => lane == r.lane && !l.claimed.contains r.seq
  | _ => false

namespace System

open LawfulStore (ledger)

variable {σ W : Type} [QueueStore σ] [LawfulStore σ] {w : Wiring W} {s s' s₀ t : System σ W}
  {a : Action} {l : Lane} {r : Record} {as : List Action}

/-! ## Where the rows of a lane come from -/

/-- A row of a lane was there before, or a submission has just stored it, or the worker of the lane has
set it back. -/
theorem Tidy.row_step (h : s.Tidy) (hstep : s.step w a = some s') {row : Row}
    (hrow : row ∈ (ledger s'.shared.store).rows) (hl : row.lane = l.index) :
    row ∈ (ledger s.shared.store).rows ∨
      (∃ r, s.accepted? a = some r ∧ row = .ofRecord r ∧ r.availableAt = s.shared.now) ∨
      ∃ x f t, s.workers.get l = .settle x f t ∧ f.retry.isSome = true := by
  rw [step_store hstep] at hrow
  cases hop : s.operation? a with
  | none =>
    rw [hop] at hrow
    exact .inl hrow
  | some op =>
    rw [hop] at hrow
    rcases (LawfulStore.edit_run h.sound op _).mem_rows_cases hrow with
      hold | ⟨c, hnew, hc | ⟨p, rfl⟩⟩ | ⟨x, n, u, rfl, y, hy, howns, rfl⟩
    · exact .inl hold
    · exact absurd hc ((operation?_ne_insert_delete hop).1 c)
    · refine .inr (.inl ⟨_, ?_, hnew, rfl⟩)
      rw [hnew] at hrow
      unfold accepted?
      rw [hop]
      exact LawfulStore.created?_of_next h.sound hrow rfl (Row.shows_ofRecord _)
    · obtain ⟨m, f, -, ⟨t, hp, he⟩ | ⟨-, he⟩⟩ := settling_of_settled? hop rfl
      · -- the row at the place of the record in hand is of the lane of that record
        have hhand := h.inHand m x (by rw [hp]; rfl)
        have hlane := (hhand.carries y hy (Ledger.isRowOf_iff.1 howns).2).lane
        rw [hhand.lane] at hlane
        obtain rfl : m = l := Lane.index_inj (hlane.symm.trans hl)
        refine .inr (.inr ⟨x, f, t, hp, ?_⟩)
        unfold Fate.operation at he
        split at he
        · cases he
        · rename_i hretry
          rw [hretry]
          rfl
      · cases he

/-! ## Records that are stored and records that are pending -/

/-- The stored records of a lane. -/
def stored (s : System σ W) (l : Lane) : List Record :=
  (ledger s.shared.store).records.filter fun r => r.lane = l

/-- Those that the worker of the lane has not in hand. -/
def pending (s : System σ W) (l : Lane) : List Record :=
  (s.stored l).filter fun r => (s.workers.get l).record?.all fun x => x.seq ≠ r.seq

theorem mem_stored : r ∈ s.stored l ↔ (ledger s.shared.store).Keeps r ∧ r.lane = l := by
  simp [stored, Ledger.mem_records]

theorem mem_pending : r ∈ s.pending l ↔
    r ∈ s.stored l ∧ ∀ x, (s.workers.get l).record? = some x → x.seq ≠ r.seq := by
  simp [pending, Option.all_eq_true]

theorem Tidy.nodup_stored (h : s.Tidy) (l : Lane) : ((s.stored l).map (·.seq)).Nodup :=
  h.sound.nodup_records.sublist (List.filter_sublist.map _)

theorem Tidy.nodup_pending (h : s.Tidy) (l : Lane) : ((s.pending l).map (·.seq)).Nodup :=
  (h.nodup_stored l).sublist (List.filter_sublist.map _)

/-- All that is stored is pending while the worker has nothing in hand. -/
theorem pending_of_free (h : (s.workers.get l).record? = none) : s.pending l = s.stored l := by
  simp [pending, h]

/-- Stored records at one place are the same record. -/
theorem Tidy.eq_of_stored (h : s.Tidy) {x y : Record} (hx : (ledger s.shared.store).Keeps x)
    (hy : (ledger s.shared.store).Keeps y) (hq : x.seq = y.seq) : x = y := by
  obtain ⟨row, hrow, hx⟩ := hx
  obtain ⟨row', hrow', hy⟩ := hy
  obtain rfl := h.sound.eq_of_seq hrow hrow' (hx.seq.trans (hq.trans hy.seq.symm))
  exact hx.unique hy

/-- No other worker has a pending record in hand, and it is claimed for nobody. -/
theorem Tidy.not_claimed_of_pending (h : s.Tidy) (hh : s.Held) (hr : r ∈ s.pending l) :
    r.seq ∉ (ledger s.shared.store).claimed := by
  obtain ⟨hstored, hfree⟩ := mem_pending.1 hr
  obtain ⟨⟨row, hrow, hshows⟩, rfl⟩ := mem_stored.1 hstored
  intro hq
  obtain ⟨m, x, hx, hseq⟩ := hh _ hq
  have hhand := h.inHand m x hx
  have hlane := (hhand.carries row hrow (hshows.seq.trans hseq.symm)).lane
  rw [hshows.lane, hhand.lane] at hlane
  obtain rfl := Lane.index_inj hlane
  exact hfree x hx hseq

/-! ## A step of a drain -/

/-- An action stores a command in a lane, or takes a record of the lane away from outside. -/
inductive Touches (l : Lane) (s : System σ W) (a : Action) : Prop
  | stores {r : Record} : s.accepted? a = some r → r.lane = l → Touches l s a
  | displaces {r : Record} : r ∈ s.stored l → s.Displaces r a → Touches l s a

/-- Nothing happens to the records of a lane but that its worker executes them to their end. -/
structure Emptying (l : Lane) (s : System σ W) (a : Action) : Prop where
  untouched : ¬ s.Touches l a
  atOnce : (s.workers.get l).givesBack = false

theorem displaces_iff : s.Displaces r a ↔
    (s.operation? a).any (·.displaces (ledger s.shared.store) r) = true := by
  constructor
  · intro h
    cases h with
    | replaced hop hid => simp [hop, Operation.displaces, hid]
    | cleared hop hfree => simp [hop, Operation.displaces, hfree]
  · intro h
    obtain ⟨op, hop, h⟩ := (Option.any_eq_true _ _).1 h
    unfold Operation.displaces at h
    split at h
    · exact .replaced hop (by simpa using h)
    · simp only [Bool.and_eq_true, beq_iff_eq, Bool.not_eq_true', List.contains_eq_mem,
        decide_eq_false_iff_not] at h
      exact .cleared (h.1 ▸ hop) h.2
    · cases h

instance : Decidable (s.Displaces r a) := decidable_of_iff _ displaces_iff.symm

theorem touches_iff : s.Touches l a ↔
    (∃ r ∈ (s.accepted? a).toList, r.lane = l) ∨ ∃ r ∈ s.stored l, s.Displaces r a := by
  constructor
  · intro h
    cases h with
    | stores hacc hl => exact .inl ⟨_, Option.mem_toList.2 hacc, hl⟩
    | displaces hr hd => exact .inr ⟨_, hr, hd⟩
  · rintro (⟨r, hacc, hl⟩ | ⟨r, hr, hd⟩)
    · exact .stores (Option.mem_toList.1 hacc) hl
    · exact .displaces hr hd

instance : Decidable (s.Touches l a) := decidable_of_iff _ touches_iff.symm

theorem emptying_iff :
    s.Emptying l a ↔ ¬ s.Touches l a ∧ (s.workers.get l).givesBack = false :=
  ⟨fun h => ⟨h.untouched, h.atOnce⟩, fun h => ⟨h.1, h.2⟩⟩

instance : Decidable (s.Emptying l a) := decidable_of_iff _ emptying_iff.symm

/-- A worker that lets go of a record then has removed it. -/
theorem Emptying.vacant (he : s.Emptying l a) (h : s.Tidy) (hapart : s.Apart)
    (hstep : s.step w a = some s') {x : Record} (hx : (s.workers.get l).record? = some x)
    (hx' : (s'.workers.get l).record? ≠ some x) : (ledger s'.shared.store).Vacant x.seq := by
  rcases letsGo_cases hstep hx with hstill | ⟨op, hop, hset⟩
  · exact absurd hstill hx'
  obtain ⟨m, f, ha, ⟨t, hp, -⟩ | ⟨hp, -⟩⟩ := settling_of_settled? hop hset
  · obtain rfl : l = m := hapart l m x x hx (by rw [hp]; rfl) rfl
    obtain ⟨signal, fault, rfl⟩ := Action.eq_work_of_lane? ha
    have hretry : f.retry = none := by
      have hatOnce := he.atOnce
      rw [hp] at hatOnce
      exact Option.not_isSome_iff_eq_none.1 (by simpa [Point.givesBack] using hatOnce)
    have hown := worker_own hstep
    rw [hp] at hown
    rcases Point.settle_cases hown with ⟨-, ⟨t', hp'⟩ | ⟨hp', -⟩ | hp'⟩
    · exact absurd (by rw [hp']; rfl) hx'
    · exact (settles_of_publish hp hstep hp').vacant h hretry
    · exact absurd (by rw [hp']; rfl) hx'
  · obtain rfl : l = m := hapart l m x x hx (by rw [hp]; rfl) rfl
    have hatOnce := he.atOnce
    rw [hp] at hatOnce
    cases hatOnce

/-- No record comes to a lane. -/
theorem Emptying.keeps_of_step (he : s.Emptying l a) (h : s.Tidy) (hstep : s.step w a = some s')
    (hr : r ∈ s'.stored l) : r ∈ s.stored l := by
  obtain ⟨⟨row, hrow, hshows⟩, rfl⟩ := mem_stored.1 hr
  rcases h.row_step hstep hrow hshows.lane with hold | ⟨x, hacc, rfl, -⟩ | ⟨x, f, t, hp, hretry⟩
  · exact mem_stored.2 ⟨⟨row, hold, hshows⟩, rfl⟩
  · exact absurd (.stores hacc (Lane.index_inj hshows.lane)) he.untouched
  · have hatOnce := he.atOnce
    rw [hp] at hatOnce
    cases hretry.symm.trans hatOnce

/-- **A step of a drain** takes away from what is pending just what it claims. -/
theorem Emptying.mem_pending_step (he : s.Emptying l a) (h : s.Tidy) (hapart : s.Apart)
    (hstep : s.step w a = some s') :
    r ∈ s'.pending l ↔ r ∈ s.pending l ∧ s.claimed? l a ≠ some r := by
  constructor
  · intro hr
    obtain ⟨hstored', hfree'⟩ := mem_pending.1 hr
    obtain ⟨⟨row, hrow, hshows⟩, -⟩ := mem_stored.1 hstored'
    refine ⟨mem_pending.2 ⟨he.keeps_of_step h hstep hstored', fun x hx hq => ?_⟩, fun hclaim => ?_⟩
    · -- the worker cannot have let go of the record
      have hvacant := he.vacant h hapart hstep hx fun hx' => hfree' x hx' hq
      exact hvacant.empty row hrow (hshows.seq.trans hq.symm)
    · exact hfree' r (by rw [decode_of_claimed? hstep hclaim]; rfl) rfl
  · rintro ⟨hr, hclaim⟩
    obtain ⟨hstored, hfree⟩ := mem_pending.1 hr
    obtain ⟨hkeeps, rfl⟩ := mem_stored.1 hstored
    have hkeeps' : (ledger s'.shared.store).Keeps r := by
      rcases h.keeps_step hkeeps hstep fun hd => he.untouched (.displaces hstored hd) with
        hkeeps' | ⟨m, y, f, t, -, hp, hq⟩
      · exact hkeeps'
      · have hy : (s.workers.get m).record? = some y := by rw [hp]; rfl
        obtain ⟨row, hrow, hshows⟩ := hkeeps
        have hhand := h.inHand m y hy
        have hlane := (hhand.carries row hrow (hshows.seq.trans hq.symm)).lane
        rw [hshows.lane, hhand.lane] at hlane
        obtain rfl := Lane.index_inj hlane
        exact absurd hq (hfree y hy)
    refine mem_pending.2 ⟨mem_stored.2 ⟨hkeeps', rfl⟩, fun x hx hq => ?_⟩
    rcases comesBy_cases hstep hx with hold | ⟨-, hop, hx⟩
    · exact hfree x hold hq
    · -- only the claim of the record puts one at its place into the hand
      obtain ⟨row, hrow, hshows, -⟩ := h.claims_due hx
      obtain rfl := h.eq_of_stored ⟨row, hrow, hshows⟩ hkeeps hq
      exact hclaim (claimed?_eq_some.2 (answer?_eq_some.2 ⟨hop, hx⟩))

/-! ## What is claimed first -/

/-- Whatever is pending in a lane may be claimed now. -/
def Ready (s : System σ W) (l : Lane) : Prop := ∀ r ∈ s.pending l, r.availableAt ≤ s.shared.now

theorem Emptying.ready_step (he : s.Emptying l a) (h : s.Tidy) (hapart : s.Apart)
    (hready : s.Ready l) (hstep : s.step w a = some s') : s'.Ready l := by
  intro r hr
  have hdue := hready r ((he.mem_pending_step h hapart hstep).1 hr).1
  exact Int.le_trans hdue (h.now_le_step hstep)

/-- A pending row is due if its record may be claimed. -/
theorem Tidy.isDue_of_pending (h : s.Tidy) (hh : s.Held) (hready : s.Ready l)
    (hr : r ∈ s.pending l) : ∃ row ∈ (ledger s.shared.store).rows, row.Shows r ∧
      (ledger s.shared.store).isDue l s.shared.now row = true := by
  have hfree := h.not_claimed_of_pending hh hr
  obtain ⟨⟨row, hrow, hshows⟩, hlane⟩ := mem_stored.1 (mem_pending.1 hr).1
  refine ⟨row, hrow, hshows, Ledger.isDue_iff.2 ⟨hlane ▸ hshows.lane, hshows.seq ▸ hfree, ?_⟩⟩
  rw [hshows.availableAt]
  exact hready r hr

/-- **A claim answers the first of the pending records**. -/
theorem Tidy.first_of_claimed (h : s.Tidy) (hh : s.Held) (hready : s.Ready l)
    (hclaim : s.claimed? l a = some r) :
    r ∈ s.pending l ∧ ∀ x ∈ s.pending l, r.servesBefore x = true := by
  obtain ⟨signal, fault, t, -, hp⟩ := claim_of_answer? (claimed?_eq_some.1 hclaim)
  have hlaw := LawfulStore.nextEligible h.sound l s.shared.now
  rw [(answer?_eq_some.1 (claimed?_eq_some.1 hclaim)).2] at hlaw
  obtain ⟨row, hfirst, hshows, -⟩ := hlaw
  have hlane : r.lane = l :=
    Lane.index_inj (hshows.lane.symm.trans (Ledger.isDue_iff.1 hfirst.holds).1)
  have hfree : (s.workers.get l).record? = none := by rw [hp]; rfl
  refine ⟨?_, fun x hx => ?_⟩
  · rw [pending_of_free hfree]
    exact mem_stored.2 ⟨⟨row, hfirst.mem, hshows⟩, hlane⟩
  · obtain ⟨row', hrow', hshows', hdue⟩ := h.isDue_of_pending hh hready hx
    exact Record.servesBefore_of_shows hshows hshows' (hfirst.least row' hrow' hdue)

/-- Nothing is pending if nothing is due. -/
theorem Tidy.pending_eq_nil (h : s.Tidy) (hh : s.Held) (hready : s.Ready l)
    (hnone : ∀ row ∈ (ledger s.shared.store).rows,
      (ledger s.shared.store).isDue l s.shared.now row = false) : s.pending l = [] := by
  refine List.eq_nil_iff_forall_not_mem.2 fun r hr => ?_
  obtain ⟨row, hrow, -, hdue⟩ := h.isDue_of_pending hh hready hr
  rw [hnone row hrow] at hdue
  cases hdue

/-! ## A drain -/

/-- What is pending at first stands in line: what a step claims, and then what is pending after it. -/
theorem Emptying.inOrder_step (he : s.Emptying l a) (h : s.Tidy) (hapart : s.Apart)
    (hh : (s.shared.cell l).spawned = true → s.Held) (hready : s.Ready l)
    (hstep : s.step w a = some s') :
    (s.claimed? l a).toList ++ Record.inOrder (s'.pending l) = Record.inOrder (s.pending l) := by
  have hmem := fun r => he.mem_pending_step (r := r) h hapart hstep
  have hnodup := (h.step hstep).nodup_pending l
  cases hclaim : s.claimed? l a with
  | none =>
    refine Record.inOrder_eq_of_mem hnodup (h.nodup_pending l) fun r => ?_
    simp [hmem, hclaim]
  | some x =>
    obtain ⟨signal, fault, t, rfl, hp⟩ := claim_of_answer? (claimed?_eq_some.1 hclaim)
    have hsp := h.spawned_of_ne_top (l := l) (by rw [hp]; exact nofun)
    obtain ⟨hx, hleast⟩ := h.first_of_claimed (hh hsp) hready hclaim
    have hne : x.seq ∉ (s'.pending l).map (·.seq) := by
      intro hq
      obtain ⟨r, hr, hq⟩ := List.mem_map.1 hq
      obtain ⟨hold, hne⟩ := (hmem r).1 hr
      have hr := (mem_stored.1 (mem_pending.1 hold).1).1
      have hx := (mem_stored.1 (mem_pending.1 hx).1).1
      exact hne (by rw [hclaim, h.eq_of_stored hr hx hq])
    have hcons : ((x :: s'.pending l).map (·.seq)).Nodup := List.nodup_cons.2 ⟨hne, hnodup⟩
    have hline : Record.inOrder (x :: s'.pending l) = x :: Record.inOrder (s'.pending l) :=
      Record.inOrder_cons (fun r hr => hleast r ((hmem r).1 hr).1) hcons
    rw [Option.toList_some, List.singleton_append, ← hline]
    refine Record.inOrder_eq_of_mem hcons (h.nodup_pending l) fun r => ?_
    rw [List.mem_cons, hmem, hclaim]
    by_cases hrx : r = x
    · simp [hrx, hx]
    · simp [hrx, Ne.symm hrx]

/-- What a drain needs to know of the moment at which it begins. -/
structure Drainable (w : Wiring W) (s₀ : System σ W) (l : Lane) : Prop where
  tidy : s₀.Tidy
  apart : s₀.Apart
  ready : s₀.Ready l
  held : ∀ as s, s₀.steps w as = some s → (s.shared.cell l).spawned = true → s.Held

namespace Drainable

theorem step (hd : Drainable w s l) (he : s.Emptying l a) (hstep : s.step w a = some s') :
    Drainable w s' l where
  tidy := hd.tidy.step hstep
  apart := hd.tidy.apart_step hd.apart hstep
  ready := he.ready_step hd.tidy hd.apart hd.ready hstep
  held as t ht := hd.held (a :: as) t (by simp only [steps, hstep]; exact ht)

/-- **A drain**: what it claims, and then what is still pending, is what was pending at first, in the
order of service. -/
theorem steps (hd : Drainable w s₀ l) (hempty : Throughout w s₀ as (Emptying l))
    (hrun : s₀.steps w as = some s) : Drainable w s l ∧
      s₀.claims w l as ++ Record.inOrder (s.pending l) = Record.inOrder (s₀.pending l) := by
  refine steps_induction_throughout (P := fun as t => Drainable w t l ∧
    s₀.claims w l as ++ Record.inOrder (t.pending l) = Record.inOrder (s₀.pending l))
    ⟨hd, rfl⟩ ?_ hempty hrun
  rintro as a t t' ht he ⟨hdt, hline⟩ hstep
  refine ⟨hdt.step he hstep, ?_⟩
  have hsnoc : s₀.claims w l (as ++ [a]) = s₀.claims w l as ++ (t.claimed? l a).toList :=
    yields_snoc ht hstep
  rw [hsnoc, List.append_assoc,
    he.inOrder_step hdt.tidy hdt.apart (hdt.held [] t rfl) hdt.ready hstep]
  exact hline

/-- Once nothing is pending nothing is, and nothing is claimed. -/
theorem of_pending_eq_nil (hd : Drainable w s₀ l) (hempty : Throughout w s₀ as (Emptying l))
    (hrun : s₀.steps w as = some s) (h₀ : s₀.pending l = []) :
    s₀.claims w l as = [] ∧ s.pending l = [] := by
  have hline := (hd.steps hempty hrun).2
  rw [h₀, Record.inOrder_eq_nil.2 rfl, List.append_eq_nil_iff, Record.inOrder_eq_nil] at hline
  exact hline

end Drainable

end System

end LaneQueue
