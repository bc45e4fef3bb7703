import LaneQueue.Proofs.Store.Memory
import LaneQueue.Proofs.Store.Table
/-!
# Two stores that cannot be told apart

A law leaves at most one answer and one ledger to a call that succeeds, and an open store with
readable rows fails only where an identity is taken. So two lawful stores that start with one ledger
give the same answers for ever. The store in memory and the table are such a pair, as long as no
claims are forgotten: a table then sets its order back, which the store in memory does not.
-/
namespace LaneQueue

/-- Whether both stores take a call alike. An instant is one of the calendar. -/
def Operation.isShared : Operation → Bool
  | .recover => false
  | .reschedule _ _ t => Row.isInstant t
  | _ => true

/-! ## Rows stay readable -/

namespace Row

/-- Setting the failed attempts and the next instant leaves a row readable. -/
theorem readable_postponed {row : Row} (h : ∃ r, row.toRecord = .ok r) (n : UInt32) {t : Instant}
    (ht : isInstant t) :
    ∃ r, ({ row with retryCount := n.toNat, availableAt := t } : Row).toRecord = .ok r := by
  obtain ⟨r, hr⟩ := h
  have hl := (shows_of_toRecord hr).lane
  have hp := (shows_of_toRecord hr).priority
  have hle := r.priority.toNat_le
  unfold toRecord
  rw [if_neg (by simp only [hp]; omega), if_neg (by simpa using ht)]
  simp only [hl, Lane.ofIndex_index]
  exact ⟨_, rfl⟩

end Row

namespace Ledger

variable {l : Ledger}

theorem Readable.filter (h : l.Readable) (p : Row → Bool) :
    Readable { l with rows := l.rows.filter p } :=
  fun row hr => h row (List.mem_of_mem_filter hr)

theorem Readable.add (h : l.Readable) (c : NewCommand) {now : Instant} (hn : Row.isInstant now) :
    (l.add c now).Readable := by
  intro row hr
  rcases List.mem_append.1 hr with hr | hr
  · exact h row hr
  · obtain rfl := List.mem_singleton.1 hr
    exact ⟨l.fresh c now, Row.toRecord_ofRecord hn⟩

theorem Readable.postpone (h : l.Readable) (r : Record) (n : UInt32) {t : Instant}
    (ht : Row.isInstant t) : (l.postpone r n t).Readable := by
  intro row hr
  obtain ⟨x, hx, rfl⟩ := List.mem_map.1 hr
  split
  · exact Row.readable_postponed (h x hx) n ht
  · exact h x hx

/-- A call at an instant of the calendar leaves all rows readable. -/
theorem Edit.readable (h : l.Readable) {now : Instant} (hn : Row.isInstant now) {op : Operation}
    (hop : op.isShared) {l' : Ledger} (he : l.Edit now op l') : l'.Readable := by
  cases he with
  | insert | submit => exact h.add _ hn
  | replace => exact (h.filter _).add _ hn
  | postpone r n t => exact Readable.postpone (l := l.drop r.seq) h r n hop
  | delete | remove | purge => exact h.filter _
  | same | claim | keep | leave | release => exact h
  | recover => cases hop

/-! ## One answer to a call that succeeds -/

theorem Finds.holds {identity : String} {r : Record} (h : l.Finds identity r) :
    l.Holds identity := by
  obtain ⟨row, hr, hi, -⟩ := h
  exact ⟨row, hr, hi⟩

section Unique

variable (hs : l.Sound)
include hs

theorem Finds.unique {identity : String} {r r' : Record} (h : l.Finds identity r)
    (h' : l.Finds identity r') : r = r' := by
  obtain ⟨x, hx, hi, hr⟩ := h
  obtain ⟨y, hy, hj, hr'⟩ := h'
  obtain rfl := hs.eq_of_identity hx hy (hi.trans hj.symm)
  exact hr.unique hr'

/-- No two rows are first: places are unique. -/
theorem IsFirst.unique {p : Row → Bool} {x y : Row} (hx : l.IsFirst p x) (hy : l.IsFirst p y) :
    x = y := by
  have hxy := Row.servesBefore_iff.1 (hx.least y hy.mem hy.holds)
  have hyx := Row.servesBefore_iff.1 (hy.least x hx.mem hx.holds)
  exact hs.eq_of_seq hx.mem hy.mem (by omega)

theorem Submits.unique {c : NewCommand} {p : ConflictPolicy} {now : Instant} :
    ∀ {a b : Submission} {l₁ l₂ : Ledger}, l.Submits c p now (.ok a) l₁ →
      l.Submits c p now (.ok b) l₂ → a = b ∧ l₁ = l₂
  | .inserted _, .inserted _, _, _, ⟨_, hr, h⟩, ⟨_, hr', h'⟩ =>
    ⟨congrArg Submission.inserted (hr.trans hr'.symm), h.trans h'.symm⟩
  | .replaced _ _, .replaced _ _, _, _, ⟨_, hf, hr, h⟩, ⟨_, hf', hr', h'⟩ =>
    ⟨congr (congrArg Submission.replaced (hf.unique hs hf')) (hr.trans hr'.symm),
      h.trans h'.symm⟩
  | .kept _, .kept _, _, _, ⟨_, hf, h⟩, ⟨_, hf', h'⟩ =>
    ⟨congrArg Submission.kept (hf.unique hs hf'), h.trans h'.symm⟩
  | .refused _, .refused _, _, _, ⟨_, hf, h⟩, ⟨_, hf', h'⟩ =>
    ⟨congrArg Submission.refused (hf.unique hs hf'), h.trans h'.symm⟩
  | .inserted _, .replaced _ _, _, _, ⟨hn, _⟩, ⟨_, hf, _⟩
  | .inserted _, .kept _, _, _, ⟨hn, _⟩, ⟨_, hf, _⟩
  | .inserted _, .refused _, _, _, ⟨hn, _⟩, ⟨_, hf, _⟩
  | .replaced _ _, .inserted _, _, _, ⟨_, hf, _⟩, ⟨hn, _⟩
  | .kept _, .inserted _, _, _, ⟨_, hf, _⟩, ⟨hn, _⟩
  | .refused _, .inserted _, _, _, ⟨_, hf, _⟩, ⟨hn, _⟩ => absurd hf.holds hn
  | .replaced _ _, .kept _, _, _, ⟨hp, _⟩, ⟨hp', _⟩
  | .replaced _ _, .refused _, _, _, ⟨hp, _⟩, ⟨hp', _⟩
  | .kept _, .replaced _ _, _, _, ⟨hp, _⟩, ⟨hp', _⟩
  | .kept _, .refused _, _, _, ⟨hp, _⟩, ⟨hp', _⟩
  | .refused _, .replaced _ _, _, _, ⟨hp, _⟩, ⟨hp', _⟩
  | .refused _, .kept _, _, _, ⟨hp, _⟩, ⟨hp', _⟩ => by cases hp.symm.trans hp'

theorem Looks.unique {identity : String} :
    ∀ {a b : Option Record}, l.Looks identity (.ok a) → l.Looks identity (.ok b) → a = b
  | none, none, _, _ => rfl
  | some _, some _, h, h' => congrArg some (Finds.unique hs h h')
  | none, some _, hn, hf => absurd (Finds.holds hf) hn
  | some _, none, hf, hn => absurd (Finds.holds hf) hn

theorem Claims.unique {lane : Lane} {now : Instant} :
    ∀ {a b : Option Record} {l₁ l₂ : Ledger}, l.Claims lane now (.ok a) l₁ →
      l.Claims lane now (.ok b) l₂ → a = b ∧ l₁ = l₂
  | none, none, _, _, ⟨_, h⟩, ⟨_, h'⟩ => ⟨rfl, h.trans h'.symm⟩
  | some r, some r', _, _, ⟨x, hx, hr, h⟩, ⟨y, hy, hr', h'⟩ => by
    obtain rfl := hx.unique hs hy
    obtain rfl := hr.unique hr'
    exact ⟨rfl, h.trans h'.symm⟩
  | none, some _, _, _, ⟨hn, _⟩, ⟨x, hx, _⟩ => by
    have := hn x hx.mem
    rw [hx.holds] at this
    cases this
  | some _, none, _, _, ⟨x, hx, _⟩, ⟨hn, _⟩ => by
    have := hn x hx.mem
    rw [hx.holds] at this
    cases this

end Unique

theorem Inserts.unique {c : NewCommand} {now : Instant} {a b : Record} {l₁ l₂ : Ledger}
    (h : l.Inserts c now (.ok a) l₁) (h' : l.Inserts c now (.ok b) l₂) : a = b ∧ l₁ = l₂ :=
  ⟨h.2.1.trans h'.2.1.symm, h.2.2.trans h'.2.2.symm⟩

theorem Deletes.unique {identity : String} {a b : Bool} {l₁ l₂ : Ledger}
    (h : l.Deletes identity (.ok a) l₁) (h' : l.Deletes identity (.ok b) l₂) : a = b ∧ l₁ = l₂ :=
  ⟨Bool.eq_iff_iff.2 (h.1.trans h'.1.symm), h.2.trans h'.2.symm⟩

theorem Retires.unique {r : Record} {a b : Bool} {l₁ l₂ : Ledger}
    (h : l.Retires r (.ok a) l₁) (h' : l.Retires r (.ok b) l₂) : a = b ∧ l₁ = l₂ :=
  ⟨Bool.eq_iff_iff.2 (h.1.trans h'.1.symm), h.2.trans h'.2.symm⟩

theorem Reschedules.unique {r : Record} {n : UInt32} {t : Instant} {a b : Bool} {l₁ l₂ : Ledger}
    (h : l.Reschedules r n t (.ok a) l₁) (h' : l.Reschedules r n t (.ok b) l₂) :
    a = b ∧ l₁ = l₂ :=
  ⟨Bool.eq_iff_iff.2 (h.1.trans h'.1.symm), h.2.trans h'.2.symm⟩

theorem Purges.unique {lane : Lane} {a b : Nat} {l₁ l₂ : Ledger}
    (h : l.Purges lane (.ok a) l₁) (h' : l.Purges lane (.ok b) l₂) : a = b ∧ l₁ = l₂ :=
  ⟨h.1.trans h'.1.symm, h.2.trans h'.2.symm⟩

/-- An instant that is awaited is that of a row, and so one of the calendar. -/
theorem Awaits.eq_min (hr : l.Readable) {lane : Lane} {now : Instant} {t : Option Instant}
    (h : l.Awaits lane now (.ok t)) : t = (l.futures lane now).min? := by
  rcases h with h | ⟨-, x, hx, hn⟩
  · exact h
  · obtain ⟨row, hrow, rfl⟩ := List.mem_map.1 (List.min?_mem hx)
    obtain ⟨r, hrec⟩ := hr row (List.mem_of_mem_filter hrow)
    unfold Row.toRecord at hrec
    rw [hn] at hrec
    split at hrec <;> cases hrec

end Ledger

/-! ## Agreement -/

namespace LawfulStore

open Ledger

variable {σ τ : Type} [QueueStore σ] [QueueStore τ] [LawfulStore σ] [LawfulStore τ]

/-- Two open stores with one ledger, which is sound and readable. -/
structure Alike (s : σ) (t : τ) : Prop where
  same : ledger s = ledger t
  sound : (ledger s).Sound
  readable : (ledger s).Readable
  open_left : isOpen s
  open_right : isOpen t

variable {s : σ} {t : τ}

/-- Two calls agree if their law leaves one answer and both have succeeded. -/
theorem agree_of_unique {α : Type} {P : Except QueueError α → Ledger → Prop} {f : α → Answer}
    {x : Result σ α} {y : Result τ α} (hx : P x.1 (ledger x.2)) (hy : P y.1 (ledger y.2))
    (hu : ∀ {a b : α} {l₁ l₂ : Ledger}, P (.ok a) l₁ → P (.ok b) l₂ → a = b ∧ l₁ = l₂)
    (hfx : ∃ a, x.1.map f = .ok a) (hfy : ∃ a, y.1.map f = .ok a) :
    (x.1.map f).toOption = (y.1.map f).toOption ∧ ledger x.2 = ledger y.2 := by
  obtain ⟨_, hfx⟩ := hfx
  obtain ⟨_, hfy⟩ := hfy
  obtain ⟨a, ha, -⟩ := exists_of_map_eq_ok hfx
  obtain ⟨b, hb, -⟩ := exists_of_map_eq_ok hfy
  rw [ha] at hx ⊢
  rw [hb] at hy ⊢
  obtain ⟨rfl, hl⟩ := hu hx hy
  exact ⟨rfl, hl⟩

/-- An insertion fails in both stores if the identity is taken. -/
theorem Alike.insert_of_holds (h : Alike s t) {c : NewCommand} (hf : (ledger s).Holds c.identity)
    (now : Instant) :
    ((Operation.insert c).run now s).1.toOption = ((Operation.insert c).run now t).1.toOption ∧
      ledger ((Operation.insert c).run now s).2 = ledger ((Operation.insert c).run now t).2 := by
  have hx := LawfulStore.insert h.sound c now
  have hy := LawfulStore.insert (s := t) (h.same ▸ h.sound) c now
  rw [← h.same] at hy
  change ((QueueStore.insert c now s).1.map Answer.record).toOption =
      ((QueueStore.insert c now t).1.map Answer.record).toOption ∧
    ledger (QueueStore.insert c now s).2 = ledger (QueueStore.insert c now t).2
  cases ha : (QueueStore.insert c now s).1 with
  | ok a => rw [ha] at hx; exact absurd hf hx.1
  | error e =>
    cases hb : (QueueStore.insert c now t).1 with
    | ok b => rw [hb] at hy; exact absurd hf hy.1
    | error e' =>
      rw [ha] at hx
      rw [hb] at hy
      exact ⟨rfl, hx.trans hy.symm⟩

/-- **One call** on stores that are alike gives one answer and leaves one ledger. -/
theorem Alike.run_agree (h : Alike s t) (op : Operation) (hop : op.isShared) (now : Instant) :
    (op.run now s).1.toOption = (op.run now t).1.toOption ∧
      ledger (op.run now s).2 = ledger (op.run now t).2 := by
  obtain ⟨same, hs, hr, ho, ho'⟩ := h
  have ht : (ledger t).Sound := same ▸ hs
  by_cases hal : op.isAllowed (ledger s)
  · have ha := answers hs ho hr op now hal
    have hb := answers ht ho' (same ▸ hr) op now (same ▸ hal)
    cases op with
    | insert c =>
      exact agree_of_unique (LawfulStore.insert hs c now) (same ▸ LawfulStore.insert ht c now)
        Inserts.unique ha hb
    | submit c p =>
      exact agree_of_unique (LawfulStore.submit hs c p now)
        (same ▸ LawfulStore.submit ht c p now) (Submits.unique hs) ha hb
    | deleteByIdentity i =>
      exact agree_of_unique (LawfulStore.deleteByIdentity hs i)
        (same ▸ LawfulStore.deleteByIdentity ht i) Deletes.unique ha hb
    | findByIdentity i =>
      exact agree_of_unique (P := fun a l => (ledger s).Looks i a ∧ l = ledger s)
        (x := (QueueStore.findByIdentity i s, s)) (y := (QueueStore.findByIdentity i t, t))
        ⟨LawfulStore.findByIdentity hs i, rfl⟩
        ⟨same ▸ LawfulStore.findByIdentity ht i, same.symm⟩
        (fun h h' => ⟨h.1.unique hs h'.1, h.2.trans h'.2.symm⟩) ha hb
    | nextEligible l =>
      exact agree_of_unique (LawfulStore.nextEligible hs l now)
        (same ▸ LawfulStore.nextEligible ht l now) (Claims.unique hs) ha hb
    | retire r =>
      exact agree_of_unique (LawfulStore.retire hs r) (same ▸ LawfulStore.retire ht r)
        Retires.unique ha hb
    | reschedule r n x =>
      exact agree_of_unique (LawfulStore.reschedule hs r n x)
        (same ▸ LawfulStore.reschedule ht r n x) Reschedules.unique ha hb
    | release r =>
      refine ⟨rfl, ?_⟩
      change ledger (QueueStore.release r s) = ledger (QueueStore.release r t)
      rw [LawfulStore.release, LawfulStore.release, same]
    | pendingCount l =>
      exact agree_of_unique (P := fun a l' => (ledger s).Counts l a ∧ l' = ledger s)
        (x := (QueueStore.pendingCount l s, s)) (y := (QueueStore.pendingCount l t, t))
        ⟨LawfulStore.pendingCount hs l, rfl⟩
        ⟨same ▸ LawfulStore.pendingCount ht l, same.symm⟩
        (fun h h' => ⟨h.1.trans h'.1.symm, h.2.trans h'.2.symm⟩) ha hb
    | nextWakeAt l =>
      exact agree_of_unique (P := fun a l' => (ledger s).Awaits l now a ∧ l' = ledger s)
        (x := (QueueStore.nextWakeAt l now s, s)) (y := (QueueStore.nextWakeAt l now t, t))
        ⟨LawfulStore.nextWakeAt hs l now, rfl⟩
        ⟨same ▸ LawfulStore.nextWakeAt ht l now, same.symm⟩
        (fun h h' => ⟨(h.1.eq_min hr).trans (h'.1.eq_min hr).symm, h.2.trans h'.2.symm⟩) ha hb
    | purgeLane l =>
      exact agree_of_unique (LawfulStore.purgeLane hs l) (same ▸ LawfulStore.purgeLane ht l)
        Purges.unique ha hb
    | recover => cases hop
  · cases op with
    | insert c => exact Alike.insert_of_holds ⟨same, hs, hr, ho, ho'⟩ (Classical.not_not.1 hal) now
    | submit | deleteByIdentity | findByIdentity | nextEligible | retire | reschedule | release |
      pendingCount | nextWakeAt | purgeLane | recover => exact absurd trivial hal

theorem Alike.run (h : Alike s t) {op : Operation} (hop : op.isShared) {now : Instant}
    (hn : Row.isInstant now) : Alike (op.run now s).2 (op.run now t).2 where
  same := (h.run_agree op hop now).2
  sound := sound_run h.sound op now
  readable := (edit_run h.sound op now).readable h.readable hn hop
  open_left := (isOpen_run op now s).trans h.open_left
  open_right := (isOpen_run op now t).trans h.open_right

/-- **Any number of calls** on stores that are alike: the answers are the same, and the stores stay
alike. -/
theorem Alike.runAll_agree : ∀ (calls : List (Operation × Instant)) {s : σ} {t : τ}, Alike s t →
    (∀ c ∈ calls, c.1.isShared ∧ Row.isInstant c.2) →
    (Operation.runAll calls s).1.map Except.toOption =
        (Operation.runAll calls t).1.map Except.toOption ∧
      Alike (Operation.runAll calls s).2 (Operation.runAll calls t).2
  | [], _, _, h, _ => ⟨rfl, h⟩
  | (op, now) :: calls, s, t, h, hc => by
    obtain ⟨hop, hn⟩ := hc _ List.mem_cons_self
    obtain ⟨hrest, halike⟩ :=
      runAll_agree calls (h.run hop hn) fun c hm => hc c (List.mem_cons_of_mem _ hm)
    refine ⟨?_, halike⟩
    simp only [Operation.runAll, List.map_cons, (h.run_agree op hop now).1, hrest]

end LawfulStore

/-! ## The store in memory and the table -/

open LawfulStore (Alike)

theorem alike_empty : Alike MemoryStore.empty TableStore.empty where
  same := rfl
  sound := Ledger.Sound.empty
  readable _ hr := by cases hr
  open_left := rfl
  open_right := rfl

/-- The claim query of a table, limited to one row more than there are claims, picks the least
waiting record in memory. -/
theorem claimQuery_eq_first? {m : MemoryStore} {t : TableStore} (h : Alike m t) (lane : Lane)
    (now : Instant) :
    ((t.table.select (fun r => r.lane == (lane.index : Int) && r.availableAt ≤ now)
        (t.claimed.length + 1)).find? (fun r => !t.claimed.contains r.seq)).map Row.toRecord =
      (Record.first? ((m.waiting lane).filter fun r => r.availableAt ≤ now)).map .ok := by
  obtain ⟨same, hs, hr, -, -⟩ := h
  change m.ledger = t.ledger at same
  have ht : t.ledger.Sound := same ▸ hs
  have hsel := TableStore.find?_select ht.seqs lane now
  change (t.table.select _ _).find? _ = _ at hsel
  rw [hsel]
  cases hq : (t.dueRows lane now).find? (fun r => !t.claimed.contains r.seq) with
  | none =>
    have hn := TableStore.not_isDue_of_find? hq
    rw [← same] at hn
    cases hf : Record.first? ((m.waiting lane).filter fun r => r.availableAt ≤ now) with
    | none => rfl
    | some r =>
      have hfirst := MemoryStore.isFirst_of_first? hf
      have := hn _ hfirst.mem
      rw [hfirst.holds] at this
      cases this
  | some row =>
    have hrow := TableStore.isFirst_of_find? hq
    rw [← same] at hrow
    cases hf : Record.first? ((m.waiting lane).filter fun r => r.availableAt ≤ now) with
    | none =>
      have := MemoryStore.not_isDue_of_first? hf _ hrow.mem
      rw [hrow.holds] at this
      cases this
    | some r =>
      obtain rfl := hrow.unique hs (MemoryStore.isFirst_of_first? hf)
      obtain ⟨r', hr'⟩ := hr _ hrow.mem
      obtain rfl := (Row.shows_of_toRecord hr').unique (Row.shows_ofRecord r)
      exact congrArg some hr'

/-- **The store in memory and the table cannot be told apart** by calls that both take alike: from
empty stores, whatever is asked and in whatever order, call by call the answers are equal, and one
fails exactly where the other does. The two ledgers stay equal, and the limited claim query of the
table picks the record that is least in memory among all that wait and are due. -/
theorem stores_agree (calls : List (Operation × Instant))
    (h : ∀ c ∈ calls, c.1.isShared ∧ Row.isInstant c.2) :
    (Operation.runAll calls MemoryStore.empty).1.map Except.toOption =
        (Operation.runAll calls TableStore.empty).1.map Except.toOption ∧
      (Operation.runAll calls MemoryStore.empty).2.ledger =
        (Operation.runAll calls TableStore.empty).2.ledger ∧
      ∀ (lane : Lane) (now : Instant),
        let m := (Operation.runAll calls MemoryStore.empty).2
        let t := (Operation.runAll calls TableStore.empty).2
        ((t.table.select (fun r => r.lane == (lane.index : Int) && r.availableAt ≤ now)
            (t.claimed.length + 1)).find? (fun r => !t.claimed.contains r.seq)).map Row.toRecord =
          (Record.first? ((m.waiting lane).filter fun r => r.availableAt ≤ now)).map .ok := by
  obtain ⟨hanswers, halike⟩ := alike_empty.runAll_agree calls h
  exact ⟨hanswers, halike.same, fun lane now => claimQuery_eq_first? halike lane now⟩

/-- Claims of two lanes, one of them for a record that is gone, and an identity that is taken. -/
def tangle : List (Operation × Instant) :=
  let a : NewCommand := ⟨"a", "Probe", .general, .ofNat 5, [], true⟩
  let b : NewCommand := ⟨"b", "Hash", .hasher, .ofNat 3, [], false⟩
  [(.insert a, 0), (.insert b, 0), (.insert a, 1), (.nextEligible .hasher, 1),
    (.nextEligible .general, 1), (.deleteByIdentity "a", 2), (.submit a .error, 2),
    (.nextEligible .general, 3), (.reschedule (.ofCommand a 3 2) 1 9, 3), (.nextWakeAt .general, 4),
    (.nextEligible .general, 9), (.purgeLane .hasher, 9)]

theorem stores_agree_tangle :
    (∀ c ∈ tangle, c.1.isShared ∧ Row.isInstant c.2) ∧
      (Operation.runAll tangle MemoryStore.empty).1.map Except.toOption =
        (Operation.runAll tangle TableStore.empty).1.map Except.toOption ∧
      (Operation.runAll tangle MemoryStore.empty).2.claimed = [3, 1, 2] :=
  have h : ∀ c ∈ tangle, c.1.isShared ∧ Row.isInstant c.2 := by decide
  ⟨h, (stores_agree tangle h).1, by decide⟩

end LaneQueue
