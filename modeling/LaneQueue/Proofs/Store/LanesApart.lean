import LaneQueue.Proofs.Store.Mirror
/-!
# Lanes do not interfere

A run of a store against the run of one of its lanes alone: the calls about other lanes are left out.
The lane notices nothing. Its own run has the same answers up to the names of the places, which come
in the same order (`stores_lanesApart`). The two runs share the counter of places and the list of
claims, and with it the limit of the claim query of a table; `LawfulStore.Alongside` is what holds of the
two stores all along.
-/
namespace LaneQueue

namespace Answer

/-- The records in an answer. -/
def records : Answer → List Record
  | .record r => [r]
  | .submission (.inserted r) | .submission (.kept r) | .submission (.refused r) => [r]
  | .submission (.replaced old r) => [old, r]
  | .found r => r.toList
  | _ => []

/-- Only the places in an answer matter for its new names. -/
theorem rename_congr {f g : Int → Int} {a : Answer} (h : ∀ r ∈ a.records, f r.seq = g r.seq) :
    a.rename f = a.rename g := by
  have hr : ∀ r ∈ a.records, r.rename f = r.rename g := fun r hr => by
    rw [Record.rename, Record.rename, h r hr]
  cases a with
  | record r => exact congrArg _ (hr r (List.mem_singleton_self r))
  | submission x =>
    cases x with
    | inserted r | kept r | refused r =>
      simp only [Answer.rename, Submission.rename, hr r (List.mem_singleton_self r)]
    | replaced old r =>
      simp only [Answer.rename, Submission.rename, hr old List.mem_cons_self,
        hr r (List.mem_cons_of_mem _ (List.mem_singleton_self r))]
  | found r =>
    cases r with
    | none => rfl
    | some r => simp only [Answer.rename, Option.map_some, hr r (List.mem_singleton_self r)]
  | flag | count | wake | recovered | done => rfl

end Answer

/-- No answer names a place that has not been given out. -/
theorem Ledger.Allows.seq_le {l l' : Ledger} (hs : l.Sound) {now : Instant} {op : Operation}
    {a : Answer} (h : l.Allows now op a l') : ∀ r ∈ a.records, r.seq ≤ l'.lastSeq := by
  have hfind {i : String} {r : Record} (hf : l.Finds i r) : r.seq ≤ l.lastSeq := by
    obtain ⟨row, hr, -, hshows⟩ := hf
    exact hshows.seq ▸ hs.stored_le row hr
  intro r hr
  cases h with
  | insert | inserted =>
    obtain rfl := List.mem_singleton.1 hr
    exact Int.le_refl _
  | replaced hf =>
    rcases List.mem_cons.1 hr with rfl | hr
    · exact Int.le_trans (hfind hf) (Int.le_of_lt (Int.lt_succ _))
    · obtain rfl := List.mem_singleton.1 hr
      exact Int.le_refl _
  | kept hf | refused hf | found hf =>
    obtain rfl := List.mem_singleton.1 hr
    exact hfind hf
  | claim hf hshows =>
    obtain rfl := List.mem_singleton.1 hr
    exact hshows.seq ▸ hs.stored_le _ hf.mem
  | delete | missing | idle | retire | reschedule | release | count | wake | purge => cases hr

namespace Operation

variable {σ : Type} [QueueStore σ]

/-- The record that a claim hands out. -/
def claim? (op : Operation) (now : Instant) (s : σ) : Option Record :=
  match op, (op.run now s).1 with
  | .nextEligible _, .ok (.found r) => r
  | _, _ => none

/-- Whatever a run settles, it has been handed out by a claim before, in the run or as one of some
earlier records. It may be stale and be settled more than once. -/
def settlesClaims : List Record → List (Operation × Instant) → σ → Prop
  | _, [], _ => True
  | given, (op, now) :: calls, s =>
    (∀ r ∈ op.settled?, r ∈ given) ∧
      settlesClaims ((op.claim? now s).toList ++ given) calls (op.run now s).2

instance decidableSettlesClaims : ∀ (given : List Record) (calls : List (Operation × Instant)) (s : σ),
    Decidable (settlesClaims given calls s)
  | _, [], _ => .isTrue trivial
  | given, (op, now) :: calls, s =>
    have := decidableSettlesClaims ((op.claim? now s).toList ++ given) calls (op.run now s).2
    inferInstanceAs (Decidable ((∀ r ∈ op.settled?, r ∈ given) ∧
      settlesClaims ((op.claim? now s).toList ++ given) calls (op.run now s).2))

/-- The answers to the calls about a lane. -/
def answersFor (home : String → Lane) (lane : Lane) : List (Operation × Instant) → σ →
    List (Except QueueError Answer)
  | [], _ => []
  | (op, now) :: calls, s =>
    if op.lane? home = some lane then
      (op.run now s).1 :: answersFor home lane calls (op.run now s).2
    else answersFor home lane calls (op.run now s).2

theorem claim?_eq_some {op : Operation} {now : Instant} {s : σ} {r : Record} :
    op.claim? now s = some r ↔
      ∃ l, op = .nextEligible l ∧ (op.run now s).1 = .ok (.found (some r)) := by
  constructor
  · intro h
    unfold claim? at h
    split at h
    · rename_i l x hx
      exact ⟨l, rfl, h ▸ hx⟩
    · cases h
  · rintro ⟨l, rfl, h⟩
    simp only [claim?, h]

/-! ### Calls under other names -/

section Rename

variable {f : Int → Int} (op : Operation)

theorem lane?_rename (home : String → Lane) : (op.rename f).lane? home = op.lane? home := by
  cases op <;> rfl

theorem lane?_of_settled? {op : Operation} {r : Record} (h : op.settled? = some r)
    (home : String → Lane) : op.lane? home = some r.lane := by
  cases op with
  | retire | reschedule | release => exact congrArg (fun x : Record => some x.lane) (Option.some.inj h)
  | insert | submit | deleteByIdentity | findByIdentity | nextEligible | pendingCount |
    nextWakeAt | purgeLane | recover => cases h

theorem keepsHome_rename (home : String → Lane) :
    (op.rename f).keepsHome home = op.keepsHome home := by cases op <;> rfl

theorem isShared_rename : (op.rename f).isShared = op.isShared := by cases op <;> rfl

theorem rename_congr {op : Operation} {g : Int → Int}
    (h : ∀ r ∈ op.settled?, f r.seq = g r.seq) : op.rename f = op.rename g := by
  have hr : ∀ r ∈ op.settled?, r.rename f = r.rename g := fun r hr => by
    rw [Record.rename, Record.rename, h r hr]
  cases op with
  | retire r | reschedule r | release r => simp only [Operation.rename, hr r rfl]
  | insert | submit | deleteByIdentity | findByIdentity | nextEligible | pendingCount |
    nextWakeAt | purgeLane | recover => rfl

/-- A call that settles nothing names no place. -/
theorem rename_of_settled? {op : Operation} (h : op.settled? = none) : op.rename f = op := by
  cases op with
  | retire | reschedule | release => cases h
  | insert | submit | deleteByIdentity | findByIdentity | nextEligible | pendingCount |
    nextWakeAt | purgeLane | recover => rfl

/-- A call that settles a record with a new name is one with a new name. -/
theorem exists_rename {op : Operation} {own : List Record}
    (h : ∀ r ∈ op.settled?, ∃ x ∈ own, x.rename f = r) :
    ∃ op' : Operation, op'.rename f = op ∧ ∀ r ∈ op'.settled?, r ∈ own := by
  cases hop : op.settled? with
  | none => exact ⟨op, rename_of_settled? hop, by simp [hop]⟩
  | some r =>
    obtain ⟨x, hx, rfl⟩ := h r hop
    cases op with
    | retire =>
      obtain rfl := Option.some.inj hop
      exact ⟨.retire x, rfl, fun _ hr => Option.some.inj hr ▸ hx⟩
    | reschedule _ n t =>
      obtain rfl := Option.some.inj hop
      exact ⟨.reschedule x n t, rfl, fun _ hr => Option.some.inj hr ▸ hx⟩
    | release =>
      obtain rfl := Option.some.inj hop
      exact ⟨.release x, rfl, fun _ hr => Option.some.inj hr ▸ hx⟩
    | insert | submit | deleteByIdentity | findByIdentity | nextEligible | pendingCount |
      nextWakeAt | purgeLane | recover => cases hop

/-- Claims that are answered alike hand out the same record. -/
theorem claim?_rename {now : Instant} {s t : σ}
    (h : ((op.rename f).run now s).1 = (op.run now t).1.map (Answer.rename f)) :
    (op.rename f).claim? now s = (op.claim? now t).map (Record.rename f) := by
  cases op with
  | nextEligible l =>
    change ((Operation.nextEligible l).run now s).1 = _ at h
    simp only [Operation.rename, claim?, h]
    cases ((Operation.nextEligible l).run now t).1 with
    | error e => rfl
    | ok a => cases a <;> rfl
  | insert | submit | deleteByIdentity | findByIdentity | retire | reschedule | release |
    pendingCount | nextWakeAt | purgeLane | recover => rfl

end Rename

end Operation

namespace LawfulStore

open Ledger Operation

variable {σ : Type} [QueueStore σ] [LawfulStore σ]

/-- An open store whose books are in order and whose rows can all be read. -/
structure InService (s : σ) : Prop where
  sound : (ledger s).Sound
  readable : (ledger s).Readable
  isOpen : isOpen s

theorem InService.run {s : σ} (h : InService s) {op : Operation} (hop : op.isShared) {now : Instant}
    (hn : Row.isInstant now) : InService (op.run now s).2 where
  sound := sound_run h.sound op now
  readable := (edit_run h.sound op now).readable h.readable hn hop
  isOpen := (isOpen_run op now s).trans h.isOpen

/-- What a claim hands out is in hand, and at home in its lane. -/
theorem handedOut {home : String → Lane} {s : σ} (h : InService s) (hhome : (ledger s).AtHome home)
    {op : Operation} {now : Instant} {r : Record} (hr : op.claim? now s = some r) :
    op.lane? home = some r.lane ∧ (ledger (op.run now s).2).InHand r.lane r ∧
      home r.identity = r.lane := by
  obtain ⟨l, rfl, ha⟩ := claim?_eq_some.1 hr
  have hhand := inHand_of_claim h.sound ha
  have hlane : r.lane = l := hhand.lane
  have hop : Operation.nextEligible l ≠ .recover := nofun
  have hallows := allows_run h.sound h.readable hop ha
  generalize ledger ((Operation.nextEligible l).run now s).2 = l' at hhand hallows ⊢
  cases hallows with
  | claim hf hshows =>
    have hl := hhome.lane_eq hf.mem (isDue_iff.1 hf.holds).1
    rw [hshows.identity] at hl
    exact ⟨congrArg some hlane.symm, hlane.symm ▸ hhand, hl.trans hlane.symm⟩

/-- A store, and the store of a lane alone after the same calls about the lane. What claims have
handed out of the lane is the same on both sides. -/
structure Alongside (home : String → Lane) (lane : Lane) (f : Int → Int) (s t : σ)
    (given own : List Record) : Prop where
  mirrors : Mirrors home lane f (ledger t) (ledger s)
  all : InService s
  alone : InService t
  same : given.filter (·.lane == lane) = own.map (Record.rename f)
  inHand : ∀ r ∈ given, (ledger s).InHand r.lane r ∧ home r.identity = r.lane
  own_le : ∀ r ∈ own, r.seq ≤ (ledger t).lastSeq

namespace Alongside

variable {home : String → Lane} {lane : Lane} {f : Int → Int} {s t : σ} {given own : List Record}
  (h : Alongside home lane f s t given own) {op : Operation} {now : Instant}
include h

/-- What has been handed out stays in hand, and a claim hands out one record more. -/
theorem inHand_run (hop : op.isShared) :
    ∀ r ∈ (op.claim? now s).toList ++ given,
      (ledger (op.run now s).2).InHand r.lane r ∧ home r.identity = r.lane := by
  intro r hr
  rcases List.mem_append.1 hr with hr | hr
  · exact (handedOut h.all h.mirrors.home_right (Option.mem_toList.1 hr)).2
  · have hrec : op ≠ .recover := by rintro rfl; cases hop
    have hedit := edit_run h.all.sound op now
    exact ⟨hedit.inHand (hedit.lastSeq_le hrec) (h.inHand r hr).1, (h.inHand r hr).2⟩

/-- **A call about another lane** leaves the lane as it is. -/
theorem beside (hop : op.isShared) (hn : Row.isInstant now) (hhome : op.keepsHome home)
    (hlane : op.lane? home ≠ some lane) (hset : ∀ r ∈ op.settled?, r ∈ given) :
    Alongside home lane f (op.run now s).2 t ((op.claim? now s).toList ++ given) own where
  mirrors := by
    obtain ⟨other, hother⟩ : ∃ other, op.lane? home = some other := by
      cases op <;> first | exact ⟨_, rfl⟩ | cases hop
    exact h.mirrors.edit_beside h.all.sound (edit_run h.all.sound op now)
      ⟨other, hother, fun he => hlane (he ▸ hother)⟩ hhome fun r hr => (h.inHand r (hset r hr)).1
  all := h.all.run hop hn
  alone := h.alone
  same := by
    rw [List.filter_append, h.same]
    have hnone : (op.claim? now s).toList.filter (·.lane == lane) = [] := by
      refine List.filter_eq_nil_iff.2 fun r hr hl => ?_
      have hr := (handedOut h.all h.mirrors.home_right (Option.mem_toList.1 hr)).1
      exact hlane (beq_iff_eq.1 hl ▸ hr)
    rw [hnone, List.nil_append]
  inHand := h.inHand_run hop
  own_le := h.own_le

/-- What has been handed out to the lane alone is at home there. -/
theorem home_own {r : Record} (hr : r ∈ own) : home r.identity = lane := by
  have hmem : r.rename f ∈ given.filter (·.lane == lane) := h.same ▸ List.mem_map_of_mem hr
  obtain ⟨hgiven, hl⟩ := List.mem_filter.1 hmem
  exact (h.inHand _ hgiven).2.trans (beq_iff_eq.1 hl)

/-- What the lane has in hand has been handed out to it alone. -/
theorem exists_own (hlane : op.lane? home = some lane) (hset : ∀ r ∈ op.settled?, r ∈ given) :
    ∃ op' : Operation, op'.rename f = op ∧ ∀ r ∈ op'.settled?, r ∈ own := by
  refine exists_rename fun r hr => ?_
  have hl : r.lane = lane := Option.some.inj ((lane?_of_settled? hr home).symm.trans hlane)
  have hmem : r ∈ given.filter (·.lane == lane) :=
    List.mem_filter.2 ⟨hset r hr, beq_iff_eq.2 hl⟩
  rw [h.same] at hmem
  exact List.mem_map.1 hmem

/-- Two calls about the lane that are answered alike and leave ledgers that look alike. -/
theorem own_answered {g : Int → Int} (hop : op.isShared) (hn : Row.isInstant now)
    (hlane : op.lane? home = some lane) (hset : ∀ r ∈ op.settled?, r ∈ own)
    (hext : ∀ q ≤ (ledger t).lastSeq, g q = f q)
    (hans : ((op.rename g).run now s).1 = (op.run now t).1.map (Answer.rename g))
    (hmirrors : Mirrors home lane g (ledger (op.run now t).2) (ledger ((op.rename g).run now s).2)) :
    Alongside home lane g ((op.rename g).run now s).2 (op.run now t).2
      (((op.rename g).claim? now s).toList ++ given) ((op.claim? now t).toList ++ own) := by
  have hop' : (op.rename g).isShared := (isShared_rename op).trans hop
  have hrec : op ≠ .recover := by rintro rfl; cases hop
  refine ⟨hmirrors, h.all.run hop' hn, h.alone.run hop hn, ?_, h.inHand_run hop', fun r hr => ?_⟩
  · have hold : own.map (Record.rename g) = own.map (Record.rename f) :=
      List.map_congr_left fun r hr => by
        rw [Record.rename, Record.rename, hext _ (h.own_le r hr)]
    have hnew : ((op.rename g).claim? now s).toList.filter (·.lane == lane) =
        (op.claim? now t).toList.map (Record.rename g) := by
      rw [claim?_rename op hans]
      cases hc : op.claim? now t with
      | none => rfl
      | some r =>
        have hl := (handedOut h.alone h.mirrors.home_left hc).1
        have hr : r.lane = lane := Option.some.inj (hl.symm.trans hlane)
        simp [Record.rename, hr]
    rw [List.filter_append, List.map_append, h.same, hold, hnew]
  · rcases List.mem_append.1 hr with hr | hr
    · exact (handedOut h.alone h.mirrors.home_left (Option.mem_toList.1 hr)).2.1.seq_le
    · exact Int.le_trans (h.own_le r hr)
        ((edit_run h.alone.sound op now).lastSeq_le hrec)

/-- **A call about the lane** has its counterpart in the run of the lane alone, which is answered
alike. -/
theorem own_call {refusal : NewCommand → QueueError}
    (hrefusal : ∀ (s : σ) (c : NewCommand) (now : Instant), InService s →
      (ledger s).Holds c.identity → (QueueStore.insert c now s).1 = .error (refusal c))
    (hop : op.isShared) (hn : Row.isInstant now) (hhome : op.keepsHome home)
    (hlane : op.lane? home = some lane) (hset : ∀ r ∈ op.settled?, r ∈ own) :
    ∃ g : Int → Int, op.rename g = op.rename f ∧ (∀ q ≤ (ledger t).lastSeq, g q = f q) ∧
      ((op.rename g).run now s).1 = (op.run now t).1.map (Answer.rename g) ∧
      Alongside home lane g ((op.rename g).run now s).2 (op.run now t).2
        (((op.rename g).claim? now s).toList ++ given) ((op.claim? now t).toList ++ own) := by
  have hrec : op ≠ .recover := by rintro rfl; cases hop
  have hrec' : op.rename f ≠ .recover := by
    intro he
    have hop' := (isShared_rename (f := f) op).trans hop
    rw [he] at hop'
    cases hop'
  by_cases hallowed : op.isAllowed (ledger t)
  · have hallowed' : (op.rename f).isAllowed (ledger s) := by
      cases op with
      | insert c =>
        have hc : home c.identity = lane :=
          (beq_iff_eq.1 hhome).symm.trans (Option.some.inj hlane)
        exact mt (h.mirrors.holds_iff hc).1 hallowed
      | submit | deleteByIdentity | findByIdentity | nextEligible | retire | reschedule | release |
        pendingCount | nextWakeAt | purgeLane | recover => trivial
    obtain ⟨a, ha⟩ := answers h.alone.sound h.alone.isOpen h.alone.readable op now hallowed
    obtain ⟨b, hb⟩ := answers h.all.sound h.all.isOpen h.all.readable _ now hallowed'
    obtain ⟨g, l', hext, hallows, hmirrors⟩ := h.mirrors.allows h.all.sound h.alone.sound
      (allows_run h.alone.sound h.alone.readable hrec ha) hlane hhome
      fun r hr => h.home_own (hset r hr)
    obtain ⟨rfl, rfl⟩ := (allows_run h.all.sound h.all.readable hrec' hb).unique h.all.sound hallows
    have hname : op.rename g = op.rename f := rename_congr fun r hr =>
      hext _ (h.own_le r (hset r hr))
    rw [← hname] at hb hmirrors
    have hans : ((op.rename g).run now s).1 = (op.run now t).1.map (Answer.rename g) := by
      rw [ha, hb]
      rfl
    exact ⟨g, hname, hext, hans, h.own_answered hop hn hlane hset hext hans hmirrors⟩
  · cases op with
    | insert c =>
      -- the identity is taken on either side
      have hc : home c.identity = lane :=
        (beq_iff_eq.1 hhome).symm.trans (Option.some.inj hlane)
      have hheld : (ledger t).Holds c.identity := Classical.not_not.1 hallowed
      have hx := hrefusal t c now h.alone hheld
      have hy := hrefusal s c now h.all ((h.mirrors.holds_iff hc).2 hheld)
      have ht := LawfulStore.insert h.alone.sound c now
      have hs := LawfulStore.insert h.all.sound c now
      rw [hx] at ht
      rw [hy] at hs
      have hans : (((Operation.insert c).rename f).run now s).1 =
          ((Operation.insert c).run now t).1.map (Answer.rename f) := by
        change (QueueStore.insert c now s).1.map _ = ((QueueStore.insert c now t).1.map _).map _
        rw [hx, hy]
        rfl
      have hmirrors : Mirrors home lane f (ledger ((Operation.insert c).run now t).2)
          (ledger (((Operation.insert c).rename f).run now s).2) := by
        change Mirrors home lane f (ledger (QueueStore.insert c now t).2)
          (ledger (QueueStore.insert c now s).2)
        rw [show _ = ledger t from ht, show _ = ledger s from hs]
        exact h.mirrors
      exact ⟨f, rfl, fun _ _ => rfl, hans,
        h.own_answered hop hn hlane hset (fun _ _ => rfl) hans hmirrors⟩
    | submit | deleteByIdentity | findByIdentity | nextEligible | retire | reschedule | release |
      pendingCount | nextWakeAt | purgeLane | recover => exact absurd trivial hallowed

end Alongside

/-- **Calls of all lanes** beside those of one lane. -/
theorem exists_alone {home : String → Lane} {lane : Lane} {refusal : NewCommand → QueueError}
    (hrefusal : ∀ (s : σ) (c : NewCommand) (now : Instant), InService s →
      (ledger s).Holds c.identity → (QueueStore.insert c now s).1 = .error (refusal c)) :
    ∀ (calls : List (Operation × Instant)) {f : Int → Int} {s t : σ} {given own : List Record},
      Alongside home lane f s t given own →
      (∀ c ∈ calls, c.1.isShared ∧ Row.isInstant c.2 ∧ c.1.keepsHome home) →
      settlesClaims given calls s →
      ∃ (g : Int → Int) (alone : List (Operation × Instant)), Increases g ∧
        (∀ q ≤ (ledger t).lastSeq, g q = f q) ∧
        alone.map (fun c => (c.1.rename g, c.2)) =
          calls.filter (fun c => c.1.lane? home == some lane) ∧
        settlesClaims own alone t ∧
        answersFor home lane calls s = (runAll alone t).1.map (Except.map (Answer.rename g))
  | [], f, _, _, _, _, h, _, _ => ⟨f, [], h.mirrors.order, fun _ _ => rfl, rfl, trivial, rfl⟩
  | (op, now) :: calls, f, s, t, given, own, h, hcalls, ⟨hset, hrest⟩ => by
    obtain ⟨hop, hn, hhome⟩ := hcalls _ List.mem_cons_self
    have hcalls' := fun c hc => hcalls c (List.mem_cons_of_mem _ hc)
    by_cases hlane : op.lane? home = some lane
    · obtain ⟨op, rfl, hown'⟩ := h.exists_own hlane hset
      rw [isShared_rename] at hop
      rw [keepsHome_rename] at hhome
      have hlane' : op.lane? home = some lane := (lane?_rename op home).symm.trans hlane
      have hrec : op ≠ .recover := by rintro rfl; cases hop
      obtain ⟨g, hname, hext, hans, hnext⟩ := h.own_call hrefusal hop hn hhome hlane' hown'
      rw [hname] at hans hnext
      obtain ⟨g', alone, hincreases, hext', hmap, hown, hanswers⟩ :=
        exists_alone hrefusal calls hnext hcalls' hrest
      have hle := (edit_run h.alone.sound op now).lastSeq_le hrec
      have hextends : ∀ q ≤ (ledger t).lastSeq, g' q = f q := fun q hq =>
        (hext' q (Int.le_trans hq hle)).trans (hext q hq)
      have hfirst : (op.run now t).1.map (Answer.rename g) =
          (op.run now t).1.map (Answer.rename g') := by
        cases ha : (op.run now t).1 with
        | error e => rfl
        | ok a =>
          have hallows := allows_run h.alone.sound h.alone.readable hrec ha
          exact congrArg Except.ok (Answer.rename_congr fun r hr =>
            (hext' _ (hallows.seq_le h.alone.sound r hr)).symm)
      refine ⟨g', (op, now) :: alone, hincreases, hextends, ?_, ⟨hown', hown⟩, ?_⟩
      · have hop' : op.rename g' = op.rename f := rename_congr fun r hr =>
          hextends _ (h.own_le r (hown' r hr))
        rw [List.map_cons, hmap, List.filter_cons_of_pos (by simpa using hlane), hop']
      · rw [answersFor, if_pos hlane, hans, hanswers, hfirst]
        rfl
    · obtain ⟨g, alone, hg, hext, hmap, hown, hans⟩ :=
        exists_alone hrefusal calls (h.beside hop hn hhome hlane hset) hcalls' hrest
      refine ⟨g, alone, hg, hext, ?_, hown, ?_⟩
      · rw [hmap, List.filter_cons_of_neg (by simpa using hlane)]
      · rw [answersFor, if_neg hlane, hans]

/-- What a lane gets from a run does not depend on the other lanes: it gets it from a run of its own,
which is what is left of the run if the calls about other lanes are left out. The places have other
names there, in the same order; those that were given out before the run keep their names. -/
def LaneApart (home : String → Lane) (lane : Lane) (calls : List (Operation × Instant)) (s : σ) :
    Prop :=
  ∃ (g : Int → Int) (alone : List (Operation × Instant)), Increases g ∧
    (∀ q ≤ (ledger s).lastSeq, g q = q) ∧
    alone.map (fun c => (c.1.rename g, c.2)) =
      calls.filter (fun c => c.1.lane? home == some lane) ∧
    settlesClaims [] alone s ∧
    answersFor home lane calls s = (runAll alone s).1.map (Except.map (Answer.rename g))

theorem laneApart {refusal : NewCommand → QueueError}
    (hrefusal : ∀ (s : σ) (c : NewCommand) (now : Instant), InService s →
      (ledger s).Holds c.identity → (QueueStore.insert c now s).1 = .error (refusal c))
    {home : String → Lane} {s : σ} (h : InService s) (hhome : (ledger s).AtHome home)
    {calls : List (Operation × Instant)}
    (hcalls : ∀ c ∈ calls, c.1.isShared ∧ Row.isInstant c.2 ∧ c.1.keepsHome home)
    (hset : settlesClaims [] calls s) (lane : Lane) : LaneApart home lane calls s := by
  have hmirrors : Mirrors home lane id (ledger s) (ledger s) := by
    refine ⟨Increases.refl, ?_, fun _ _ => Iff.rfl, Int.le_refl _, hhome, hhome⟩
    exact (List.map_id _).symm
  exact exists_alone hrefusal calls ⟨hmirrors, h, h, rfl, by simp, by simp⟩ hcalls hset

end LawfulStore

open LawfulStore Operation

/-! ## Both stores -/

/-- What a store in memory says of an identity that is taken. -/
theorem MemoryStore.insert_of_holds {s : MemoryStore} {c : NewCommand}
    (h : s.ledger.Holds c.identity) (now : Instant) :
    (QueueStore.insert c now s).1 =
      .error (.storage ("identity " ++ c.identity ++ " already queued")) := by
  change (insert c now s).1 = _
  unfold insert
  split
  · rfl
  · rename_i hnone
    exact absurd h (find?_eq_none.1 hnone)

theorem TableStore.insert_of_holds {s : TableStore} (h : InService s) {c : NewCommand}
    (hc : s.ledger.Holds c.identity) (now : Instant) :
    (QueueStore.insert c now s).1 =
      .error (MediumFault.primaryKey "command_queue.identity").toQueueError := by
  have hopen : s.isOpen = true := h.isOpen
  change (insert c now s).1 = _
  rw [insert, if_pos hopen, addTo_of_mem h.sound.stored_le hc]

/-- **Lanes do not interfere.** In whatever state a store in memory or an open table is, as long as
every identity is used in one lane only and whoever settles a record has got it from a claim: each lane
gets from a run what it gets from its own part of the run, up to the names of the places. -/
theorem stores_lanesApart (home : String → Lane) (calls : List (Operation × Instant))
    (hcalls : ∀ c ∈ calls, c.1.isShared ∧ Row.isInstant c.2 ∧ c.1.keepsHome home) (lane : Lane) :
    (∀ s : MemoryStore, InService s → s.ledger.AtHome home → settlesClaims [] calls s →
      LaneApart home lane calls s) ∧
    (∀ s : TableStore, InService s → s.ledger.AtHome home → settlesClaims [] calls s →
      LaneApart home lane calls s) :=
  ⟨fun _ h hhome hset =>
      laneApart (fun _ _ now _ hc => MemoryStore.insert_of_holds hc now) h hhome hcalls hset lane,
    fun _ h hhome hset =>
      laneApart (fun _ _ now h hc => TableStore.insert_of_holds h hc now) h hhome hcalls hset lane⟩

/-- Where the identities of the run below are at home. -/
def homes (identity : String) : Lane := if identity = "b" then .hasher else .general

/-- Two lanes at work in turn. A claim of the first one is used again after its record was put off,
and a record comes back under a later place. -/
def interleaved : List (Operation × Instant) :=
  let a : NewCommand := ⟨"a", "Probe", .general, .ofNat 5, [], true⟩
  let b : NewCommand := ⟨"b", "Hash", .hasher, .ofNat 3, [], false⟩
  let c : NewCommand := ⟨"c", "Probe", .general, .ofNat 7, [], false⟩
  [(.insert b, 0), (.insert a, 0), (.nextEligible .hasher, 1), (.nextEligible .general, 1),
    (.retire (.ofCommand b 1 0), 2), (.insert b, 2), (.insert c, 3), (.insert a, 3),
    (.reschedule (.ofCommand a 2 0) 1 9, 3), (.nextWakeAt .general, 4), (.purgeLane .hasher, 4),
    (.nextEligible .general, 5), (.retire (.ofCommand c 4 3), 6), (.retire (.ofCommand c 4 3), 6),
    (.nextEligible .general, 9), (.pendingCount .general, 9)]

theorem stores_lanesApart_interleaved :
    (∀ c ∈ interleaved, c.1.isShared ∧ Row.isInstant c.2 ∧ c.1.keepsHome homes) ∧
      settlesClaims [] interleaved MemoryStore.empty ∧ settlesClaims [] interleaved TableStore.empty ∧
      LaneApart homes .general interleaved MemoryStore.empty ∧
      LaneApart homes .general interleaved TableStore.empty :=
  have hcalls : ∀ c ∈ interleaved, c.1.isShared ∧ Row.isInstant c.2 ∧ c.1.keepsHome homes := by
    decide
  have hmemory : settlesClaims [] interleaved MemoryStore.empty := by decide +kernel
  have htable : settlesClaims [] interleaved TableStore.empty := by decide +kernel
  have hempty : InService MemoryStore.empty := ⟨alike_empty.sound, alike_empty.readable, rfl⟩
  have hempty' : InService TableStore.empty := ⟨alike_empty.sound, alike_empty.readable, rfl⟩
  ⟨hcalls, hmemory, htable,
    (stores_lanesApart homes interleaved hcalls .general).1 _ hempty nofun hmemory,
    (stores_lanesApart homes interleaved hcalls .general).2 _ hempty' nofun htable⟩

end LaneQueue
