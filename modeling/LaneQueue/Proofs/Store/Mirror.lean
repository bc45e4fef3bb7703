import LaneQueue.Proofs.Scheduler.Effects
import LaneQueue.Proofs.Store.Renaming
import LaneQueue.Proofs.Store.Tokens
/-!
# What a lane sees of a ledger

`Ledger.Mirrors` relates two ledgers that look alike from one lane: its rows are the same, in the same
order and under claims alike, up to a monotone change of the places. What other lanes do leaves that
as it is (`Mirrors.edit_beside`), and what the lane itself does has the same answer on both sides
(`Mirrors.allows`). A record that comes gets the next place on either side, and the names of the places
go on from there (`goOn`).
-/
namespace LaneQueue

/-- The lane that a call is about, given the lane of every identity; a recovery is about all. -/
def Operation.lane? (home : String → Lane) : Operation → Option Lane
  | .insert c | .submit c _ => some c.lane
  | .deleteByIdentity i | .findByIdentity i => some (home i)
  | .nextEligible l | .pendingCount l | .nextWakeAt l | .purgeLane l => some l
  | .retire r | .reschedule r _ _ | .release r => some r.lane
  | .recover => none

/-- A command is stored in the lane of its identity only. -/
def Operation.keepsHome (home : String → Lane) : Operation → Bool
  | .insert c | .submit c _ => c.lane == home c.identity
  | _ => true

/-- The names of places up to `q` stay; the next ones follow upon `p`. -/
def goOn (f : Int → Int) (q p : Int) (x : Int) : Int := if x ≤ q then f x else p + (x - q)

theorem goOn_of_le {f : Int → Int} {q p x : Int} (h : x ≤ q) : goOn f q p x = f x := if_pos h

theorem goOn_next (f : Int → Int) (q p : Int) : goOn f q p (q + 1) = p + 1 := by
  simp only [goOn]
  rw [if_neg (by omega)]
  omega

theorem Increases.goOn {f : Int → Int} (hf : Increases f) {q p : Int} (hp : f q ≤ p) :
    Increases (goOn f q p) := by
  intro x y hxy
  simp only [LaneQueue.goOn]
  split <;> split
  · exact hf x y hxy
  · have := hf.le_iff.2 ‹x ≤ q›
    omega
  · omega
  · omega

namespace Ledger

/-- The rows of a lane. -/
def rowsOf (l : Ledger) (lane : Lane) : List Row :=
  l.rows.filter fun row => row.lane == (lane.index : Int)

/-- Every row is in the lane of its identity. -/
def AtHome (home : String → Lane) (l : Ledger) : Prop :=
  ∀ row ∈ l.rows, row.lane = (home row.identity).index

/-- From a lane `m` looks like `l`, with other names for the places. -/
structure Mirrors (home : String → Lane) (lane : Lane) (f : Int → Int) (m l : Ledger) : Prop where
  order : Increases f
  rows : l.rowsOf lane = (m.rowsOf lane).map (Row.rename f)
  claims : ∀ row ∈ m.rowsOf lane, (f row.seq ∈ l.claimed ↔ row.seq ∈ m.claimed)
  last : f m.lastSeq ≤ l.lastSeq
  home_left : m.AtHome home
  home_right : l.AtHome home

theorem mem_rowsOf {l : Ledger} {lane : Lane} {row : Row} :
    row ∈ l.rowsOf lane ↔ row ∈ l.rows ∧ row.lane = lane.index := by
  simp [rowsOf]

theorem rowsOf_filter (l : Ledger) (lane : Lane) (p : Row → Bool) :
    rowsOf { l with rows := l.rows.filter p } lane = (l.rowsOf lane).filter p := by
  simp only [rowsOf, List.filter_filter, Bool.and_comm]

theorem rowsOf_map (l : Ledger) (lane : Lane) {f : Row → Row} (hf : ∀ row, (f row).lane = row.lane) :
    rowsOf { l with rows := l.rows.map f } lane = (l.rowsOf lane).map f := by
  simp only [rowsOf, List.filter_map]
  exact congrArg _ (List.filter_congr fun row _ => by simp only [Function.comp_apply, hf])

theorem rowsOf_add (l : Ledger) (lane : Lane) (c : NewCommand) (now : Instant) :
    (l.add c now).rowsOf lane =
      l.rowsOf lane ++ if c.lane = lane then [.ofRecord (l.fresh c now)] else [] := by
  have hlane : (Row.ofRecord (l.fresh c now)).lane = c.lane.index := rfl
  simp only [rowsOf, add, List.filter_append, List.filter_cons, List.filter_nil, hlane]
  refine congrArg _ ?_
  by_cases hc : c.lane = lane
  · simp [hc]
  · rw [if_neg hc, if_neg]
    exact fun hi => hc (Lane.index_inj (beq_iff_eq.1 hi))

namespace AtHome

variable {home : String → Lane} {l : Ledger}

theorem filter (h : l.AtHome home) (p : Row → Bool) :
    AtHome home { l with rows := l.rows.filter p } :=
  fun row hr => h row (List.mem_of_mem_filter hr)

theorem add (h : l.AtHome home) {c : NewCommand} (hc : c.lane = home c.identity) (now : Instant) :
    (l.add c now).AtHome home := by
  intro row hr
  rcases List.mem_append.1 hr with hr | hr
  · exact h row hr
  · obtain rfl := List.mem_singleton.1 hr
    exact congrArg (fun x : Lane => (x.index : Int)) hc

theorem postpone (h : l.AtHome home) (r : Record) (n : UInt32) (t : Instant) :
    (l.postpone r n t).AtHome home := by
  intro row hr
  obtain ⟨x, hx, rfl⟩ := List.mem_map.1 hr
  split <;> exact h x hx

/-- The lane of a row is that of its identity. -/
theorem lane_eq (h : l.AtHome home) {row : Row} (hr : row ∈ l.rows) {lane : Lane}
    (hl : row.lane = lane.index) : home row.identity = lane :=
  Lane.index_inj ((h row hr).symm.trans hl)

end AtHome

/-- No call takes a row out of the lane of its identity. -/
theorem Edit.atHome {home : String → Lane} {l l' : Ledger} {now : Instant} {op : Operation}
    (h : l.Edit now op l') (hop : op.keepsHome home) (hl : l.AtHome home) : l'.AtHome home := by
  cases h with
  | insert | submit => exact hl.add (beq_iff_eq.1 hop) now
  | replace => exact (hl.filter _).add (beq_iff_eq.1 hop) now
  | postpone r n t => exact AtHome.postpone (l := l.drop r.seq) hl r n t
  | delete | remove | purge => exact hl.filter _
  | same | claim | keep | leave | release | recover => exact hl

namespace Mirrors

variable {home : String → Lane} {lane : Lane} {f : Int → Int} {l m : Ledger}
  (h : Mirrors home lane f m l)
include h

/-! ## The same rows -/

theorem mem_rename {y : Row} (hy : y ∈ m.rowsOf lane) : y.rename f ∈ l.rowsOf lane := by
  rw [h.rows]
  exact List.mem_map_of_mem hy

theorem exists_of_mem {x : Row} (hx : x ∈ l.rowsOf lane) : ∃ y ∈ m.rowsOf lane, y.rename f = x := by
  rw [h.rows] at hx
  exact List.mem_map.1 hx

theorem isWaiting_rename {y : Row} (hy : y ∈ m.rowsOf lane) :
    l.isWaiting lane (y.rename f) = m.isWaiting lane y := by
  have hclaim := h.claims y hy
  rw [Bool.eq_iff_iff, isWaiting_iff, isWaiting_iff]
  simp only [Row.rename, hclaim]

theorem isDue_rename (now : Instant) {y : Row} (hy : y ∈ m.rowsOf lane) :
    l.isDue lane now (y.rename f) = m.isDue lane now y := by
  simp only [isDue, h.isWaiting_rename hy]
  rfl

/-- What is picked from the rows of the lane in the same way is the same. -/
theorem filter_rows {p q : Row → Bool} (hp : ∀ x, p x = true → x.lane = lane.index)
    (hq : ∀ y, q y = true → y.lane = lane.index)
    (hpq : ∀ y ∈ m.rowsOf lane, p (y.rename f) = q y) :
    l.rows.filter p = (m.rows.filter q).map (Row.rename f) := by
  have hlane {p : Row → Bool} (hp : ∀ x, p x = true → x.lane = lane.index) (k : Ledger) :
      k.rows.filter p = (k.rowsOf lane).filter p := by
    rw [rowsOf, List.filter_filter]
    refine List.filter_congr fun x _ => ?_
    cases hx : p x with
    | false => rfl
    | true => simp [hp x hx]
  rw [hlane hp, hlane hq, h.rows, List.filter_map]
  exact congrArg _ (List.filter_congr hpq)

theorem countP_rows {p q : Row → Bool} (hp : ∀ x, p x = true → x.lane = lane.index)
    (hq : ∀ y, q y = true → y.lane = lane.index)
    (hpq : ∀ y ∈ m.rowsOf lane, p (y.rename f) = q y) : l.rows.countP p = m.rows.countP q := by
  rw [List.countP_eq_length_filter, List.countP_eq_length_filter, h.filter_rows hp hq hpq,
    List.length_map]

theorem futures_eq (now : Instant) : l.futures lane now = m.futures lane now := by
  have hlane {k : Ledger} (x : Row) (hx : (k.isWaiting lane x && decide (now < x.availableAt)) = true) :
      x.lane = lane.index := (isWaiting_iff.1 (Bool.and_eq_true_iff.1 hx).1).1
  rw [futures, futures, h.filter_rows (q := fun y => m.isWaiting lane y && now < y.availableAt)
    hlane hlane, List.map_map]
  · rfl
  · intro y hy
    rw [h.isWaiting_rename hy]
    rfl

theorem isFirst {now : Instant} {y : Row} (hy : m.IsFirst (m.isDue lane now) y) :
    l.IsFirst (l.isDue lane now) (y.rename f) := by
  have hmem : y ∈ m.rowsOf lane := mem_rowsOf.2 ⟨hy.mem, (isDue_iff.1 hy.holds).1⟩
  refine ⟨(mem_rowsOf.1 (h.mem_rename hmem)).1, (h.isDue_rename now hmem).trans hy.holds,
    fun x hx hdue => ?_⟩
  obtain ⟨z, hz, rfl⟩ := h.exists_of_mem (mem_rowsOf.2 ⟨hx, (isDue_iff.1 hdue).1⟩)
  rw [h.isDue_rename now hz] at hdue
  rw [Row.servesBefore_rename h.order]
  exact hy.least z (mem_rowsOf.1 hz).1 hdue

section Identity

variable {identity : String} (hi : home identity = lane)
include hi

theorem holds_iff : l.Holds identity ↔ m.Holds identity := by
  constructor
  · rintro ⟨x, hx, rfl⟩
    obtain ⟨y, hy, rfl⟩ := h.exists_of_mem (mem_rowsOf.2 ⟨hx, hi ▸ h.home_right x hx⟩)
    exact ⟨y, (mem_rowsOf.1 hy).1, rfl⟩
  · rintro ⟨y, hy, rfl⟩
    exact ⟨_, (mem_rowsOf.1 (h.mem_rename (mem_rowsOf.2 ⟨hy, hi ▸ h.home_left y hy⟩))).1, rfl⟩

theorem finds {r : Record} (hf : m.Finds identity r) : l.Finds identity (r.rename f) := by
  obtain ⟨y, hy, rfl, hr⟩ := hf
  exact ⟨_, (mem_rowsOf.1 (h.mem_rename (mem_rowsOf.2 ⟨hy, hi ▸ h.home_left y hy⟩))).1, rfl,
    hr.rename⟩

theorem owns_iff {r : Record} (hr : r.identity = identity) : l.Owns (r.rename f) ↔ m.Owns r := by
  constructor
  · rintro ⟨x, hx, ho⟩
    have hxi : x.identity = identity := (isRowOf_iff.1 ho).1.trans hr
    obtain ⟨y, hy, rfl⟩ := h.exists_of_mem (mem_rowsOf.2 ⟨hx, by rw [h.home_right x hx, hxi, hi]⟩)
    exact ⟨y, (mem_rowsOf.1 hy).1, (isRowOf_rename h.order r y).symm.trans ho⟩
  · rintro ⟨y, hy, ho⟩
    have hyi : y.identity = identity := (isRowOf_iff.1 ho).1.trans hr
    have hmem := h.mem_rename (mem_rowsOf.2 ⟨hy, by rw [h.home_left y hy, hyi, hi]⟩)
    exact ⟨_, (mem_rowsOf.1 hmem).1, (isRowOf_rename h.order r y).trans ho⟩

end Identity

/-! ## What the lane itself does -/

/-- Rows that are taken away alike. -/
theorem filter {p q : Row → Bool} (hpq : ∀ y ∈ m.rowsOf lane, p (y.rename f) = q y) :
    Mirrors home lane f { m with rows := m.rows.filter q } { l with rows := l.rows.filter p } where
  order := h.order
  rows := by
    rw [rowsOf_filter, rowsOf_filter, h.rows, List.filter_map]
    exact congrArg _ (List.filter_congr hpq)
  claims y hy := by
    have hmem := mem_rowsOf.1 hy
    exact h.claims y (mem_rowsOf.2 ⟨List.mem_of_mem_filter hmem.1, hmem.2⟩)
  last := h.last
  home_left := h.home_left.filter _
  home_right := h.home_right.filter _

theorem without (identity : String) :
    Mirrors home lane f (m.without identity) (l.without identity) :=
  h.filter fun _ _ => rfl

theorem remove (r : Record) : Mirrors home lane f (m.remove r) (l.remove (r.rename f)) :=
  h.filter fun y _ => by rw [isRowOf_rename h.order]

theorem purge : Mirrors home lane f (m.purge lane) (l.purge lane) :=
  h.filter fun y hy => by rw [h.isWaiting_rename hy]

theorem claim (q : Int) : Mirrors home lane f (m.claim q) (l.claim (f q)) where
  __ := h
  rows := h.rows
  claims y hy := by
    simp only [Ledger.claim, List.mem_cons, h.order.eq_iff]
    exact or_congr_right (h.claims y hy)

theorem drop (q : Int) : Mirrors home lane f (m.drop q) (l.drop (f q)) where
  __ := h
  rows := h.rows
  claims y hy := by
    simp only [Ledger.drop, List.mem_filter, bne_iff_ne, ne_eq, h.order.eq_iff]
    exact and_congr_left' (h.claims y hy)

theorem postpone (r : Record) (n : UInt32) (t : Instant) :
    Mirrors home lane f (m.postpone r n t) (l.postpone (r.rename f) n t) where
  __ := h
  rows := by
    rw [Ledger.postpone, Ledger.postpone, rowsOf_map l lane fun _ => by split <;> rfl,
      rowsOf_map m lane fun _ => by split <;> rfl, h.rows, List.map_map, List.map_map]
    refine List.map_congr_left fun y _ => ?_
    simp only [Function.comp_apply, isRowOf_rename h.order]
    split <;> rfl
  claims y hy := by
    rw [Ledger.postpone, rowsOf_map m lane fun _ => by split <;> rfl] at hy
    obtain ⟨x, hx, rfl⟩ := List.mem_map.1 hy
    have hclaim := h.claims x hx
    split <;> exact hclaim
  home_left := h.home_left.postpone r n t
  home_right := h.home_right.postpone _ n t

/-- A command that comes takes the next place on either side. -/
theorem add (hs : l.Sound) (hs' : m.Sound) {c : NewCommand} (hc : c.lane = lane)
    (hi : c.lane = home c.identity) (now : Instant) :
    Mirrors home lane (goOn f m.lastSeq l.lastSeq) (m.add c now) (l.add c now) where
  order := h.order.goOn h.last
  rows := by
    have hold : (m.rowsOf lane).map (Row.rename f) =
        (m.rowsOf lane).map (Row.rename (goOn f m.lastSeq l.lastSeq)) := by
      refine List.map_congr_left fun y hy => ?_
      rw [Row.rename, Row.rename, goOn_of_le (hs'.stored_le y (mem_rowsOf.1 hy).1)]
    have hnew : Row.ofRecord (l.fresh c now) =
        (Row.ofRecord (m.fresh c now)).rename (goOn f m.lastSeq l.lastSeq) := by
      have hseq : (Row.ofRecord (m.fresh c now)).seq = m.lastSeq + 1 := rfl
      rw [Row.rename, hseq, goOn_next]
      rfl
    rw [rowsOf_add, rowsOf_add, if_pos hc, if_pos hc, h.rows, List.map_append, hold,
      List.map_singleton, hnew]
  claims y hy := by
    rw [rowsOf_add, if_pos hc] at hy
    rcases List.mem_append.1 hy with hy | hy
    · rw [goOn_of_le (hs'.stored_le y (mem_rowsOf.1 hy).1)]
      exact h.claims y hy
    · -- nobody has claimed a place that is still to come
      obtain rfl := List.mem_singleton.1 hy
      have hseq : (Row.ofRecord (m.fresh c now)).seq = m.lastSeq + 1 := rfl
      rw [hseq, goOn_next]
      exact iff_of_false hs.isFree_next.unclaimed hs'.isFree_next.unclaimed
  last := Int.le_of_eq (goOn_next f m.lastSeq l.lastSeq)
  home_left := h.home_left.add hi now
  home_right := h.home_right.add hi now

/-- What the lane itself does is answered on both sides alike, and leaves ledgers that look alike. -/
theorem allows (hs : l.Sound) (hs' : m.Sound) {now : Instant} {op : Operation} {a : Answer}
    {m' : Ledger} (ha : m.Allows now op a m') (hop : op.lane? home = some lane)
    (hhome : op.keepsHome home) (hset : ∀ r, op.settled? = some r → home r.identity = lane) :
    ∃ g l', (∀ q ≤ m.lastSeq, g q = f q) ∧ l.Allows now (op.rename f) (a.rename g) l' ∧
      Mirrors home lane g m' l' := by
  have hlane {c : NewCommand} (hc : c.lane = lane) (hi : c.lane = home c.identity) :
      home c.identity = lane := hi.symm.trans hc
  have hfresh (c : NewCommand) :
      (m.fresh c now).rename (goOn f m.lastSeq l.lastSeq) = l.fresh c now := by
    have hseq : (m.fresh c now).seq = m.lastSeq + 1 := rfl
    rw [Record.rename, hseq, goOn_next]
    rfl
  cases ha with
  | @insert c hn =>
    have hc : c.lane = lane := Option.some.inj hop
    have hi := beq_iff_eq.1 hhome
    refine ⟨_, _, fun q hq => goOn_of_le hq, ?_, h.add hs hs' hc hi now⟩
    rw [Answer.rename, hfresh]
    exact .insert (mt (h.holds_iff (hlane hc hi)).1 hn)
  | @inserted c p hn =>
    have hc : c.lane = lane := Option.some.inj hop
    have hi := beq_iff_eq.1 hhome
    refine ⟨_, _, fun q hq => goOn_of_le hq, ?_, h.add hs hs' hc hi now⟩
    rw [Answer.rename, Submission.rename, hfresh]
    exact .inserted (mt (h.holds_iff (hlane hc hi)).1 hn)
  | @replaced c old hf =>
    have hc : c.lane = lane := Option.some.inj hop
    have hi := beq_iff_eq.1 hhome
    have hold := h.finds (hlane hc hi) hf
    refine ⟨_, _, fun q hq => goOn_of_le hq, ?_,
      (h.without c.identity).add (hs.without _) (hs'.without _) hc hi now⟩
    have hseq : goOn f m.lastSeq l.lastSeq old.seq = f old.seq := by
      obtain ⟨y, hy, -, hr⟩ := hf
      exact goOn_of_le (hr.seq ▸ hs'.stored_le y hy)
    have holdr : old.rename (goOn f m.lastSeq l.lastSeq) = old.rename f := by
      rw [Record.rename, Record.rename, hseq]
    change l.Allows now (.submit c .replace) (.submission (.replaced
      (old.rename (goOn f m.lastSeq l.lastSeq))
      ((m.fresh c now).rename (goOn f m.lastSeq l.lastSeq)))) _
    rw [holdr, hfresh]
    exact .replaced hold
  | @kept c old hf =>
    exact ⟨f, _, fun _ _ => rfl,
      .kept (h.finds (hlane (Option.some.inj hop) (beq_iff_eq.1 hhome)) hf), h⟩
  | @refused c old hf =>
    exact ⟨f, _, fun _ _ => rfl,
      .refused (h.finds (hlane (Option.some.inj hop) (beq_iff_eq.1 hhome)) hf), h⟩
  | @delete i b hb =>
    exact ⟨f, _, fun _ _ => rfl, .delete (hb.trans (h.holds_iff (Option.some.inj hop)).symm),
      h.without i⟩
  | missing hn =>
    exact ⟨f, _, fun _ _ => rfl, .missing (mt (h.holds_iff (Option.some.inj hop)).1 hn), h⟩
  | found hf => exact ⟨f, _, fun _ _ => rfl, .found (h.finds (Option.some.inj hop) hf), h⟩
  | idle hn =>
    obtain rfl := Option.some.inj hop
    refine ⟨f, _, fun _ _ => rfl, .idle fun x hx => ?_, h⟩
    cases hdue : l.isDue _ now x with
    | false => rfl
    | true =>
      obtain ⟨y, hy, rfl⟩ := h.exists_of_mem (mem_rowsOf.2 ⟨hx, (isDue_iff.1 hdue).1⟩)
      rw [h.isDue_rename now hy, hn y (mem_rowsOf.1 hy).1] at hdue
      cases hdue
  | claim hf hr =>
    obtain rfl := Option.some.inj hop
    exact ⟨f, _, fun _ _ => rfl, .claim (h.isFirst hf) hr.rename, h.claim _⟩
  | @retire r b hb =>
    exact ⟨f, _, fun _ _ => rfl, .retire (hb.trans (h.owns_iff (hset r rfl) rfl).symm),
      (h.drop r.seq).remove r⟩
  | @reschedule r n t b hb =>
    exact ⟨f, _, fun _ _ => rfl, .reschedule (hb.trans (h.owns_iff (hset r rfl) rfl).symm),
      (h.drop r.seq).postpone r n t⟩
  | @release r => exact ⟨f, _, fun _ _ => rfl, .release, h.drop r.seq⟩
  | count =>
    obtain rfl := Option.some.inj hop
    refine ⟨f, _, fun _ _ => rfl, ?_, h⟩
    rw [← h.countP_rows (fun x hx => beq_iff_eq.1 hx) (fun x hx => beq_iff_eq.1 hx) fun _ _ => rfl]
    exact .count
  | wake =>
    obtain rfl := Option.some.inj hop
    refine ⟨f, _, fun _ _ => rfl, ?_, h⟩
    rw [← h.futures_eq]
    exact .wake
  | purge =>
    obtain rfl := Option.some.inj hop
    refine ⟨f, _, fun _ _ => rfl, ?_, h.purge⟩
    rw [← h.countP_rows (fun x hx => (isWaiting_iff.1 hx).1) (fun x hx => (isWaiting_iff.1 hx).1)
      fun _ hy => h.isWaiting_rename hy]
    exact .purge

/-! ## What other lanes do -/

/-- A call that leaves alone what the lane sees. -/
theorem beside {l' : Ledger} (hrows : l'.rowsOf lane = l.rowsOf lane)
    (hclaims : ∀ x ∈ l.rowsOf lane, (x.seq ∈ l'.claimed ↔ x.seq ∈ l.claimed))
    (hlast : l.lastSeq ≤ l'.lastSeq) (hhome : l'.AtHome home) : Mirrors home lane f m l' where
  order := h.order
  rows := hrows.trans h.rows
  claims y hy := (hclaims _ (h.mem_rename hy)).trans (h.claims y hy)
  last := Int.le_trans h.last hlast
  home_left := h.home_left
  home_right := hhome

/-- Whoever settles a record of another lane has had it in hand. -/
theorem edit_beside (hs : l.Sound) {l' : Ledger} {now : Instant} {op : Operation}
    (he : l.Edit now op l') (hop : ∃ other, op.lane? home = some other ∧ other ≠ lane)
    (hhome : op.keepsHome home) (hset : ∀ r, op.settled? = some r → l.InHand r.lane r) :
    Mirrors home lane f m l' := by
  obtain ⟨other, hother, hne⟩ := hop
  have hrec : op ≠ .recover := by rintro rfl; cases hother
  -- a row of the lane has neither the place nor the identity that the call is about
  have hseq : ∀ r, op.settled? = some r → r.lane = other → ∀ x ∈ l.rowsOf lane, x.seq ≠ r.seq := by
    rintro r hr rfl x hx hq
    obtain ⟨hx, hl⟩ := mem_rowsOf.1 hx
    exact hne (Lane.index_inj (((hset r hr).carries x hx hq).lane.symm.trans hl))
  have hid : ∀ i, home i = other → ∀ x ∈ l.rowsOf lane, (x.identity != i) = true := by
    rintro i rfl x hx
    obtain ⟨hx, hl⟩ := mem_rowsOf.1 hx
    exact bne_iff_ne.2 fun hi => hne (hi ▸ h.home_right.lane_eq hx hl)
  have hdrop : ∀ r : Record, (∀ x ∈ l.rowsOf lane, x.seq ≠ r.seq) →
      ∀ x ∈ l.rowsOf lane, (x.seq ∈ (l.drop r.seq).claimed ↔ x.seq ∈ l.claimed) := by
    intro r hr x hx
    simp [Ledger.drop, hr x hx]
  refine h.beside ?_ ?_ (he.lastSeq_le hrec) (he.atHome hhome h.home_right)
  · cases he with
    | same | claim | keep | leave | release => rfl
    | insert | submit =>
      rw [rowsOf_add, if_neg fun hc => hne (Option.some.inj hother ▸ hc), List.append_nil]
    | @replace c =>
      have hc : c.lane = other := Option.some.inj hother
      have hi : home c.identity = other := (beq_iff_eq.1 hhome).symm.trans hc
      rw [rowsOf_add, if_neg fun hl => hne (hc.symm.trans hl), List.append_nil, Ledger.without,
        rowsOf_filter]
      exact List.filter_eq_self.2 (hid _ hi)
    | delete i =>
      rw [Ledger.without, rowsOf_filter]
      exact List.filter_eq_self.2 (hid i (Option.some.inj hother))
    | remove r =>
      rw [Ledger.remove, rowsOf_filter]
      refine List.filter_eq_self.2 fun x hx => ?_
      rw [Bool.not_eq_true', ← Bool.not_eq_true, isRowOf_iff]
      exact fun ho => hseq r rfl (Option.some.inj hother) x hx ho.2
    | postpone r n t =>
      rw [Ledger.postpone, rowsOf_map _ lane fun _ => by split <;> rfl]
      refine (List.map_congr_left fun x hx => ?_).trans (List.map_id _)
      exact if_neg fun ho => hseq r rfl (Option.some.inj hother) x hx (isRowOf_iff.1 ho).2
    | purge l₂ =>
      rw [Ledger.purge, rowsOf_filter]
      refine List.filter_eq_self.2 fun x hx => ?_
      rw [Bool.not_eq_true', ← Bool.not_eq_true, isWaiting_iff]
      rintro ⟨hl, -⟩
      exact hne (Option.some.inj hother ▸ Lane.index_inj (hl.symm.trans (mem_rowsOf.1 hx).2))
    | recover => exact absurd rfl hrec
  · cases he with
    | same | insert | submit | replace | delete | purge => exact fun _ _ => Iff.rfl
    | @claim l₂ row hf =>
      intro x hx
      have hne' : x.seq ≠ row.seq := by
        intro hq
        obtain ⟨hx, hl⟩ := mem_rowsOf.1 hx
        obtain rfl := hs.eq_of_seq hx hf.mem hq
        exact hne (Option.some.inj hother ▸
          Lane.index_inj ((isDue_iff.1 hf.holds).1.symm.trans hl))
      simp [Ledger.claim, hne']
    | remove r | keep r | postpone r | leave r | release r =>
      exact hdrop r (hseq r rfl (Option.some.inj hother))
    | recover => exact absurd rfl hrec

end Mirrors

end Ledger

end LaneQueue
