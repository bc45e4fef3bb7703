import Mathlib.Data.List.Nodup
import LaneQueue.Store.Table
/-!
# What a store holds

A `Ledger` is what the answers of a store depend on: its rows, the places that are claimed, and the
last place given out. A record of the store in memory counts as the row that would be written for
it. Every operation is one of a few edits of the ledger, and `Ledger.Sound`, the invariant of the
bookkeeping, is kept by each of them.

`LawfulStore` says of a store which edit each of its operations makes and which answer goes with
it. What is proved from these laws holds of every store that has them.
-/
namespace LaneQueue

/-! ## Numbers in columns -/

theorem Priority.toNat_ofNat {n : Nat} (h : n ≤ 255) : (Priority.ofNat n).toNat = n := by
  simp only [Priority.ofNat, Priority.toNat, UInt8.toNat_ofNat']
  omega

theorem Priority.toNat_le (p : Priority) : p.toNat ≤ 255 := by
  have := p.value.toNat_lt
  simp only [Priority.toNat]
  omega

theorem Priority.ofNat_toNat (p : Priority) : Priority.ofNat p.toNat = p := by
  simp [Priority.ofNat, Priority.toNat]

theorem Priority.toNat_inj {p q : Priority} (h : p.toNat = q.toNat) : p = q := by
  rw [← Priority.ofNat_toNat p, h, Priority.ofNat_toNat]

theorem Lane.index_inj {l m : Lane} (h : (l.index : Int) = m.index) : l = m := by
  have := Lane.ofIndex?_index l
  rw [h, Lane.ofIndex?_index] at this
  exact (Option.some.inj this).symm

theorem Lane.ofIndex_index (l : Lane) : Lane.ofIndex l.index = .ok l := by
  simp [Lane.ofIndex]

theorem Lane.eq_index_of_ofIndex {i : Int} {l : Lane} (h : Lane.ofIndex i = .ok l) :
    i = l.index := by
  unfold Lane.ofIndex at h
  split at h
  · rename_i m hm
    cases h
    exact (Lane.ofIndex?_eq_some_iff i l).1 hm
  · cases h

/-! ## Rows and the records they show -/

namespace Row

/-- The failed attempts in a row; a column that is no word counts as none. -/
def retries (row : Row) : UInt32 :=
  if 0 ≤ row.retryCount ∧ row.retryCount < (UInt32.size : Int) then
    UInt32.ofNat row.retryCount.toNat
  else 0

/-- The columns of a row that nothing changes are those of a command at a place. -/
structure Carries (row : Row) (c : NewCommand) (seq : Int) : Prop where
  identity : row.identity = c.identity
  tag : row.tag = c.tag
  lane : row.lane = c.lane.index
  priority : row.priority = c.priority.toNat
  payload : row.payload = c.payload
  bubbles : (row.bubbles != 0) = c.bubbles
  seq : row.seq = seq

/-- The columns of a row are those of a record. -/
structure Shows (row : Row) (r : Record) : Prop extends Carries row r.toNewCommand r.seq where
  retryCount : row.retries = r.retryCount
  availableAt : row.availableAt = r.availableAt

theorem Carries.unique {row : Row} {c c' : NewCommand} {q q' : Int} (h : row.Carries c q)
    (h' : row.Carries c' q') : c = c' := by
  obtain ⟨i, t, l, p, b, f⟩ := c
  obtain ⟨i', t', l', p', b', f'⟩ := c'
  have hl : l = l' := Lane.index_inj (h.lane.symm.trans h'.lane)
  have hp : p = p' := Priority.toNat_inj (Int.ofNat_inj.1 (h.priority.symm.trans h'.priority))
  simp only [NewCommand.mk.injEq]
  exact ⟨h.identity.symm.trans h'.identity, h.tag.symm.trans h'.tag, hl, hp,
    h.payload.symm.trans h'.payload, h.bubbles.symm.trans h'.bubbles⟩

/-- A row carries its command also after a failed attempt. -/
theorem Carries.postponed {row : Row} {c : NewCommand} {q : Int} (h : row.Carries c q) (n : Int)
    (t : Instant) : ({ row with retryCount := n, availableAt := t } : Row).Carries c q :=
  ⟨h.identity, h.tag, h.lane, h.priority, h.payload, h.bubbles, h.seq⟩

theorem Shows.unique {row : Row} {r r' : Record} (h : row.Shows r) (h' : row.Shows r') :
    r = r' := by
  have hc := h.toCarries.unique h'.toCarries
  obtain ⟨c, n, q, a⟩ := r
  obtain ⟨c', n', q', a'⟩ := r'
  simp only [Record.mk.injEq]
  exact ⟨hc, h.retryCount.symm.trans h'.retryCount, h.seq.symm.trans h'.seq,
    h.availableAt.symm.trans h'.availableAt⟩

theorem servesBefore_iff {a b : Row} : a.servesBefore b = true ↔
    a.priority < b.priority ∨ a.priority = b.priority ∧ a.seq ≤ b.seq := by
  simp [servesBefore]

theorem shows_ofRecord (r : Record) : (ofRecord r).Shows r := by
  refine ⟨⟨rfl, rfl, rfl, rfl, rfl, ?_, rfl⟩, ?_, rfl⟩
  · cases h : r.bubbles <;> simp [ofRecord, h]
  · have hn : (r.retryCount.toNat : Int) < UInt32.size := by exact_mod_cast r.retryCount.toNat_lt
    unfold retries
    rw [if_pos ⟨Int.natCast_nonneg _, hn⟩]
    simp [ofRecord]

/-- A row that can be read shows what is read from it. -/
theorem shows_of_toRecord {row : Row} {r : Record} (h : row.toRecord = .ok r) : row.Shows r := by
  unfold toRecord at h
  split at h
  · cases h
  split at h
  · cases h
  rename_i hp _
  cases hl : Lane.ofIndex row.lane with
  | error e => rw [hl] at h; cases h
  | ok l =>
    rw [hl] at h
    cases h
    refine ⟨⟨rfl, rfl, Lane.eq_index_of_ofIndex hl, ?_, rfl, rfl, rfl⟩, rfl, rfl⟩
    simp only
    rw [Priority.toNat_ofNat (by omega)]
    omega

theorem toRecord_ofRecord {r : Record} (h : isInstant r.availableAt) :
    (ofRecord r).toRecord = .ok r := by
  have hp := r.priority.toNat_le
  cases hr : (ofRecord r).toRecord with
  | ok r' => rw [(shows_ofRecord r).unique (shows_of_toRecord hr)]
  | error e =>
    have hl : Lane.ofIndex (ofRecord r).lane = .ok r.lane := Lane.ofIndex_index r.lane
    unfold toRecord at hr
    rw [if_neg (by simp only [ofRecord]; omega), if_neg (by simpa [ofRecord] using h), hl] at hr
    cases hr

end Row

/-! ## Ledgers -/

structure Ledger where
  rows : List Row := []
  /-- The `seq` of every claimed row; it may outlive the row. -/
  claimed : List Int := []
  lastSeq : Int := 0

namespace Ledger

/-- The invariant of the bookkeeping: identities and places are unique, and no place is beyond the
last one given out. -/
structure Sound (l : Ledger) : Prop where
  identities : (l.rows.map (·.identity)).Nodup
  seqs : (l.rows.map (·.seq)).Nodup
  claims : l.claimed.Nodup
  stored_le : ∀ row ∈ l.rows, row.seq ≤ l.lastSeq
  claimed_le : ∀ q ∈ l.claimed, q ≤ l.lastSeq

/-- Every row can be read. -/
def Readable (l : Ledger) : Prop := ∀ row ∈ l.rows, ∃ r, row.toRecord = .ok r

/-- A row of an identity is stored. -/
def Holds (l : Ledger) (identity : String) : Prop := ∃ row ∈ l.rows, row.identity = identity

/-- The row of a record is stored. -/
def Keeps (l : Ledger) (r : Record) : Prop := ∃ row ∈ l.rows, row.Shows r

/-- A command is stored at a place, after any number of failed attempts. -/
def Stores (l : Ledger) (c : NewCommand) (seq : Int) : Prop := ∃ row ∈ l.rows, row.Carries c seq

/-- A row of a lane that is not claimed. -/
def isWaiting (l : Ledger) (lane : Lane) (row : Row) : Bool :=
  row.lane == (lane.index : Int) && !l.claimed.contains row.seq

/-- A waiting row whose instant has come. -/
def isDue (l : Ledger) (lane : Lane) (now : Instant) (row : Row) : Bool :=
  l.isWaiting lane row && row.availableAt ≤ now

/-- The instants that the waiting rows of a lane still wait for. -/
def futures (l : Ledger) (lane : Lane) (now : Instant) : List Instant :=
  (l.rows.filter fun row => l.isWaiting lane row && now < row.availableAt).map (·.availableAt)

/-- The record that a command would become. -/
def fresh (l : Ledger) (c : NewCommand) (now : Instant) : Record := .ofCommand c (l.lastSeq + 1) now

/-! ## Edits -/

def add (l : Ledger) (c : NewCommand) (now : Instant) : Ledger :=
  { l with rows := l.rows ++ [.ofRecord (l.fresh c now)], lastSeq := l.lastSeq + 1 }

def without (l : Ledger) (identity : String) : Ledger :=
  { l with rows := l.rows.filter (·.identity != identity) }

def claim (l : Ledger) (seq : Int) : Ledger := { l with claimed := seq :: l.claimed }

def drop (l : Ledger) (seq : Int) : Ledger := { l with claimed := l.claimed.filter (· != seq) }

/-- Removes the row of a claimed record. -/
def remove (l : Ledger) (r : Record) : Ledger :=
  { l with rows := l.rows.filter (!TableStore.isRowOf r ·) }

/-- Sets the failed attempts and the next instant of the row of a claimed record. -/
def postpone (l : Ledger) (r : Record) (retryCount : UInt32) (availableAt : Instant) : Ledger :=
  { l with rows := l.rows.map fun row =>
      if TableStore.isRowOf r row then
        { row with retryCount := retryCount.toNat, availableAt := availableAt }
      else row }

def purge (l : Ledger) (lane : Lane) : Ledger :=
  { l with rows := l.rows.filter (!l.isWaiting lane ·) }

/-- Forgets all claims; the order goes on after some place. -/
def reset (l : Ledger) (lastSeq : Int) : Ledger := { l with claimed := [], lastSeq := lastSeq }

theorem isRowOf_iff {r : Record} {row : Row} :
    TableStore.isRowOf r row = true ↔ row.identity = r.identity ∧ row.seq = r.seq := by
  simp [TableStore.isRowOf]

theorem isWaiting_iff {l : Ledger} {lane : Lane} {row : Row} :
    l.isWaiting lane row = true ↔ row.lane = lane.index ∧ row.seq ∉ l.claimed := by
  simp [isWaiting]

theorem isDue_iff {l : Ledger} {lane : Lane} {now : Instant} {row : Row} :
    l.isDue lane now row = true ↔
      row.lane = lane.index ∧ row.seq ∉ l.claimed ∧ row.availableAt ≤ now := by
  simp [isDue, isWaiting, and_assoc]

/-! ## The invariant is kept -/

namespace Sound

variable {l : Ledger}

theorem empty : ({} : Ledger).Sound := by
  constructor <;> simp

theorem eq_of_seq (h : l.Sound) {x y : Row} (hx : x ∈ l.rows) (hy : y ∈ l.rows)
    (hs : x.seq = y.seq) : x = y :=
  List.inj_on_of_nodup_map h.seqs hx hy hs

theorem eq_of_identity (h : l.Sound) {x y : Row} (hx : x ∈ l.rows) (hy : y ∈ l.rows)
    (hi : x.identity = y.identity) : x = y :=
  List.inj_on_of_nodup_map h.identities hx hy hi

/-- Taking rows away keeps the invariant. -/
theorem filter (h : l.Sound) (p : Row → Bool) : Sound { l with rows := l.rows.filter p } where
  identities := h.identities.sublist (List.filter_sublist.map _)
  seqs := h.seqs.sublist (List.filter_sublist.map _)
  claims := h.claims
  stored_le row hr := h.stored_le row (List.mem_of_mem_filter hr)
  claimed_le := h.claimed_le

/-- So does changing rows in place, as long as identities and places stay. -/
theorem map (h : l.Sound) (f : Row → Row) (hi : ∀ row, (f row).identity = row.identity)
    (hs : ∀ row, (f row).seq = row.seq) : Sound { l with rows := l.rows.map f } where
  identities := by
    rw [List.map_map, show (·.identity) ∘ f = (·.identity) from funext hi]
    exact h.identities
  seqs := by
    rw [List.map_map, show (·.seq) ∘ f = (·.seq) from funext hs]
    exact h.seqs
  claims := h.claims
  stored_le row hr := by
    obtain ⟨x, hx, rfl⟩ := List.mem_map.1 hr
    rw [hs]
    exact h.stored_le x hx
  claimed_le := h.claimed_le

theorem add (h : l.Sound) (c : NewCommand) (now : Instant) (hf : ¬ l.Holds c.identity) :
    (l.add c now).Sound where
  identities := by
    simp only [Ledger.add, List.map_append, List.map_cons, List.map_nil]
    refine List.nodup_append.2 ⟨h.identities, by simp, ?_⟩
    rintro i hi j hj rfl
    obtain ⟨row, hr, rfl⟩ := List.mem_map.1 hi
    exact hf ⟨row, hr, List.mem_singleton.1 hj⟩
  seqs := by
    simp only [Ledger.add, List.map_append, List.map_cons, List.map_nil]
    refine List.nodup_append.2 ⟨h.seqs, by simp, ?_⟩
    rintro q hq q' hq' rfl
    obtain ⟨row, hr, rfl⟩ := List.mem_map.1 hq
    have hlt := h.stored_le row hr
    have he : row.seq = l.lastSeq + 1 := List.mem_singleton.1 hq'
    omega
  claims := h.claims
  stored_le row hr := by
    rcases List.mem_append.1 hr with hr | hr
    · have := h.stored_le row hr
      simp only [Ledger.add]
      omega
    · rw [List.mem_singleton.1 hr]
      exact Int.le_refl _
  claimed_le q hq := by
    have := h.claimed_le q hq
    simp only [Ledger.add]
    omega

theorem without (h : l.Sound) (identity : String) : (l.without identity).Sound := h.filter _

theorem not_holds_without (l : Ledger) (identity : String) :
    ¬ (l.without identity).Holds identity := by
  rintro ⟨row, hr, hi⟩
  simp [Ledger.without, hi] at hr

theorem claim (h : l.Sound) {row : Row} (hr : row ∈ l.rows) (hq : row.seq ∉ l.claimed) :
    (l.claim row.seq).Sound where
  identities := h.identities
  seqs := h.seqs
  claims := List.nodup_cons.2 ⟨hq, h.claims⟩
  stored_le := h.stored_le
  claimed_le q hq := by
    rcases List.mem_cons.1 hq with rfl | hq
    · exact h.stored_le row hr
    · exact h.claimed_le q hq

theorem drop (h : l.Sound) (seq : Int) : (l.drop seq).Sound where
  identities := h.identities
  seqs := h.seqs
  claims := h.claims.sublist List.filter_sublist
  stored_le := h.stored_le
  claimed_le q hq := h.claimed_le q (List.mem_of_mem_filter hq)

theorem remove (h : l.Sound) (r : Record) : (l.remove r).Sound := h.filter _

theorem postpone (h : l.Sound) (r : Record) (n : UInt32) (t : Instant) :
    (l.postpone r n t).Sound :=
  h.map _ (fun row => by split <;> rfl) (fun row => by split <;> rfl)

theorem purge (h : l.Sound) (lane : Lane) : (l.purge lane).Sound := h.filter _

theorem reset (h : l.Sound) {q : Int} (hq : ∀ row ∈ l.rows, row.seq ≤ q) : (l.reset q).Sound where
  identities := h.identities
  seqs := h.seqs
  claims := List.nodup_nil
  stored_le := hq
  claimed_le := by simp [Ledger.reset]

end Sound

end Ledger

end LaneQueue
