import LaneQueue.Proofs.Store.Tokens
/-!
# Rows that cannot be read

The integer columns of a table may hold anything, and a row of a lane is a record only when its priority
and its instant are in range. A claim looks at the head of the line alone: it takes the record there or
fails over it, and a call that fails leaves the line as it is (`nextEligible_line`). So whoever claims and
retires is served the line up to the first row that cannot be read (`serve_replicate`), and what stands
behind that row waits for as long as the row is there, however often and however late it is claimed
(`Blocks.serve`).
-/
namespace LaneQueue

namespace Row

/-- The columns that decide whether a row of a lane is a record are in range. -/
def isReadable (row : Row) : Bool :=
  decide (0 ≤ row.priority ∧ row.priority ≤ 255) && isInstant row.availableAt

/-- One row stands before another one in the order of service. -/
def Precedes (a b : Row) : Prop := a.servesBefore b = true ∧ a.seq ≠ b.seq

instance : DecidableRel Precedes := fun a b =>
  inferInstanceAs (Decidable (a.servesBefore b = true ∧ a.seq ≠ b.seq))

theorem Precedes.asymm {a b : Row} (h : a.Precedes b) : ¬ b.Precedes a := by
  rintro ⟨hba, -⟩
  obtain ⟨hab, hne⟩ := h
  rw [servesBefore_iff] at hab hba
  omega

/-- Of two rows at different places one precedes the other. -/
theorem precedes_or {a b : Row} (h : a.seq ≠ b.seq) : a.Precedes b ∨ b.Precedes a := by
  have htotal := servesBefore_total a b
  rw [Bool.or_eq_true] at htotal
  rcases htotal with hab | hba
  · exact .inl ⟨hab, h⟩
  · exact .inr ⟨hba, h.symm⟩

theorem exists_toRecord_iff {row : Row} {lane : Lane} (hl : row.lane = lane.index) :
    (∃ r, row.toRecord = .ok r) ↔ row.isReadable = true := by
  unfold toRecord
  rw [hl, Lane.ofIndex_index]
  by_cases hp : row.priority < 0 ∨ 255 < row.priority
  · have hout : ¬ (0 ≤ row.priority ∧ row.priority ≤ 255) := by omega
    simp [isReadable, hp, hout]
  · have hin : 0 ≤ row.priority ∧ row.priority ≤ 255 := by omega
    by_cases ha : isInstant row.availableAt = true
    · rw [if_neg hp, if_neg (by simp [ha])]
      simp [isReadable, hin, ha]
    · rw [if_neg hp, if_pos (by simpa using ha)]
      simp [isReadable, ha]

end Row

namespace TableStore

open Ledger (isDue_iff)

variable {s : TableStore} {lane : Lane} {now : Instant} {row bad : Row} {r : Record}

/-! ## The line of a lane -/

/-- The unclaimed rows of a lane whose instant has come, in the order of service. -/
def line (s : TableStore) (lane : Lane) (now : Instant) : List Row :=
  (s.dueRows lane now).filter fun row => !s.claimed.contains row.seq

theorem mem_line : row ∈ s.line lane now ↔
    row ∈ s.table.rows ∧ row.lane = lane.index ∧ row.availableAt ≤ now ∧ row.seq ∉ s.claimed := by
  simp [line, mem_dueRows, and_assoc]

theorem pairwise_line (hq : (s.table.rows.map (·.seq)).Nodup) (lane : Lane) (now : Instant) :
    (s.line lane now).Pairwise Row.Precedes := by
  have hsorted : (s.dueRows lane now).Pairwise fun a b => a.servesBefore b = true :=
    List.pairwise_mergeSort Row.servesBefore_trans Row.servesBefore_total _
  have hseqs : (s.dueRows lane now).Pairwise fun a b => a.seq ≠ b.seq :=
    List.pairwise_map.1 (nodup_dueRows hq lane now)
  exact (hsorted.and hseqs).sublist List.filter_sublist

theorem nodup_of_pairwise {rows : List Row} (h : rows.Pairwise Row.Precedes) : rows.Nodup :=
  h.imp fun hab heq => hab.2 (congrArg Row.seq heq)

/-- Rows in the order of service that are those of the line are the line. -/
theorem line_eq (hq : (s.table.rows.map (·.seq)).Nodup) {rows : List Row}
    (hsorted : rows.Pairwise Row.Precedes) (hmem : ∀ row, row ∈ s.line lane now ↔ row ∈ rows) :
    s.line lane now = rows := by
  have hline := pairwise_line hq lane now
  have hperm : (s.line lane now).Perm rows :=
    (List.perm_ext_iff_of_nodup (nodup_of_pairwise hline) (nodup_of_pairwise hsorted)).2 hmem
  refine hperm.eq_of_pairwise ?_ hline hsorted
  intro a b _ _ hab hba
  exact absurd hba hab.asymm

theorem eq_of_seq (hq : (s.table.rows.map (·.seq)).Nodup) {a b : Row} (ha : a ∈ s.table.rows)
    (hb : b ∈ s.table.rows) (h : a.seq = b.seq) : a = b :=
  List.inj_on_of_nodup_map hq ha hb h

/-- Unclaimed due rows of one lane that are stored in the order of service. -/
theorem line_eq_rows (hsorted : s.table.rows.Pairwise Row.Precedes)
    (h : ∀ row ∈ s.table.rows,
      row.lane = lane.index ∧ row.availableAt ≤ now ∧ row.seq ∉ s.claimed) :
    s.line lane now = s.table.rows := by
  apply line_eq (List.pairwise_map.2 (hsorted.imp fun hab => hab.2)) hsorted
  intro row
  rw [mem_line]
  exact ⟨fun hrow => hrow.1, fun hrow => ⟨hrow, h row hrow⟩⟩

/-- **A claim looks at the head of the line**, and fails if that cannot be read. -/
theorem nextEligible_line (hq : (s.table.rows.map (·.seq)).Nodup) (ho : s.isOpen = true)
    (lane : Lane) (now : Instant) :
    nextEligible lane now s =
      match (s.line lane now).head? with
      | none => (.ok none, s)
      | some row =>
        match row.toRecord with
        | .error e => (.error e, s)
        | .ok r => (.ok (some r), { s with claimed := r.seq :: s.claimed }) := by
  have hhead : (s.line lane now).head? =
      (s.dueRows lane now).find? fun row => !s.claimed.contains row.seq := List.head?_filter
  rw [hhead]
  exact nextEligible_eq hq ho lane now

/-! ## Claiming and retiring -/

/-- Claims a record at each of some instants, and retires it at once. -/
def serve (lane : Lane) : List Instant → TableStore → List Record × TableStore
  | [], s => ([], s)
  | now :: ts, s =>
    match nextEligible lane now s with
    | (.ok (some r), s') =>
      (r :: (serve lane ts (retire r s').2).1, (serve lane ts (retire r s').2).2)
    | (_, s') => serve lane ts s'

/-- The store without the row of a record. -/
def without (s : TableStore) (r : Record) : TableStore :=
  { s with table := (s.table.delete (isRowOf r)).2 }

theorem retire_claimed (ho : s.isOpen = true) (hc : r.seq ∉ s.claimed) :
    (retire r { s with claimed := r.seq :: s.claimed }).2 = s.without r := by
  have hfilter : s.claimed.filter (· != r.seq) = s.claimed :=
    List.filter_eq_self.2 fun q hm => by simpa using ne_of_mem_of_not_mem hm hc
  simp [retire, drop, execute, ho, without, hfilter]

theorem nodup_without (hq : (s.table.rows.map (·.seq)).Nodup) (r : Record) :
    ((s.without r).table.rows.map (·.seq)).Nodup :=
  hq.sublist (List.filter_sublist.map _)

/-- Only the row that was served is gone. -/
theorem mem_without (hq : (s.table.rows.map (·.seq)).Nodup) (hrow : row ∈ s.table.rows)
    (hr : row.toRecord = .ok r) {x : Row} :
    x ∈ (s.without r).table.rows ↔ x ∈ s.table.rows ∧ x ≠ row := by
  have hshows := Row.shows_of_toRecord hr
  have hof : ∀ x ∈ s.table.rows, (isRowOf r x = true ↔ x = row) := by
    intro x hx
    rw [Ledger.isRowOf_iff]
    constructor
    · rintro ⟨-, hseq⟩
      exact eq_of_seq hq hx hrow (hseq.trans hshows.seq.symm)
    · rintro rfl
      exact ⟨hshows.identity, hshows.seq⟩
  simp only [without, CommandTable.delete, List.mem_filter, Bool.not_eq_true']
  constructor
  · rintro ⟨hx, hn⟩
    refine ⟨hx, fun he => ?_⟩
    rw [(hof x hx).2 he] at hn
    cases hn
  · rintro ⟨hx, hne⟩
    exact ⟨hx, Bool.eq_false_iff.2 fun h => hne ((hof x hx).1 h)⟩

/-- Whoever stood behind the row that was served moves up. -/
theorem line_without (hq : (s.table.rows.map (·.seq)).Nodup) {rest : List Row}
    (hline : s.line lane now = row :: rest) (hr : row.toRecord = .ok r) :
    (s.without r).line lane now = rest := by
  have hsorted := pairwise_line hq lane now
  rw [hline] at hsorted
  have hnot : row ∉ rest := (List.nodup_cons.1 (nodup_of_pairwise hsorted)).1
  have hrow : row ∈ s.line lane now := by simp [hline]
  apply line_eq (nodup_without hq r) (List.pairwise_cons.1 hsorted).2
  intro x
  have hold : x ∈ s.line lane now ↔ x = row ∨ x ∈ rest := by rw [hline, List.mem_cons]
  have hnew : x ∈ (s.without r).line lane now ↔ x ∈ s.line lane now ∧ x ≠ row := by
    rw [mem_line, mem_line, mem_without hq (mem_line.1 hrow).1 hr]
    simp only [without]
    tauto
  rw [hnew, hold]
  constructor
  · rintro ⟨rfl | hx, hne⟩
    · exact absurd rfl hne
    · exact hx
  · intro hx
    exact ⟨.inr hx, ne_of_mem_of_not_mem hx hnot⟩

theorem serve_cons_ok (hq : (s.table.rows.map (·.seq)).Nodup) (ho : s.isOpen = true)
    {rest : List Row} (hline : s.line lane now = row :: rest) (hr : row.toRecord = .ok r)
    (ts : List Instant) :
    serve lane (now :: ts) s =
      (r :: (serve lane ts (s.without r)).1, (serve lane ts (s.without r)).2) := by
  have hrow : row ∈ s.line lane now := by simp [hline]
  have hc : r.seq ∉ s.claimed := (Row.shows_of_toRecord hr).seq ▸ (mem_line.1 hrow).2.2.2
  have hclaim : nextEligible lane now s =
      (.ok (some r), { s with claimed := r.seq :: s.claimed }) := by
    simp only [nextEligible_line hq ho, hline, List.head?_cons, hr]
  rw [serve, hclaim]
  simp only [retire_claimed ho hc]

/-- A claim that finds nothing to read changes nothing. -/
theorem serve_cons_of_not_ok (hq : (s.table.rows.map (·.seq)).Nodup) (ho : s.isOpen = true)
    (h : ∀ row ∈ (s.line lane now).head?, row.isReadable = false) (ts : List Instant) :
    serve lane (now :: ts) s = serve lane ts s := by
  rw [serve, nextEligible_line hq ho]
  cases hhead : (s.line lane now).head? with
  | none => rfl
  | some row =>
    have hl : row.lane = lane.index := (mem_line.1 (List.mem_of_mem_head? hhead)).2.1
    cases hr : row.toRecord with
    | error e => simp only [hr]
    | ok r =>
      have hreads := (Row.exists_toRecord_iff hl).1 ⟨r, hr⟩
      rw [h row hhead] at hreads
      cases hreads

/-- At one instant the line is served up to the first row that cannot be read. -/
theorem serve_replicate (hq : (s.table.rows.map (·.seq)).Nodup) (ho : s.isOpen = true)
    (lane : Lane) (now : Instant) (n : Nat) :
    (serve lane (List.replicate n now) s).1.map .ok =
      (((s.line lane now).takeWhile Row.isReadable).take n).map Row.toRecord := by
  induction n generalizing s with
  | zero => simp [serve]
  | succ n ih =>
    rw [List.replicate_succ]
    cases hline : s.line lane now with
    | nil =>
      rw [serve_cons_of_not_ok hq ho (by simp [hline]), ih hq ho, hline]
      simp
    | cons row rest =>
      by_cases hreads : row.isReadable = true
      · have hrow : row ∈ s.line lane now := by simp [hline]
        obtain ⟨r, hr⟩ := (Row.exists_toRecord_iff (mem_line.1 hrow).2.1).2 hreads
        have hrest := ih (s := s.without r) (nodup_without hq r) ho
        rw [line_without hq hline hr] at hrest
        rw [serve_cons_ok hq ho hline hr]
        simp [hreads, hr, hrest]
      · rw [serve_cons_of_not_ok hq ho (by simpa [hline] using hreads), ih hq ho, hline]
        simp [hreads]

/-! ## Behind a row that cannot be read -/

/-- A row that cannot be read stands in line before whatever is at a place. -/
structure Blocks (s : TableStore) (lane : Lane) (now : Instant) (bad : Row) (q : Int) : Prop where
  inLine : bad ∈ s.line lane now
  unreadable : bad.isReadable = false
  before : ∀ x ∈ s.table.rows, x.seq = q → bad.Precedes x

/-- The line only grows as time goes on. -/
theorem mem_line_of_le {t : Instant} (h : now ≤ t) (hm : row ∈ s.line lane now) :
    row ∈ s.line lane t := by
  rw [mem_line] at hm ⊢
  exact ⟨hm.1, hm.2.1, Int.le_trans hm.2.2.1 h, hm.2.2.2⟩

/-- The record that is served is not the blocked one, which stays blocked. -/
theorem Blocks.without {q : Int} (h : s.Blocks lane now bad q)
    (hq : (s.table.rows.map (·.seq)).Nodup) {t : Instant} (ht : now ≤ t) {rest : List Row}
    (hline : s.line lane t = row :: rest) (hr : row.toRecord = .ok r) :
    r.seq ≠ q ∧ (s.without r).Blocks lane now bad q := by
  have hrow : row ∈ s.line lane t := by simp [hline]
  obtain ⟨hmem, hl, -, -⟩ := mem_line.1 hrow
  have hne : bad ≠ row := by
    rintro rfl
    have hreads := (Row.exists_toRecord_iff hl).1 ⟨r, hr⟩
    rw [h.unreadable] at hreads
    cases hreads
  have hrest : bad ∈ rest := by
    have hbad := mem_line_of_le ht h.inLine
    rw [hline] at hbad
    exact (List.mem_cons.1 hbad).resolve_left hne
  have hfirst : row.Precedes bad := by
    have hsorted := pairwise_line hq lane t
    rw [hline] at hsorted
    exact (List.pairwise_cons.1 hsorted).1 bad hrest
  have hseq : row.seq = r.seq := (Row.shows_of_toRecord hr).seq
  refine ⟨fun he => hfirst.asymm (h.before row hmem (hseq.trans he)), ?_, h.unreadable, ?_⟩
  · have hbad := mem_line.1 h.inLine
    exact mem_line.2 ⟨(mem_without hq hmem hr).2 ⟨hbad.1, hne⟩, hbad.2⟩
  · intro x hx
    exact h.before x ((mem_without hq hmem hr).1 hx).1

/-- What is blocked is never served, at no later instant. -/
theorem Blocks.serve {q : Int} (h : s.Blocks lane now bad q)
    (hq : (s.table.rows.map (·.seq)).Nodup) (ho : s.isOpen = true) {ts : List Instant}
    (hts : ∀ t ∈ ts, now ≤ t) :
    (∀ r ∈ (serve lane ts s).1, r.seq ≠ q) ∧ (serve lane ts s).2.Blocks lane now bad q := by
  induction ts generalizing s with
  | nil => exact ⟨by simp [TableStore.serve], h⟩
  | cons t ts ih =>
    obtain ⟨ht, hts⟩ := List.forall_mem_cons.1 hts
    cases hline : s.line lane t with
    | nil =>
      rw [serve_cons_of_not_ok hq ho (by simp [hline])]
      exact ih h hq ho hts
    | cons row rest =>
      by_cases hreads : row.isReadable = true
      · have hrow : row ∈ s.line lane t := by simp [hline]
        obtain ⟨r, hr⟩ := (Row.exists_toRecord_iff (mem_line.1 hrow).2.1).2 hreads
        obtain ⟨hne, hstill⟩ := h.without hq ht hline hr
        obtain ⟨hserved, hlast⟩ := ih hstill (nodup_without hq r) ho hts
        rw [serve_cons_ok hq ho hline hr]
        exact ⟨List.forall_mem_cons.2 ⟨hne, hserved⟩, hlast⟩
      · rw [serve_cons_of_not_ok hq ho (by simpa [hline] using hreads)]
        exact ih h hq ho hts

/-! ## Who is served -/

/-- Whoever stands before every row that cannot be read is in the part of the line that is served. -/
theorem mem_takeWhile_of_precedes {rows : List Row} (hsorted : rows.Pairwise Row.Precedes)
    (hrow : row ∈ rows) (hreads : row.isReadable = true)
    (hbefore : ∀ bad ∈ rows, bad.isReadable = false → row.Precedes bad) :
    row ∈ rows.takeWhile Row.isReadable := by
  induction rows with
  | nil => cases hrow
  | cons a rest ih =>
    obtain ⟨hfirst, hrest⟩ := List.pairwise_cons.1 hsorted
    rcases List.mem_cons.1 hrow with rfl | hm
    · simp [hreads]
    · by_cases ha : a.isReadable = true
      · rw [List.takeWhile_cons_of_pos ha]
        refine List.mem_cons_of_mem _ (ih hrest hm fun bad hb => ?_)
        exact hbefore bad (List.mem_cons_of_mem _ hb)
      · have hrowa := hbefore a List.mem_cons_self (by simpa using ha)
        exact absurd (hfirst row hm) hrowa.asymm

theorem served_iff (hq : (s.table.rows.map (·.seq)).Nodup) (ho : s.isOpen = true)
    (hrow : row ∈ s.line lane now) (hreads : row.isReadable = true) :
    (∃ n, ∃ r ∈ (serve lane (List.replicate n now) s).1, row.toRecord = .ok r) ↔
      ∀ bad ∈ s.line lane now, bad.isReadable = false → row.Precedes bad := by
  obtain ⟨hmem, hl, -, -⟩ := mem_line.1 hrow
  constructor
  · rintro ⟨n, r, hserved, hr⟩ bad hbad hunread
    have hne : row.seq ≠ bad.seq := by
      intro hseq
      rw [eq_of_seq hq hmem (mem_line.1 hbad).1 hseq, hunread] at hreads
      cases hreads
    rcases Row.precedes_or hne with hbefore | hafter
    · exact hbefore
    · have hblocks : s.Blocks lane now bad row.seq :=
        ⟨hbad, hunread, fun x hx hseq => eq_of_seq hq hx hmem hseq ▸ hafter⟩
      have hts : ∀ t ∈ List.replicate n now, now ≤ t :=
        fun t ht => List.eq_of_mem_replicate ht ▸ Int.le_refl now
      have hnever := (hblocks.serve hq ho hts).1 r hserved
      exact absurd (Row.shows_of_toRecord hr).seq.symm hnever
  · intro hbefore
    have htake := mem_takeWhile_of_precedes (pairwise_line hq lane now) hrow hreads hbefore
    obtain ⟨r, hr⟩ := (Row.exists_toRecord_iff hl).2 hreads
    have hall := serve_replicate hq ho lane now (s.line lane now).length
    rw [List.take_of_length_le (List.takeWhile_prefix _).length_le] at hall
    have hin : (Except.ok r : Except QueueError Record) ∈
        ((s.line lane now).takeWhile Row.isReadable).map Row.toRecord :=
      hr ▸ List.mem_map_of_mem htake
    rw [← hall] at hin
    obtain ⟨x, hx, he⟩ := List.mem_map.1 hin
    cases he
    exact ⟨_, r, hx, hr⟩

/-- **A lane is served up to the first row that cannot be read**, whatever stands in its table and
whatever is claimed. A claim takes the record at the head of the line, or fails over it and changes
nothing. Claiming and retiring again and again serves the line up to that row, so a row is served just
when none that cannot be read stands before it; and while such a row is there nothing behind it is ever
served, at no later instant. Places are unique in every table. -/
theorem served_until_unreadable (s : TableStore) (ho : s.isOpen = true)
    (hq : (s.table.rows.map (·.seq)).Nodup) (lane : Lane) (now : Instant) :
    (s.line lane now = [] → nextEligible lane now s = (.ok none, s)) ∧
    (∀ row ∈ (s.line lane now).head?,
      (row.isReadable = true → ∃ r, row.toRecord = .ok r ∧
        nextEligible lane now s = (.ok (some r), { s with claimed := r.seq :: s.claimed })) ∧
      (row.isReadable = false → ∃ e, row.toRecord = .error e ∧
        nextEligible lane now s = (.error e, s))) ∧
    (∀ n, (serve lane (List.replicate n now) s).1.map .ok =
      (((s.line lane now).takeWhile Row.isReadable).take n).map Row.toRecord) ∧
    (∀ row ∈ s.line lane now, row.isReadable = true →
      ((∃ n, ∃ r ∈ (serve lane (List.replicate n now) s).1, row.toRecord = .ok r) ↔
        ∀ bad ∈ s.line lane now, bad.isReadable = false → row.Precedes bad)) ∧
    ∀ bad ∈ s.line lane now, bad.isReadable = false → ∀ row ∈ s.table.rows, bad.Precedes row →
      ∀ ts, (∀ t ∈ ts, now ≤ t) →
        bad ∈ (serve lane ts s).2.line lane now ∧ ∀ r ∈ (serve lane ts s).1, r.seq ≠ row.seq := by
  refine ⟨fun hnil => ?_, fun row hhead => ?_, serve_replicate hq ho lane now,
    fun row => served_iff hq ho, fun bad hbad hunread row hrow hafter ts hts => ?_⟩
  · rw [nextEligible_line hq ho, hnil]
    rfl
  · have hl : row.lane = lane.index := (mem_line.1 (List.mem_of_mem_head? hhead)).2.1
    have hiff := Row.exists_toRecord_iff hl
    rw [nextEligible_line hq ho, Option.mem_def.1 hhead]
    cases hr : row.toRecord with
    | ok r =>
      have hreads := hiff.1 ⟨r, hr⟩
      exact ⟨fun _ => ⟨r, rfl, by simp only [hr]⟩, fun hn => by rw [hreads] at hn; cases hn⟩
    | error e =>
      refine ⟨fun hreads => ?_, fun _ => ⟨e, rfl, by simp only [hr]⟩⟩
      obtain ⟨r, hok⟩ := hiff.2 hreads
      rw [hr] at hok
      cases hok
  · have hblocks : s.Blocks lane now bad row.seq :=
      ⟨hbad, hunread, fun x hx hseq => eq_of_seq hq hx hrow hseq ▸ hafter⟩
    obtain ⟨hnever, hlast⟩ := hblocks.serve hq ho hts
    exact ⟨hlast.inLine, hnever⟩

/-- Three rows of the general lane, the second of which is due since before there were calendars. -/
def unreadableSecond : TableStore :=
  let s := (Operation.runAll [(.insert (probe []), 0), (.insert { probe [] with identity := "b" }, 0),
    (.insert { probe [] with identity := "c" }, 0)] empty).2
  { s with
    table := (s.table.update (·.identity == "b") fun row =>
      { row with availableAt := -9000000000000000 }).2 }

theorem line_unreadableSecond :
    unreadableSecond.line .general 1 = unreadableSecond.table.rows := by
  apply line_eq_rows
  · decide +kernel
  · decide +kernel

/-- The first row is served, and then every claim fails over the second one. -/
theorem served_until_unreadable_second :
    unreadableSecond.isOpen = true ∧ (unreadableSecond.table.rows.map (·.seq)).Nodup ∧
      (∀ n, (serve .general (List.replicate n 1) unreadableSecond).1.map .ok =
        ([Except.ok (.ofCommand (probe []) 1 0)] : List (Except QueueError Record)).take n) ∧
      ∀ ts, (∀ t ∈ ts, 1 ≤ t) → ∀ r ∈ (serve .general ts unreadableSecond).1, r.seq ≠ 3 := by
  have hopen : unreadableSecond.isOpen = true := by decide +kernel
  have hseqs : (unreadableSecond.table.rows.map (·.seq)).Nodup := by decide +kernel
  obtain ⟨-, -, hserved, -, hblocked⟩ :=
    served_until_unreadable unreadableSecond hopen hseqs .general 1
  rw [line_unreadableSecond] at hserved hblocked
  refine ⟨hopen, hseqs, fun n => ?_, fun ts hts => ?_⟩
  · have hfirst : (unreadableSecond.table.rows.takeWhile Row.isReadable).map Row.toRecord =
        [.ok (.ofCommand (probe []) 1 0)] := by decide +kernel
    rw [hserved n, List.map_take, hfirst]
  · have hbad : ∀ bad ∈ unreadableSecond.table.rows, bad.seq = 2 → bad.isReadable = false ∧
        ∀ row ∈ unreadableSecond.table.rows, row.seq = 3 → bad.Precedes row := by decide +kernel
    have hmem : ∃ bad ∈ unreadableSecond.table.rows, bad.seq = 2 := by decide +kernel
    have hrow : ∃ row ∈ unreadableSecond.table.rows, row.seq = 3 := by decide +kernel
    obtain ⟨bad, hin, hseq⟩ := hmem
    obtain ⟨row, hlast, hthree⟩ := hrow
    obtain ⟨hunread, hbefore⟩ := hbad bad hin hseq
    rw [← hthree]
    exact (hblocked bad hin hunread row hlast (hbefore row hlast hthree) ts hts).2

/-- The first row is in hand, the third one may be claimed, and the claim fails over the second. -/
theorem healthy_row_blocked :
    let s := { unreadableSecond with claimed := [1] }
    (∃ row ∈ s.line .general 1, row.identity = "c" ∧ row.isReadable = true) ∧
      nextEligible .general 1 s =
        (.error (.storage "available_at -9000000000000000 out of range for b"), s) ∧
      ¬ ∀ (s : TableStore) (lane : Lane) (now : Instant), s.isOpen = true →
        (s.table.rows.map (·.seq)).Nodup →
        (∃ row ∈ s.line lane now, row.isReadable = true) →
        ∃ r, (nextEligible lane now s).1 = .ok (some r) := by
  intro s
  have hopen : s.isOpen = true := by decide +kernel
  have hseqs : (s.table.rows.map (·.seq)).Nodup := by decide +kernel
  have hline : s.line .general 1 = unreadableSecond.table.rows.drop 1 := by
    apply line_eq hseqs
    · decide +kernel
    · intro row
      have hrows : ∀ row ∈ unreadableSecond.table.rows,
          (row.lane = Lane.general.index ∧ row.availableAt ≤ 1 ∧ row.seq ∉ [1] ↔
            row ∈ unreadableSecond.table.rows.drop 1) := by decide +kernel
      rw [mem_line]
      exact ⟨fun h => (hrows row h.1).1 h.2, fun h =>
        ⟨List.mem_of_mem_drop h, (hrows row (List.mem_of_mem_drop h)).2 h⟩⟩
  have hhealthy : ∃ row ∈ s.line .general 1, row.identity = "c" ∧ row.isReadable = true := by
    rw [hline]
    decide +kernel
  have hfails : nextEligible .general 1 s =
      (.error (.storage "available_at -9000000000000000 out of range for b"), s) := by
    rw [nextEligible_line hseqs hopen, hline]
    decide +kernel
  refine ⟨hhealthy, hfails, fun h => ?_⟩
  obtain ⟨row, hrow, -, hreads⟩ := hhealthy
  obtain ⟨r, hr⟩ := h s .general 1 hopen hseqs ⟨row, hrow, hreads⟩
  rw [hfails] at hr
  cases hr

end TableStore

end LaneQueue
