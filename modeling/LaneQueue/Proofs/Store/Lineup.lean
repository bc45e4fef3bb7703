import Mathlib.Data.List.Nodup
import LaneQueue.Proofs.Store.Memory
/-!
# The records of a store in line

A ledger as the list of the records that its rows show, and such a list in the order of service. Places
are unique, so the line is determined by which records stand in it (`Record.inOrder_eq_of_mem`), and
whoever is served first stands at its head (`Record.inOrder_cons`).
-/
namespace LaneQueue

/-! ## The order of service -/

namespace Record

/-- A record has a lower number than another one, or the same and an earlier place. -/
def Precedes (x y : Record) : Prop :=
  x.priority.toNat < y.priority.toNat ∨ x.priority = y.priority ∧ x.seq < y.seq

variable {x y z : Record} {rs xs : List Record}

theorem Precedes.asymm (h : x.Precedes y) : ¬ y.Precedes x := by
  rintro (hlt' | ⟨heq', hlt'⟩)
  · rcases h with hlt | ⟨heq, -⟩
    · omega
    · rw [heq] at hlt'
      omega
  · rcases h with hlt | ⟨-, hlt⟩
    · rw [heq'] at hlt
      omega
    · omega

/-- Of two records at different places one precedes the other. -/
theorem precedes_of_servesBefore (h : x.servesBefore y = true) (hq : x.seq ≠ y.seq) :
    x.Precedes y := by
  rcases servesBefore_iff.1 h with hlt | ⟨heq, hle⟩
  · exact .inl hlt
  · exact .inr ⟨Priority.toNat_inj heq, by omega⟩

theorem servesBefore_trans (hxy : x.servesBefore y = true) (hyz : y.servesBefore z = true) :
    x.servesBefore z = true := by
  rw [servesBefore_iff] at hxy hyz ⊢
  omega

theorem servesBefore_total (x y : Record) : (x.servesBefore y || y.servesBefore x) = true := by
  rw [Bool.or_eq_true, servesBefore_iff, servesBefore_iff]
  omega

/-- Records are served in the order of the rows that show them. -/
theorem servesBefore_of_shows {a b : Row} (hx : a.Shows x) (hy : b.Shows y)
    (h : a.servesBefore b = true) : x.servesBefore y = true := by
  rw [Row.servesBefore_iff, hx.priority, hy.priority, hx.seq, hy.seq] at h
  exact servesBefore_iff.2 (by omega)

theorem perm_inOrder (rs : List Record) : (inOrder rs).Perm rs := List.mergeSort_perm rs _

@[simp] theorem mem_inOrder : x ∈ inOrder rs ↔ x ∈ rs := (perm_inOrder rs).mem_iff

@[simp] theorem inOrder_eq_nil : inOrder rs = [] ↔ rs = [] := by
  rw [← List.perm_nil, ← List.perm_nil]
  exact ⟨(perm_inOrder rs).symm.trans, (perm_inOrder rs).trans⟩

theorem pairwise_inOrder (hq : (rs.map (·.seq)).Nodup) : (inOrder rs).Pairwise Precedes := by
  have hsorted : (inOrder rs).Pairwise fun x y => x.servesBefore y = true := by
    apply List.pairwise_mergeSort
    · intro x y z hxy hyz
      exact servesBefore_trans hxy hyz
    · exact servesBefore_total
  have hseqs : (inOrder rs).Pairwise fun x y => x.seq ≠ y.seq := by
    rw [← List.pairwise_map]
    exact ((perm_inOrder rs).map _).nodup_iff.2 hq
  exact (hsorted.and hseqs).imp fun ⟨hxy, hne⟩ => precedes_of_servesBefore hxy hne

/-- Records at different places that are in the order of service already. -/
theorem inOrder_eq (hperm : xs.Perm rs) (hsorted : xs.Pairwise Precedes)
    (hq : (rs.map (·.seq)).Nodup) : inOrder rs = xs := by
  refine List.Perm.eq_of_pairwise ?_ (pairwise_inOrder hq) hsorted ((perm_inOrder rs).trans hperm.symm)
  intro x y _ _ hxy hyx
  exact absurd hyx hxy.asymm

/-- The line depends only on who stands in it. -/
theorem inOrder_eq_of_mem (hxs : (xs.map (·.seq)).Nodup) (hrs : (rs.map (·.seq)).Nodup)
    (h : ∀ r, r ∈ xs ↔ r ∈ rs) : inOrder xs = inOrder rs := by
  have hperm : xs.Perm rs :=
    (List.perm_ext_iff_of_nodup (List.Nodup.of_map _ hxs) (List.Nodup.of_map _ hrs)).2 h
  exact inOrder_eq ((perm_inOrder rs).trans hperm.symm) (pairwise_inOrder hrs) hxs

/-- Whoever is served before all the others stands at the head. -/
theorem inOrder_cons (hx : ∀ y ∈ rs, x.servesBefore y = true)
    (hq : ((x :: rs).map (·.seq)).Nodup) : inOrder (x :: rs) = x :: inOrder rs := by
  obtain ⟨hne, hrs⟩ := List.nodup_cons.1 hq
  refine inOrder_eq ((perm_inOrder rs).cons x) (List.pairwise_cons.2 ⟨?_, pairwise_inOrder hrs⟩) hq
  intro y hy
  have hy : y ∈ rs := mem_inOrder.1 hy
  refine precedes_of_servesBefore (hx y hy) fun hxy => hne ?_
  exact List.mem_map.2 ⟨y, hy, hxy.symm⟩

end Record

/-! ## What is stored as records -/

/-- The record that a row shows, if its columns are in range; its instant may be any. -/
def Row.shown? (row : Row) : Option Record :=
  if 0 ≤ row.priority ∧ row.priority ≤ 255 then
    (Lane.ofIndex? row.lane).map fun lane =>
      { identity := row.identity
        tag := row.tag
        lane := lane
        priority := .ofNat row.priority.toNat
        payload := row.payload
        bubbles := row.bubbles != 0
        retryCount := row.retries
        seq := row.seq
        availableAt := row.availableAt }
  else none

theorem Row.shown?_eq_some {row : Row} {r : Record} : row.shown? = some r ↔ row.Shows r := by
  constructor
  · intro h
    unfold shown? at h
    split at h
    · rename_i hp
      obtain ⟨lane, hl, rfl⟩ := Option.map_eq_some_iff.1 h
      refine ⟨⟨rfl, rfl, (Lane.ofIndex?_eq_some_iff _ _).1 hl, ?_, rfl, rfl, rfl⟩, rfl, rfl⟩
      rw [Priority.toNat_ofNat (by omega)]
      omega
    · cases h
  · intro h
    have hp := r.priority.toNat_le
    have hprio := h.priority
    unfold shown?
    rw [if_pos (by omega), h.lane, Lane.ofIndex?_index, Option.map_some, hprio, h.identity, h.tag,
      h.payload, h.bubbles, h.retryCount, h.seq, h.availableAt, Int.toNat_natCast,
      Priority.ofNat_toNat]

namespace Ledger

variable {l : Ledger} {r : Record}

/-- The stored records. -/
def records (l : Ledger) : List Record := l.rows.filterMap Row.shown?

theorem mem_records : r ∈ l.records ↔ l.Keeps r := by
  simp only [records, List.mem_filterMap, Row.shown?_eq_some]
  rfl

theorem Sound.nodup_records (h : l.Sound) : (l.records.map (·.seq)).Nodup := by
  have hrows : l.rows.Pairwise fun x y => x.seq ≠ y.seq := List.pairwise_map.1 h.seqs
  apply List.pairwise_map.2
  apply hrows.filterMap
  intro row row' hne x hx y hy hxy
  have hx := (Row.shown?_eq_some.1 hx).seq
  have hy := (Row.shown?_eq_some.1 hy).seq
  exact hne (hx.trans (hxy.trans hy.symm))

end Ledger

end LaneQueue
