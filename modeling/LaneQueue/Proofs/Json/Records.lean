import LaneQueue.Priority
import LaneQueue.Proofs.Json.Parsing
/-!
# Records and their fields

`Fields.Reads` says that some members have the record's fields with the values of a given record, and
has a rule for each way of putting fields together; members that are exactly the record's own are then
read as that record (`Fields.Reads.ofObject`). `Fields.Yields` bounds what a record can be whatever is
read. For a family of records the tag comes in front of the members of its record, and the members of
a record around the family in front of both.
-/
namespace LaneQueue.Json

variable {α β : Type}

/-! ## Single values -/

namespace Reader

theorem text_tree (s : String) : text (Value.text s).tree = .ok s := rfl

theorem bool_tree (b : Bool) : bool (Value.bool b).tree = .ok b := rfl

theorem below_nat {bound n : Nat} (h : n < bound) : below bound (Value.nat n).tree = .ok n := by
  have hbound : 0 ≤ (n : Int) ∧ (n : Int) < bound := by omega
  simp only [Value.nat, Value.tree, below, Numeral.toInt?_ofInt, if_pos hbound, Int.toNat_natCast]

theorem word16_toNat (x : UInt16) : word16 (Value.nat x.toNat).tree = .ok x := by
  rw [word16, below_nat x.toNat_lt]
  simp [Except.map]

theorem word32_toNat (x : UInt32) : word32 (Value.nat x.toNat).tree = .ok x := by
  rw [word32, below_nat x.toNat_lt]
  simp [Except.map]

theorem word64_toNat (x : UInt64) : word64 (Value.nat x.toNat).tree = .ok x := by
  rw [word64, below_nat x.toNat_lt]
  simp [Except.map]

theorem oneOf_text {find? : String → Option α} {s : String} {a : α} (h : find? s = some a) :
    oneOf find? (Value.text s).tree = .ok a := by
  simp only [Value.tree, oneOf, oneOf.named, h]

theorem option_object {r : Reader α} {members : List (Option String × Tree)} {a : α}
    (h : r (.object members) = .ok a) : r.option (.object members) = .ok (some a) := by
  simp only [option, h, Except.map]

end Reader

/-! ## The members of an object -/

/-- Members with texts for their keys. -/
def keyed (ms : Members) : List (Option String × Tree) := ms.map fun m => (some m.1, m.2)

theorem mem_keyed {ms : Members} {name : String} {t : Tree} :
    (some name, t) ∈ keyed ms ↔ (name, t) ∈ ms := by
  simp [keyed]

/-- The members of a written object. -/
def Value.members (ms : List (String × Value)) : Members := ms.map fun m => (m.1, m.2.tree)

theorem Value.tree_object (ms : List (String × Value)) :
    (Value.object ms).tree = .object (keyed (Value.members ms)) := by
  have hmembers : ∀ ms, tree.treesOfMembers ms = keyed (Value.members ms) := by
    intro ms
    induction ms with
    | nil => rfl
    | cons m ms ih => rw [tree.treesOfMembers, ih, members, members, List.map_cons, keyed, keyed,
        List.map_cons]
  rw [tree, hmembers]

/-- No key comes twice. -/
abbrev Members.Distinct (ms : Members) : Prop := (ms.map Prod.fst).Nodup

theorem Members.Distinct.lookup {ms : Members} (h : ms.Distinct) {name : String} {t : Tree}
    (hm : (name, t) ∈ ms) : ms.lookup name = some t := by
  induction ms with
  | nil => cases hm
  | cons m ms ih =>
    obtain ⟨hm', h⟩ := List.nodup_cons.1 h
    rcases List.mem_cons.1 hm with rfl | hm
    · rw [List.lookup_cons_self]
    · have hne : (name == m.1) = false := by
        rw [beq_eq_false_iff_ne]
        rintro rfl
        exact hm' (List.mem_map.2 ⟨_, hm, rfl⟩)
      rw [List.lookup_cons, hne]
      exact ih h hm

theorem Members.lookup_eq_none {ms : Members} {name : String} (h : name ∉ ms.map Prod.fst) :
    ms.lookup name = none := by
  rw [List.lookup_eq_none_iff]
  intro m hm
  rw [bne_iff_ne]
  rintro rfl
  exact h (List.mem_map_of_mem hm)

/-- A member that comes behind others has a key of its own. -/
theorem Members.Distinct.lookup_seen {seen ns : Members} {m : String × Tree}
    (h : Members.Distinct (seen.reverse ++ m :: ns)) : seen.lookup m.1 = none := by
  rw [Members.Distinct, List.map_append, List.nodup_append, List.map_reverse] at h
  exact Members.lookup_eq_none fun hin =>
    h.2.2 _ (List.mem_reverse.2 hin) _ List.mem_cons_self rfl

/-! ## The fields of a record -/

namespace Fields

@[simp] theorem names_pure (a : α) : (Pure.pure a : Fields α).names = [] := rfl

@[simp] theorem names_seq (f : Fields (α → β)) (x : Fields α) :
    (f <*> x).names = f.names ++ x.names := rfl

@[simp] theorem names_map (g : α → β) (x : Fields α) : (g <$> x).names = x.names := rfl

@[simp] theorem names_field (name : String) (r : Reader α) (absent : Except Fault α) :
    (Fields.field name r absent).names = [name] := rfl

@[simp] theorem names_maybe (name : String) (r : Reader α) : (maybe name r).names = [name] := rfl

/-- The members have the fields of a record, with its values. -/
structure Reads (f : Fields α) (ms : Members) (a : α) : Prop where
  check : ∀ {name t}, name ∈ f.names → (name, t) ∈ ms → f.check name t = .ok ()
  ofMembers : f.ofMembers ms = .ok a

namespace Reads

variable {ms : Members} {f : Fields (α → β)} {g : α → β} {x : Fields α} {a : α}

theorem pure (a : α) : (Pure.pure a : Fields α).Reads ms a := ⟨nofun, rfl⟩

theorem seq (hf : f.Reads ms g) (hx : x.Reads ms a) : (f <*> x).Reads ms (g a) where
  check {name t} hname hm := by
    change (if name ∈ f.names then f.check name t else x.check name t) = _
    split
    · exact hf.check ‹_› hm
    · exact hx.check ((List.mem_append.1 hname).resolve_left ‹_›) hm
  ofMembers := by
    change (do let g ← f.ofMembers ms; let a ← x.ofMembers ms; return g a) = _
    rw [hf.ofMembers, hx.ofMembers]
    rfl

theorem map (g : α → β) (hx : x.Reads ms a) : (g <$> x).Reads ms (g a) := (pure g).seq hx

theorem field {r : Reader α} {absent : Except Fault α} {name : String} {t : Tree}
    (hms : ms.Distinct) (hm : (name, t) ∈ ms) (hr : r t = .ok a) :
    (Fields.field name r absent).Reads ms a where
  check {name' t'} hname hm' := by
    obtain rfl := List.mem_singleton.1 hname
    obtain rfl := Option.some.inj ((hms.lookup hm).symm.trans (hms.lookup hm'))
    simp only [Fields.field, hr]
    rfl
  ofMembers := by simp only [Fields.field, hms.lookup hm, hr]

/-- The field that stands at a place of a written object. -/
theorem member {r : Reader α} {absent : Except Fault α} {vs : List (String × Value)} {name : String}
    {v : Value} (hms : (Value.members vs).Distinct) (i : Nat) (hi : vs[i]? = some (name, v))
    (hr : r v.tree = .ok a) : (Fields.field name r absent).Reads (Value.members vs) a :=
  field hms (List.mem_map_of_mem (f := fun m : String × Value => (m.1, m.2.tree))
    (List.mem_of_getElem? hi)) hr

/-- A field that is there and is not null. -/
theorem maybe_some {r : Reader α} {name : String} {t : Tree} (hms : ms.Distinct)
    (hm : (name, t) ∈ ms) (hr : r.option t = .ok (some a)) : (maybe name r).Reads ms (some a) :=
  have hfield : (Fields.field name r.option (.ok none)).Reads ms (some a) := field hms hm hr
  ⟨hfield.check, hfield.ofMembers⟩

/-- A field that is left out. -/
theorem maybe_none {r : Reader α} {name : String} (hm : name ∉ ms.map Prod.fst) :
    (maybe name r).Reads ms none where
  check {name' t} hname hm' := by
    obtain rfl := List.mem_singleton.1 hname
    exact absurd (List.mem_map_of_mem hm') hm
  ofMembers := by simp only [maybe, Fields.field, Members.lookup_eq_none hm]

/-- The members that a record knows are kept, in their order. -/
theorem known {x : Fields α} {ms : Members} (hms : ms.Distinct) (hnames : ∀ m ∈ ms, m.1 ∈ x.names)
    (hcheck : ∀ {name t}, name ∈ x.names → (name, t) ∈ ms → x.check name t = .ok ()) :
    x.known (keyed ms) [] = .ok ms := by
  suffices h : ∀ ns seen, ms = seen.reverse ++ ns → x.known (keyed ns) seen = .ok ms from h ms [] rfl
  intro ns
  induction ns with
  | nil =>
    intro seen hseen
    rw [hseen, List.append_nil]
    rfl
  | cons m ns ih =>
    intro seen hseen
    have hm : m ∈ ms := hseen ▸ List.mem_append_right _ List.mem_cons_self
    rw [keyed, List.map_cons, Fields.known, if_pos (hnames m hm),
      Members.Distinct.lookup_seen (hseen ▸ hms), hcheck (hnames m hm) hm]
    exact ih (m :: seen) (by rw [List.reverse_cons, List.append_assoc]; exact hseen)

end Reads

/-- The members are those of a record and no others. -/
structure Spells (f : Fields α) (ms : Members) (a : α) : Prop where
  distinct : ms.Distinct
  known : ∀ m ∈ ms, m.1 ∈ f.names
  reads : f.Reads ms a

/-- **A record is read from its members.** -/
theorem Spells.ofObject {f : Fields α} {ms : Members} {a : α} (h : f.Spells ms a) :
    f.ofObject (keyed ms) = .ok a := by
  rw [Fields.ofObject, Reads.known h.distinct h.known h.reads.check]
  exact h.reads.ofMembers

theorem Spells.reader {f : Fields α} {ms : Members} {a : α} (h : f.Spells ms a) :
    f.reader (.object (keyed ms)) = .ok a := h.ofObject

/-! ## What a record can be -/

/-- Whatever is read, as an object or as an array, the record satisfies a condition. -/
structure Yields (f : Fields α) (P : α → Prop) : Prop where
  ofMembers : ∀ {ms a}, f.ofMembers ms = .ok a → P a
  ofItems : ∀ {items a rest}, f.ofItems items = .ok (a, rest) → P a

namespace Yields

theorem pure {P : α → Prop} {a : α} (h : P a) : (Pure.pure a : Fields α).Yields P where
  ofMembers ha := by cases ha; exact h
  ofItems ha := by cases ha; exact h

theorem seq {f : Fields (α → β)} {x : Fields α} {P : α → Prop} {Q : β → Prop}
    (hf : f.Yields fun g => ∀ a, P a → Q (g a)) (hx : x.Yields P) : (f <*> x).Yields Q where
  ofMembers {ms b} hb := by
    change (do let g ← f.ofMembers ms; let a ← x.ofMembers ms; return g a) = _ at hb
    cases hg : f.ofMembers ms with
    | error e => rw [hg] at hb; cases hb
    | ok g =>
      cases ha : x.ofMembers ms with
      | error e => rw [hg, ha] at hb; cases hb
      | ok a =>
        rw [hg, ha] at hb
        obtain rfl := Except.ok.inj hb
        exact hf.ofMembers hg a (hx.ofMembers ha)
  ofItems {items b rest} hb := by
    change ((f.ofItems items).bind fun found => (x.ofItems found.2).bind fun next =>
      .ok (found.1 next.1, next.2)) = _ at hb
    cases hg : f.ofItems items with
    | error e => rw [hg] at hb; cases hb
    | ok g =>
      cases ha : x.ofItems g.2 with
      | error e => rw [hg, Except.bind, ha] at hb; cases hb
      | ok a =>
        rw [hg, Except.bind, ha] at hb
        obtain ⟨rfl, -⟩ := Prod.mk.inj (Except.ok.inj hb)
        exact hf.ofItems hg a.1 (hx.ofItems ha)

theorem map {g : α → β} {x : Fields α} {P : α → Prop} {Q : β → Prop} (h : ∀ a, P a → Q (g a))
    (hx : x.Yields P) : (g <$> x).Yields Q := (pure h).seq hx

/-- A field without a default. -/
theorem field {name : String} {r : Reader α} {P : α → Prop} (h : ∀ {t a}, r t = .ok a → P a) :
    (Fields.field name r).Yields P where
  ofMembers {ms a} ha := by
    simp only [Fields.field] at ha
    split at ha
    · exact h ha
    · cases ha
  ofItems {items a rest} ha := by
    cases items with
    | nil => cases ha
    | cons t items =>
      simp only [Fields.field] at ha
      cases hr : r t with
      | error e => rw [hr] at ha; cases ha
      | ok b =>
        rw [hr] at ha
        obtain ⟨rfl, -⟩ := Prod.mk.inj (Except.ok.inj ha)
        exact h hr

theorem reader {f : Fields α} {P : α → Prop} (h : f.Yields P) {t : Tree} {a : α}
    (ha : f.reader t = .ok a) : P a := by
  cases t with
  | object members =>
    simp only [Fields.reader, Fields.ofObject] at ha
    cases hk : f.known members [] with
    | error e => rw [hk] at ha; cases ha
    | ok ms => rw [hk] at ha; exact h.ofMembers ha
  | array items =>
    simp only [Fields.reader, Fields.ofArray] at ha
    cases hi : f.ofItems items with
    | error e => rw [hi] at ha; cases ha
    | ok found =>
      rw [hi] at ha
      simp only [bind, Except.bind] at ha
      split at ha
      · obtain rfl := Except.ok.inj ha
        exact h.ofItems hi
      · cases ha
  | null | bool | number | text | broken => cases ha

end Yields

end Fields

/-! ## Families of records -/

namespace Tagged

variable {g : Tagged α} {f : Fields α} {ms os : Members} {t : Tree} {a : α}

/-- Members that are put aside until the tag is known. -/
def Buffered (ms : Members) : Prop := ∀ m ∈ ms, m.2.buffered maxDepth = .ok ()

theorem split_others {ofTag : Reader (Fields α)} (hms : ∀ m ∈ ms, m.1 ≠ g.tag) (hb : Buffered ms)
    (others : List (Option String × Tree)) :
    g.split ofTag (keyed ms) (some f) others = .ok (f, others.reverse ++ keyed ms) := by
  induction ms generalizing others with
  | nil =>
    rw [keyed, List.map_nil, split, List.append_nil]
  | cons m ms ih =>
    have hm : some m.1 ≠ some g.tag := fun h => hms m List.mem_cons_self (Option.some.inj h)
    have hih := ih (fun n hn => hms n (List.mem_cons_of_mem _ hn))
      (fun n hn => hb n (List.mem_cons_of_mem _ hn)) ((some m.1, m.2) :: others)
    rw [keyed, List.map_cons, split, if_neg hm, hb m List.mem_cons_self]
    refine hih.trans ?_
    rw [List.reverse_cons, List.append_assoc]
    rfl

/-- **A record of the family**, with the tag in front. -/
theorem ofObject_of_spells {ofTag : Reader (Fields α)} (ht : ofTag t = .ok f) (h : f.Spells ms a)
    (hms : ∀ m ∈ ms, m.1 ≠ g.tag) (hb : Buffered ms) :
    g.ofObject ofTag (keyed ((g.tag, t) :: ms)) = .ok a := by
  have hsplit : g.split ofTag (keyed ((g.tag, t) :: ms)) none [] = .ok (f, keyed ms) := by
    rw [keyed, List.map_cons, split, if_pos rfl, ht]
    exact split_others hms hb []
  rw [ofObject, hsplit]
  exact h.ofObject

theorem around_others {outer : Fields (α → β)} (hms : ∀ m ∈ ms, m.1 ∉ outer.names)
    (hb : Buffered ms) (seen : Members) (others : List (Option String × Tree)) :
    around outer (keyed ms) seen others = .ok (seen.reverse, others.reverse ++ keyed ms) := by
  induction ms generalizing others with
  | nil =>
    rw [keyed, List.map_nil, around, List.append_nil]
  | cons m ms ih =>
    have hih := ih (fun n hn => hms n (List.mem_cons_of_mem _ hn))
      (fun n hn => hb n (List.mem_cons_of_mem _ hn)) ((some m.1, m.2) :: others)
    rw [keyed, List.map_cons, around, if_neg (hms m List.mem_cons_self), hb m List.mem_cons_self]
    refine hih.trans ?_
    rw [List.reverse_cons, List.append_assoc]
    rfl

theorem around_eq {outer : Fields (α → β)} {h : α → β} (ho : outer.Spells os h)
    (hms : ∀ m ∈ ms, m.1 ∉ outer.names) (hb : Buffered ms) :
    around outer (keyed (os ++ ms)) [] [] = .ok (os, keyed ms) := by
  suffices hgo : ∀ ns seen, os = seen.reverse ++ ns →
      around outer (keyed (ns ++ ms)) seen [] = .ok (os, keyed ms) from hgo os [] rfl
  intro ns
  induction ns with
  | nil =>
    intro seen hseen
    rw [hseen, List.append_nil]
    exact around_others hms hb seen []
  | cons m ns ih =>
    intro seen hseen
    have hm : m ∈ os := hseen ▸ List.mem_append_right _ List.mem_cons_self
    rw [List.cons_append, keyed, List.map_cons, around, if_pos (ho.known m hm),
      Members.Distinct.lookup_seen (hseen ▸ ho.distinct), ho.reads.check (ho.known m hm) hm]
    exact ih (m :: seen) (by rw [List.reverse_cons, List.append_assoc]; exact hseen)

/-- **A record around one of the family**: its members, the tag and the members of the other. -/
theorem within_of_spells {outer : Fields (α → β)} {h : α → β} (ho : outer.Spells os h)
    (ht : g.ofTagOrIndex t = .ok f) (hf : f.Spells ms a)
    (hout : ∀ m ∈ (g.tag, t) :: ms, m.1 ∉ outer.names) (hms : ∀ m ∈ ms, m.1 ≠ g.tag)
    (hb : Buffered ((g.tag, t) :: ms)) :
    g.within outer (.object (keyed (os ++ (g.tag, t) :: ms))) = .ok (h a) := by
  simp only [within, around_eq ho hout hb, bind, Except.bind, ho.reads.ofMembers,
    ofObject_of_spells ht hf hms fun m hm => hb m (List.mem_cons_of_mem _ hm)]
  rfl

end Tagged

end LaneQueue.Json
