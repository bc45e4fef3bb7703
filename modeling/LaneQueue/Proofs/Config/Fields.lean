import LaneQueue.Config.File
import LaneQueue.Proofs.Json.Records
import Mathlib.Data.List.Forall2
/-!
# The fields of a record and their defaults

What stands in the place of each field decides what the field is, and where nothing stands it has its
default. A record is an object or a table, or an array of its fields in their order. `ReadFrom` says so of
a document of either format without a word about how it is read. `Fields.Fills` for JSON and
`Record.Fills` for TOML say that the fields of a record are read so and that nothing else is refused,
with one rule for each way of putting fields together.
-/
namespace LaneQueue

variable {α β γ : Type}

/-! ## Steps that may fail -/

section

variable {ε : Type} {x : Except ε α} {f : α → Except ε β}

theorem bind_eq_ok_iff {b : β} : x.bind f = .ok b ↔ ∃ a, x = .ok a ∧ f a = .ok b := by
  cases x with
  | error e =>
    constructor
    · intro h
      cases h
    · rintro ⟨a, ha, -⟩
      cases ha
  | ok a =>
    constructor
    · exact fun h => ⟨a, rfl, h⟩
    · rintro ⟨a', ha, h⟩
      obtain rfl := Except.ok.inj ha
      exact h

theorem bind_eq_error_iff {e : ε} :
    x.bind f = .error e ↔ x = .error e ∨ ∃ a, x = .ok a ∧ f a = .error e := by
  cases x with
  | error e' =>
    constructor
    · exact fun h => .inl (congrArg _ (Except.error.inj h))
    · rintro (h | ⟨a, ha, -⟩)
      · exact congrArg _ (Except.error.inj h)
      · cases ha
  | ok a =>
    constructor
    · exact fun h => .inr ⟨a, rfl, h⟩
    · rintro (h | ⟨a', ha, h⟩)
      · cases h
      · obtain rfl := Except.ok.inj ha
        exact h

theorem mapM_eq_ok_iff {xs : List α} {f : α → Except ε β} {ys : List β} :
    xs.mapM f = .ok ys ↔ List.Forall₂ (fun x y => f x = .ok y) xs ys := by
  induction xs generalizing ys with
  | nil =>
    rw [List.forall₂_nil_left_iff, List.mapM_nil]
    exact (Except.ok.injEq _ _).to_iff.trans eq_comm
  | cons x xs ih =>
    rw [List.forall₂_cons_left_iff, List.mapM_cons]
    constructor
    · intro h
      obtain ⟨y, hy, h⟩ := bind_eq_ok_iff.1 h
      obtain ⟨zs, hzs, h⟩ := bind_eq_ok_iff.1 h
      exact ⟨y, zs, hy, ih.1 hzs, (Except.ok.inj h).symm⟩
    · rintro ⟨y, zs, hy, hzs, rfl⟩
      exact bind_eq_ok_iff.2 ⟨y, hy, bind_eq_ok_iff.2 ⟨zs, ih.2 hzs, rfl⟩⟩

end

/-! ## Places of fields -/

/-- A field of a record: its name, and its place when the record is written as an array. -/
structure Slot where
  name : String
  index : Nat

/-- A value is what was found in its place, or it is the default when nothing was. -/
def FilledIn (found : Option γ) (means : γ → α → Prop) (absent a : α) : Prop :=
  match found with
  | some c => means c a
  | none => a = absent

namespace FilledIn

variable {found : Option γ} {means : γ → α → Prop} {absent a : α}

theorem eq_absent (h : FilledIn found means absent a) (hfound : found = none) : a = absent := by
  subst hfound
  exact h

/-- A value that is converted after it was read, as its default is. -/
theorem map_iff {means' : γ → β → Prop} {g : α → β} {b : β}
    (h : ∀ c b, means' c b ↔ ∃ a, means c a ∧ b = g a) :
    (∃ a, FilledIn found means absent a ∧ b = g a) ↔ FilledIn found means' (g absent) b := by
  cases found with
  | some c => exact (h c b).symm
  | none => exact exists_eq_left

end FilledIn

/-- An array has an item in a place, or it has ended before. -/
theorem item_or_end (items : List γ) (i : Nat) :
    (∃ c, items.drop i = c :: items.drop (i + 1) ∧ items[i]? = some c ∧ i < items.length) ∨
      items.drop i = [] ∧ items.drop (i + 1) = [] ∧ items[i]? = none ∧ items.length ≤ i := by
  by_cases hlt : i < items.length
  · exact .inl ⟨_, List.drop_eq_getElem_cons hlt, List.getElem?_eq_getElem hlt, hlt⟩
  · have hle : items.length ≤ i := Nat.le_of_not_lt hlt
    exact .inr ⟨List.drop_eq_nil_of_le hle, List.drop_eq_nil_of_le (by omega),
      List.getElem?_eq_none hle, hle⟩

/-- The members of an object may be those of a record: every key is a text, no field comes twice, and
nothing breaks off under another key. -/
structure Json.Legible (names : List String) (members : List (Option String × Json.Tree)) : Prop where
  keyed : ∀ m ∈ members, ∃ k, m.1 = some k ∧ (k ∉ names → m.2.isCut = false)
  once : members.Pairwise fun m n => ∀ name ∈ names, ¬ (m.1 = some name ∧ n.1 = some name)

/-- A value in a text of either format, or all of the text. -/
inductive ConfigDocument where
  | json (t : Json.Tree)
  | toml (v : Toml.Value)

namespace ConfigDocument

/-- What stands in the place of a field. -/
def at? : ConfigDocument → Slot → Option ConfigDocument
  | .json (.object members), s => (members.lookup (some s.name)).map .json
  | .json (.array items), s => items[s.index]?.map .json
  | .toml (.table entries), s => (entries.lookup s.name).map .toml
  | .toml (.array items), s => items[s.index]?.map .toml
  | _, _ => none

/-- The value may be a record with fields of these names, the first `least` of which an array has to have.
Keys that are no field's are passed over, and so are the last items of an array in TOML. A moment in
TOML counts as a record with nothing in it. -/
def IsRecord (names : List String) (least : Nat) : ConfigDocument → Prop
  | .json (.object members) => Json.Legible names members
  | .json (.array items) => least ≤ items.length ∧ items.length ≤ names.length
  | .toml (.table _) | .toml .moment => True
  | .toml (.array items) => least ≤ items.length
  | _ => False

/-- The value is a record that is told from what stands in the places of its fields. -/
structure Writes (d : ConfigDocument) (names : List String) (least : Nat)
    (P : (Slot → Option ConfigDocument) → α → Prop) (a : α) : Prop where
  record : d.IsRecord names least
  fields : P d.at? a

end ConfigDocument

/-! ## Fields in JSON -/

namespace Json

variable {members : List (Option String × Tree)} {names : List String} {name : String}

theorem legible_cons {k : String} {t : Tree} : Legible names ((some k, t) :: members) ↔
    (k ∉ names → t.isCut = false) ∧ (k ∈ names → ∀ t', (some k, t') ∉ members) ∧
      Legible names members := by
  constructor
  · rintro ⟨hkeyed, honce⟩
    obtain ⟨hfirst, honce⟩ := List.pairwise_cons.1 honce
    obtain ⟨⟨_, ⟨⟩, hcut⟩, hkeyed⟩ := List.forall_mem_cons.1 hkeyed
    exact ⟨hcut, fun hk t' hm => hfirst _ hm k hk ⟨rfl, rfl⟩, hkeyed, honce⟩
  · rintro ⟨hcut, hfirst, hkeyed, honce⟩
    refine ⟨List.forall_mem_cons.2 ⟨⟨k, rfl, hcut⟩, hkeyed⟩, List.pairwise_cons.2 ⟨?_, honce⟩⟩
    rintro ⟨_, t'⟩ hm name hname ⟨hk, rfl⟩
    obtain rfl := Option.some.inj hk
    exact hfirst hname t' hm

/-- A field that does not come twice is the one under its name. -/
theorem Legible.lookup (h : Legible names members) (hname : name ∈ names) {t : Tree}
    (hm : (some name, t) ∈ members) : members.lookup (some name) = some t := by
  obtain ⟨-, h⟩ := h
  induction members with
  | nil => cases hm
  | cons m members ih =>
    obtain ⟨hfirst, h⟩ := List.pairwise_cons.1 h
    rcases List.mem_cons.1 hm with rfl | hm
    · exact List.lookup_cons_self
    · have hne : (some name == m.1) = false := by
        rw [beq_eq_false_iff_ne]
        exact fun heq => hfirst _ hm name hname ⟨heq.symm, rfl⟩
      rw [List.lookup_cons, hne]
      exact ih hm h

namespace Fields

/-- Of the members that a record knows, each is the first of its name. -/
theorem lookup_known {f : Fields α} (hname : name ∈ f.names) {seen ms : Members}
    (h : f.known members seen = .ok ms) :
    ms.lookup name = (seen.reverse.lookup name).or (members.lookup (some name)) := by
  induction members generalizing seen with
  | nil =>
    rw [known] at h
    obtain rfl := Except.ok.inj h
    rw [List.lookup_nil, Option.or_none]
  | cons m members ih =>
    obtain ⟨_ | k, t⟩ := m
    · cases h
    · rw [known] at h
      split at h
      · split at h
        · cases h
        · obtain ⟨-, -, h⟩ := bind_eq_ok_iff.1 h
          rw [ih h, List.reverse_cons, List.lookup_append, Option.or_assoc]
          congr 1
          by_cases hk : name = k
          · subst hk
            rw [List.lookup_cons_self, List.lookup_cons_self, Option.some_or]
          · have hk' : (some name == some k) = false := by simpa using hk
            rw [List.lookup_cons, List.lookup_cons, beq_false_of_ne hk, hk']
            rfl
      · rename_i hk
        have hne : (some name == some k) = false := by
          rw [beq_eq_false_iff_ne]
          rintro ⟨⟩
          exact hk hname
        split at h
        · cases h
        · rw [ih h, List.lookup_cons, hne]

/-- Members are refused when they cannot be those of a record, or when one of them is refused. -/
theorem known_eq_ok_iff {f : Fields α} {seen : Members} :
    (∃ ms, f.known members seen = .ok ms) ↔ Legible f.names members ∧
      ∀ name ∈ f.names, ∀ t, (some name, t) ∈ members →
        f.check name t = .ok () ∧ seen.lookup name = none := by
  induction members generalizing seen with
  | nil => exact iff_of_true ⟨_, rfl⟩ ⟨⟨nofun, .nil⟩, nofun⟩
  | cons m members ih =>
    obtain ⟨_ | k, t⟩ := m
    · constructor
      · rintro ⟨_, h⟩
        cases h
      · rintro ⟨h, -⟩
        obtain ⟨_, hk, -⟩ := h.keyed _ List.mem_cons_self
        cases hk
    rw [known, legible_cons]
    by_cases hk : k ∈ f.names
    · rw [if_pos hk]
      constructor
      · rintro ⟨ms, h⟩
        split at h
        · cases h
        rename_i hseen
        obtain ⟨⟨⟩, hcheck, h⟩ := bind_eq_ok_iff.1 h
        obtain ⟨hlegible, hall⟩ := ih.1 ⟨ms, h⟩
        have hother : ∀ name ∈ f.names, ∀ t', (some name, t') ∈ members →
            name ≠ k ∧ seen.lookup name = none := by
          intro name hname t' hm
          have hnone := (hall name hname t' hm).2
          rw [List.lookup_cons] at hnone
          split at hnone
          · cases hnone
          · exact ⟨by simpa using ‹(name == k) = false›, hnone⟩
        refine ⟨⟨fun h => absurd hk h, fun _ t' hm => (hother k hk t' hm).1 rfl, hlegible⟩,
          fun name hname t' hm => ?_⟩
        rcases List.mem_cons.1 hm with heq | hm
        · cases heq
          exact ⟨hcheck, Option.not_isSome_iff_eq_none.1 hseen⟩
        · exact ⟨(hall name hname t' hm).1, (hother name hname t' hm).2⟩
      · rintro ⟨⟨-, hfirst, hlegible⟩, hall⟩
        obtain ⟨hcheck, hseen⟩ := hall k hk t List.mem_cons_self
        simp only [hseen, Option.isSome_none, Bool.false_eq_true, if_false, hcheck]
        refine ih.2 ⟨hlegible, fun name hname t' hm => ?_⟩
        obtain ⟨hcheck', hseen'⟩ := hall name hname t' (List.mem_cons_of_mem _ hm)
        have hne : name ≠ k := by
          rintro rfl
          exact hfirst hk t' hm
        exact ⟨hcheck', by rw [List.lookup_cons, beq_false_of_ne hne]; exact hseen'⟩
    · rw [if_neg hk]
      have hrest : (∀ name ∈ f.names, ∀ t', (some name, t') ∈ (some k, t) :: members →
            f.check name t' = .ok () ∧ seen.lookup name = none) ↔
          ∀ name ∈ f.names, ∀ t', (some name, t') ∈ members →
            f.check name t' = .ok () ∧ seen.lookup name = none := by
        refine forall₂_congr fun name hname => forall_congr' fun t' => ?_
        rw [List.mem_cons, or_iff_right]
        rintro ⟨⟩
        exact hk hname
      rw [hrest]
      cases hcut : t.isCut with
      | true =>
        rw [if_pos rfl]
        constructor
        · rintro ⟨_, h⟩
          cases h
        · exact fun h => Bool.noConfusion (h.1.1 hk)
      | false =>
        rw [if_neg Bool.false_ne_true, ih]
        exact and_congr_left' ⟨fun h => ⟨fun _ => rfl, fun h => absurd h hk, h⟩, fun h => h.2.2⟩

/-- What the fields of a record come to, given what stands in their places, and that they are refused
otherwise. In an array they are the `len` items from `start` on, and an array has at least `least` items. -/
structure Fills (f : Fields α) (start len least : Nat)
    (P : (Slot → Option ConfigDocument) → α → Prop) : Prop where
  length_names : f.names.length = len
  ofMembers : ∀ {ms look a},
    (∀ s : Slot, s.name ∈ f.names → look s = (ms.lookup s.name).map .json) →
      (f.ofMembers ms = .ok a ↔ P look a)
  check : ∀ {look a}, P look a → ∀ name ∈ f.names, ∃ i, ∀ t, look ⟨name, i⟩ = some (.json t) →
    f.check name t = .ok ()
  ofItems : ∀ {items : List Tree} {a rest}, f.ofItems (items.drop start) = .ok (a, rest) ↔
    rest = items.drop (start + len) ∧ least ≤ items.length ∧ P (fun s => items[s.index]?.map .json) a

namespace Fills

variable {f : Fields (α → β)} {x : Fields α} {i m n least least' : Nat} {r : Reader α}
  {P : (Slot → Option ConfigDocument) → (α → β) → Prop}
  {Q Q' : (Slot → Option ConfigDocument) → α → Prop}

theorem pure (a : α) (i : Nat) : (Pure.pure a : Fields α).Fills i 0 0 fun _ b => b = a where
  length_names := rfl
  ofMembers _ := ⟨fun h => (Except.ok.inj h).symm, fun h => congrArg _ h.symm⟩
  check := nofun
  ofItems := by
    intro items b rest
    constructor
    · intro h
      obtain ⟨rfl, rfl⟩ := Prod.mk.inj (Except.ok.inj h)
      exact ⟨rfl, Nat.zero_le _, rfl⟩
    · rintro ⟨rfl, -, rfl⟩
      rfl

theorem seq (hf : f.Fills i m least P) (hx : x.Fills (i + m) n least' Q) :
    (f <*> x).Fills i (m + n) (max least least')
      fun look b => ∃ g a, P look g ∧ Q look a ∧ b = g a where
  length_names := by rw [names_seq, List.length_append, hf.length_names, hx.length_names]
  ofMembers {ms look b} hlook := by
    have hf' := fun g => hf.ofMembers (a := g) fun s hs => hlook s (List.mem_append_left _ hs)
    have hx' := fun a => hx.ofMembers (a := a) fun s hs => hlook s (List.mem_append_right _ hs)
    constructor
    · intro h
      obtain ⟨g, hg, h⟩ := bind_eq_ok_iff.1 h
      obtain ⟨a, ha, h⟩ := bind_eq_ok_iff.1 h
      exact ⟨g, a, (hf' g).1 hg, (hx' a).1 ha, (Except.ok.inj h).symm⟩
    · rintro ⟨g, a, hg, ha, rfl⟩
      exact bind_eq_ok_iff.2 ⟨g, (hf' g).2 hg, bind_eq_ok_iff.2 ⟨a, (hx' a).2 ha, rfl⟩⟩
  check {look b} := by
    rintro ⟨g, a, hg, ha, -⟩ name hname
    by_cases hin : name ∈ f.names
    · obtain ⟨j, hj⟩ := hf.check hg name hin
      exact ⟨j, fun t ht => (if_pos hin).trans (hj t ht)⟩
    · obtain ⟨j, hj⟩ := hx.check ha name ((List.mem_append.1 hname).resolve_left hin)
      exact ⟨j, fun t ht => (if_neg hin).trans (hj t ht)⟩
  ofItems {items b rest} := by
    constructor
    · intro h
      obtain ⟨⟨g, mid⟩, hg, h⟩ := bind_eq_ok_iff.1 h
      obtain ⟨⟨a, rest'⟩, ha, h⟩ := bind_eq_ok_iff.1 h
      obtain ⟨rfl, rfl⟩ := Prod.mk.inj (Except.ok.inj h)
      obtain ⟨rfl, hleast, hP⟩ := hf.ofItems.1 hg
      obtain ⟨hrest, hleast', hQ⟩ := hx.ofItems.1 ha
      exact ⟨by rw [hrest, Nat.add_assoc], Nat.max_le.2 ⟨hleast, hleast'⟩, g, a, hP, hQ, rfl⟩
    · rintro ⟨rfl, hleast, g, a, hP, hQ, rfl⟩
      obtain ⟨hleast, hleast'⟩ := Nat.max_le.1 hleast
      refine bind_eq_ok_iff.2 ⟨_, hf.ofItems.2 ⟨rfl, hleast, hP⟩, bind_eq_ok_iff.2 ⟨_,
        hx.ofItems.2 ⟨rfl, hleast', hQ⟩, ?_⟩⟩
      rw [Nat.add_assoc]
      rfl

theorem map (g : α → β) (hx : x.Fills i n least Q) : (g <$> x).Fills i (0 + n) (max 0 least)
    fun look b => ∃ h a, h = g ∧ Q look a ∧ b = h a := (pure g i).seq hx

theorem congr (hx : x.Fills i n least Q) (h : ∀ look a, Q look a ↔ Q' look a) :
    x.Fills i n least Q' := by
  obtain rfl : Q = Q' := funext fun look => funext fun a => propext (h look a)
  exact hx

/-- A field with a default. -/
theorem field {means : ConfigDocument → α → Prop} (name : String) (d : α) (i : Nat)
    (hr : ∀ t a, r t = .ok a ↔ means (.json t) a) :
    (Fields.field name r (.ok d)).Fills i 1 0 fun look a => FilledIn (look ⟨name, i⟩) means d a where
  length_names := rfl
  ofMembers {ms look a} hlook := by
    rw [hlook ⟨name, i⟩ List.mem_cons_self]
    simp only [Fields.field]
    cases ms.lookup name with
    | none => exact (Except.ok.injEq _ _).to_iff.trans eq_comm
    | some t => exact hr t a
  check {look a} h name' hname := by
    obtain rfl := List.mem_singleton.1 hname
    refine ⟨i, fun t ht => ?_⟩
    rw [ht] at h
    simp only [Fields.field, (hr t a).2 h]
    rfl
  ofItems {items a rest} := by
    dsimp only
    rcases item_or_end items i with ⟨t, hi, hget, -⟩ | ⟨hi, hend, hget, -⟩
    · have hmap : ∀ ts, (Fields.field name r (.ok d)).ofItems (t :: ts) = .ok (a, rest) ↔
          r t = .ok a ∧ rest = ts := by
        intro ts
        simp only [Fields.field]
        cases r t <;> simp [Except.map, eq_comm]
      rw [hi, hmap, hget, hr, and_comm]
      exact and_congr_right fun _ => ⟨fun h => ⟨Nat.zero_le _, h⟩, fun h => h.2⟩
    · rw [hi, hend, hget]
      constructor
      · intro h
        obtain ⟨rfl, rfl⟩ := Prod.mk.inj (Except.ok.inj h)
        exact ⟨rfl, Nat.zero_le _, rfl⟩
      · rintro ⟨rfl, -, h⟩
        rw [show a = d from h]
        rfl

/-- A field that may be left out of an object, but not of an array. -/
theorem maybe {means : ConfigDocument → Option α → Prop} (name : String) (i : Nat)
    (hr : ∀ t a, r.option t = .ok a ↔ means (.json t) a) :
    (Fields.maybe name r).Fills i 1 (i + 1) fun look a => FilledIn (look ⟨name, i⟩) means none a where
  length_names := rfl
  ofMembers := (field name none i hr).ofMembers
  check := (field name none i hr).check
  ofItems {items a rest} := by
    rcases item_or_end items i with ⟨t, hi, -, hlt⟩ | ⟨hi, -, -, hle⟩
    · have hsame : (Fields.field name r.option (.ok none)).ofItems (items.drop i) = .ok (a, rest) ↔
          _ := (field name none i hr).ofItems
      rw [hi] at hsame ⊢
      exact hsame.trans (and_congr_right' (and_congr_left' (iff_of_true (Nat.zero_le _) hlt)))
    · rw [hi]
      exact iff_of_false nofun fun h => by omega

/-- **A record is read from what stands in the places of its fields**, and nothing else is refused. -/
theorem reader {f : Fields α} (h : f.Fills 0 n least Q) {t : Tree} {a : α} :
    f.reader t = .ok a ↔ (ConfigDocument.json t).Writes f.names least Q a := by
  cases t with
  | object members =>
    constructor
    · intro ha
      obtain ⟨ms, hk, ha⟩ := bind_eq_ok_iff.1 ha
      refine ⟨(known_eq_ok_iff.1 ⟨ms, hk⟩).1, (h.ofMembers fun s hs => ?_).1 ha⟩
      rw [lookup_known hs hk]
      rfl
    · rintro ⟨hlegible, hQ⟩
      obtain ⟨ms, hk⟩ : ∃ ms, f.known members [] = .ok ms := by
        refine known_eq_ok_iff.2 ⟨hlegible, fun name hname t hm => ?_⟩
        obtain ⟨j, hj⟩ := h.check hQ name hname
        exact ⟨hj t (congrArg (Option.map ConfigDocument.json) (hlegible.lookup hname hm)), rfl⟩
      refine bind_eq_ok_iff.2 ⟨ms, hk, (h.ofMembers fun s hs => ?_).2 hQ⟩
      rw [lookup_known hs hk]
      rfl
  | array items =>
    have hend : (items.drop (0 + n)).isEmpty = true ↔ items.length ≤ f.names.length := by
      rw [List.isEmpty_iff, List.drop_eq_nil_iff, Nat.zero_add, h.length_names]
    constructor
    · intro ha
      obtain ⟨⟨b, rest⟩, hi, ha⟩ := bind_eq_ok_iff.1 ha
      obtain ⟨rfl, hleast, hQ⟩ := h.ofItems.1 hi
      dsimp only at ha
      split at ha
      · obtain rfl := Except.ok.inj ha
        exact ⟨⟨hleast, hend.1 ‹_›⟩, hQ⟩
      · cases ha
    · rintro ⟨⟨hleast, hmost⟩, hQ⟩
      refine bind_eq_ok_iff.2 ⟨_, h.ofItems.2 ⟨rfl, hleast, hQ⟩, ?_⟩
      exact if_pos (hend.2 hmost)
  | null | bool | number | text | broken => exact iff_of_false nofun fun h => h.record

end Fills

end Fields

end Json

/-! ## Fields in TOML -/

namespace Toml.Record

/-- What the fields of a record come to, given what stands in their places, and that they are refused
otherwise. In an array they are the `len` items from `start` on, and an array has at least `least` items. -/
structure Fills (f : Record α) (start len least : Nat)
    (P : (Slot → Option ConfigDocument) → α → Prop) : Prop where
  ofTable : ∀ {es a}, f.ofTable es = some a ↔ P (fun s => (es.lookup s.name).map .toml) a
  ofItems : ∀ {items : List Value} {a rest}, f.ofItems (items.drop start) = some (a, rest) ↔
    rest = items.drop (start + len) ∧ least ≤ items.length ∧ P (fun s => items[s.index]?.map .toml) a

namespace Fills

variable {f : Record (α → β)} {x : Record α} {i m n least least' : Nat} {r : Read α}
  {P : (Slot → Option ConfigDocument) → (α → β) → Prop}
  {Q Q' : (Slot → Option ConfigDocument) → α → Prop}

theorem pure (a : α) (i : Nat) : (Pure.pure a : Record α).Fills i 0 0 fun _ b => b = a where
  ofTable := Option.some_inj.trans eq_comm
  ofItems := by
    intro items b rest
    constructor
    · intro h
      obtain ⟨rfl, rfl⟩ := Prod.mk.inj (Option.some.inj h)
      exact ⟨rfl, Nat.zero_le _, rfl⟩
    · rintro ⟨rfl, -, rfl⟩
      rfl

theorem seq (hf : f.Fills i m least P) (hx : x.Fills (i + m) n least' Q) :
    (f <*> x).Fills i (m + n) (max least least')
      fun look b => ∃ g a, P look g ∧ Q look a ∧ b = g a where
  ofTable {es b} := by
    constructor
    · intro h
      obtain ⟨g, hg, h⟩ := Option.bind_eq_some_iff.1 h
      obtain ⟨a, ha, h⟩ := Option.bind_eq_some_iff.1 h
      exact ⟨g, a, hf.ofTable.1 hg, hx.ofTable.1 ha, (Option.some.inj h).symm⟩
    · rintro ⟨g, a, hg, ha, rfl⟩
      exact Option.bind_eq_some_iff.2 ⟨g, hf.ofTable.2 hg,
        Option.bind_eq_some_iff.2 ⟨a, hx.ofTable.2 ha, rfl⟩⟩
  ofItems {items b rest} := by
    constructor
    · intro h
      obtain ⟨⟨g, mid⟩, hg, h⟩ := Option.bind_eq_some_iff.1 h
      obtain ⟨⟨a, rest'⟩, ha, h⟩ := Option.bind_eq_some_iff.1 h
      obtain ⟨rfl, rfl⟩ := Prod.mk.inj (Option.some.inj h)
      obtain ⟨rfl, hleast, hP⟩ := hf.ofItems.1 hg
      obtain ⟨hrest, hleast', hQ⟩ := hx.ofItems.1 ha
      exact ⟨by rw [hrest, Nat.add_assoc], Nat.max_le.2 ⟨hleast, hleast'⟩, g, a, hP, hQ, rfl⟩
    · rintro ⟨rfl, hleast, g, a, hP, hQ, rfl⟩
      obtain ⟨hleast, hleast'⟩ := Nat.max_le.1 hleast
      refine Option.bind_eq_some_iff.2 ⟨_, hf.ofItems.2 ⟨rfl, hleast, hP⟩,
        Option.bind_eq_some_iff.2 ⟨_, hx.ofItems.2 ⟨rfl, hleast', hQ⟩, ?_⟩⟩
      rw [Nat.add_assoc]
      rfl

theorem map (g : α → β) (hx : x.Fills i n least Q) : (g <$> x).Fills i (0 + n) (max 0 least)
    fun look b => ∃ h a, h = g ∧ Q look a ∧ b = h a := (pure g i).seq hx

theorem congr (hx : x.Fills i n least Q) (h : ∀ look a, Q look a ↔ Q' look a) :
    x.Fills i n least Q' := by
  obtain rfl : Q = Q' := funext fun look => funext fun a => propext (h look a)
  exact hx

/-- A field with a default. -/
theorem field {means : ConfigDocument → α → Prop} (name : String) (d : α) (i : Nat)
    (hr : ∀ v a, r v = some a ↔ means (.toml v) a) :
    (Record.field name r d).Fills i 1 0 fun look a => FilledIn (look ⟨name, i⟩) means d a where
  ofTable {es a} := by
    simp only [Record.field]
    cases es.lookup name with
    | none => exact Option.some_inj.trans eq_comm
    | some v => exact hr v a
  ofItems {items a rest} := by
    dsimp only
    rcases item_or_end items i with ⟨v, hi, hget, -⟩ | ⟨hi, hend, hget, -⟩
    · have hmap : ∀ vs, (Record.field name r d).ofItems (v :: vs) = some (a, rest) ↔
          r v = some a ∧ rest = vs := by
        intro vs
        simp only [Record.field]
        cases r v <;> simp [eq_comm]
      rw [hi, hmap, hget, hr, and_comm]
      exact and_congr_right fun _ => ⟨fun h => ⟨Nat.zero_le _, h⟩, fun h => h.2⟩
    · rw [hi, hend, hget]
      constructor
      · intro h
        obtain ⟨rfl, rfl⟩ := Prod.mk.inj (Option.some.inj h)
        exact ⟨rfl, Nat.zero_le _, rfl⟩
      · rintro ⟨rfl, -, h⟩
        rw [show a = d from h]
        rfl

/-- A field that may be left out of a table, but not of an array. -/
theorem maybe {means : ConfigDocument → Option α → Prop} (name : String) (i : Nat)
    (hr : ∀ v o, (r v).map some = some o ↔ means (.toml v) o) :
    (Record.maybe name r).Fills i 1 (i + 1) fun look a => FilledIn (look ⟨name, i⟩) means none a where
  ofTable := (field name none i hr).ofTable
  ofItems {items a rest} := by
    rcases item_or_end items i with ⟨v, hi, -, hlt⟩ | ⟨hi, -, -, hle⟩
    · have hsame : (Record.field name (fun v => (r v).map some) none).ofItems (items.drop i) =
          some (a, rest) ↔ _ := (field name none i hr).ofItems
      rw [hi] at hsame ⊢
      refine Iff.trans ?_ (hsame.trans (and_congr_right' (and_congr_left'
        (iff_of_true (Nat.zero_le _) hlt))))
      simp only [Record.maybe, Record.field, Option.map_map]
      rfl
    · rw [hi]
      exact iff_of_false nofun fun h => by omega

/-- **A record is read from what stands in the places of its fields**, and nothing else is refused. -/
theorem read {f : Record α} (h : f.Fills 0 n least Q) (names : List String) {v : Value} {a : α} :
    f.read v = some a ↔ (ConfigDocument.toml v).Writes names least Q a := by
  cases v with
  | table es => exact h.ofTable.trans ⟨fun hQ => ⟨trivial, hQ⟩, fun h => h.fields⟩
  | array items =>
    constructor
    · intro ha
      obtain ⟨⟨b, rest⟩, hb, rfl⟩ := Option.map_eq_some_iff.1 ha
      obtain ⟨-, hleast, hQ⟩ := h.ofItems.1 hb
      exact ⟨hleast, hQ⟩
    · rintro ⟨hleast, hQ⟩
      exact Option.map_eq_some_iff.2 ⟨_, h.ofItems.2 ⟨rfl, hleast, hQ⟩, rfl⟩
  | moment => exact h.ofTable.trans ⟨fun hQ => ⟨trivial, hQ⟩, fun h => h.fields⟩
  | text | integer | finite | infinite | nan | bool => exact iff_of_false nofun fun h => h.record

end Fills

end Toml.Record

end LaneQueue
