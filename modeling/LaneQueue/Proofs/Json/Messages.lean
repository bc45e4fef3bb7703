import LaneQueue.Outcome
import LaneQueue.Proofs.Json.Records
import LaneQueue.Proofs.Number.Rounding
import LaneQueue.Proofs.Text.Timestamps
import LaneQueue.Status
/-!
# Messages are read back

Events, outcomes and the statuses of lanes are read back from the JSON that is written of them. The body
of an event stands among the members of the event, so its members are put aside until its tag is known;
numbers of up to 64 bits stand this (`Numeral.toDouble?_isSome`).
-/
namespace LaneQueue

open Json (Fields Reader Value Members Tagged Tree)

namespace Json

/-! ## What is put aside -/

/-- Digits are gathered as long as they fit a word. -/
theorem Numeral.gather_eq {start : Nat} {ds : List Nat}
    (h : ds.foldl (fun n d => n * 10 + d) start < UInt64.size) :
    gather start ds = (ds.foldl (fun n d => n * 10 + d) start, 0) := by
  induction ds generalizing start with
  | nil => rfl
  | cons d ds ih =>
    have hle : ∀ (ds : List Nat) (n : Nat), n ≤ ds.foldl (fun n d => n * 10 + d) n := by
      intro ds
      induction ds with
      | nil => exact fun n => Nat.le_refl n
      | cons d ds ih => exact fun n => Nat.le_trans (by omega) (ih (n * 10 + d))
    rw [gather, if_pos (Nat.lt_of_le_of_lt (hle ds _) h)]
    exact ih h

/-- A number of 64 bits is not too great for double precision. -/
theorem Numeral.toDouble?_isSome {n : Nat} (h : n < UInt64.size) :
    (ofInt n).toDouble?.isSome := by
  have hdigits : gather 0 (digits n) = (n, 0) := by
    have hvalue : (digits n).foldl (fun n d => n * 10 + d) 0 = n := ofDigits_digits n
    rw [gather_eq (hvalue.symm ▸ h), hvalue]
  have hdecimal : (ofInt n).toDecimal = ⟨n, 0⟩ := by
    simp [toDecimal, ofInt, hdigits, gather]
  rw [toDouble?, hdecimal]
  exact Decimal.quickDouble?_isSome h

/-- A text, or a number of up to 64 bits. -/
inductive Value.IsLeaf : Value → Prop
  | text (s : String) : IsLeaf (.text s)
  | nat {n : Nat} : n < UInt64.size → IsLeaf (.nat n)

theorem Value.IsLeaf.word32 (x : UInt32) : (Value.nat x.toNat).IsLeaf :=
  .nat (Nat.lt_trans x.toNat_lt (by decide))

theorem Value.IsLeaf.word64 (x : UInt64) : (Value.nat x.toNat).IsLeaf := .nat x.toNat_lt

theorem Value.IsLeaf.buffered {v : Value} (h : v.IsLeaf) :
    v.tree.buffered Tagged.maxDepth = .ok () := by
  cases h with
  | text s => rfl
  | @nat n hn => exact if_pos (Numeral.toDouble?_isSome hn)

end Json

/-! ## Single values -/

theorem Lane.reader_toJson (l : Lane) : Lane.reader l.toJson.tree = .ok l :=
  Reader.oneOf_text (by cases l <;> rfl)

theorem LaneState.reader_toJson (s : LaneState) : LaneState.reader s.toJson.tree = .ok s :=
  Reader.oneOf_text (by cases s <;> rfl)

theorem Priority.reader_toJson (p : Priority) : Priority.reader p.toJson.tree = .ok p := by
  have hp : p.toNat < UInt8.size := p.value.toNat_lt
  rw [reader, toJson, Reader.below_nat hp]
  simp [Except.map, ofNat, toNat]

theorem Priority.isLeaf_toJson (p : Priority) : p.toJson.IsLeaf :=
  .nat (Nat.lt_trans p.value.toNat_lt (by decide))

theorem Timestamp.reader_toJson {t : Timestamp} (h : t.WellFormed) :
    Timestamp.reader t.toJson.tree = .ok t := by
  simp only [reader, Reader.mapExcept, toJson, Value.tree, Reader.text, bind, Except.bind,
    parse?_render h]

/-! ## Events -/

namespace EventBody

/-- What stands beside the tag are texts and numbers. -/
theorem isLeaf_members (b : EventBody) : ∀ m ∈ b.members, m.2.IsLeaf := by
  cases b <;> simp [members, Value.IsLeaf.text, Value.IsLeaf.word32, Value.IsLeaf.word64,
    Priority.isLeaf_toJson]

/-- The names are none of those that stand around the body. -/
theorem names_members (b : EventBody) :
    ∀ m ∈ b.members, m.1 ≠ "lane" ∧ m.1 ≠ "emitted_at" ∧ m.1 ≠ "event" := by
  cases b <;> simp [members]

theorem distinct_members (b : EventBody) : (Value.members b.members).Distinct := by
  cases b <;> simp [members, Value.members, Members.Distinct]

/-- The fields that all events about commands have. -/
theorem reads_command {β : Type} {i t : String} {rest : List (String × Value)}
    (h : (Value.members (("identity", .text i) :: ("type_tag", .text t) :: rest)).Distinct)
    (g : String → String → β) :
    (g <$> family.identity <*> family.typeTag).Reads
      (Value.members (("identity", .text i) :: ("type_tag", .text t) :: rest)) (g i t) :=
  ((Fields.Reads.member h 0 rfl (Reader.text_tree i)).map g).seq
    (.member h 1 rfl (Reader.text_tree t))

/-- **The members of an event** are those of its kind. -/
theorem exists_spells (b : EventBody) :
    ∃ f, family.find? b.tag = some f ∧ f.Spells (Value.members b.members) b := by
  have hd := b.distinct_members
  cases b
  -- each kind has its fields and knows all its members
  all_goals refine ⟨_, rfl, hd, by simp [members, Value.members, family.identity, family.typeTag], ?_⟩
  case queued i t p | replaced i t p =>
    exact (reads_command hd _).seq (.member hd 2 rfl p.reader_toJson)
  case started i t a | completed i t a =>
    exact (reads_command hd _).seq (.member hd 2 rfl (Reader.word32_toNat a))
  case retrying i t a d r =>
    exact (((reads_command hd _).seq
      (.member hd 2 rfl (Reader.word32_toNat a))).seq
      (.member hd 3 rfl (Reader.word64_toNat d))).seq
      (.member hd 4 rfl (Reader.text_tree r))
  case failureSwallowed i t r | dropped i t r =>
    exact (reads_command hd _).seq (.member hd 2 rfl (Reader.text_tree r))
  case deadLettered i t a r =>
    exact ((reads_command hd _).seq
      (.member hd 2 rfl (Reader.word32_toNat a))).seq
      (.member hd 3 rfl (Reader.text_tree r))
  case lanePaused | laneResumed => exact .pure _
  case laneCleared n => exact .map laneCleared (.member hd 0 rfl (Reader.word64_toNat n))

/-- The tag names the fields of the event, among the bodies as a whole. -/
theorem ofTagOrIndex_tag {b : EventBody} {f : Fields EventBody} (h : family.find? b.tag = some f) :
    family.ofTagOrIndex (Value.text b.tag).tree = .ok f := by
  simp only [Value.tree, Tagged.ofTagOrIndex, Tagged.ofTag, h]

/-- What stands beside the tag can be put aside, and is not taken for what stands around the body. -/
theorem beside (b : EventBody) : ∀ m ∈ Value.members b.members,
    (m.1 ≠ "lane" ∧ m.1 ≠ "emitted_at" ∧ m.1 ≠ "event") ∧
      m.2.buffered Tagged.maxDepth = .ok () := by
  intro m hm
  obtain ⟨x, hx, rfl⟩ := List.mem_map.1 hm
  exact ⟨b.names_members x hx, (b.isLeaf_members x hx).buffered⟩

end EventBody

namespace Event

/-- **An event is read back from its tree.** -/
theorem reader_toJson {e : Event} (h : e.emittedAt.WellFormed) :
    Event.reader e.toJson.tree = .ok e := by
  obtain ⟨f, hf, hspells⟩ := e.body.exists_spells
  have hd : (Value.members [("lane", e.lane.toJson), ("emitted_at", e.emittedAt.toJson)]).Distinct := by
    simp [Value.members, Members.Distinct]
  have houter : ((fun l t b => (⟨l, t, b⟩ : Event)) <$> Fields.field "lane" Lane.reader <*>
      Fields.field "emitted_at" Timestamp.reader).Spells
      (Value.members [("lane", e.lane.toJson), ("emitted_at", e.emittedAt.toJson)])
      fun b => ⟨e.lane, e.emittedAt, b⟩ := by
    refine ⟨hd, by simp [Value.members], ?_⟩
    exact ((Fields.Reads.member hd 0 rfl e.lane.reader_toJson).map _).seq
      (.member hd 1 rfl (Timestamp.reader_toJson h))
  have houtside : ∀ m ∈ ("event", (Value.text e.body.tag).tree) :: Value.members e.body.members,
      m.1 ∉ ["lane", "emitted_at"] := by
    intro m hm
    rcases List.mem_cons.1 hm with rfl | hm
    · simp
    · simpa using ⟨(e.body.beside m hm).1.1, (e.body.beside m hm).1.2.1⟩
  have hbuffered : Tagged.Buffered
      (("event", (Value.text e.body.tag).tree) :: Value.members e.body.members) := by
    intro m hm
    rcases List.mem_cons.1 hm with rfl | hm
    · rfl
    · exact (e.body.beside m hm).2
  rw [toJson, Value.tree_object]
  exact Tagged.within_of_spells houter (EventBody.ofTagOrIndex_tag hf) hspells houtside
    (fun m hm => (e.body.beside m hm).1.2.2) hbuffered

theorem isExact_toJson (e : Event) : e.toJson.isExact = true := by
  obtain ⟨l, t, b⟩ := e
  cases b <;> rfl

theorem read_toJson {e : Event} (h : e.emittedAt.WellFormed) :
    Json.read Event.reader e.toJson.bytes = .ok e := Value.read_bytes e.isExact_toJson (reader_toJson h)

/-- One member of the written object is the tag. -/
theorem parse_tag (e : Event) : ∃ members, Tree.parse e.toJson.bytes = ⟨.object members, false⟩ ∧
    ∀ t, (some "event", t) ∈ members ↔ t = .text (some e.body.tag) := by
  refine ⟨_, (Value.parse_bytes e.isExact_toJson).trans (by rw [toJson, Value.tree_object]), ?_⟩
  intro t
  rw [Json.mem_keyed]
  constructor
  · intro ht
    rcases List.mem_cons.1 ht with ht | ht
    · exact absurd (Prod.mk.inj ht).1 (by decide : "event" ≠ "lane")
    rcases List.mem_cons.1 ht with ht | ht
    · exact absurd (Prod.mk.inj ht).1 (by decide : "event" ≠ "emitted_at")
    rcases List.mem_cons.1 ht with ht | ht
    · exact (Prod.mk.inj ht).2
    · exact absurd rfl (e.body.beside _ ht).1.2.2
  · rintro rfl
    exact .tail _ (.tail _ (.head _))

end Event

/-! ## Outcomes and statuses -/

namespace Outcome

/-- The one field of an outcome that is no success. -/
theorem spells_reason (g : String → Outcome) (r : String) :
    (g <$> Fields.field "reason" Reader.text).Spells (Value.members [("reason", .text r)]) (g r) := by
  have hd : (Value.members [("reason", .text r)]).Distinct := by
    simp [Value.members, Members.Distinct]
  exact ⟨hd, by simp [Value.members], .map g (.member hd 0 rfl (Reader.text_tree r))⟩

/-- An outcome of some kind, with its tag in front. -/
theorem reader_tagged {o : Outcome} {tag : String} {rest : List (String × Value)} {f : Fields Outcome}
    (hf : family.find? tag = some f) (hspells : f.Spells (Value.members rest) o)
    (hrest : ∀ m ∈ rest, m.1 ≠ "outcome" ∧ m.2.IsLeaf) :
    Outcome.reader (Value.object (("outcome", .text tag) :: rest)).tree = .ok o := by
  have htag : family.ofTag (Value.text tag).tree = .ok f := by
    simp only [Value.tree, Tagged.ofTag, hf]
  rw [Value.tree_object]
  refine Tagged.ofObject_of_spells htag hspells ?_ ?_
  · intro m hm
    obtain ⟨x, hx, rfl⟩ := List.mem_map.1 hm
    exact (hrest x hx).1
  · intro m hm
    obtain ⟨x, hx, rfl⟩ := List.mem_map.1 hm
    exact (hrest x hx).2.buffered

/-- **An outcome is read back.** -/
theorem read_toJson (o : Outcome) : Json.read Outcome.reader o.toJson.bytes = .ok o := by
  have hreason (r : String) : ∀ m ∈ [("reason", Value.text r)], m.1 ≠ "outcome" ∧ m.2.IsLeaf := by
    simp [Value.IsLeaf.text]
  cases o with
  | success =>
    have hspells : (pure success : Fields Outcome).Spells (Value.members []) success :=
      ⟨List.nodup_nil, nofun, .pure _⟩
    exact Value.read_bytes rfl (reader_tagged rfl hspells nofun)
  | recoverable r =>
    exact Value.read_bytes rfl (reader_tagged rfl (spells_reason recoverable r) (hreason r))
  | fatal r => exact Value.read_bytes rfl (reader_tagged rfl (spells_reason fatal r) (hreason r))

end Outcome

theorem CurrentCommand.reader_toJson {c : CurrentCommand} (h : c.startedAt.WellFormed) :
    CurrentCommand.reader c.toJson.tree = .ok c := by
  have hd : (Value.members [("identity", .text c.identity), ("type_tag", .text c.tag),
      ("description", .text c.description), ("attempt", .nat c.attempt.toNat),
      ("started_at", c.startedAt.toJson)]).Distinct := by
    simp [Value.members, Members.Distinct]
  rw [toJson, Value.tree_object]
  refine Fields.Spells.reader ⟨hd, by simp [fields, Value.members], ?_⟩
  exact (((((Fields.Reads.member hd 0 rfl (Reader.text_tree c.identity)).map _).seq
    (.member hd 1 rfl (Reader.text_tree c.tag))).seq
    (.member hd 2 rfl (Reader.text_tree c.description))).seq
    (.member hd 3 rfl (Reader.word32_toNat c.attempt))).seq
    (.member hd 4 rfl (Timestamp.reader_toJson h))

namespace LaneStatus

/-- The members that a status always has. -/
def always (s : LaneStatus) : List (String × Value) :=
  [("lane", s.lane.toJson), ("pending_count", .nat s.pendingCount.toNat),
    ("is_running", .bool s.isRunning), ("is_paused", .bool s.isPaused), ("state", s.state.toJson)]

/-- The command that runs comes behind them. -/
theorem toJson_eq (s : LaneStatus) : s.toJson =
    .object (s.always ++ (s.current.map fun c => ("current", c.toJson)).toList) := by
  cases hc : s.current with
  | none => simp only [toJson, always, hc, Option.map_none, Option.toList_none]
  | some c => simp only [toJson, always, hc, Option.map_some, Option.toList_some]

theorem reads_always (s : LaneStatus) {last : List (String × Value)}
    (hd : (Value.members (s.always ++ last)).Distinct) {β : Type}
    (g : Lane → UInt64 → Bool → Bool → LaneState → β) :
    (g <$> Fields.field "lane" Lane.reader <*> .field "pending_count" Reader.word64 <*>
      .field "is_running" Reader.bool <*> .field "is_paused" Reader.bool <*>
      .field "state" LaneState.reader).Reads (Value.members (s.always ++ last))
      (g s.lane s.pendingCount s.isRunning s.isPaused s.state) :=
  (((((Fields.Reads.member hd 0 rfl s.lane.reader_toJson).map g).seq
    (.member hd 1 rfl (Reader.word64_toNat s.pendingCount))).seq
    (.member hd 2 rfl (Reader.bool_tree s.isRunning))).seq
    (.member hd 3 rfl (Reader.bool_tree s.isPaused))).seq
    (.member hd 4 rfl s.state.reader_toJson)

/-- **The status of a lane is read back.** -/
theorem read_toJson {s : LaneStatus} (h : ∀ c ∈ s.current, c.startedAt.WellFormed) :
    Json.read LaneStatus.reader s.toJson.bytes = .ok s := by
  have hcurrent {current : Option CurrentCommand} (hc : s.current = current) :
      (⟨s.lane, s.pendingCount, s.isRunning, s.isPaused, s.state, current⟩ : LaneStatus) = s := by
    rw [← hc]
  cases hc : s.current with
  | none =>
    have hd : (Value.members (s.always ++ [])).Distinct := by
      simp [always, Value.members, Members.Distinct]
    have hlast : (Fields.maybe "current" CurrentCommand.reader).Reads
        (Value.members (s.always ++ [])) none := .maybe_none (by simp [always, Value.members])
    have hreads := (reads_always s hd LaneStatus.mk).seq hlast
    rw [hcurrent hc] at hreads
    rw [toJson_eq, hc]
    refine Value.read_bytes rfl ?_
    rw [Value.tree_object]
    exact Fields.Spells.reader ⟨hd, by simp [always, fields, Value.members], hreads⟩
  | some c =>
    have hd : (Value.members (s.always ++ [("current", c.toJson)])).Distinct := by
      simp [always, Value.members, Members.Distinct]
    have hread : CurrentCommand.reader.option c.toJson.tree = .ok (some c) := by
      have hobject := CurrentCommand.reader_toJson (h c hc)
      rw [CurrentCommand.toJson, Value.tree_object] at hobject ⊢
      exact Reader.option_object hobject
    have hlast : (Fields.maybe "current" CurrentCommand.reader).Reads
        (Value.members (s.always ++ [("current", c.toJson)])) (some c) :=
      .maybe_some hd (by simp [always, Value.members]) hread
    have hreads := (reads_always s hd LaneStatus.mk).seq hlast
    rw [hcurrent hc] at hreads
    rw [toJson_eq, hc]
    refine Value.read_bytes rfl ?_
    rw [Option.map_some, Option.toList_some, Value.tree_object]
    exact Fields.Spells.reader ⟨hd, by simp [always, fields, Value.members], hreads⟩

end LaneStatus

end LaneQueue
