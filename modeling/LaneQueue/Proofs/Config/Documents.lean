import LaneQueue.Proofs.Config.Fields
/-!
# What a configuration file says

`FileConfig.ReadFrom` says what a document in either format means: a file is a record of records, and each
setting is what stands in its place, of its own type, or has its default. Nothing in it mentions how a file
is read. `FileConfig.reader_eq_ok_iff` and `Toml.fileConfig_eq_some_iff` are the result: a file is read as a
configuration exactly when it says that configuration, so a setting of a wrong type anywhere is a fault.
-/
namespace LaneQueue

variable {α : Type}

/-! ## Values in a document -/

namespace ConfigDocument

def IsText : ConfigDocument → String → Prop
  | .json t, s => t = .text (some s)
  | .toml v, s => v = .text s

/-- A number of nothing but digits. -/
def IsWhole : ConfigDocument → Nat → Prop
  | .json t, n => ∃ m, t = .number m ∧ m.toInt? = some (n : Int)
  | .toml v, n => v = .integer n

def IsWord16 (d : ConfigDocument) (w : UInt16) : Prop := d.IsWhole w.toNat

def IsWord32 (d : ConfigDocument) (w : UInt32) : Prop := d.IsWhole w.toNat

def IsWord64 (d : ConfigDocument) (w : UInt64) : Prop := d.IsWhole w.toNat

/-- A number, rounded to single precision. An integer of up to 64 bits is rounded once, any other number
to double precision first. -/
inductive IsSingle : ConfigDocument → Binary32 → Prop
  | jsonInteger {n i} (hi : n.toInt? = some i) (hbits : Toml.hasBits 64 i = true) :
    IsSingle (.json (.number n)) (.ofMagnitude (i < 0) (i.natAbs : Rat))
  | jsonNumber {n x} (hno : ∀ i, n.toInt? = some i → Toml.hasBits 64 i = false)
    (hx : n.toDouble? = some x) : IsSingle (.json (.number n)) (.ofMagnitude n.negative x)
  | tomlInteger {i} (hbits : Toml.hasBits 64 i = true) :
    IsSingle (.toml (.integer i)) (.ofMagnitude (i < 0) (i.natAbs : Rat))
  | tomlFinite {negative x} : IsSingle (.toml (.finite negative x)) (.ofMagnitude negative x)
  | tomlInfinite {negative} : IsSingle (.toml (.infinite negative)) (.infinity negative)
  | tomlNan : IsSingle (.toml .nan) .nan

/-- The name of a lane, or the only key of something with nothing under it. -/
inductive NamesLane : ConfigDocument → Lane → Prop
  | jsonText (l : Lane) : NamesLane (.json (.text (some l.name))) l
  | jsonKey (l : Lane) : NamesLane (.json (.object [(some l.name, .null)])) l
  | tomlText (l : Lane) : NamesLane (.toml (.text l.name)) l
  | tomlTable (l : Lane) : NamesLane (.toml (.table [(l.name, .table [])])) l
  | tomlArray (l : Lane) : NamesLane (.toml (.table [(l.name, .array [])])) l

inductive IsList (means : ConfigDocument → α → Prop) : ConfigDocument → List α → Prop
  | json {items as} (h : List.Forall₂ (fun t a => means (.json t) a) items as) :
    IsList means (.json (.array items)) as
  | toml {items as} (h : List.Forall₂ (fun v a => means (.toml v) a) items as) :
    IsList means (.toml (.array items)) as

/-- A value that is there, unless it is the null of JSON. -/
inductive Given (means : ConfigDocument → α → Prop) : ConfigDocument → Option α → Prop
  | null : Given means (.json .null) none
  | value {d a} (h : means d a) : Given means d (some a)

end ConfigDocument

open ConfigDocument

/-! ## The records of a file -/

/-- The retry settings, from what stands in their places. -/
structure RetryConfig.ReadAt (look : Slot → Option ConfigDocument) (r : RetryConfig) : Prop where
  maxAttempts : FilledIn (look ⟨"max_attempts", 0⟩) IsWord32 5 r.maxAttempts
  backoffBaseMs : FilledIn (look ⟨"backoff_base_ms", 1⟩) IsWord64 2000 r.backoffBaseMs
  backoffMaxMs : FilledIn (look ⟨"backoff_max_ms", 2⟩) IsWord64 300000 r.backoffMaxMs
  jitterRatio : FilledIn (look ⟨"jitter_ratio", 3⟩) IsSingle ({} : RetryConfig).jitterRatio
    r.jitterRatio

def RetryConfig.ReadFrom (d : ConfigDocument) : RetryConfig → Prop :=
  d.Writes ["max_attempts", "backoff_base_ms", "backoff_max_ms", "jitter_ratio"] 0 ReadAt

structure QueueConfig.ReadAt (look : Slot → Option ConfigDocument) (q : QueueConfig) : Prop where
  retry : FilledIn (look ⟨"retry", 0⟩) RetryConfig.ReadFrom {} q.retry
  eventChannelCapacity : FilledIn (look ⟨"event_channel_capacity", 1⟩) IsWord64 1024
    q.eventChannelCapacity
  shutdownGraceMs : FilledIn (look ⟨"shutdown_grace_ms", 2⟩) IsWord64 10000 q.shutdownGraceMs
  storeRetryDelayMs : FilledIn (look ⟨"store_retry_delay_ms", 3⟩) IsWord64 250 q.storeRetryDelayMs
  pausedLanes : FilledIn (look ⟨"paused_lanes", 4⟩) (IsList NamesLane) [] q.pausedLanes

def QueueConfig.ReadFrom (d : ConfigDocument) : QueueConfig → Prop :=
  d.Writes ["retry", "event_channel_capacity", "shutdown_grace_ms", "store_retry_delay_ms",
    "paused_lanes"] 0 ReadAt

structure FileServer.ReadAt (look : Slot → Option ConfigDocument) (s : FileServer) : Prop where
  host : FilledIn (look ⟨"host", 0⟩) (Given IsText) none s.host
  port : FilledIn (look ⟨"port", 1⟩) (Given IsWord16) none s.port

def FileServer.ReadFrom (d : ConfigDocument) : FileServer → Prop := d.Writes ["host", "port"] 2 ReadAt

structure FileDatabase.ReadAt (look : Slot → Option ConfigDocument) (b : FileDatabase) : Prop where
  url : FilledIn (look ⟨"url", 0⟩) (Given IsText) none b.url

def FileDatabase.ReadFrom (d : ConfigDocument) : FileDatabase → Prop := d.Writes ["url"] 1 ReadAt

structure FileConfig.ReadAt (look : Slot → Option ConfigDocument) (c : FileConfig) : Prop where
  server : FilledIn (look ⟨"server", 0⟩) FileServer.ReadFrom {} c.server
  database : FilledIn (look ⟨"database", 1⟩) FileDatabase.ReadFrom {} c.database
  queue : FilledIn (look ⟨"queue", 2⟩) (Given QueueConfig.ReadFrom) none c.queue

/-- **What a file says**, as a document in either format. -/
def FileConfig.ReadFrom (d : ConfigDocument) : FileConfig → Prop :=
  d.Writes ["server", "database", "queue"] 3 ReadAt

/-! ## Words -/

/-- A number of nothing but digits that is small enough. -/
def ConfigDocument.IsBelow (bound : Nat) (d : ConfigDocument) (n : Nat) : Prop :=
  d.IsWhole n ∧ n < bound

/-- A word is a number below its size. -/
theorem isWhole_iff {ω : Type} {size : Nat} {ofNat : Nat → ω} {toNat : ω → Nat}
    (hlt : ∀ w, toNat w < size) (hto : ∀ n < size, toNat (ofNat n) = n)
    (hof : ∀ w, ofNat (toNat w) = w) (d : ConfigDocument) (w : ω) :
    d.IsWhole (toNat w) ↔ ∃ n, d.IsBelow size n ∧ w = ofNat n := by
  constructor
  · intro h
    exact ⟨_, ⟨h, hlt w⟩, (hof w).symm⟩
  · rintro ⟨n, ⟨h, hn⟩, rfl⟩
    rwa [hto n hn]

theorem isWord16_iff (d : ConfigDocument) (w : UInt16) :
    d.IsWord16 w ↔ ∃ n, d.IsBelow UInt16.size n ∧ w = .ofNat n :=
  isWhole_iff UInt16.toNat_lt (fun _ => UInt16.toNat_ofNat_of_lt) (fun _ => UInt16.ofNat_toNat) d w

theorem isWord32_iff (d : ConfigDocument) (w : UInt32) :
    d.IsWord32 w ↔ ∃ n, d.IsBelow UInt32.size n ∧ w = .ofNat n :=
  isWhole_iff UInt32.toNat_lt (fun _ => UInt32.toNat_ofNat_of_lt) (fun _ => UInt32.ofNat_toNat) d w

theorem isWord64_iff (d : ConfigDocument) (w : UInt64) :
    d.IsWord64 w ↔ ∃ n, d.IsBelow UInt64.size n ∧ w = .ofNat n :=
  isWhole_iff UInt64.toNat_lt (fun _ => UInt64.toNat_ofNat_of_lt) (fun _ => UInt64.ofNat_toNat) d w

theorem filledIn_word32_iff {found : Option ConfigDocument} (n : Nat) {w : UInt32} :
    FilledIn found IsWord32 (.ofNat n) w ↔
      ∃ a, FilledIn found (IsBelow UInt32.size) n a ∧ w = .ofNat a :=
  (FilledIn.map_iff isWord32_iff).symm

theorem filledIn_word64_iff {found : Option ConfigDocument} (n : Nat) {w : UInt64} :
    FilledIn found IsWord64 (.ofNat n) w ↔
      ∃ a, FilledIn found (IsBelow UInt64.size) n a ∧ w = .ofNat a :=
  (FilledIn.map_iff isWord64_iff).symm

theorem Lane.ofName?_eq_some_iff {s : String} {l : Lane} : ofName? s = some l ↔ s = l.name := by
  constructor
  · intro h
    have hname := List.find?_some h
    simp only [beq_iff_eq] at hname
    exact hname.symm
  · rintro rfl
    cases l <;> rfl

/-! ## Files in JSON -/

namespace Json.Reader

variable {r : Reader α} {t : Tree}

theorem text_eq_ok_iff {s : String} : text t = .ok s ↔ (ConfigDocument.json t).IsText s := by
  cases t with
  | text o => cases o <;> simp [text, IsText]
  | null | bool | number | array | object | broken => exact iff_of_false nofun nofun

theorem below_eq_ok_iff {bound n : Nat} :
    below bound t = .ok n ↔ (ConfigDocument.json t).IsBelow bound n := by
  cases t with
  | number m =>
    simp only [below, IsBelow, IsWhole, Tree.number.injEq, exists_eq_left']
    cases hm : m.toInt? with
    | none => simp
    | some i =>
      simp only [Option.some.injEq]
      split
      · rw [Except.ok.injEq]
        omega
      · simp only [reduceCtorEq, false_iff]
        omega
  | null | bool | text | array | object | broken =>
    constructor
    · intro h
      cases h
    · rintro ⟨⟨_, h, -⟩, -⟩
      cases h

theorem map_below_eq_ok_iff {ω : Type} {bound : Nat} {ofNat : Nat → ω} {w : ω} :
    (below bound t).map ofNat = .ok w ↔
      ∃ n, (ConfigDocument.json t).IsBelow bound n ∧ w = ofNat n := by
  simp only [← below_eq_ok_iff]
  cases below bound t <;> simp [Except.map, eq_comm]

theorem word16_eq_ok_iff {w : UInt16} : word16 t = .ok w ↔ (ConfigDocument.json t).IsWord16 w :=
  map_below_eq_ok_iff.trans (isWord16_iff _ w).symm

theorem word32_eq_ok_iff {w : UInt32} : word32 t = .ok w ↔ (ConfigDocument.json t).IsWord32 w :=
  map_below_eq_ok_iff.trans (isWord32_iff _ w).symm

theorem word64_eq_ok_iff {w : UInt64} : word64 t = .ok w ↔ (ConfigDocument.json t).IsWord64 w :=
  map_below_eq_ok_iff.trans (isWord64_iff _ w).symm

theorem single_eq_ok_iff {x : Binary32} : single t = .ok x ↔ (ConfigDocument.json t).IsSingle x := by
  have hbits : ∀ i : Int, (-9223372036854775808 ≤ i ∧ i < (UInt64.size : Int)) ↔
      Toml.hasBits 64 i = true := by
    intro i
    rw [Toml.hasBits, Bool.and_eq_true, decide_eq_true_iff, decide_eq_true_iff]
    exact Iff.rfl
  cases t with
  | number n =>
    have hdouble : (∀ i, n.toInt? = some i → Toml.hasBits 64 i = false) →
        (single.viaDouble n = .ok x ↔ (ConfigDocument.json (.number n)).IsSingle x) := by
      intro hno
      rw [single.viaDouble]
      constructor
      · intro h
        split at h
        · obtain rfl := Except.ok.inj h
          exact .jsonNumber hno ‹_›
        · cases h
      · rintro (⟨hi, hbits⟩ | ⟨-, hx⟩)
        · rw [hno _ hi] at hbits
          cases hbits
        · rw [hx]
    rw [single]
    cases hi : n.toInt? with
    | none => exact hdouble fun i h => nomatch hi.symm.trans h
    | some i =>
      dsimp only
      split
      · rename_i h
        constructor
        · intro hx
          obtain rfl := Except.ok.inj hx
          exact .jsonInteger hi ((hbits i).1 h)
        · rintro (⟨hi', -⟩ | ⟨hno, -⟩)
          · obtain rfl := Option.some.inj (hi.symm.trans hi')
            rfl
          · exact absurd ((hbits i).1 h) (Bool.eq_false_iff.1 (hno i hi))
      · rename_i h
        refine hdouble fun j hj => ?_
        obtain rfl := Option.some.inj (hi.symm.trans hj)
        exact Bool.eq_false_iff.2 fun htrue => h ((hbits i).2 htrue)
  | null | bool | text | array | object | broken => exact iff_of_false nofun nofun

theorem lane_eq_ok_iff {l : Lane} : Lane.reader t = .ok l ↔ (ConfigDocument.json t).NamesLane l := by
  have hnamed : ∀ s, oneOf.named Lane.ofName? s = .ok l ↔ s = l.name := by
    intro s
    rw [oneOf.named, ← Lane.ofName?_eq_some_iff]
    cases Lane.ofName? s <;> simp
  rw [Lane.reader]
  constructor
  · intro h
    unfold oneOf at h
    split at h
    · obtain rfl := (hnamed _).1 h
      exact .jsonText l
    · obtain rfl := (hnamed _).1 h
      exact .jsonKey l
    · cases h
  · rintro (_ | _)
    · exact (hnamed _).2 rfl
    · exact (hnamed _).2 rfl

theorem list_eq_ok_iff {means : ConfigDocument → α → Prop}
    (hr : ∀ t a, r t = .ok a ↔ means (.json t) a) {as : List α} :
    list r t = .ok as ↔ (ConfigDocument.json t).IsList means as := by
  cases t with
  | array items =>
    simp only [list, mapM_eq_ok_iff, hr]
    exact ⟨.json, fun h => by cases h; assumption⟩
  | null | bool | number | text | object | broken => exact iff_of_false nofun nofun

theorem option_eq_ok_iff {means : ConfigDocument → α → Prop}
    (hr : ∀ t a, r t = .ok a ↔ means (.json t) a) (hnull : ∀ a, ¬ means (.json .null) a)
    {o : Option α} : r.option t = .ok o ↔ (ConfigDocument.json t).Given means o := by
  by_cases ht : t = .null
  · subst ht
    constructor
    · intro h
      obtain rfl := Except.ok.inj h
      exact .null
    · rintro (_ | h)
      · rfl
      · exact absurd h (hnull _)
  · have hoption : r.option t = (r t).map some := by
      cases t with
      | null => exact absurd rfl ht
      | bool | number | text | array | object | broken => rfl
    rw [hoption]
    constructor
    · intro h
      cases hr' : r t with
      | error e => rw [hr'] at h; cases h
      | ok a =>
        rw [hr'] at h
        obtain rfl := Except.ok.inj h
        exact .value ((hr t a).1 hr')
    · rintro (_ | h)
      · exact absurd rfl ht
      · rw [(hr t _).2 h]
        rfl

end Json.Reader

section

open Json

theorem RetryConfig.fills : (fieldsOver {}).Fills 0 4 0 RetryConfig.ReadAt := by
  refine (((((Fields.Fills.field _ _ _ fun _ _ => Reader.word32_eq_ok_iff).map _).seq
    (.field _ _ _ fun _ _ => Reader.word64_eq_ok_iff)).seq
    (.field _ _ _ fun _ _ => Reader.word64_eq_ok_iff)).seq
    (.field _ _ _ fun _ _ => Reader.single_eq_ok_iff)).congr fun look r => ?_
  constructor
  · rintro ⟨_, _, ⟨_, _, ⟨_, _, ⟨_, _, rfl, ha, rfl⟩, hb, rfl⟩, hm, rfl⟩, hj, rfl⟩
    exact ⟨ha, hb, hm, hj⟩
  · rintro ⟨ha, hb, hm, hj⟩
    exact ⟨_, _, ⟨_, _, ⟨_, _, ⟨_, _, rfl, ha, rfl⟩, hb, rfl⟩, hm, rfl⟩, hj, rfl⟩

theorem RetryConfig.reader_eq_ok_iff {t : Tree} {r : RetryConfig} :
    RetryConfig.reader t = .ok r ↔ ReadFrom (.json t) r := fills.reader

theorem QueueConfig.fills : (fieldsOver {}).Fills 0 5 0 QueueConfig.ReadAt := by
  refine ((((((Fields.Fills.field _ _ _ fun _ _ => RetryConfig.reader_eq_ok_iff).map _).seq
    (.field _ _ _ fun _ _ => Reader.word64_eq_ok_iff)).seq
    (.field _ _ _ fun _ _ => Reader.word64_eq_ok_iff)).seq
    (.field _ _ _ fun _ _ => Reader.word64_eq_ok_iff)).seq
    (.field _ _ _ fun _ _ => Reader.list_eq_ok_iff fun _ _ => Reader.lane_eq_ok_iff)).congr
      fun look q => ?_
  constructor
  · rintro ⟨_, _, ⟨_, _, ⟨_, _, ⟨_, _, ⟨_, _, rfl, hr, rfl⟩, he, rfl⟩, hg, rfl⟩, hs, rfl⟩, hp, rfl⟩
    exact ⟨hr, he, hg, hs, hp⟩
  · rintro ⟨hr, he, hg, hs, hp⟩
    exact ⟨_, _, ⟨_, _, ⟨_, _, ⟨_, _, ⟨_, _, rfl, hr, rfl⟩, he, rfl⟩, hg, rfl⟩, hs, rfl⟩, hp, rfl⟩

theorem QueueConfig.reader_eq_ok_iff {t : Tree} {q : QueueConfig} :
    QueueConfig.reader t = .ok q ↔ ReadFrom (.json t) q := fills.reader

theorem FileServer.fills : FileConfig.fields.server.Fills 0 2 2 FileServer.ReadAt := by
  refine (((Fields.Fills.maybe _ _ fun _ _ => Reader.option_eq_ok_iff (fun _ _ =>
    Reader.text_eq_ok_iff) nofun).map _).seq (.maybe _ _ fun _ _ => Reader.option_eq_ok_iff
      (fun _ _ => Reader.word16_eq_ok_iff) fun _ h => nomatch h)).congr fun look s => ?_
  constructor
  · rintro ⟨_, _, ⟨_, _, rfl, hh, rfl⟩, hp, rfl⟩
    exact ⟨hh, hp⟩
  · rintro ⟨hh, hp⟩
    exact ⟨_, _, ⟨_, _, rfl, hh, rfl⟩, hp, rfl⟩

theorem FileServer.reader_eq_ok_iff {t : Tree} {s : FileServer} :
    FileConfig.fields.server.reader t = .ok s ↔ ReadFrom (.json t) s := fills.reader

theorem FileDatabase.fills : FileConfig.fields.database.Fills 0 1 1 FileDatabase.ReadAt := by
  refine ((Fields.Fills.maybe _ _ fun _ _ => Reader.option_eq_ok_iff (fun _ _ =>
    Reader.text_eq_ok_iff) nofun).map _).congr fun look b => ?_
  constructor
  · rintro ⟨_, _, rfl, hu, rfl⟩
    exact ⟨hu⟩
  · rintro ⟨hu⟩
    exact ⟨_, _, rfl, hu, rfl⟩

theorem FileDatabase.reader_eq_ok_iff {t : Tree} {b : FileDatabase} :
    FileConfig.fields.database.reader t = .ok b ↔ ReadFrom (.json t) b := fills.reader

theorem FileConfig.fills : fields.Fills 0 3 3 FileConfig.ReadAt := by
  refine ((((Fields.Fills.field _ _ _ fun _ _ => FileServer.reader_eq_ok_iff).map _).seq
    (.field _ _ _ fun _ _ => FileDatabase.reader_eq_ok_iff)).seq
    (.maybe _ _ fun _ _ => Reader.option_eq_ok_iff (fun _ _ => QueueConfig.reader_eq_ok_iff)
      fun _ h => h.record)).congr fun look c => ?_
  constructor
  · rintro ⟨_, _, ⟨_, _, ⟨_, _, rfl, hs, rfl⟩, hd, rfl⟩, hq, rfl⟩
    exact ⟨hs, hd, hq⟩
  · rintro ⟨hs, hd, hq⟩
    exact ⟨_, _, ⟨_, _, ⟨_, _, rfl, hs, rfl⟩, hd, rfl⟩, hq, rfl⟩

/-- **A file in JSON is read as what it says**, and every other document is refused. -/
theorem FileConfig.reader_eq_ok_iff {t : Tree} {c : FileConfig} :
    FileConfig.reader t = .ok c ↔ ReadFrom (.json t) c := fills.reader

end

/-! ## Files in TOML -/

namespace Toml

namespace Read

variable {r : Read α} {v : Value}

theorem text_eq_some_iff {s : String} : text v = some s ↔ (ConfigDocument.toml v).IsText s := by
  cases v with
  | text s' => simp [text, IsText]
  | integer | finite | infinite | nan | bool | moment | array | table =>
    exact iff_of_false nofun nofun

theorem below_eq_some_iff {bound n : Nat} :
    below bound v = some n ↔ (ConfigDocument.toml v).IsBelow bound n := by
  cases v with
  | integer i =>
    simp only [below, IsBelow, IsWhole, Value.integer.injEq]
    split
    · rw [Option.some.injEq]
      omega
    · simp only [reduceCtorEq, false_iff]
      omega
  | text | finite | infinite | nan | bool | moment | array | table =>
    exact iff_of_false nofun fun h => nomatch h.1

theorem single_eq_some_iff {x : Binary32} :
    single v = some x ↔ (ConfigDocument.toml v).IsSingle x := by
  constructor
  · intro h
    unfold single at h
    split at h
    · split at h
      · obtain rfl := Option.some.inj h
        exact .tomlInteger ‹_›
      · cases h
    · obtain rfl := Option.some.inj h
      exact .tomlFinite
    · obtain rfl := Option.some.inj h
      exact .tomlInfinite
    · obtain rfl := Option.some.inj h
      exact .tomlNan
    · cases h
  · rintro (_ | _ | hbits | _ | _ | _)
    · exact if_pos hbits
    · rfl
    · rfl
    · rfl

theorem lane_eq_some_iff {l : Lane} :
    oneOf Lane.ofName? v = some l ↔ (ConfigDocument.toml v).NamesLane l := by
  constructor
  · intro h
    unfold oneOf at h
    split at h
    · obtain rfl := Lane.ofName?_eq_some_iff.1 h
      exact .tomlText l
    · obtain rfl := Lane.ofName?_eq_some_iff.1 h
      exact .tomlTable l
    · obtain rfl := Lane.ofName?_eq_some_iff.1 h
      exact .tomlArray l
    · cases h
  · rintro (_ | _ | _ | _ | _) <;> exact Lane.ofName?_eq_some_iff.2 rfl

theorem mapM_eq_some_iff {vs : List Value} {as : List α} :
    vs.mapM r = some as ↔ List.Forall₂ (fun v a => r v = some a) vs as := by
  induction vs generalizing as with
  | nil =>
    rw [List.forall₂_nil_left_iff, List.mapM_nil]
    exact Option.some_inj.trans eq_comm
  | cons v vs ih =>
    rw [List.forall₂_cons_left_iff, List.mapM_cons]
    constructor
    · intro h
      obtain ⟨a, ha, h⟩ := Option.bind_eq_some_iff.1 h
      obtain ⟨rest, hrest, h⟩ := Option.bind_eq_some_iff.1 h
      exact ⟨a, rest, ha, ih.1 hrest, (Option.some.inj h).symm⟩
    · rintro ⟨a, rest, ha, hrest, rfl⟩
      exact Option.bind_eq_some_iff.2 ⟨a, ha, Option.bind_eq_some_iff.2 ⟨rest, ih.2 hrest, rfl⟩⟩

theorem list_eq_some_iff {means : ConfigDocument → α → Prop}
    (hr : ∀ v a, r v = some a ↔ means (.toml v) a) {as : List α} :
    list r v = some as ↔ (ConfigDocument.toml v).IsList means as := by
  cases v with
  | array items =>
    simp only [list, mapM_eq_some_iff, hr]
    exact ⟨.toml, fun h => by cases h; assumption⟩
  | text | integer | finite | infinite | nan | bool | moment | table =>
    exact iff_of_false nofun nofun

theorem map_some_eq_some_iff {means : ConfigDocument → α → Prop}
    (hr : ∀ v a, r v = some a ↔ means (.toml v) a) {o : Option α} :
    (r v).map some = some o ↔ (ConfigDocument.toml v).Given means o := by
  rw [Option.map_eq_some_iff]
  constructor
  · rintro ⟨a, ha, rfl⟩
    exact .value ((hr v a).1 ha)
  · rintro (_ | h)
    exact ⟨_, (hr v _).2 h, rfl⟩

end Read

theorem retry_fills : retry.Fills 0 4 0 RetryConfig.ReadAt := by
  refine (((((Record.Fills.field _ _ _ fun _ _ => Read.below_eq_some_iff).map _).seq
    (.field _ _ _ fun _ _ => Read.below_eq_some_iff)).seq
    (.field _ _ _ fun _ _ => Read.below_eq_some_iff)).seq
    (.field _ _ _ fun _ _ => Read.single_eq_some_iff)).congr fun look r => ?_
  constructor
  · rintro ⟨_, j, ⟨_, m, ⟨_, b, ⟨_, a, rfl, ha, rfl⟩, hb, rfl⟩, hm, rfl⟩, hj, rfl⟩
    exact ⟨(filledIn_word32_iff 5).2 ⟨a, ha, rfl⟩, (filledIn_word64_iff 2000).2 ⟨b, hb, rfl⟩,
      (filledIn_word64_iff 300000).2 ⟨m, hm, rfl⟩, hj⟩
  · obtain ⟨maxAttempts, backoffBaseMs, backoffMaxMs, j⟩ := r
    rintro ⟨ha, hb, hm, hj⟩
    obtain ⟨a, ha', rfl⟩ := (filledIn_word32_iff 5).1 ha
    obtain ⟨b, hb', rfl⟩ := (filledIn_word64_iff 2000).1 hb
    obtain ⟨m, hm', rfl⟩ := (filledIn_word64_iff 300000).1 hm
    exact ⟨_, j, ⟨_, m, ⟨_, b, ⟨_, a, rfl, ha', rfl⟩, hb', rfl⟩, hm', rfl⟩, hj, rfl⟩

theorem retry_eq_some_iff {v : Value} {r : RetryConfig} :
    retry.read v = some r ↔ RetryConfig.ReadFrom (.toml v) r := retry_fills.read _

theorem queue_fills : queue.Fills 0 5 0 QueueConfig.ReadAt := by
  refine ((((((Record.Fills.field _ _ _ fun _ _ => retry_eq_some_iff).map _).seq
    (.field _ _ _ fun _ _ => Read.below_eq_some_iff)).seq
    (.field _ _ _ fun _ _ => Read.below_eq_some_iff)).seq
    (.field _ _ _ fun _ _ => Read.below_eq_some_iff)).seq
    (.field _ _ _ fun _ _ => Read.list_eq_some_iff fun _ _ => Read.lane_eq_some_iff)).congr
      fun look q => ?_
  constructor
  · rintro ⟨_, _, ⟨_, s, ⟨_, g, ⟨_, e, ⟨_, _, rfl, hr, rfl⟩, he, rfl⟩, hg, rfl⟩, hs, rfl⟩, hp, rfl⟩
    exact ⟨hr, (filledIn_word64_iff 1024).2 ⟨e, he, rfl⟩, (filledIn_word64_iff 10000).2 ⟨g, hg, rfl⟩,
      (filledIn_word64_iff 250).2 ⟨s, hs, rfl⟩, hp⟩
  · obtain ⟨r, eventChannelCapacity, shutdownGraceMs, storeRetryDelayMs, p⟩ := q
    rintro ⟨hr, he, hg, hs, hp⟩
    obtain ⟨e, he', rfl⟩ := (filledIn_word64_iff 1024).1 he
    obtain ⟨g, hg', rfl⟩ := (filledIn_word64_iff 10000).1 hg
    obtain ⟨s, hs', rfl⟩ := (filledIn_word64_iff 250).1 hs
    exact ⟨_, p, ⟨_, s, ⟨_, g, ⟨_, e, ⟨_, r, rfl, hr, rfl⟩, he', rfl⟩, hg', rfl⟩, hs', rfl⟩, hp, rfl⟩

theorem queue_eq_some_iff {v : Value} {q : QueueConfig} :
    queue.read v = some q ↔ QueueConfig.ReadFrom (.toml v) q := queue_fills.read _

theorem server_fills : fileConfig.server.Fills 0 2 2 FileServer.ReadAt := by
  refine (((Record.Fills.maybe _ _ fun _ _ => Read.map_some_eq_some_iff fun _ _ =>
    Read.text_eq_some_iff).map _).seq (.maybe _ _ fun _ _ => Read.map_some_eq_some_iff fun _ _ =>
      Read.below_eq_some_iff)).congr fun look s => ?_
  have hport : ∀ d o, Given IsWord16 d o ↔
      ∃ p, Given (IsBelow UInt16.size) d p ∧ o = p.map UInt16.ofNat := by
    intro d o
    constructor
    · rintro (_ | h)
      · exact ⟨none, .null, rfl⟩
      · obtain ⟨n, hn, rfl⟩ := (isWord16_iff d _).1 h
        exact ⟨some n, .value hn, rfl⟩
    · rintro ⟨p, _ | h, rfl⟩
      · exact .null
      · exact .value ((isWord16_iff d _).2 ⟨_, h, rfl⟩)
  constructor
  · rintro ⟨_, p, ⟨_, _, rfl, hh, rfl⟩, hp, rfl⟩
    exact ⟨hh, (FilledIn.map_iff hport).1 ⟨p, hp, rfl⟩⟩
  · obtain ⟨host, port⟩ := s
    rintro ⟨hh, hp⟩
    obtain ⟨p, hp', rfl⟩ : ∃ p, FilledIn (look ⟨"port", 1⟩) (Given (IsBelow UInt16.size)) none p ∧
        port = p.map UInt16.ofNat := (FilledIn.map_iff hport).2 hp
    exact ⟨_, p, ⟨_, host, rfl, hh, rfl⟩, hp', rfl⟩

theorem server_eq_some_iff {v : Value} {s : FileServer} :
    fileConfig.server.read v = some s ↔ FileServer.ReadFrom (.toml v) s := server_fills.read _

theorem database_fills : fileConfig.database.Fills 0 1 1 FileDatabase.ReadAt := by
  refine ((Record.Fills.maybe _ _ fun _ _ => Read.map_some_eq_some_iff fun _ _ =>
    Read.text_eq_some_iff).map _).congr fun look b => ?_
  constructor
  · rintro ⟨_, _, rfl, hu, rfl⟩
    exact ⟨hu⟩
  · rintro ⟨hu⟩
    exact ⟨_, _, rfl, hu, rfl⟩

theorem database_eq_some_iff {v : Value} {b : FileDatabase} :
    fileConfig.database.read v = some b ↔ FileDatabase.ReadFrom (.toml v) b := database_fills.read _

theorem fileConfig_fills : fileConfig.Fills 0 3 3 FileConfig.ReadAt := by
  refine ((((Record.Fills.field _ _ _ fun _ _ => server_eq_some_iff).map _).seq
    (.field _ _ _ fun _ _ => database_eq_some_iff)).seq
    (.maybe _ _ fun _ _ => Read.map_some_eq_some_iff fun _ _ => queue_eq_some_iff)).congr
      fun look c => ?_
  constructor
  · rintro ⟨_, _, ⟨_, _, ⟨_, _, rfl, hs, rfl⟩, hd, rfl⟩, hq, rfl⟩
    exact ⟨hs, hd, hq⟩
  · rintro ⟨hs, hd, hq⟩
    exact ⟨_, _, ⟨_, _, ⟨_, _, rfl, hs, rfl⟩, hd, rfl⟩, hq, rfl⟩

/-- **A file in TOML is read as what it says**, and every other document is refused. -/
theorem fileConfig_eq_some_iff {v : Value} {c : FileConfig} :
    fileConfig.read v = some c ↔ FileConfig.ReadFrom (.toml v) c := fileConfig_fills.read _

end Toml

/-! ## Files as texts -/

/-- The text is written in a format and is the document as a whole. -/
def ConfigDocument.Of (text : String) : ConfigDocument → Prop
  | .json t => Json.Tree.parse text.toUTF8.toList = ⟨t, false⟩
  | .toml v => Toml.parse? text = some v

theorem FileConfig.ofJson_eq_ok_iff {text : String} {c : FileConfig} :
    ofJson text = .ok c ↔ ∃ t, ConfigDocument.Of text (.json t) ∧ ReadFrom (.json t) c := by
  simp only [← FileConfig.reader_eq_ok_iff]
  unfold ofJson Json.read
  simp only [bind, Except.bind, ConfigDocument.Of]
  rcases hdoc : Json.Tree.parse text.toUTF8.toList with ⟨t, trailing⟩
  constructor
  · intro h
    cases hr : reader t with
    | error e => rw [hr] at h; cases h
    | ok c' =>
      cases trailing with
      | true => rw [hr] at h; cases h
      | false =>
        rw [hr] at h
        obtain rfl := Except.ok.inj h
        exact ⟨t, rfl, hr⟩
  · rintro ⟨t', heq, hr⟩
    cases heq
    rw [hr]
    rfl

theorem FileConfig.ofToml?_eq_some_iff {text : String} {c : FileConfig} :
    ofToml? text = some c ↔ ∃ v, ConfigDocument.Of text (.toml v) ∧ ReadFrom (.toml v) c := by
  simp only [← Toml.fileConfig_eq_some_iff]
  exact Option.bind_eq_some_iff

end LaneQueue
