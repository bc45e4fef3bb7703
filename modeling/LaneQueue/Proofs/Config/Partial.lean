import LaneQueue.Proofs.Config.Documents
/-!
# Configuration files in part

A file says some of the settings and leaves others out, whole tables or single values inside them.
`FileConfig.settings` lists all of them under the paths that lead to them, with what is said of a
configuration by what stands at the end of the path: that is the setting, or where nothing stands there the
setting has its default. `FileConfig.settings_follow` says so of a file of either format.
-/
namespace LaneQueue

variable {α β : Type}

open ConfigDocument

/-! ## Settings along a path -/

/-- What stands at the end of a path. -/
def ConfigDocument.follow? (d : ConfigDocument) (path : List Slot) : Option ConfigDocument :=
  path.foldlM ConfigDocument.at? d

theorem ConfigDocument.follow?_cons (d : ConfigDocument) (s : Slot) (path : List Slot) :
    d.follow? (s :: path) = (d.at? s).bind (·.follow? path) := List.foldlM_cons

/-- What is said of a record by what stands at the ends of some paths, or stands there not. -/
abbrev Settings (α : Type) := List (List Slot × (Option ConfigDocument → α → Prop))

namespace Settings

/-- The same of a part of a record. -/
def via (get : β → α) (rows : Settings α) : Settings β :=
  rows.map fun p => (p.1, fun found b => p.2 found (get b))

/-- A field is what stands in its place or has its default, and of what it holds more may be said. -/
def field (s : Slot) (means : ConfigDocument → α → Prop) (absent : α) (get : β → α)
    (inner : Settings α) : Settings β :=
  ([s], fun found b => FilledIn found means absent (get b)) ::
    (inner.via get).map fun p => (s :: p.1, p.2)

/-- It is true of all that a document says. -/
def HoldFor (rows : Settings α) (means : ConfigDocument → α → Prop) : Prop :=
  ∀ d a, means d a → ∀ p ∈ rows, p.2 (d.follow? p.1) a

variable {means : ConfigDocument → β → Prop} {inner : ConfigDocument → α → Prop} {rows : Settings α}

theorem HoldFor.append {rows rows' : Settings β} (h : rows.HoldFor means) (h' : rows'.HoldFor means) :
    (rows ++ rows').HoldFor means := by
  intro d b hd p hp
  rcases List.mem_append.1 hp with hp | hp
  · exact h d b hd p hp
  · exact h' d b hd p hp

/-- Along a field: the rest of the path starts from what stands in its place, or leads nowhere. -/
theorem HoldFor.field {s : Slot} {get : β → α} {absent : α}
    (hfill : ∀ d b, means d b → FilledIn (d.at? s) inner absent (get b))
    (habsent : ∀ p ∈ rows, p.2 none absent) (h : rows.HoldFor inner) :
    (Settings.field s inner absent get rows).HoldFor means := by
  intro d b hd p hp
  have hb := hfill d b hd
  rcases List.mem_cons.1 hp with rfl | hp
  · change FilledIn (d.follow? [s]) inner absent (get b)
    rw [follow?_cons]
    cases hs : d.at? s <;> rwa [hs] at hb
  · obtain ⟨q', hq', rfl⟩ := List.mem_map.1 hp
    obtain ⟨q, hq, rfl⟩ := List.mem_map.1 hq'
    change q.2 (d.follow? (s :: q.1)) (get b)
    rw [follow?_cons]
    cases hs : d.at? s with
    | none =>
      rw [hb.eq_absent hs]
      exact habsent q hq
    | some c =>
      rw [hs] at hb
      exact h c _ hb q hq

/-- A field that holds a single value. -/
theorem HoldFor.leaf {s : Slot} {get : β → α} {absent : α}
    (hfill : ∀ d b, means d b → FilledIn (d.at? s) inner absent (get b)) :
    (Settings.field s inner absent get []).HoldFor means :=
  .field hfill nofun nofun

/-- A part that may be missing as a whole counts as its default then. -/
theorem HoldFor.getD {absent : α} (habsent : ∀ p ∈ rows, p.1 ≠ [] ∧ p.2 none absent)
    (h : rows.HoldFor inner) : (rows.via (·.getD absent)).HoldFor (Given inner) := by
  intro d o hd p hp
  obtain ⟨q, hq, rfl⟩ := List.mem_map.1 hp
  cases hd with
  | value ha => exact h d _ ha q hq
  | null =>
    obtain ⟨hne, hnone⟩ := habsent q hq
    obtain ⟨s, path, hpath⟩ := List.exists_cons_of_ne_nil hne
    rw [hpath, follow?_cons]
    exact hnone

end Settings

def RetryConfig.settings : Settings RetryConfig :=
  .field ⟨"max_attempts", 0⟩ IsWord32 5 (·.maxAttempts) [] ++
    .field ⟨"backoff_base_ms", 1⟩ IsWord64 2000 (·.backoffBaseMs) [] ++
    .field ⟨"backoff_max_ms", 2⟩ IsWord64 300000 (·.backoffMaxMs) [] ++
    .field ⟨"jitter_ratio", 3⟩ IsSingle ({} : RetryConfig).jitterRatio (·.jitterRatio) []

def QueueConfig.settings : Settings QueueConfig :=
  .field ⟨"retry", 0⟩ RetryConfig.ReadFrom {} (·.retry) RetryConfig.settings ++
    .field ⟨"event_channel_capacity", 1⟩ IsWord64 1024 (·.eventChannelCapacity) [] ++
    .field ⟨"shutdown_grace_ms", 2⟩ IsWord64 10000 (·.shutdownGraceMs) [] ++
    .field ⟨"store_retry_delay_ms", 3⟩ IsWord64 250 (·.storeRetryDelayMs) [] ++
    .field ⟨"paused_lanes", 4⟩ (IsList NamesLane) [] (·.pausedLanes) []

def FileServer.settings : Settings FileServer :=
  .field ⟨"host", 0⟩ (Given IsText) none (·.host) [] ++
    .field ⟨"port", 1⟩ (Given IsWord16) none (·.port) []

def FileDatabase.settings : Settings FileDatabase :=
  .field ⟨"url", 0⟩ (Given IsText) none (·.url) []

/-- All settings of a file. Without a queue table those of the queue are the default ones. -/
def FileConfig.settings : Settings FileConfig :=
  .field ⟨"server", 0⟩ FileServer.ReadFrom {} (·.server) FileServer.settings ++
    .field ⟨"database", 1⟩ FileDatabase.ReadFrom {} (·.database) FileDatabase.settings ++
    .field ⟨"queue", 2⟩ (Given QueueConfig.ReadFrom) none (·.queue)
      (QueueConfig.settings.via (·.getD {}))

example : FileConfig.settings.map (·.1.map Slot.name) =
    [["server"], ["server", "host"], ["server", "port"], ["database"], ["database", "url"],
      ["queue"], ["queue", "retry"], ["queue", "retry", "max_attempts"],
      ["queue", "retry", "backoff_base_ms"], ["queue", "retry", "backoff_max_ms"],
      ["queue", "retry", "jitter_ratio"], ["queue", "event_channel_capacity"],
      ["queue", "shutdown_grace_ms"], ["queue", "store_retry_delay_ms"],
      ["queue", "paused_lanes"]] := rfl

theorem FileServer.settings_absent : ∀ p ∈ FileServer.settings, p.2 none {} := by
  simp [FileServer.settings, Settings.field, Settings.via, FilledIn]

theorem FileDatabase.settings_absent : ∀ p ∈ FileDatabase.settings, p.2 none {} := by
  simp [FileDatabase.settings, Settings.field, Settings.via, FilledIn]

theorem RetryConfig.settings_absent : ∀ p ∈ RetryConfig.settings, p.2 none {} := by
  simp [RetryConfig.settings, Settings.field, Settings.via, FilledIn]

theorem QueueConfig.settings_absent : ∀ p ∈ QueueConfig.settings, p.1 ≠ [] ∧ p.2 none {} := by
  simp [QueueConfig.settings, RetryConfig.settings, Settings.field, Settings.via, FilledIn]

theorem QueueConfig.settings_none :
    ∀ p ∈ QueueConfig.settings.via fun o : Option QueueConfig => o.getD {}, p.2 none none := by
  intro p hp
  obtain ⟨q, hq, rfl⟩ := List.mem_map.1 hp
  exact (QueueConfig.settings_absent q hq).2

/-! ## What is said of a file -/

theorem RetryConfig.holdFor : settings.HoldFor ReadFrom :=
  .append (.append (.append (.leaf fun _ _ h => h.fields.maxAttempts)
    (.leaf fun _ _ h => h.fields.backoffBaseMs)) (.leaf fun _ _ h => h.fields.backoffMaxMs))
    (.leaf fun _ _ h => h.fields.jitterRatio)

theorem QueueConfig.holdFor : settings.HoldFor ReadFrom :=
  .append (.append (.append (.append
    (.field (fun _ _ h => h.fields.retry) RetryConfig.settings_absent RetryConfig.holdFor)
    (.leaf fun _ _ h => h.fields.eventChannelCapacity)) (.leaf fun _ _ h => h.fields.shutdownGraceMs))
    (.leaf fun _ _ h => h.fields.storeRetryDelayMs)) (.leaf fun _ _ h => h.fields.pausedLanes)

theorem FileServer.holdFor : settings.HoldFor ReadFrom :=
  .append (.leaf fun _ _ h => h.fields.host) (.leaf fun _ _ h => h.fields.port)

theorem FileDatabase.holdFor : settings.HoldFor ReadFrom := .leaf fun _ _ h => h.fields.url

theorem FileConfig.holdFor : settings.HoldFor ReadFrom :=
  .append (.append
    (.field (fun _ _ h => h.fields.server) FileServer.settings_absent FileServer.holdFor)
    (.field (fun _ _ h => h.fields.database) FileDatabase.settings_absent FileDatabase.holdFor))
    (.field (fun _ _ h => h.fields.queue) QueueConfig.settings_none
      (.getD QueueConfig.settings_absent QueueConfig.holdFor))

/-- **Each setting is what stands at the end of its path**, and where a document leaves it out, at whatever
level, it has its default. -/
theorem FileConfig.settings_follow {d : ConfigDocument} {c : FileConfig} (h : ReadFrom d c)
    {p : List Slot × (Option ConfigDocument → FileConfig → Prop)} (hp : p ∈ settings) :
    p.2 (d.follow? p.1) c :=
  holdFor d c h p hp

end LaneQueue
