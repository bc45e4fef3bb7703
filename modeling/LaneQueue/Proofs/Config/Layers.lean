import Mathlib
import LaneQueue.Proofs.Config.Sources
/-!
# Which layer settles a setting

Variables come before the file layer and the file layer before the defaults, for each setting on its own.
`Layered` says of one setting where its value comes from, `Config.Follows` and `ConfigFault.Follows` what
the layers come to together. `ConfigLoader.load_layers` is the result for every lookup of variables and every
content of the file system.
-/
namespace LaneQueue

variable {α : Type}

/-! ## A setting under its layers -/

/-- A setting is read from the first of its variables that is set, else it is what the file says, else
the default. -/
inductive Layered (look : String → Option String) (names : List String) (reads : String → α → Prop)
    (said : Option α) (absent : α) : α → Prop
  | variable {raw a} (h : First (Sets look) names raw) (ha : reads raw a) :
    Layered look names reads said absent a
  | file {a} (h : ∀ raw, ¬ First (Sets look) names raw) (ha : said = some a) :
    Layered look names reads said absent a
  | absent (h : ∀ raw, ¬ First (Sets look) names raw) (ha : said = none) :
    Layered look names reads said absent absent

namespace Layered

variable {look : String → Option String} {names : List String} {reads : String → α → Prop}
  {said : Option α} {absent a : α}

theorem of_some {raw : String} (hv : First (Sets look) names raw) :
    Layered look names reads said absent a ↔ reads raw a := by
  constructor
  · rintro (⟨h, ha⟩ | ⟨h, -⟩ | ⟨h, -⟩)
    · rw [hv.sets_unique h]
      exact ha
    · exact absurd hv (h _)
    · exact absurd hv (h _)
  · exact .variable hv

theorem of_none (hv : ∀ raw, ¬ First (Sets look) names raw) :
    Layered look names reads said absent a ↔ a = said.getD absent := by
  constructor
  · rintro (⟨h, -⟩ | ⟨-, rfl⟩ | ⟨-, rfl⟩)
    · exact absurd h (hv _)
    · rfl
    · rfl
  · rintro rfl
    cases said with
    | none => exact .absent hv rfl
    | some a => exact .file hv rfl

end Layered

def hostVariables : List String := ["MEDIAQ_HOST", "SERVER_HOST"]

def portVariables : List String := ["MEDIAQ_PORT", "SERVER_PORT"]

def urlVariables : List String := ["MEDIAQ_DATABASE_URL", "DATABASE_URL"]

def laneVariables : List String := ["MEDIAQ_PAUSED_LANES"]

/-! ## All layers together -/

/-- A port as people write it: decimal digits after an optional plus. -/
def PortText (s : String) (p : UInt16) : Prop :=
  ∃ ds, ds ≠ [] ∧ (s.toList = ds ∨ s.toList = '+' :: ds) ∧ (∀ d ∈ ds, d.isDigit = true) ∧
    p.toNat = Nat.ofDigitChars 10 ds 0

/-- The parts of a text between commas that are not blank, without the blanks around them. -/
def entries (raw : String) : List String :=
  ((raw.toList.splitOn ',').filter fun part => !part.all isBlank).map fun part =>
    trim (String.ofList part)

section

variable (look : String → Option String) (file : FileConfig)

def HostIs : String → Prop :=
  Layered look hostVariables (fun raw host => host = trim raw) file.server.host "0.0.0.0"

def PortIs : UInt16 → Prop :=
  Layered look portVariables (fun raw port => PortText (trim raw) port) file.server.port 3000

def UrlIs : String → Prop :=
  Layered look urlVariables (fun raw url => url = trim raw) (file.database.url.map trim)
    "sqlite://mediaq-queue.db"

def LanesAre : List Lane → Prop :=
  Layered look laneVariables
    (fun raw lanes => List.Forall₂ (fun name l => Lane.parse name = .ok l) (entries raw) lanes)
    (file.queue.map (·.pausedLanes)) []

/-- The file gives a blank address for the database, and no variable gives another. -/
def LacksUrl : Prop :=
  (∀ raw, ¬ First (Sets look) urlVariables raw) ∧
    ∃ url, file.database.url = some url ∧ isBlankText url = true

/-- What the layers come to: each setting on its own. -/
structure Config.Follows (c : Config) : Prop where
  host : HostIs look file c.host
  port : PortIs look file c.port
  databaseUrl : UrlIs look file c.databaseUrl
  hasUrl : ¬ LacksUrl look file
  pausedLanes : LanesAre look file c.queue.pausedLanes
  /-- No other setting of the queue comes from a variable. -/
  queue : c.queue = { file.queue.getD {} with pausedLanes := c.queue.pausedLanes }
  /-- The settings that come from variables are listed in order, under their first variables. -/
  overrides : c.overrides.Sublist
    ["MEDIAQ_HOST", "MEDIAQ_PORT", "MEDIAQ_DATABASE_URL", "MEDIAQ_PAUSED_LANES"]
  mem_overrides : ∀ names ∈ [hostVariables, portVariables, urlVariables, laneVariables],
    ∀ name ∈ names.head?, (name ∈ c.overrides ↔ ∃ raw, First (Sets look) names raw)

/-- Why the layers come to nothing: the first fault in the order of port, database and lanes. -/
inductive ConfigFault.Follows : ConfigFault → Prop
  | port {raw} (h : First (Sets look) portVariables raw) (hno : ∀ p, ¬ PortText (trim raw) p) :
    ConfigFault.Follows (.invalidPort raw)
  | url {p} (hport : PortIs look file p) (h : LacksUrl look file) :
    ConfigFault.Follows .emptyDatabaseUrl
  | lane {p raw before name after} (hport : PortIs look file p) (hurl : ¬ LacksUrl look file)
    (h : First (Sets look) laneVariables raw) (hsplit : entries raw = before ++ name :: after)
    (hbefore : ∀ n ∈ before, ∃ l, Lane.parse n = .ok l) (hno : ∀ l, Lane.parse name ≠ .ok l) :
    ConfigFault.Follows (.invalidLane name)

end

/-! ## Ports and lanes from texts -/

theorem digitValue?_isSome {c : Char} : (digitValue? c).isSome = true ↔ c.isDigit = true := by
  rw [Char.isDigit_iff_toNat, digitValue?]
  split
  · exact iff_of_true rfl ‹_›
  · exact iff_of_false nofun ‹_›

theorem hexValue?_of_isDigit {c : Char} (h : c.isDigit = true) :
    Toml.hexValue? c = some (c.toNat - '0'.toNat) := by
  have hrange : 48 ≤ c.toNat ∧ c.toNat ≤ 57 := Char.isDigit_iff_toNat.1 h
  rw [Toml.hexValue?, digitValue?, if_pos hrange]
  rfl

theorem ofDigits_ten {ds : List Char} (h : ∀ d ∈ ds, d.isDigit = true) :
    Toml.ofDigits 10 ds = Nat.ofDigitChars 10 ds 0 := by
  suffices hgo : ∀ n, ds.foldl (fun n c => n * 10 + (Toml.hexValue? c).getD 0) n =
      Nat.ofDigitChars 10 ds n from hgo 0
  induction ds with
  | nil => exact fun _ => rfl
  | cons d ds ih =>
    intro n
    rw [List.foldl_cons, Nat.ofDigitChars_cons, ih fun d hd => h d (List.mem_cons_of_mem _ hd),
      hexValue?_of_isDigit (h d List.mem_cons_self), Option.getD_some, Nat.mul_comm]

theorem trim_eq_empty_iff {cs : List Char} : trim (String.ofList cs) = "" ↔ cs.all isBlank = true := by
  have hleft : trimLeft (trimLeft cs) = trimLeft cs := List.dropWhile_idempotent _ _
  rw [trim, String.toList_ofList, String.ofList_eq_empty_iff, trimRight_eq_nil_iff,
    ← trimLeft_eq_nil_iff, hleft, trimLeft_eq_nil_iff]

theorem commaSeparated_eq (raw : String) : commaSeparated raw = entries raw := by
  have hblank : ((· != "") ∘ fun part => trim (String.ofList part)) = fun part => !part.all isBlank := by
    funext part
    rw [Function.comp_apply, Bool.eq_iff_iff, bne_iff_ne, ne_eq, trim_eq_empty_iff,
      Bool.not_eq_true', Bool.not_eq_true]
  rw [commaSeparated, List.filter_map, hblank, entries]

namespace ConfigLoader

/-- The number behind the sign. -/
theorem portOfDigits_eq_some_iff {ds : List Char} {p : UInt16} :
    (if ds.isEmpty || !ds.all (fun c => (digitValue? c).isSome) then none
      else if Toml.ofDigits 10 ds < UInt16.size then some (UInt16.ofNat (Toml.ofDigits 10 ds)) else none) =
        some p ↔
      ds ≠ [] ∧ (∀ d ∈ ds, d.isDigit = true) ∧ p.toNat = Nat.ofDigitChars 10 ds 0 := by
  have hall : ds.all (fun c => (digitValue? c).isSome) = true ↔ ∀ d ∈ ds, d.isDigit = true := by
    simp only [List.all_eq_true, digitValue?_isSome]
  have hvalue : ∀ n, (if n < UInt16.size then some (UInt16.ofNat n) else none) = some p ↔
      p.toNat = n := by
    intro n
    rw [Option.ite_none_right_eq_some, Option.some.injEq]
    constructor
    · rintro ⟨hn, rfl⟩
      exact UInt16.toNat_ofNat_of_lt hn
    · rintro rfl
      exact ⟨p.toNat_lt, UInt16.ofNat_toNat⟩
  rw [Option.ite_none_left_eq_some, hvalue]
  simp only [Bool.or_eq_true, List.isEmpty_iff, Bool.not_eq_true', not_or, Bool.not_eq_false, hall,
    and_assoc]
  refine and_congr_right fun _ => and_congr_right fun hds => ?_
  rw [ofDigits_ten hds]

theorem parsePort_eq_some_iff {s : String} {p : UInt16} : parsePort s = some p ↔ PortText s p := by
  unfold parsePort PortText
  split
  · rename_i rest hs
    refine portOfDigits_eq_some_iff.trans ?_
    constructor
    · rintro ⟨hne, hds, hp⟩
      exact ⟨rest, hne, .inr hs, hds, hp⟩
    · rintro ⟨ds, hne, hds' | hds', hds, hp⟩
      · -- a plus is no digit
        exact absurd (hds '+' (hds' ▸ hs ▸ List.mem_cons_self)) (by decide)
      · obtain rfl := (List.cons.inj (hs.symm.trans hds')).2
        exact ⟨hne, hds, hp⟩
  · rename_i hplus
    refine portOfDigits_eq_some_iff.trans ?_
    constructor
    · rintro ⟨hne, hds, hp⟩
      exact ⟨s.toList, hne, .inl rfl, hds, hp⟩
    · rintro ⟨ds, hne, rfl | hds', hds, hp⟩
      · exact ⟨hne, hds, hp⟩
      · exact absurd hds' (hplus ds)

theorem resolveLane_eq_ok_iff {name : String} {l : Lane} :
    resolveLane name = .ok l ↔ Lane.parse name = .ok l := by
  rw [resolveLane]
  cases Lane.parse name <;> simp

theorem resolveLane_eq_error_iff {name : String} {e : ConfigFault} :
    resolveLane name = .error e ↔ (∀ l, Lane.parse name ≠ .ok l) ∧ e = .invalidLane name := by
  rw [resolveLane]
  cases Lane.parse name <;> simp [eq_comm]

theorem lanes_eq_ok_iff {names : List String} {lanes : List Lane} :
    names.mapM resolveLane = .ok lanes ↔
      List.Forall₂ (fun name l => Lane.parse name = .ok l) names lanes := by
  simp only [mapM_eq_ok_iff, resolveLane_eq_ok_iff]

/-- The first name that is no lane's is told. -/
theorem lanes_eq_error_iff {names : List String} {e : ConfigFault} :
    names.mapM resolveLane = .error e ↔ ∃ before name after, names = before ++ name :: after ∧
      (∀ n ∈ before, ∃ l, Lane.parse n = .ok l) ∧ (∀ l, Lane.parse name ≠ .ok l) ∧
      e = .invalidLane name := by
  induction names with
  | nil =>
    constructor
    · intro h; cases h
    · rintro ⟨before, name, after, h, -⟩
      exact absurd h.symm (List.append_ne_nil_of_right_ne_nil _ (List.cons_ne_nil _ _))
  | cons name names ih =>
    rw [List.mapM_cons]
    constructor
    · intro h
      rcases bind_eq_error_iff.1 h with hl | ⟨l, hl, h⟩
      · obtain ⟨hno, rfl⟩ := resolveLane_eq_error_iff.1 hl
        exact ⟨[], name, names, rfl, nofun, hno, rfl⟩
      rcases bind_eq_error_iff.1 h with hls | ⟨ls, -, h⟩
      · obtain ⟨before, bad, after, rfl, hbefore, hno, rfl⟩ := ih.1 hls
        refine ⟨name :: before, bad, after, rfl, ?_, hno, rfl⟩
        exact List.forall_mem_cons.2 ⟨⟨l, resolveLane_eq_ok_iff.1 hl⟩, hbefore⟩
      cases h
    · rintro ⟨before, bad, after, hsplit, hbefore, hno, rfl⟩
      cases before with
      | nil =>
        obtain ⟨rfl, rfl⟩ := List.cons.inj hsplit
        rw [resolveLane_eq_error_iff.2 ⟨hno, rfl⟩]
        rfl
      | cons first before =>
        obtain ⟨rfl, rfl⟩ := List.cons.inj hsplit
        obtain ⟨⟨l, hl⟩, hbefore⟩ := List.forall_mem_cons.1 hbefore
        rw [resolveLane_eq_ok_iff.2 hl, ih.2 ⟨before, bad, after, rfl, hbefore, hno, rfl⟩]
        rfl

/-! ## Each setting on its own -/

section

variable {look : String → Option String} {file : FileConfig}

/-- A setting with a second variable behind the first. -/
theorem or_eq_some_iff {first second raw : String} :
    (Environment.value? look first).or (Environment.value? look second) = some raw ↔
      First (Sets look) [first, second] raw := by
  rw [first_sets, List.findSome?_cons, List.findSome?_cons, List.findSome?_nil]
  cases Environment.value? look first <;> cases Environment.value? look second <;> rfl

theorem not_first_of_eq_none {names : List String} {v : Option String}
    (hv : ∀ raw, v = some raw ↔ First (Sets look) names raw) (hnone : v = none) (raw : String) :
    ¬ First (Sets look) names raw := by
  rw [← hv, hnone]
  nofun

theorem host_iff (raw : String) : (Environment.ofLookup look).host = some raw ↔
    First (Sets look) hostVariables raw := or_eq_some_iff

theorem port_iff (raw : String) : (Environment.ofLookup look).port = some raw ↔
    First (Sets look) portVariables raw := or_eq_some_iff

theorem url_iff (raw : String) : (Environment.ofLookup look).databaseUrl = some raw ↔
    First (Sets look) urlVariables raw := or_eq_some_iff

theorem resolveHost_eq_iff {host : String} :
    resolveHost (.ofLookup look) file = host ↔ HostIs look file host := by
  unfold resolveHost HostIs
  cases hv : (Environment.ofLookup look).host with
  | some raw => rw [Layered.of_some ((host_iff raw).1 hv), eq_comm]
  | none =>
    rw [Layered.of_none (not_first_of_eq_none host_iff hv), eq_comm]
    rfl

theorem resolvePort_eq_ok_iff {p : UInt16} :
    resolvePort (.ofLookup look) file = .ok p ↔ PortIs look file p := by
  unfold resolvePort PortIs
  cases hv : (Environment.ofLookup look).port with
  | some raw =>
    rw [Layered.of_some ((port_iff raw).1 hv), ← parsePort_eq_some_iff]
    cases hp : parsePort (trim raw) <;> simp [hp]
  | none =>
    rw [Layered.of_none (not_first_of_eq_none port_iff hv), Except.ok.injEq, eq_comm]
    rfl

theorem resolvePort_eq_error_iff {e : ConfigFault} : resolvePort (.ofLookup look) file = .error e ↔
    ∃ raw, First (Sets look) portVariables raw ∧ (∀ p, ¬ PortText (trim raw) p) ∧
      e = .invalidPort raw := by
  unfold resolvePort
  cases hv : (Environment.ofLookup look).port with
  | some raw =>
    have hfirst := (port_iff raw).1 hv
    cases hp : parsePort (trim raw) with
    | some p =>
      simp only [hp, reduceCtorEq, false_iff]
      rintro ⟨raw', h', hno, -⟩
      rw [h'.sets_unique hfirst] at hno
      exact hno p (parsePort_eq_some_iff.1 hp)
    | none =>
      simp only [hp, Except.error.injEq]
      constructor
      · rintro rfl
        refine ⟨raw, hfirst, fun p h => ?_, rfl⟩
        rw [parsePort_eq_some_iff.2 h] at hp
        cases hp
      · rintro ⟨raw', h', -, rfl⟩
        rw [h'.sets_unique hfirst]
  | none =>
    simp only [reduceCtorEq, false_iff]
    rintro ⟨raw, h, -⟩
    exact not_first_of_eq_none port_iff hv raw h

/-- The fallback of the address, when no variable gives one. -/
theorem resolveDatabaseUrl_of_unset (hv : (Environment.ofLookup look).databaseUrl = none) :
    resolveDatabaseUrl (.ofLookup look) file =
      if ∃ url, file.database.url = some url ∧ isBlankText url = true then .error .emptyDatabaseUrl
      else .ok ((file.database.url.map trim).getD "sqlite://mediaq-queue.db") := by
  unfold resolveDatabaseUrl
  rw [hv]
  cases hu : file.database.url with
  | none => simp [defaultDatabaseUrl]
  | some said => cases hb : isBlankText said <;> simp [hb]

theorem resolveDatabaseUrl_eq_ok_iff {url : String} :
    resolveDatabaseUrl (.ofLookup look) file = .ok url ↔
      UrlIs look file url ∧ ¬ LacksUrl look file := by
  unfold UrlIs LacksUrl
  cases hv : (Environment.ofLookup look).databaseUrl with
  | some raw =>
    have hfirst := (url_iff raw).1 hv
    rw [Layered.of_some hfirst, and_iff_left fun h => h.1 raw hfirst, resolveDatabaseUrl, hv,
      Except.ok.injEq, eq_comm]
  | none =>
    have hno := not_first_of_eq_none url_iff hv
    rw [resolveDatabaseUrl_of_unset hv, Layered.of_none hno, and_iff_right hno]
    split
    · rename_i hblank
      exact iff_of_false nofun fun h => h.2 hblank
    · rename_i hblank
      rw [and_iff_left hblank, Except.ok.injEq, eq_comm]

theorem resolveDatabaseUrl_eq_error_iff {e : ConfigFault} :
    resolveDatabaseUrl (.ofLookup look) file = .error e ↔
      LacksUrl look file ∧ e = .emptyDatabaseUrl := by
  unfold LacksUrl
  cases hv : (Environment.ofLookup look).databaseUrl with
  | some raw =>
    rw [resolveDatabaseUrl, hv]
    exact iff_of_false nofun fun h => h.1.1 raw ((url_iff raw).1 hv)
  | none =>
    have hno := not_first_of_eq_none url_iff hv
    rw [resolveDatabaseUrl_of_unset hv, and_iff_right hno]
    split
    · rename_i hblank
      rw [and_iff_right hblank, Except.error.injEq, eq_comm]
    · rename_i hblank
      exact iff_of_false nofun fun h => hblank h.1

theorem lanes_iff (raw : String) :
    Environment.value? look "MEDIAQ_PAUSED_LANES" = some raw ↔ First (Sets look) laneVariables raw := by
  rw [first_sets, laneVariables, List.findSome?_cons, List.findSome?_nil]
  cases Environment.value? look "MEDIAQ_PAUSED_LANES" <;> rfl

theorem resolveQueue_of_unset (hv : Environment.value? look "MEDIAQ_PAUSED_LANES" = none) :
    resolveQueue (.ofLookup look) file = .ok (file.queue.getD {}) := by
  simp only [resolveQueue, Environment.ofLookup, hv, Option.map_none]

theorem resolveQueue_of_set {raw : String}
    (hv : Environment.value? look "MEDIAQ_PAUSED_LANES" = some raw) :
    resolveQueue (.ofLookup look) file = ((entries raw).mapM resolveLane).map
      fun lanes => { file.queue.getD {} with pausedLanes := lanes } := by
  simp only [resolveQueue, Environment.ofLookup, hv, Option.map_some, commaSeparated_eq]

theorem resolveQueue_eq_ok_iff {queue : QueueConfig} :
    resolveQueue (.ofLookup look) file = .ok queue ↔ LanesAre look file queue.pausedLanes ∧
      queue = { file.queue.getD {} with pausedLanes := queue.pausedLanes } := by
  unfold LanesAre
  cases hv : Environment.value? look "MEDIAQ_PAUSED_LANES" with
  | some raw =>
    rw [Layered.of_some ((lanes_iff raw).1 hv), ← lanes_eq_ok_iff, resolveQueue_of_set hv]
    cases hls : (entries raw).mapM resolveLane with
    | error e => exact iff_of_false nofun fun h => nomatch h.1
    | ok ls =>
      constructor
      · intro h
        obtain rfl := Except.ok.inj h
        exact ⟨rfl, rfl⟩
      · rintro ⟨h, hqueue⟩
        obtain rfl := Except.ok.inj h
        exact congrArg Except.ok hqueue.symm
  | none =>
    rw [Layered.of_none (not_first_of_eq_none lanes_iff hv), resolveQueue_of_unset hv]
    have hlanes : (file.queue.map (·.pausedLanes)).getD [] = (file.queue.getD {}).pausedLanes := by
      cases file.queue <;> rfl
    rw [hlanes]
    constructor
    · intro h
      obtain rfl := Except.ok.inj h
      exact ⟨rfl, rfl⟩
    · rintro ⟨h, hqueue⟩
      rw [hqueue, h]

theorem resolveQueue_eq_error_iff {e : ConfigFault} :
    resolveQueue (.ofLookup look) file = .error e ↔ ∃ raw before name after,
      First (Sets look) laneVariables raw ∧ entries raw = before ++ name :: after ∧
      (∀ n ∈ before, ∃ l, Lane.parse n = .ok l) ∧ (∀ l, Lane.parse name ≠ .ok l) ∧
      e = .invalidLane name := by
  cases hv : Environment.value? look "MEDIAQ_PAUSED_LANES" with
  | some raw =>
    have hfirst := (lanes_iff raw).1 hv
    have hlanes : resolveQueue (.ofLookup look) file = .error e ↔
        (entries raw).mapM resolveLane = .error e := by
      rw [resolveQueue_of_set hv]
      cases (entries raw).mapM resolveLane <;> simp [Except.map]
    rw [hlanes, lanes_eq_error_iff]
    constructor
    · rintro ⟨before, name, after, h⟩
      exact ⟨raw, before, name, after, hfirst, h⟩
    · rintro ⟨raw', before, name, after, h', h⟩
      rw [hfirst.sets_unique h']
      exact ⟨before, name, after, h⟩
  | none =>
    rw [resolveQueue_of_unset hv]
    refine iff_of_false nofun ?_
    rintro ⟨raw, _, _, _, h, -⟩
    exact not_first_of_eq_none lanes_iff hv raw h

/-! ## The list of overrides -/

theorem overridesOf_sublist (env : Environment) : (overridesOf env).Sublist
    ["MEDIAQ_HOST", "MEDIAQ_PORT", "MEDIAQ_DATABASE_URL", "MEDIAQ_PAUSED_LANES"] := by
  unfold overridesOf
  cases env.host.isSome <;> cases env.port.isSome <;> cases env.databaseUrl.isSome <;>
    cases env.pausedLanes.isSome <;> decide

theorem mem_overridesOf (env : Environment) :
    ("MEDIAQ_HOST" ∈ overridesOf env ↔ env.host.isSome = true) ∧
      ("MEDIAQ_PORT" ∈ overridesOf env ↔ env.port.isSome = true) ∧
      ("MEDIAQ_DATABASE_URL" ∈ overridesOf env ↔ env.databaseUrl.isSome = true) ∧
      ("MEDIAQ_PAUSED_LANES" ∈ overridesOf env ↔ env.pausedLanes.isSome = true) := by
  unfold overridesOf
  cases env.host.isSome <;> cases env.port.isSome <;> cases env.databaseUrl.isSome <;>
    cases env.pausedLanes.isSome <;> decide

theorem isSome_iff_first {names : List String} {v : Option String}
    (hv : ∀ raw, v = some raw ↔ First (Sets look) names raw) :
    v.isSome = true ↔ ∃ raw, First (Sets look) names raw := by
  simp only [Option.isSome_iff_exists, hv]

theorem mem_overridesOf_iff :
    ∀ names ∈ [hostVariables, portVariables, urlVariables, laneVariables], ∀ name ∈ names.head?,
      (name ∈ overridesOf (.ofLookup look) ↔ ∃ raw, First (Sets look) names raw) := by
  obtain ⟨hhost, hport, hurl, hlanes⟩ := mem_overridesOf (.ofLookup look)
  have hset : (Environment.ofLookup look).pausedLanes.isSome =
      (Environment.value? look "MEDIAQ_PAUSED_LANES").isSome := Option.isSome_map
  simp only [List.forall_mem_cons, hostVariables, portVariables, urlVariables, laneVariables,
    List.head?_cons, Option.mem_some_iff, forall_eq', List.not_mem_nil, false_imp_iff, implies_true,
    and_true]
  exact ⟨hhost.trans (isSome_iff_first host_iff), hport.trans (isSome_iff_first port_iff),
    hurl.trans (isSome_iff_first url_iff),
    hlanes.trans (hset ▸ isSome_iff_first lanes_iff)⟩

/-! ## The result -/

/-- A sublist of a list without duplicates is known from its members. -/
theorem eq_of_sublist {l xs ys : List String} (hl : l.Nodup) (hxs : xs.Sublist l)
    (hys : ys.Sublist l) (h : ∀ a ∈ l, a ∈ xs ↔ a ∈ ys) : xs = ys := by
  have hfilter : ∀ {zs : List String}, zs.Sublist l → zs = l.filter (· ∈ zs) := by
    intro zs hzs
    clear hxs hys h
    induction hzs with
    | slnil => rfl
    | @cons zs l a hzs ih =>
      obtain ⟨ha, hl⟩ := List.nodup_cons.1 hl
      rw [List.filter_cons_of_neg (by simpa using fun hin => ha (hzs.subset hin))]
      exact ih hl
    | @cons_cons zs l a hzs ih =>
      obtain ⟨ha, hl⟩ := List.nodup_cons.1 hl
      rw [List.filter_cons_of_pos (by simp)]
      refine congrArg (a :: ·) ((ih hl).trans (List.filter_congr fun b hb => ?_))
      have hne : b ≠ a := by
        rintro rfl
        exact ha hb
      simp [hne]
  rw [hfilter hxs, hfilter hys]
  exact List.filter_congr fun a ha => by simp only [h a ha]

/-- The settings together, over a file layer from a source. -/
def settle (look : String → Option String) (envFile : Option String) (source : ConfigSource)
    (file : FileConfig) : Except ConfigFault Config :=
  (resolvePort (.ofLookup look) file).bind fun port =>
    (resolveDatabaseUrl (.ofLookup look) file).bind fun url =>
      (resolveQueue (.ofLookup look) file).bind fun queue =>
        .ok ⟨resolveHost (.ofLookup look) file, port, url, queue, source, envFile,
          overridesOf (.ofLookup look)⟩

theorem load_eq {l : ConfigLoader} {fs : Files} {process vars : EnvFile.Variables}
    {envFile : Option String} {source : ConfigSource}
    (hvars : l.loadVariables fs process = .ok (envFile, vars))
    (henv : l.environment.getD (.ofLookup fun name => vars.lookup name) = .ofLookup look)
    (h : Chosen look fs l.searchRoot source) :
    l.load fs process = (content look fs source).bind (settle look envFile source) := by
  unfold load
  rw [hvars]
  simp only [bind, Except.bind, henv, resolveFile_of_chosen h]
  cases content look fs source <;> rfl

theorem settle_eq_ok_iff {envFile : Option String} {source : ConfigSource} {c : Config} :
    settle look envFile source file = .ok c ↔
      c.Follows look file ∧ c.source = source ∧ c.envFile = envFile := by
  unfold settle
  constructor
  · intro h
    obtain ⟨port, hp, h⟩ := bind_eq_ok_iff.1 h
    obtain ⟨url, hu, h⟩ := bind_eq_ok_iff.1 h
    obtain ⟨queue, hq, h⟩ := bind_eq_ok_iff.1 h
    obtain rfl := Except.ok.inj h
    obtain ⟨hurl, hlacks⟩ := resolveDatabaseUrl_eq_ok_iff.1 hu
    obtain ⟨hlanes, hqueue⟩ := resolveQueue_eq_ok_iff.1 hq
    exact ⟨⟨resolveHost_eq_iff.1 rfl, resolvePort_eq_ok_iff.1 hp, hurl, hlacks, hlanes, hqueue,
      overridesOf_sublist _, mem_overridesOf_iff⟩, rfl, rfl⟩
  · rintro ⟨h, rfl, rfl⟩
    have hoverrides : overridesOf (.ofLookup look) = c.overrides := by
      refine eq_of_sublist (by decide) (overridesOf_sublist _) h.overrides fun a ha => ?_
      obtain ⟨names, hnames, ha⟩ : ∃ names ∈ [hostVariables, portVariables, urlVariables,
          laneVariables], a ∈ names.head? := by
        revert a
        decide
      rw [mem_overridesOf_iff names hnames a ha, h.mem_overrides names hnames a ha]
    rw [resolvePort_eq_ok_iff.2 h.port, resolveDatabaseUrl_eq_ok_iff.2 ⟨h.databaseUrl, h.hasUrl⟩,
      resolveQueue_eq_ok_iff.2 ⟨h.pausedLanes, h.queue⟩, resolveHost_eq_iff.2 h.host, hoverrides]
    rfl

theorem settle_eq_error_iff {envFile : Option String} {source : ConfigSource} {e : ConfigFault} :
    settle look envFile source file = .error e ↔ e.Follows look file := by
  unfold settle
  constructor
  · intro h
    rcases bind_eq_error_iff.1 h with hp | ⟨port, hp, h⟩
    · obtain ⟨raw, hraw, hno, rfl⟩ := resolvePort_eq_error_iff.1 hp
      exact .port hraw hno
    have hport := resolvePort_eq_ok_iff.1 hp
    rcases bind_eq_error_iff.1 h with hu | ⟨url, hu, h⟩
    · obtain ⟨hlacks, rfl⟩ := resolveDatabaseUrl_eq_error_iff.1 hu
      exact .url hport hlacks
    have hurl := resolveDatabaseUrl_eq_ok_iff.1 hu
    rcases bind_eq_error_iff.1 h with hq | ⟨queue, hq, h⟩
    · obtain ⟨raw, before, name, after, hraw, hsplit, hbefore, hno, rfl⟩ :=
        resolveQueue_eq_error_iff.1 hq
      exact .lane hport hurl.2 hraw hsplit hbefore hno
    cases h
  · intro h
    cases h with
    | port hraw hno =>
      rw [resolvePort_eq_error_iff.2 ⟨_, hraw, hno, rfl⟩]
      rfl
    | url hport hlacks =>
      rw [resolvePort_eq_ok_iff.2 hport, resolveDatabaseUrl_eq_error_iff.2 ⟨hlacks, rfl⟩]
      rfl
    | lane hport hurl hraw hsplit hbefore hno =>
      have hq : resolveQueue (.ofLookup look) file = .error _ :=
        resolveQueue_eq_error_iff.2 ⟨_, _, _, _, hraw, hsplit, hbefore, hno, rfl⟩
      rw [resolvePort_eq_ok_iff.2 hport]
      cases hu : resolveDatabaseUrl (.ofLookup look) file with
      | error e => exact absurd (resolveDatabaseUrl_eq_error_iff.1 hu).1 hurl
      | ok url =>
        rw [hq]
        rfl

end

/-- Loading with given variables. -/
theorem load_given (l : ConfigLoader) (look : String → Option String) (fs : Files)
    (process : EnvFile.Variables) {source : ConfigSource} (h : Chosen look fs l.searchRoot source) :
    ({ l with environment := some (.ofLookup look) } : ConfigLoader).load fs process =
      (content look fs source).bind (settle look none source) :=
  have hvars : ({ l with environment := some (.ofLookup look) } : ConfigLoader).loadVariables fs
      process = .ok (none, process) := by simp [loadVariables]
  load_eq hvars Option.getD_some h

/-- The variables of the process, with those of a file of variables, are a lookup like any other. -/
theorem load_of_variables {l : ConfigLoader} {fs : Files} {process vars : EnvFile.Variables}
    {envFile : Option String} (henv : l.environment = none)
    (h : l.loadVariables fs process = .ok (envFile, vars)) : l.load fs process =
      (({ l with environment := some (.ofLookup fun name => vars.lookup name) } : ConfigLoader).load fs
        process).map fun c => { c with envFile := envFile } := by
  obtain ⟨source, hsource⟩ := exists_chosen (fun name => vars.lookup name) fs l.searchRoot
  rw [load_eq h (by rw [henv, Option.getD_none]) hsource, load_given l _ fs process hsource]
  cases content (fun name => vars.lookup name) fs source with
  | error e => rfl
  | ok file =>
    change settle _ envFile source file = (settle _ none source file).map _
    unfold settle
    cases resolvePort (.ofLookup fun name => vars.lookup name) file with
    | error e => rfl
    | ok port =>
      cases resolveDatabaseUrl (.ofLookup fun name => vars.lookup name) file <;>
        cases resolveQueue (.ofLookup fun name => vars.lookup name) file <;> rfl

/-- **The layers resolve by precedence**, whatever the variables are and whatever the files. There is one
source of the file layer: the file that a variable names, else the text in a variable, else the first
file under a usual name that exists, else nowhere. When it cannot be read or is no configuration, its
fault is the answer, and no other source is read. Else host, port, address of the database and paused
lanes each come from the first of their variables that is set, else from the file, else from the
defaults, whatever the others come from; the first fault among them is the answer; a blank address in the
file is a fault unless a variable gives another; and the settings that come from variables are listed.
What a document says is told without its reader (`FileConfig.ReadFrom`): each setting is what stands at the
end of its path there, which has to be of its type, and what the document leaves out, at any level, has its
default. -/
theorem load_layers (l : ConfigLoader) (look : String → Option String) (fs : Files)
    (process : EnvFile.Variables) :
    let loaded := ({ l with environment := some (.ofLookup look) } : ConfigLoader).load fs process
    ∃ source, Chosen look fs l.searchRoot source ∧
      (∀ source', Chosen look fs l.searchRoot source' → source' = source) ∧
      ((∀ file, ¬ FileLayer look fs source file) → ∃ e origin, loaded = .error e ∧
        source.origin? = some origin ∧ e.origin? = some origin) ∧
      (∀ path cause, source.path? = some path → fs.readText (Bytes.ofText path) = .error cause →
        loaded = .error (.io path cause)) ∧
      (∀ file, FileLayer look fs source file →
        (∀ c, loaded = .ok c ↔ c.Follows look file ∧ c.source = source ∧ c.envFile = none) ∧
        ∀ e, loaded = .error e ↔ e.Follows look file) ∧
      ∀ d file, Supplies look fs source d file → ∀ p ∈ FileConfig.settings, p.2 (d.follow? p.1) file := by
  intro loaded
  obtain ⟨source, hsource⟩ := exists_chosen look fs l.searchRoot
  have hloaded : loaded = (content look fs source).bind (settle look none source) :=
    load_given l look fs process hsource
  refine ⟨source, hsource, fun _ h => h.unique hsource, fun hno => ?_, fun path cause hpath hcause => ?_,
    fun file hfile => ?_, fun d file hsup p hp => ?_⟩
  · cases hc : content look fs source with
    | ok file => exact absurd ((content_eq_ok_iff hsource).1 hc) (hno file)
    | error e =>
      obtain ⟨origin, horigin, he⟩ := origin?_of_content hc
      exact ⟨e, origin, by rw [hloaded, hc]; rfl, horigin, he⟩
  · rw [hloaded, content_of_unreadable hpath hcause]
    rfl
  · have hsettle : loaded = settle look none source file := by
      rw [hloaded, (content_eq_ok_iff hsource).2 hfile]
      rfl
    rw [hsettle]
    exact ⟨fun c => settle_eq_ok_iff, fun e => settle_eq_error_iff⟩
  · exact FileConfig.settings_follow hsup.readFrom hp

/-- Only the host comes from a variable. -/
def hostOnly (name : String) : Option String := if name = "MEDIAQ_HOST" then some " ::1 " else none

/-- A file with three settings. -/
def threeSettings : FileConfig :=
  { server := { port := some 8080 }
    database := { url := some " d " }
    queue := some { pausedLanes := [.images] } }

/-- The same as a text in TOML. -/
def threeInToml : String :=
  "[server]\nport = 8080\n[database]\nurl = \" d \"\n[queue]\npaused_lanes = [\"images\"]\n"

/-- A directory with nothing but the file `mediaq.toml`. -/
def atHome : Files :=
  { entries := [([Bytes.ofText "mediaq.toml"], .file 0)]
    contents := [(0, .bytes threeInToml.toUTF8)] }

/-- What the file says comes out where no variable says more. -/
theorem load_layers_fromFile :
    FileLayer hostOnly atHome (.file "./mediaq.toml") threeSettings ∧
      ({ environment := some (.ofLookup hostOnly) } : ConfigLoader).load atHome [] = .ok
        { host := "::1", port := 8080, databaseUrl := "d", queue := { pausedLanes := [.images] },
          source := .file "./mediaq.toml", envFile := none, overrides := ["MEDIAQ_HOST"] } := by
  have hunset : ∀ {name}, name ≠ "MEDIAQ_HOST" → ∀ raw, ¬ Sets hostOnly name raw := by
    intro name hname raw h
    exact absurd ((if_neg hname).symm.trans h.1) (Option.some_ne_none raw).symm
  have hnone : ∀ {names : List String}, "MEDIAQ_HOST" ∉ names →
      ∀ raw, ¬ First (Sets hostOnly) names raw := by
    intro names hnames raw h
    induction h with
    | here h => exact hunset (fun heq => hnames (heq ▸ List.mem_cons_self)) _ h
    | later _ _ ih => exact ih fun hin => hnames (List.mem_cons_of_mem _ hin)
  have hhost : First (Sets hostOnly) hostVariables " ::1 " := .here ⟨rfl, by decide +kernel⟩
  have hfind : atHome.find (Bytes.ofText "./mediaq.toml") = .ok (.file 0) := by cbv
  have hchosen : Chosen hostOnly atHome "." (.file "./mediaq.toml") := by
    refine .file (hunset (by decide)) (hunset (by decide)) (.here ⟨by decide +kernel, ?_⟩)
    rw [Files.leads, hfind]
    rfl
  have htoml : FileConfig.ofToml? threeInToml = some threeSettings := by decide +kernel
  obtain ⟨v, hv, hsays⟩ := FileConfig.ofToml?_eq_some_iff.1 htoml
  have hfile : FileLayer hostOnly atHome (.file "./mediaq.toml") threeSettings :=
    .document (.file rfl (Files.readText_of_find hfind rfl) (.toml (by decide +kernel) hv hsays))
  obtain ⟨source, -, huniq, -, -, hsettles, -⟩ := load_layers {} hostOnly atHome []
  obtain rfl := huniq _ hchosen
  refine ⟨hfile, ((hsettles _ hfile).1 _).2 ⟨?_, rfl, rfl⟩⟩
  refine ⟨.variable hhost (by decide +kernel), .file (hnone (by decide)) rfl,
    .file (hnone (by decide)) (by decide +kernel), ?hasUrl, .file (hnone (by decide)) rfl, rfl,
    by decide, ?overrides⟩
  case hasUrl =>
    rintro ⟨-, url, hurl, hblank⟩
    obtain rfl := Option.some.inj hurl
    exact absurd hblank (by decide +kernel)
  case overrides =>
    have hno : ∀ {names name}, "MEDIAQ_HOST" ∉ names → name ∉ ["MEDIAQ_HOST"] →
        (name ∈ ["MEDIAQ_HOST"] ↔ ∃ raw, First (Sets hostOnly) names raw) := fun hnames hname =>
      iff_of_false hname fun ⟨raw, h⟩ => hnone hnames raw h
    simp only [List.forall_mem_cons, hostVariables, portVariables, urlVariables, laneVariables,
      List.head?_cons, Option.mem_some_iff, forall_eq', List.not_mem_nil, false_imp_iff, implies_true,
      and_true]
    exact ⟨iff_of_true (by decide) ⟨_, hhost⟩, hno (by decide) (by decide), hno (by decide) (by decide),
      hno (by decide) (by decide)⟩

example : (({ environment := some (.ofLookup fun name =>
      [("MEDIAQ_CONFIG_JSON",
          "\x7b\"server\": \x7b\"port\": 1\x7d, \"database\": \x7b\"url\": \" \"\x7d\x7d"),
        ("MEDIAQ_PORT", " "), ("SERVER_PORT", "99"), ("DATABASE_URL", " x "),
        ("MEDIAQ_PAUSED_LANES", "1, ,images")].lookup name) } : ConfigLoader).load {} []).map
      (fun c => (c.host, c.port, c.databaseUrl, c.queue.pausedLanes, c.overrides)) =
    .ok ("0.0.0.0", 99, "x", [.hasher, .images],
      ["MEDIAQ_PORT", "MEDIAQ_DATABASE_URL", "MEDIAQ_PAUSED_LANES"]) := by decide +kernel

end ConfigLoader

end LaneQueue
