import LaneQueue.Config.Load
import LaneQueue.Proofs.Config.Partial
/-!
# Where the file layer comes from

`First` is the rule behind two searches: the first variable that is set, and the first usual name that
exists. `Chosen` says which source the file layer comes from, and there is exactly one;
`FileLayer` says what that source comes to, as a text that is read by the extension of its name.
`ConfigLoader.resolveFile_of_chosen` says that nothing else is ever read: what the chosen source comes to
is the answer, a fault included.
-/
namespace LaneQueue

variable {γ : Type}

/-! ## The first of some names -/

/-- What is found under the first of some names that has something. -/
inductive First (found : String → γ → Prop) : List String → γ → Prop
  | here {name names c} (h : found name c) : First found (name :: names) c
  | later {name names c} (hno : ∀ c, ¬ found name c) (h : First found names c) :
    First found (name :: names) c

theorem first_iff_findSome? {found : String → γ → Prop} {f : String → Option γ}
    (hf : ∀ name c, found name c ↔ f name = some c) {names : List String} {c : γ} :
    First found names c ↔ names.findSome? f = some c := by
  induction names with
  | nil => exact ⟨nofun, nofun⟩
  | cons name names ih =>
    rw [List.findSome?_cons]
    constructor
    · rintro (h | ⟨hno, h⟩)
      · rw [(hf name c).1 h]
      · rw [Option.eq_none_iff_forall_ne_some.2 fun c hc => hno c ((hf name c).2 hc)]
        exact ih.1 h
    · intro h
      split at h
      · rename_i c' hc
        obtain rfl := Option.some.inj h
        exact .here ((hf name _).2 hc)
      · rename_i hnone
        refine .later (fun c hc => ?_) (ih.2 h)
        rw [(hf name c).1 hc] at hnone
        cases hnone

/-- A variable has a value that is not blank. -/
def Sets (look : String → Option String) (name value : String) : Prop :=
  look name = some value ∧ isBlankText value = false

theorem value?_eq_some {look : String → Option String} {name value : String} :
    Environment.value? look name = some value ↔ Sets look name value := by
  rw [Environment.value?, Option.filter_eq_some_iff, Bool.not_eq_true', Sets]

theorem first_sets {look : String → Option String} {names : List String} {value : String} :
    First (Sets look) names value ↔ names.findSome? (Environment.value? look) = some value :=
  first_iff_findSome? fun name _ =>
    (value?_eq_some : Environment.value? look name = some _ ↔ _).symm

/-! ## The file layer -/

theorem First.sets_unique {look : String → Option String} {names : List String} {value value' : String}
    (h : First (Sets look) names value) (h' : First (Sets look) names value') : value = value' :=
  Option.some.inj ((first_sets.1 h).symm.trans (first_sets.1 h'))

/-- A usual name exists under a directory. -/
def LiesUnder (fs : Files) (root name path : String) : Prop :=
  path = ConfigLoader.joinText root name ∧ fs.leads (Bytes.ofText path) = true

/-- Where the file layer comes from: the file that a variable names, else the text in a variable, else
the first file under a usual name that exists, else nowhere. -/
inductive Chosen (look : String → Option String) (fs : Files) (root : String) : ConfigSource → Prop
  | envPath {path} (h : Sets look "MEDIAQ_CONFIG_PATH" path) : Chosen look fs root (.envPath path)
  | envInline {text} (hpath : ∀ path, ¬ Sets look "MEDIAQ_CONFIG_PATH" path)
    (h : Sets look "MEDIAQ_CONFIG_JSON" text) : Chosen look fs root .envInline
  | file {path} (hpath : ∀ path, ¬ Sets look "MEDIAQ_CONFIG_PATH" path)
    (hjson : ∀ text, ¬ Sets look "MEDIAQ_CONFIG_JSON" text)
    (h : First (LiesUnder fs root)
      ["mediaq.toml", "mediaq.json", "config/mediaq.toml", "config/mediaq.json"] path) :
    Chosen look fs root (.file path)
  | default (hpath : ∀ path, ¬ Sets look "MEDIAQ_CONFIG_PATH" path)
    (hjson : ∀ text, ¬ Sets look "MEDIAQ_CONFIG_JSON" text)
    (h : ∀ path, ¬ First (LiesUnder fs root)
      ["mediaq.toml", "mediaq.json", "config/mediaq.toml", "config/mediaq.json"] path) :
    Chosen look fs root .default

/-- What a text says: the extension of the name it stands under may rule one of the formats out, and
where it does not, TOML goes before JSON. -/
inductive Understood (extension : Option String) (text : String) : ConfigDocument → FileConfig → Prop
  | toml {v c} (hext : extension ≠ some "json") (hof : ConfigDocument.Of text (.toml v))
    (hc : FileConfig.ReadFrom (.toml v) c) : Understood extension text (.toml v) c
  | json {t c} (hext : extension ≠ some "toml" ∧ extension ≠ some "tml")
    (hno : extension ≠ some "json" →
      ∀ v c, ConfigDocument.Of text (.toml v) → ¬ FileConfig.ReadFrom (.toml v) c)
    (hof : ConfigDocument.Of text (.json t)) (hc : FileConfig.ReadFrom (.json t) c) :
    Understood extension text (.json t) c

/-- The file behind a source. -/
def ConfigSource.path? : ConfigSource → Option String
  | .envPath path | .file path => some path
  | .envInline | .default => none

/-- The name under which faults of a source are told. -/
def ConfigSource.origin? : ConfigSource → Option String
  | .envPath path | .file path => some path
  | .envInline => some "MEDIAQ_CONFIG_JSON"
  | .default => none

/-- The name of the source that a fault is told of. -/
def ConfigFault.origin? : ConfigFault → Option String
  | .io origin _ | .toml origin | .json origin _ | .unrecognized origin _ => some origin
  | _ => none

/-- The extension of a file's name, when it is a text. -/
def extensionText (path : String) : Option String :=
  (Path.extension? (Bytes.ofText path)).bind Bytes.text?

/-- What a source says, and the document that says so. -/
inductive Supplies (look : String → Option String) (fs : Files) :
    ConfigSource → ConfigDocument → FileConfig → Prop
  | file {source path text d c} (hpath : ConfigSource.path? source = some path)
    (htext : fs.readText (Bytes.ofText path) = .ok text)
    (h : Understood (extensionText path) text d c) : Supplies look fs source d c
  | envInline {text d c} (htext : Sets look "MEDIAQ_CONFIG_JSON" text)
    (h : Understood (some "json") text d c) : Supplies look fs .envInline d c

/-- The file layer of a source. Without a file it says nothing. -/
inductive FileLayer (look : String → Option String) (fs : Files) : ConfigSource → FileConfig → Prop
  | document {source d c} (h : Supplies look fs source d c) : FileLayer look fs source c
  | default : FileLayer look fs .default {}

theorem Understood.readFrom {extension : Option String} {text : String} {d : ConfigDocument}
    {c : FileConfig} (h : Understood extension text d c) : FileConfig.ReadFrom d c := by
  cases h with
  | toml _ _ hc => exact hc
  | json _ _ _ hc => exact hc

theorem Supplies.readFrom {look : String → Option String} {fs : Files} {source : ConfigSource}
    {d : ConfigDocument} {c : FileConfig} (h : Supplies look fs source d c) : FileConfig.ReadFrom d c := by
  cases h with
  | file _ _ h => exact h.readFrom
  | envInline _ h => exact h.readFrom

/-! ## There is one source -/

theorem Sets.unique {look : String → Option String} {name v v' : String} (h : Sets look name v)
    (h' : Sets look name v') : v = v' := Option.some.inj (h.1.symm.trans h'.1)

theorem first_liesUnder {fs : Files} {root path : String} {names : List String} :
    First (LiesUnder fs root) names path ↔
      (names.map (ConfigLoader.joinText root)).find? (fun p => fs.leads (Bytes.ofText p)) =
        some path := by
  let found? := fun name =>
    let p := ConfigLoader.joinText root name
    if fs.leads (Bytes.ofText p) then some p else none
  have hfound : ∀ name p, LiesUnder fs root name p ↔ found? name = some p := by
    intro name p
    simp only [LiesUnder, found?, Option.ite_none_right_eq_some, Option.some.injEq]
    constructor
    · rintro ⟨rfl, hp⟩
      exact ⟨hp, rfl⟩
    · rintro ⟨hp, rfl⟩
      exact ⟨rfl, hp⟩
  have hsame : names.findSome? found? =
      (names.map (ConfigLoader.joinText root)).find? fun p => fs.leads (Bytes.ofText p) := by
    induction names with
    | nil => rfl
    | cons name names ih =>
      rw [List.findSome?_cons, List.map_cons, List.find?_cons, ih]
      cases hp : fs.leads (Bytes.ofText (ConfigLoader.joinText root name)) <;>
        simp only [found?, hp] <;> rfl
  rw [first_iff_findSome? hfound, hsame]

namespace Chosen

variable {look : String → Option String} {fs : Files} {root : String} {source source' : ConfigSource}

theorem unique (h : Chosen look fs root source) (h' : Chosen look fs root source') :
    source = source' := by
  cases h with
  | envPath h =>
    cases h' with
    | envPath h' => rw [h.unique h']
    | envInline hpath | file hpath | default hpath => exact absurd h (hpath _)
  | envInline hpath h =>
    cases h' with
    | envPath h' => exact absurd h' (hpath _)
    | envInline => rfl
    | file _ hjson | default _ hjson => exact absurd h (hjson _)
  | file hpath hjson h =>
    cases h' with
    | envPath h' => exact absurd h' (hpath _)
    | envInline _ h' => exact absurd h' (hjson _)
    | file _ _ h' =>
      rw [first_liesUnder] at h h'
      rw [Option.some.inj (h.symm.trans h')]
    | default _ _ hno => exact absurd h (hno _)
  | default hpath hjson hno =>
    cases h' with
    | envPath h' => exact absurd h' (hpath _)
    | envInline _ h' => exact absurd h' (hjson _)
    | file _ _ h' => exact absurd h' (hno _)
    | default => rfl

end Chosen

theorem exists_chosen (look : String → Option String) (fs : Files) (root : String) :
    ∃ source, Chosen look fs root source := by
  by_cases hpath : ∃ path, Sets look "MEDIAQ_CONFIG_PATH" path
  · obtain ⟨path, h⟩ := hpath
    exact ⟨_, .envPath h⟩
  · have hpath := not_exists.1 hpath
    by_cases hjson : ∃ text, Sets look "MEDIAQ_CONFIG_JSON" text
    · obtain ⟨text, h⟩ := hjson
      exact ⟨_, .envInline hpath h⟩
    · have hjson := not_exists.1 hjson
      by_cases hfile : ∃ path, First (LiesUnder fs root)
          ["mediaq.toml", "mediaq.json", "config/mediaq.toml", "config/mediaq.json"] path
      · obtain ⟨path, h⟩ := hfile
        exact ⟨_, .file hpath hjson h⟩
      · exact ⟨_, .default hpath hjson (not_exists.1 hfile)⟩

/-! ## What the source comes to -/

/-- A file that holds the bytes of a text is read as that text. -/
theorem Files.readText_of_find {fs : Files} {path : Bytes} {n : Nat} {text : String}
    (hfind : fs.find path = .ok (.file n)) (h : fs.content n = .bytes text.toUTF8) :
    fs.readText path = .ok text := by
  have hvalid : String.fromUTF8? text.toUTF8 = some text := dif_pos text.isValidUTF8
  simp only [readText, read, hfind, h, hvalid]

namespace ConfigLoader

/-- What the loader makes of a source. -/
def content (look : String → Option String) (fs : Files) : ConfigSource → Except ConfigFault FileConfig
  | .envPath path | .file path => loadFile fs path
  | .envInline => parseJson ((look "MEDIAQ_CONFIG_JSON").getD "") "MEDIAQ_CONFIG_JSON"
  | .default => .ok {}

theorem value?_eq_none {look : String → Option String} {name : String}
    (h : ∀ value, ¬ Sets look name value) : Environment.value? look name = none :=
  Option.eq_none_iff_forall_ne_some.2 fun value hv => h value (value?_eq_some.1 hv)

/-- **No other source is ever read.** -/
theorem resolveFile_of_chosen {l : ConfigLoader} {look : String → Option String} {fs : Files}
    {source : ConfigSource} (h : Chosen look fs l.searchRoot source) :
    l.resolveFile (.ofLookup look) fs = (content look fs source).map (·, source) := by
  unfold resolveFile
  simp only [Environment.ofLookup]
  cases h with
  | envPath h => rw [value?_eq_some.2 h]; rfl
  | envInline hpath h =>
    rw [value?_eq_none hpath, value?_eq_some.2 h]
    simp only [content, h.1, Option.getD_some]
  | file hpath hjson h =>
    rw [value?_eq_none hpath, value?_eq_none hjson]
    simp only [defaultFiles, first_liesUnder.1 h]
    rfl
  | default hpath hjson h =>
    have hnone := Option.eq_none_iff_forall_ne_some.2 fun path hp => h path (first_liesUnder.2 hp)
    rw [value?_eq_none hpath, value?_eq_none hjson]
    simp only [defaultFiles, hnone]
    rfl

theorem parseJson_eq_ok_iff {text origin : String} {c : FileConfig} :
    parseJson text origin = .ok c ↔ ∃ d, Understood (some "json") text d c := by
  have hjson : parseJson text origin = .ok c ↔ FileConfig.ofJson text = .ok c := by
    rw [parseJson]
    cases FileConfig.ofJson text <;> simp
  rw [hjson, FileConfig.ofJson_eq_ok_iff]
  constructor
  · rintro ⟨t, hof, hc⟩
    exact ⟨_, .json (by decide) (fun h => absurd rfl h) hof hc⟩
  · rintro ⟨_, ⟨hext, -, -⟩ | ⟨-, -, hof, hc⟩⟩
    · exact absurd rfl hext
    · exact ⟨_, hof, hc⟩

theorem parseToml_eq_ok_iff {text origin : String} {c : FileConfig} {extension : Option String}
    (hext : extension = some "toml" ∨ extension = some "tml") :
    parseToml text origin = .ok c ↔ ∃ d, Understood extension text d c := by
  have htoml : parseToml text origin = .ok c ↔ FileConfig.ofToml? text = some c := by
    rw [parseToml]
    cases FileConfig.ofToml? text <;> simp
  rw [htoml, FileConfig.ofToml?_eq_some_iff]
  constructor
  · rintro ⟨v, hof, hc⟩
    exact ⟨_, .toml (by rcases hext with rfl | rfl <;> decide) hof hc⟩
  · rintro ⟨_, ⟨-, hof, hc⟩ | ⟨hother, -, -, -⟩⟩
    · exact ⟨_, hof, hc⟩
    · exact (hext.elim hother.1 hother.2).elim

theorem parseEither_eq_ok_iff {text origin : String} {c : FileConfig} {extension : Option String}
    (hjson : extension ≠ some "json") (htoml : extension ≠ some "toml") (html : extension ≠ some "tml") :
    parseEither text origin = .ok c ↔ ∃ d, Understood extension text d c := by
  have heither : parseEither text origin = .ok c ↔ FileConfig.ofToml? text = some c ∨
      FileConfig.ofToml? text = none ∧ FileConfig.ofJson text = .ok c := by
    rw [parseEither]
    cases FileConfig.ofToml? text <;> cases FileConfig.ofJson text <;> simp
  have hnone : FileConfig.ofToml? text = none ↔
      ∀ v c, ConfigDocument.Of text (.toml v) → ¬ FileConfig.ReadFrom (.toml v) c := by
    simp only [Option.eq_none_iff_forall_ne_some, ne_eq, FileConfig.ofToml?_eq_some_iff, not_exists,
      not_and]
    exact forall_comm
  rw [heither, FileConfig.ofToml?_eq_some_iff, FileConfig.ofJson_eq_ok_iff, hnone]
  constructor
  · rintro (⟨v, hof, hc⟩ | ⟨hno, t, hof, hc⟩)
    · exact ⟨_, .toml hjson hof hc⟩
    · exact ⟨_, .json ⟨htoml, html⟩ (fun _ => hno) hof hc⟩
  · rintro ⟨_, ⟨-, hof, hc⟩ | ⟨-, hno, hof, hc⟩⟩
    · exact .inl ⟨_, hof, hc⟩
    · exact .inr ⟨hno hjson, _, hof, hc⟩

/-- A file is read by the extension of its name. -/
theorem loadFile_eq_ok_iff {fs : Files} {path : String} {c : FileConfig} :
    loadFile fs path = .ok c ↔ ∃ text, fs.readText (Bytes.ofText path) = .ok text ∧
      ∃ d, Understood (extensionText path) text d c := by
  unfold loadFile
  cases htext : fs.readText (Bytes.ofText path) with
  | error e => simp
  | ok text =>
    simp only [Except.ok.injEq, exists_eq_left']
    split
    · rename_i hext
      have hext : extensionText path = some "json" := hext
      rw [hext, parseJson_eq_ok_iff]
    · rename_i hext
      exact parseToml_eq_ok_iff (.inl hext)
    · rename_i hext
      exact parseToml_eq_ok_iff (.inr hext)
    · rename_i hjson htoml html
      exact parseEither_eq_ok_iff hjson htoml html

/-- A source comes to its file layer. -/
theorem content_eq_ok_iff {look : String → Option String} {fs : Files} {root : String}
    {source : ConfigSource} (h : Chosen look fs root source) {c : FileConfig} :
    content look fs source = .ok c ↔ FileLayer look fs source c := by
  have hfile : ∀ {path}, source.path? = some path → (loadFile fs path = .ok c ↔
      FileLayer look fs source c) := by
    intro path hpath
    rw [loadFile_eq_ok_iff]
    constructor
    · rintro ⟨text, htext, d, hd⟩
      exact .document (.file hpath htext hd)
    · rintro (⟨⟨hpath', htext, hd⟩ | ⟨-, -⟩⟩ | -)
      · obtain rfl := Option.some.inj (hpath.symm.trans hpath')
        exact ⟨_, htext, _, hd⟩
      · cases hpath
      · cases hpath
  cases h with
  | envPath | file => exact hfile rfl
  | envInline _ htext =>
    rw [content, htext.1, Option.getD_some, parseJson_eq_ok_iff]
    constructor
    · rintro ⟨d, hd⟩
      exact .document (.envInline htext hd)
    · rintro ⟨⟨hpath, -, -⟩ | ⟨htext', hd⟩⟩
      · cases hpath
      · rw [htext.unique htext']
        exact ⟨_, hd⟩
  | default =>
    constructor
    · intro hc
      obtain rfl := Except.ok.inj hc
      exact .default
    · rintro (⟨⟨hpath, -, -⟩⟩ | -)
      · cases hpath
      · rfl

theorem origin?_of_parse {text origin : String} {e : ConfigFault}
    (h : parseJson text origin = .error e ∨ parseToml text origin = .error e ∨
      parseEither text origin = .error e) : e.origin? = some origin := by
  rcases h with h | h | h
  · rw [parseJson] at h
    split at h <;> cases h
    rfl
  · rw [parseToml] at h
    split at h <;> cases h
    rfl
  · rw [parseEither] at h
    split at h
    · cases h
    · split at h <;> cases h
      rfl

theorem origin?_of_loadFile {fs : Files} {path : String} {e : ConfigFault}
    (h : loadFile fs path = .error e) : e.origin? = some path := by
  unfold loadFile at h
  split at h
  · cases h
    rfl
  · split at h
    · exact origin?_of_parse (.inl h)
    · exact origin?_of_parse (.inr (.inl h))
    · exact origin?_of_parse (.inr (.inl h))
    · exact origin?_of_parse (.inr (.inr h))

/-- A fault is told of the source it comes from. -/
theorem origin?_of_content {look : String → Option String} {fs : Files} {source : ConfigSource}
    {e : ConfigFault} (h : content look fs source = .error e) :
    ∃ origin, source.origin? = some origin ∧ e.origin? = some origin := by
  cases source with
  | default => cases h
  | envPath path | file path => exact ⟨path, rfl, origin?_of_loadFile h⟩
  | envInline => exact ⟨_, rfl, origin?_of_parse (.inl h)⟩

theorem content_of_unreadable {look : String → Option String} {fs : Files} {source : ConfigSource}
    {path : String} (hpath : source.path? = some path) {e : FileFault}
    (h : fs.readText (Bytes.ofText path) = .error e) : content look fs source = .error (.io path e) := by
  have hload : loadFile fs path = .error (.io path e) := by rw [loadFile, h]
  cases source with
  | envPath | file =>
    obtain rfl := Option.some.inj hpath
    exact hload
  | envInline | default => cases hpath

end ConfigLoader

end LaneQueue
