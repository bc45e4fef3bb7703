import Mathlib.Data.List.Induction
import Mathlib.Data.List.Nodup
import LaneQueue.Files.Tree
/-!
# The folders below a folder

Where a path leads to a directory, the path with the names of real directories added leads to what lies
below it (`Files.list_below`): a name that an entry can have adds one part to a path, and going along one
more part of a path goes on where the parts before it have led (`Files.walk_snoc`).
-/
namespace LaneQueue

namespace Path

/-- A name that an entry of a directory can have. -/
structure IsName (n : Bytes) : Prop where
  ne_nil : n ≠ []
  no_slash : slash ∉ n
  no_nul : 0 ∉ n
  ne_dot : n ≠ [dot]
  ne_dots : n ≠ [dot, dot]
  length_le : n.length ≤ 255

variable {d n : Bytes}

theorem IsName.not_isAbsolute (h : IsName n) : isAbsolute n = false := by
  cases n with
  | nil => rfl
  | cons x xs =>
    have hx : slash ≠ x := fun he => h.no_slash (he ▸ List.mem_cons_self)
    simpa [isAbsolute] using hx.symm

/-- There is one slash before the name, which may be there already. -/
theorem join_cases (hn : IsName n) (hd : d ≠ []) :
    join d n = d ++ slash :: n ∨ ∃ e, d = e ++ [slash] ∧ join d n = e ++ slash :: n := by
  have hempty : d.isEmpty = false := by simpa using hd
  by_cases hlast : d.getLast? = some slash
  · obtain ⟨e, rfl⟩ := List.getLast?_eq_some_iff.1 hlast
    refine .inr ⟨e, rfl, ?_⟩
    simp [join, hn.not_isAbsolute]
  · exact .inl (by simp [join, hn.not_isAbsolute, hempty, hlast])

theorem parts_append_slash (a b : Bytes) : parts (a ++ slash :: b) = parts a ++ parts b := by
  simp [parts, List.splitOn_append_cons_self]

theorem parts_name (hn : IsName n) : parts n = [n] := by
  have hne : n.isEmpty = false := by simpa using hn.ne_nil
  simp [parts, List.splitOn_eq_singleton hn.no_slash, hne]

theorem parts_join (hn : IsName n) (hd : d ≠ []) : parts (join d n) = parts d ++ [n] := by
  rcases join_cases hn hd with h | ⟨e, rfl, h⟩
  · rw [h, parts_append_slash, parts_name hn]
  · rw [h, parts_append_slash, parts_append_slash, parts_name hn]
    simp [parts]

theorem join_ne_nil (hn : IsName n) (hd : d ≠ []) : join d n ≠ [] := by
  rcases join_cases hn hd with h | ⟨e, -, h⟩ <;> simp [h]

theorem isAbsolute_join (hn : IsName n) (hd : d ≠ []) : isAbsolute (join d n) = isAbsolute d := by
  have happend : ∀ (e : Bytes) (x : UInt8) (b : Bytes),
      isAbsolute (e ++ x :: b) = isAbsolute (e ++ [x]) := by
    intro e x b
    cases e <;> rfl
  rcases join_cases hn hd with h | ⟨e, rfl, h⟩
  · rw [h]
    cases d with
    | nil => exact absurd rfl hd
    | cons x xs => rfl
  · rw [h, happend]

theorem zero_mem_join (hn : IsName n) (hd : d ≠ []) : 0 ∈ join d n ↔ 0 ∈ d := by
  have hslash : (0 : UInt8) ≠ slash := by decide
  rcases join_cases hn hd with h | ⟨e, rfl, h⟩ <;> simp [h, hn.no_nul, hslash]

theorem getLast?_join (hn : IsName n) (hd : d ≠ []) : (join d n).getLast? ≠ some slash := by
  have hlast : n.getLast? ≠ some slash := fun h => hn.no_slash (List.mem_of_getLast? h)
  have hname : ∀ e : Bytes, (e ++ slash :: n).getLast? = n.getLast? := by
    intro e
    rw [List.append_cons, List.getLast?_append_of_ne_nil _ hn.ne_nil]
  rcases join_cases hn hd with h | ⟨e, -, h⟩ <;> rwa [h, hname]

/-- The path of what lies below a path under some names. -/
def below (root : Bytes) (names : Place) : Bytes := names.foldl join root

@[simp] theorem below_nil (root : Bytes) : below root [] = root := rfl

@[simp] theorem below_concat (root : Bytes) (names : Place) (n : Bytes) :
    below root (names ++ [n]) = join (below root names) n := by
  simp [below]

section Below

variable {root : Bytes} {names : Place}

/-- What each name leaves of a path, and what it adds. -/
theorem below_spec (hr : root ≠ []) (hn : ∀ n ∈ names, IsName n) :
    below root names ≠ [] ∧ parts (below root names) = parts root ++ names ∧
      isAbsolute (below root names) = isAbsolute root ∧ (0 ∈ below root names ↔ 0 ∈ root) ∧
      (names ≠ [] → (below root names).getLast? ≠ some slash) := by
  induction names using List.reverseRecOn with
  | nil => simp [hr]
  | append_singleton names n ih =>
    obtain ⟨hne, hparts, habsolute, hzero, -⟩ := ih fun m hm => hn m (by simp [hm])
    have hname : IsName n := hn n (by simp)
    rw [below_concat]
    refine ⟨join_ne_nil hname hne, ?_, ?_, ?_, fun _ => getLast?_join hname hne⟩
    · rw [parts_join hname hne, hparts, List.append_assoc]
    · rw [isAbsolute_join hname hne, habsolute]
    · rw [zero_mem_join hname hne, hzero]

/-- Different names lead to different paths. -/
theorem below_inj (hr : root ≠ []) {names' : Place} (hn : ∀ n ∈ names, IsName n)
    (hn' : ∀ n ∈ names', IsName n) (h : below root names = below root names') :
    names = names' := by
  have hparts := congrArg parts h
  rwa [(below_spec hr hn).2.1, (below_spec hr hn').2.1, List.append_cancel_left_eq] at hparts

end Below

end Path

namespace Files

open LaneQueue.Path (IsName below)

variable {fs : Files}

/-! ## Places -/

/-- As an operating system keeps its files: every place once, under names that entries can have. -/
structure WellFormed (fs : Files) : Prop where
  places : (fs.entries.map (·.1)).Nodup
  names : ∀ x ∈ fs.entries, ∀ n ∈ x.1, IsName n

theorem entry?_of_mem (hw : fs.WellFormed) {place : Place} {e : Entry} (h : (place, e) ∈ fs.entries)
    (hne : place ≠ []) : fs.entry? place = some e := by
  have hempty : place.isEmpty = false := by simpa using hne
  unfold entry?
  rw [hempty, if_neg Bool.false_ne_true, List.lookup_eq_some_iff]
  obtain ⟨before, after, hentries⟩ := List.append_of_mem h
  refine ⟨before, after, hentries, fun x hx => ?_⟩
  have hnodup := hw.places
  rw [hentries, List.map_append, List.map_cons] at hnodup
  have hdisjoint := (List.nodup_append.1 hnodup).2.2 x.1 (List.mem_map_of_mem hx) place
    List.mem_cons_self
  simpa using hdisjoint.symm

theorem child_eq_some {dir place : Place} {e : Entry} {a : Bytes × Entry} :
    (match place.getLast? with
      | some name => if place = dir ++ [name] then some (name, e) else none
      | none => none) = some a ↔ place = dir ++ [a.1] ∧ e = a.2 := by
  constructor
  · intro h
    split at h
    · split at h
      · cases h
        exact ⟨‹_›, rfl⟩
      · cases h
    · cases h
  · rintro ⟨rfl, rfl⟩
    simp

@[simp] theorem mem_children {dir : Place} {n : Bytes} {e : Entry} :
    (n, e) ∈ fs.children dir ↔ (dir ++ [n], e) ∈ fs.entries := by
  simp only [children, List.mem_filterMap]
  constructor
  · rintro ⟨⟨place, e'⟩, hmem, hsome⟩
    obtain ⟨hplace, he⟩ := child_eq_some.1 hsome
    simp only at hplace he
    rwa [hplace, he] at hmem
  · intro hmem
    exact ⟨_, hmem, child_eq_some.2 ⟨rfl, rfl⟩⟩

theorem nodup_children (hw : fs.WellFormed) (dir : Place) :
    ((fs.children dir).map (·.1)).Nodup := by
  have hplaces : fs.entries.Pairwise fun x y => x.1 ≠ y.1 := List.pairwise_map.1 hw.places
  apply List.pairwise_map.2
  apply hplaces.filterMap
  intro x y hne a ha b hb hab
  have hx := (child_eq_some.1 ha).1
  have hy := (child_eq_some.1 hb).1
  exact hne (hx.trans (hab ▸ hy.symm))

/-! ## The way down -/

/-- A path that goes on by one more name leads on from where it has led, unless there is a link. -/
theorem walk_snoc {links : Nat} {here place : Place} {ps : List Bytes} {n : Bytes} (hn : IsName n)
    (hplace : fs.entry? place = some .directory)
    (hlink : ∀ target, fs.entry? (place ++ [n]) ≠ some (.link target))
    (h : fs.walk true links here ps = .ok place) :
    fs.walk true links here (ps ++ [n]) = .ok (place ++ [n]) := by
  fun_induction Files.walk fs true links here ps with
  | case1 links here =>
    obtain rfl := Except.ok.inj h
    have hlength : ¬ 255 < n.length := by have := hn.length_le; omega
    rw [List.nil_append, walk, hplace]
    simp only [hn.ne_dot, hn.ne_dots, hlength, if_false]
    cases hentry : fs.entry? (here ++ [n]) with
    | none => simp [walk]
    | some e =>
      cases e with
      | link target => exact absurd hentry (hlink target)
      | file | directory => simp [walk]
  | case3 links here rest hdir ih =>
    rw [List.cons_append, walk, hdir]
    simpa using ih h
  | case4 links here rest hdir hdot ih =>
    rw [List.cons_append, walk, hdir]
    simpa [hdot] using ih h
  | case8 here p rest hdir hdot hdots hlength target htarget hlast links ih =>
    rw [List.cons_append, walk, hdir]
    simp only [hdot, hdots, hlength, htarget, if_false, Bool.not_true, Bool.and_false,
      Bool.false_eq_true]
    rw [← List.append_assoc]
    exact ih h
  | case9 links here p rest hdir hdot hdots hlength hno ih =>
    rw [List.cons_append, walk, hdir]
    simp only [hdot, hdots, hlength, if_false]
    cases hentry : fs.entry? (here ++ [p]) with
    | none => exact ih h
    | some e =>
      cases e with
      | link target => exact absurd hentry (hno target)
      | file | directory => exact ih h
  | case6 => simp at *
  | case2 | case5 | case7 | case10 => cases h

/-- What lies on the way down from a place along some names is directories. -/
def LeadsDown (fs : Files) (top : Place) (names : Place) : Prop :=
  ∀ m n, m ++ [n] <+: names → (top ++ (m ++ [n]), Entry.directory) ∈ fs.entries

section LeadsDown

variable {top names : Place} {root : Bytes}

theorem leadsDown_nil : fs.LeadsDown top [] := by
  intro m n h
  simp at h

theorem LeadsDown.snoc (h : fs.LeadsDown top names) {n : Bytes}
    (hn : (top ++ (names ++ [n]), Entry.directory) ∈ fs.entries) :
    fs.LeadsDown top (names ++ [n]) := by
  intro m k hk
  rcases List.prefix_concat_iff.1 hk with heq | hpre
  · rwa [heq]
  · exact h m k hpre

theorem LeadsDown.of_prefix (h : fs.LeadsDown top names) {m : Place} (hm : m <+: names) :
    fs.LeadsDown top m :=
  fun k n hk => h k n (hk.trans hm)

theorem LeadsDown.isName (hw : fs.WellFormed) (h : fs.LeadsDown top names) :
    ∀ n ∈ names, IsName n := by
  intro n hn
  obtain ⟨before, after, rfl⟩ := List.append_of_mem hn
  have hmem := h before n ⟨after, by simp⟩
  exact hw.names _ hmem n (by simp)

/-- Going down is going along the names. -/
theorem LeadsDown.walk (hw : fs.WellFormed) (h : fs.LeadsDown top names) {links : Nat} {here : Place}
    {ps : List Bytes} (hps : fs.walk true links here ps = .ok top)
    (htop : fs.entry? top = some .directory) :
    fs.walk true links here (ps ++ names) = .ok (top ++ names) ∧
      fs.entry? (top ++ names) = some .directory := by
  induction names using List.reverseRecOn with
  | nil => simpa using ⟨hps, htop⟩
  | append_singleton names n ih =>
    obtain ⟨hwalk, hdir⟩ := ih (h.of_prefix (List.prefix_append _ _))
    have hmem := h names n (List.prefix_refl _)
    have hentry := entry?_of_mem hw hmem (by simp)
    have hn : IsName n := hw.names _ hmem n (by simp)
    rw [← List.append_assoc] at hentry
    refine ⟨?_, by rwa [← List.append_assoc]⟩
    rw [← List.append_assoc, ← List.append_assoc]
    refine walk_snoc hn hdir (fun target => ?_) hwalk
    rw [hentry]
    nofun

/-- The directory where the walk along a path begins. -/
def start (fs : Files) (path : Bytes) : Place :=
  if Path.isAbsolute path then [] else fs.workingDirectory

theorem resolve_eq {path : Bytes} (hzero : 0 ∉ path) (hne : path ≠ []) :
    fs.resolve path true =
      if 4096 ≤ path.length then .error .nameTooLong
      else
        match fs.walk true 40 (fs.start path) (Path.parts path) with
        | .error e => .error e
        | .ok place =>
          if path.getLast? == some Path.slash && (fs.entry? place).isSome && !fs.isDirectory place then
            .error .notDirectory
          else .ok place := by
  have hzero : path.contains 0 = false := by simpa using hzero
  have hempty : path.isEmpty = false := by simpa using hne
  unfold resolve
  simp only [hzero, hempty, Bool.true_or, Bool.false_eq_true, if_false]
  rfl

theorem walk_of_resolve {path : Bytes} (h : fs.resolve path true = .ok top) :
    0 ∉ path ∧ path ≠ [] ∧ path.length < 4096 ∧
      fs.walk true 40 (fs.start path) (Path.parts path) = .ok top := by
  have hzero : 0 ∉ path := by
    intro hmem
    simp [resolve, hmem] at h
  have hne : path ≠ [] := by
    rintro rfl
    simp [resolve] at h
  rw [resolve_eq hzero hne] at h
  by_cases hlong : 4096 ≤ path.length
  · rw [if_pos hlong] at h
    cases h
  · rw [if_neg hlong] at h
    refine ⟨hzero, hne, by omega, ?_⟩
    cases hwalk : fs.walk true 40 (fs.start path) (Path.parts path) with
    | error e =>
      rw [hwalk] at h
      cases h
    | ok place =>
      simp only [hwalk] at h
      split at h
      · cases h
      · exact h

theorem list_of_resolve {path : Bytes} (h : fs.resolve path true = .ok top)
    (hdir : fs.entry? top = some .directory) :
    fs.list path = if top ∈ fs.unreadable then .error .denied else .ok (fs.children top) := by
  simp only [list, h, hdir]

theorem resolve_of_list {path : Bytes} {entries : List (Bytes × Entry)}
    (h : fs.list path = .ok entries) :
    ∃ top, fs.resolve path true = .ok top ∧ fs.entry? top = some .directory ∧
      top ∉ fs.unreadable := by
  unfold list at h
  cases hr : fs.resolve path true with
  | error e =>
    rw [hr] at h
    cases h
  | ok top =>
    simp only [hr] at h
    cases he : fs.entry? top with
    | none => simp [he] at h
    | some e =>
      cases e with
      | directory =>
        by_cases hu : top ∈ fs.unreadable
        · simp [he, hu] at h
        · exact ⟨top, rfl, he, hu⟩
      | file | link => simp [he] at h

/-- **What the directories below a listed directory list**: what lies in them, unless they are not to be
read or lie so deep that their paths are too long. -/
theorem list_below (hw : fs.WellFormed) (hroot : ∃ entries, fs.list root = .ok entries) :
    ∃ top, root ≠ [] ∧ fs.resolve root true = .ok top ∧
      ∀ names, fs.LeadsDown top names → fs.list (below root names) =
        if 4096 ≤ (below root names).length then .error .nameTooLong
        else if top ++ names ∈ fs.unreadable then .error .denied
        else .ok (fs.children (top ++ names)) := by
  obtain ⟨entries, hentries⟩ := hroot
  obtain ⟨top, hresolve, hdir, hreadable⟩ := resolve_of_list hentries
  obtain ⟨hzero, hne, hlength, hwalk⟩ := walk_of_resolve hresolve
  refine ⟨top, hne, hresolve, fun names hdown => ?_⟩
  by_cases hnil : names = []
  · subst hnil
    have hlong : ¬ 4096 ≤ root.length := by omega
    simp [list_of_resolve hresolve hdir, hlong]
  · obtain ⟨hbne, hparts, habsolute, hbzero, hlast⟩ := Path.below_spec hne (hdown.isName hw)
    obtain ⟨hbwalk, hbdir⟩ := hdown.walk hw hwalk hdir
    have hstart : fs.start (below root names) = fs.start root := by simp only [start, habsolute]
    have hslash : ((below root names).getLast? == some Path.slash) = false := by
      simpa using hlast hnil
    have hbelow : fs.resolve (below root names) true =
        if 4096 ≤ (below root names).length then .error .nameTooLong
        else .ok (top ++ names) := by
      rw [resolve_eq (mt hbzero.1 hzero) hbne, hstart, hparts, hbwalk]
      simp [hslash]
    by_cases hlong : 4096 ≤ (below root names).length
    · rw [if_pos hlong] at hbelow
      simp [list, hbelow, hlong]
    · rw [if_neg hlong] at hbelow
      rw [list_of_resolve hbelow hbdir, if_neg hlong]

end LeadsDown

end Files

end LaneQueue
