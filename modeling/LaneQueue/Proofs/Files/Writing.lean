import LaneQueue.Proofs.Files.Folders
/-!
# What writing, moving and making directories leave alone

Each change of the files is a change of the entry at one place (`Files.entry?_put`) or of what one file
holds (`Files.content_setContent`), under whatever names; directories are only made where nothing was
(`Files.Grows`). Where a path leads depends on the directories and the links alone
(`Files.walk_of_alike`), so a file that is written or taken away moves no path to another place.
-/
namespace LaneQueue

namespace Files

variable {fs fs' fs'' : Files}

/-! ## The entry at a place -/

theorem lookup_filter_ne {α β : Type} [BEq α] [LawfulBEq α] [DecidableEq α] (xs : List (α × β)) (removed a : α) :
    (xs.filter fun x => x.1 != removed).lookup a = if a = removed then none else xs.lookup a := by
  induction xs with
  | nil => simp
  | cons x xs ih =>
    obtain ⟨key, b⟩ := x
    rw [List.lookup_cons]
    by_cases hkey : key = removed
    · rw [List.filter_cons_of_neg (by simp [hkey]), ih]
      by_cases ha : a = removed
      · simp [ha]
      · have hbeq : (a == key) = false := by simpa [hkey] using ha
        simp [ha, hbeq]
    · rw [List.filter_cons_of_pos (by simpa using hkey), List.lookup_cons, ih]
      by_cases ha : a = key
      · simp [ha, hkey]
      · have hbeq : (a == key) = false := by simpa using ha
        simp [hbeq]

@[simp] theorem entry?_nil : fs.entry? [] = some .directory := rfl

theorem entry?_of_ne {place : Place} (h : place ≠ []) : fs.entry? place = fs.entries.lookup place := by
  simp [ entry?, h]

theorem isDirectory_iff {place : Place} :
    fs.isDirectory place = true ↔ fs.entry? place = some .directory := by
  unfold isDirectory
  split <;> simp_all

/-- Taking the entry at a place away changes nothing else. -/
theorem entry?_remove {removed : Place} (h : removed ≠ []) (place : Place) :
    entry? { fs with entries := fs.entries.filter fun x => x.1 != removed } place =
      if place = removed then none else fs.entry? place := by
  rcases eq_or_ne place [] with rfl | hplace
  · simp [Ne.symm h]
  · rw [entry?_of_ne hplace, entry?_of_ne hplace, lookup_filter_ne]

/-- Putting an entry at a place changes what is there and nothing else. -/
theorem entry?_put {place : Place} (h : place ≠ []) (e : Entry) (other : Place) :
    entry? (fs.put place e) other = if other = place then some e else fs.entry? other := by
  rcases eq_or_ne other [] with rfl | hother
  · simp [Ne.symm h]
  · rw [entry?_of_ne hother, entry?_of_ne hother, put, List.lookup_append, lookup_filter_ne]
    by_cases heq : other = place
    · simp [heq]
    · have hbeq : (other == place) = false := by simpa using heq
      simp [heq, hbeq, List.lookup_cons]

/-! ## What a file holds -/

@[simp] theorem entry?_setContent (n : Nat) (c : FileContent) (place : Place) :
    Files.entry? (fs.setContent n c) place = fs.entry? place := rfl

theorem content_setContent (n : Nat) (c : FileContent) (m : Nat) :
    (fs.setContent n c).content m = if m = n then c else fs.content m := by
  unfold content setContent
  rw [List.lookup_cons, lookup_filter_ne]
  by_cases h : m = n
  · simp [h]
  · have hbeq : (m == n) = false := by simpa using h
    simp only [hbeq, if_neg h]

/-- No file has a new number. -/
theorem lt_fresh {place : Place} {n : Nat} (h : fs.entry? place = some (.file n)) : n < fs.fresh := by
  have hplace : place ≠ [] := by
    rintro rfl
    cases h
  rw [entry?_of_ne hplace] at h
  unfold fresh
  generalize fs.entries = entries at h
  induction entries with
  | nil => cases h
  | cons x xs ih =>
    obtain ⟨key, e⟩ := x
    rw [List.lookup_cons] at h
    simp only [List.map_cons, List.foldr_cons]
    split at h
    · obtain rfl := Option.some.inj h
      simp only
      omega
    · exact Nat.lt_of_lt_of_le (ih h) (Nat.le_max_right _ _)

theorem content?_of_file {place : Place} {n : Nat} (h : fs.entry? place = some (.file n)) :
    fs.content? place = some (fs.content n) := by
  simp only [content?, h]

theorem areNamesOfOne_iff {a b : Place} : fs.areNamesOfOne a b = true ↔
    ∃ n, fs.entry? a = some (.file n) ∧ fs.entry? b = some (.file n) := by
  unfold areNamesOfOne
  split
  · rename_i m n hm hn
    simp only [beq_iff_eq, hm, hn, Option.some.injEq, Entry.file.injEq]
    exact ⟨fun h => ⟨m, rfl, h.symm⟩, fun ⟨k, h, h'⟩ => h.trans h'.symm⟩
  · rename_i hno
    simp only [Bool.false_eq_true, false_iff, not_exists, not_and]
    exact fun n ha hb => hno n n ha hb

/-! ## Making directories -/

/-- There may be new directories; whatever was there stays, and the files hold what they held. -/
structure Grows (fs fs' : Files) : Prop where
  kept : ∀ place e, fs.entry? place = some e → fs'.entry? place = some e
  added : ∀ place e, fs'.entry? place = some e → fs.entry? place = some e ∨ e = .directory
  content : ∀ n, fs'.content n = fs.content n
  workingDirectory : fs'.workingDirectory = fs.workingDirectory

@[refl] theorem Grows.refl (fs : Files) : fs.Grows fs :=
  ⟨fun _ _ h => h, fun _ _ h => .inl h, fun _ => rfl, rfl⟩

@[trans] theorem Grows.trans (h : fs.Grows fs') (h' : fs'.Grows fs'') : fs.Grows fs'' where
  kept place e he := h'.kept place e (h.kept place e he)
  added place e he := by
    rcases h'.added place e he with hmid | hdir
    · exact h.added place e hmid
    · exact .inr hdir
  content n := (h'.content n).trans (h.content n)
  workingDirectory := h'.workingDirectory.trans h.workingDirectory

/-- All but directories is as it was. -/
theorem Grows.entry?_iff (h : fs.Grows fs') {place : Place} {e : Entry} (he : e ≠ .directory) :
    fs'.entry? place = some e ↔ fs.entry? place = some e := by
  constructor
  · intro hafter
    rcases h.added _ _ hafter with hbefore | hdir
    · exact hbefore
    · exact absurd hdir he
  · exact h.kept _ _

theorem Grows.link_iff (h : fs.Grows fs') {place : Place} {target : Bytes} :
    fs'.entry? place = some (.link target) ↔ fs.entry? place = some (.link target) :=
  h.entry?_iff nofun

theorem Grows.file_iff (h : fs.Grows fs') {place : Place} {n : Nat} :
    fs'.entry? place = some (.file n) ↔ fs.entry? place = some (.file n) :=
  h.entry?_iff nofun

theorem grows_put_directory {place : Place} (h : fs.entry? place = none) :
    fs.Grows (fs.put place .directory) := by
  have hne : place ≠ [] := by
    rintro rfl
    cases h
  refine ⟨fun other e he => ?_, fun other e he => ?_, fun _ => rfl, rfl⟩
  · have hother : other ≠ place := by
      rintro rfl
      simp [h] at he
    rw [entry?_put hne, if_neg hother, he]
  · rw [entry?_put hne] at he
    split at he
    · exact .inr (Option.some.inj he).symm
    · exact .inl he

theorem createDirectory_grows {path : Bytes} (h : fs.createDirectory path = .ok fs') : fs.Grows fs' := by
  unfold createDirectory at h
  cases hr : fs.resolve path false with
  | error e =>
    rw [hr] at h
    cases h
  | ok place =>
    simp only [hr] at h
    split at h
    · cases h
    · obtain rfl := Except.ok.inj h
      exact grows_put_directory (by simpa using ‹¬ (fs.entry? place).isSome = true›)

theorem attempt_grows (dir : Bytes) (fs : Files) : fs.Grows (createDirectories.attempt dir fs).2 := by
  unfold createDirectories.attempt
  split
  · exact createDirectory_grows ‹_›
  · exact .refl fs

theorem createDirectories_go_grows (absolute : Bool) (names : List Bytes) (fs : Files) :
    fs.Grows (createDirectories.go absolute names fs).2 := by
  induction names generalizing fs with
  | nil => exact .refl fs
  | cons name above ih =>
    have hfirst := attempt_grows (Path.ofComponents absolute (name :: above).reverse) fs
    unfold createDirectories.go
    simp only
    split
    · rename_i fs₁ heq
      rw [heq] at hfirst
      have habove := ih fs₁
      split
      · rename_i fs₂ hgo
        rw [hgo] at habove
        exact (hfirst.trans habove).trans (attempt_grows _ fs₂)
      · exact hfirst.trans habove
    · exact hfirst

theorem createDirectories_grows (fs : Files) (path : Bytes) :
    fs.Grows (fs.createDirectories path).2 :=
  createDirectories_go_grows _ _ fs

/-! ## Where a path leads -/

/-- The same directories and the same links, and the same place where relative paths start. -/
structure Alike (fs fs' : Files) : Prop where
  directory : ∀ place, fs.entry? place = some .directory ↔ fs'.entry? place = some .directory
  link : ∀ place target, fs.entry? place = some (.link target) ↔ fs'.entry? place = some (.link target)
  workingDirectory : fs'.workingDirectory = fs.workingDirectory

theorem Alike.symm (h : fs.Alike fs') : fs'.Alike fs :=
  ⟨fun place => (h.directory place).symm, fun place target => (h.link place target).symm,
    h.workingDirectory.symm⟩

/-- Neither a directory nor a link. -/
def IsLeaf (fs : Files) (place : Place) : Prop :=
  fs.entry? place ≠ some .directory ∧ ∀ target, fs.entry? place ≠ some (.link target)

/-- Files whose entries differ only where neither has a directory or a link. -/
theorem alike_of_leaves (hcwd : fs'.workingDirectory = fs.workingDirectory)
    (h : ∀ place, fs'.entry? place = fs.entry? place ∨ fs.IsLeaf place ∧ fs'.IsLeaf place) :
    fs.Alike fs' where
  directory place := by
    rcases h place with heq | ⟨hbefore, hafter⟩
    · rw [heq]
    · exact iff_of_false hbefore.1 hafter.1
  link place target := by
    rcases h place with heq | ⟨hbefore, hafter⟩
    · rw [heq]
    · exact iff_of_false (hbefore.2 target) (hafter.2 target)
  workingDirectory := hcwd

section Walk

variable {follow : Bool} {links : Nat} {here place : Place} {ps : List Bytes}

/-- **Where a path leads depends on the directories and the links alone.** -/
theorem walk_of_alike (h : fs.Alike fs') (hwalk : fs.walk follow links here ps = .ok place) :
    fs'.walk follow links here ps = .ok place := by
  fun_induction Files.walk fs follow links here ps with
  | case1 => simpa [walk] using hwalk
  | case3 links here rest hdir ih =>
    rw [walk, (h.directory here).1 hdir]
    simpa using ih hwalk
  | case4 links here rest hdir hdot ih =>
    rw [walk, (h.directory here).1 hdir]
    simpa [hdot] using ih hwalk
  | case6 links here p rest hdir hdot hdots hlength target htarget hlast =>
    rw [walk, (h.directory here).1 hdir]
    simp only [hdot, hdots, hlength, (h.link _ _).1 htarget, hlast, if_true, if_false]
    exact hwalk
  | case8 here p rest hdir hdot hdots hlength target htarget hlast links ih =>
    rw [walk, (h.directory here).1 hdir]
    simp only [hdot, hdots, hlength, (h.link _ _).1 htarget, hlast, if_false]
    exact ih hwalk
  | case9 links here p rest hdir hdot hdots hlength hno ih =>
    rw [walk, (h.directory here).1 hdir]
    simp only [hdot, hdots, hlength, if_false]
    cases hentry : fs'.entry? (here ++ [p]) with
    | none => exact ih hwalk
    | some e =>
      cases e with
      | link target => exact absurd ((h.link _ _).2 hentry) (hno target)
      | file | directory => exact ih hwalk
  | case2 | case5 | case7 | case10 => cases hwalk

/-- A walk that ends at no link is the same when links at the end are followed. -/
theorem walk_follow (hwalk : fs.walk false links here ps = .ok place)
    (hlink : ∀ target, fs.entry? place ≠ some (.link target)) :
    fs.walk true links here ps = .ok place := by
  fun_induction Files.walk fs false links here ps with
  | case1 => simpa [walk] using hwalk
  | case3 links here rest hdir ih =>
    rw [walk, hdir]
    simpa using ih hwalk
  | case4 links here rest hdir hdot ih =>
    rw [walk, hdir]
    simpa [hdot] using ih hwalk
  | case6 links here p rest hdir hdot hdots hlength target htarget hlast =>
    obtain rfl := Except.ok.inj hwalk
    exact absurd htarget (hlink target)
  | case8 here p rest hdir hdot hdots hlength target htarget hlast links ih =>
    rw [walk, hdir]
    simp only [hdot, hdots, hlength, htarget, if_false, Bool.not_true, Bool.and_false,
      Bool.false_eq_true]
    exact ih hwalk
  | case9 links here p rest hdir hdot hdots hlength hno ih =>
    rw [walk, hdir]
    simp only [hdot, hdots, hlength, if_false]
    cases hentry : fs.entry? (here ++ [p]) with
    | none => exact ih hwalk
    | some e =>
      cases e with
      | link target => exact absurd hentry (hno target)
      | file | directory => exact ih hwalk
  | case2 | case5 | case7 | case10 => cases hwalk

/-- No link lies on the way down to a place, itself included. -/
def Direct (fs : Files) (place : Place) : Prop :=
  ∀ above, above <+: place → ∀ target, fs.entry? above ≠ some (.link target)

theorem direct_nil : fs.Direct [] := by
  intro above habove target
  rw [List.prefix_nil.1 habove]
  nofun

theorem Direct.of_prefix (h : fs.Direct place) {above : Place} (habove : above <+: place) :
    fs.Direct above :=
  fun place' hplace' => h place' (hplace'.trans habove)

theorem Direct.snoc (h : fs.Direct here) {p : Bytes}
    (hp : ∀ target, fs.entry? (here ++ [p]) ≠ some (.link target)) : fs.Direct (here ++ [p]) := by
  intro above habove
  rcases List.prefix_concat_iff.1 habove with rfl | hpre
  · exact hp
  · exact h above hpre

/-- Following links to the end leads to no link. -/
theorem Direct.walk (h : fs.Direct here) (hwalk : fs.walk true links here ps = .ok place) :
    fs.Direct place := by
  fun_induction Files.walk fs true links here ps with
  | case1 =>
    obtain rfl := Except.ok.inj hwalk
    exact h
  | case3 links here rest hdir ih => exact ih h hwalk
  | case4 links here rest hdir hdot ih => exact ih (h.of_prefix (List.dropLast_prefix here)) hwalk
  | case8 here p rest hdir hdot hdots hlength target htarget hlast links ih =>
    refine ih ?_ hwalk
    split
    · exact direct_nil
    · exact h
  | case9 links here p rest hdir hdot hdots hlength hno ih => exact ih (h.snoc hno) hwalk
  | case6 => simp at *
  | case2 | case5 | case7 | case10 => cases hwalk

end Walk

section Resolve

variable {path : Bytes} {follow : Bool} {place : Place}

/-- A path that does not end in a slash leads where its parts lead. -/
theorem resolve_eq_ok (hslash : path.getLast? ≠ some Path.slash) :
    fs.resolve path follow = .ok place ↔ (0 ∉ path ∧ path ≠ [] ∧ path.length < 4096) ∧
      fs.walk follow 40 (fs.start path) (Path.parts path) = .ok place := by
  have hslashed : (path.getLast? == some Path.slash) = false := by simpa using hslash
  unfold resolve
  by_cases hzero : 0 ∈ path
  · simp [hzero]
  by_cases hempty : path = []
  · simp [hempty]
  by_cases hlong : 4096 ≤ path.length
  · have hnot : ¬ path.length < 4096 := by omega
    simp [hzero, hempty, hlong, hnot]
  · have hshort : path.length < 4096 := by omega
    simp only [List.contains_eq_mem, hzero, hempty, hlong, hslashed, decide_false, Bool.or_false,
      Bool.false_and, Bool.false_eq_true, if_false, List.isEmpty_iff, not_false_eq_true, ne_eq, hshort,
      and_self, true_and]
    rw [start]
    generalize fs.walk follow 40 _ (Path.parts path) = answer
    cases answer <;> simp

theorem resolve_of_alike (h : fs.Alike fs') (hslash : path.getLast? ≠ some Path.slash)
    (hr : fs.resolve path follow = .ok place) : fs'.resolve path follow = .ok place := by
  obtain ⟨hpath, hwalk⟩ := (resolve_eq_ok hslash).1 hr
  refine (resolve_eq_ok hslash).2 ⟨hpath, ?_⟩
  rw [start, h.workingDirectory]
  exact walk_of_alike h hwalk

theorem resolve_follow (hslash : path.getLast? ≠ some Path.slash)
    (hr : fs.resolve path false = .ok place)
    (hlink : ∀ target, fs.entry? place ≠ some (.link target)) : fs.resolve path true = .ok place := by
  obtain ⟨hpath, hwalk⟩ := (resolve_eq_ok hslash).1 hr
  exact (resolve_eq_ok hslash).2 ⟨hpath, walk_follow hwalk hlink⟩

/-- Following a path to its end leads to no link. -/
theorem Direct.resolve (h : fs.Direct fs.workingDirectory) (hslash : path.getLast? ≠ some Path.slash)
    (hr : fs.resolve path true = .ok place) : fs.Direct place := by
  have hstart : fs.Direct (fs.start path) := by
    unfold start
    split
    · exact direct_nil
    · exact h
  exact hstart.walk ((resolve_eq_ok hslash).1 hr).2

end Resolve

/-! ## Writing and moving -/

/-- The file at a place has been filled: it is the one that lay there, or a new one. -/
structure Filled (fs fs' : Files) (place : Place) (c : FileContent) (n : Nat) : Prop where
  leaf : fs.IsLeaf place
  file : fs.entry? place = some (.file n) ∨ fs.entry? place = none ∧ n = fs.fresh
  entries : ∀ other, fs'.entry? other = if other = place then some (.file n) else fs.entry? other
  content : ∀ m, fs'.content m = if m = n then c else fs.content m
  workingDirectory : fs'.workingDirectory = fs.workingDirectory

theorem filled_fill {place : Place} (h : fs.IsLeaf place) (c : FileContent) :
    ∃ n, fs.Filled (fs.fill place c) place c n := by
  have hne : place ≠ [] := by
    rintro rfl
    exact h.1 rfl
  unfold fill
  cases he : fs.entry? place with
  | none =>
    refine ⟨fs.fresh, h, .inr ⟨he, rfl⟩, fun other => ?_, fun m => ?_, rfl⟩
    · rw [entry?_setContent, entry?_put hne]
    · rw [content_setContent]
      rfl
  | some e =>
    cases e with
    | file n =>
      refine ⟨n, h, .inl he, fun other => ?_, fun m => content_setContent n c m, rfl⟩
      rw [entry?_setContent]
      split
      · rename_i heq
        rw [heq, he]
      · rfl
    | directory => exact absurd he h.1
    | link target => exact absurd he (h.2 target)

namespace Filled

variable {place : Place} {c : FileContent} {n : Nat}

theorem entry?_self (h : fs.Filled fs' place c n) : fs'.entry? place = some (.file n) := by
  rw [h.entries, if_pos rfl]

theorem content_self (h : fs.Filled fs' place c n) : fs'.content n = c := by
  rw [h.content, if_pos rfl]

/-- Whatever lay somewhere lies there. -/
theorem kept (h : fs.Filled fs' place c n) {other : Place} {e : Entry} (he : fs.entry? other = some e) :
    fs'.entry? other = some e := by
  rw [h.entries]
  split
  · rename_i heq
    rcases h.file with hfile | ⟨hnone, -⟩
    · rw [← hfile, ← heq, he]
    · rw [← heq, he] at hnone
      cases hnone
  · exact he

/-- Every other file holds what it held. -/
theorem unchanged (h : fs.Filled fs' place c n) {other : Place} {m : Nat}
    (hm : fs.entry? other = some (.file m)) (hno : fs.entry? place ≠ some (.file m)) :
    fs'.content m = fs.content m := by
  rw [h.content, if_neg]
  rintro rfl
  rcases h.file with hfile | ⟨-, hfresh⟩
  · exact hno hfile
  · have := lt_fresh hm
    omega

/-- No two places become names of one file. -/
theorem areNamesOfOne (h : fs.Filled fs' place c n) {a b : Place} (hne : a ≠ b) :
    fs'.areNamesOfOne a b = fs.areNamesOfOne a b := by
  -- where the file is new, its number is that of no other place
  have hback : ∀ {x y : Place} {m : Nat}, x ≠ y → fs'.entry? x = some (.file m) →
      fs'.entry? y = some (.file m) → fs.entry? x = some (.file m) := by
    intro x y m hxy hx hy
    rw [h.entries] at hx hy
    split at hx
    · rename_i heq
      obtain rfl := Entry.file.inj (Option.some.inj hx)
      rw [if_neg fun hy' => hxy (heq.trans hy'.symm)] at hy
      rcases h.file with hfile | ⟨-, hfresh⟩
      · exact heq ▸ hfile
      · have := lt_fresh hy
        omega
    · exact hx
  rw [Bool.eq_iff_iff, areNamesOfOne_iff, areNamesOfOne_iff]
  constructor
  · rintro ⟨m, ha, hb⟩
    exact ⟨m, hback hne ha hb, hback hne.symm hb ha⟩
  · rintro ⟨m, ha, hb⟩
    exact ⟨m, h.kept ha, h.kept hb⟩

/-- It leads no path elsewhere. -/
theorem alike (h : fs.Filled fs' place c n) : fs.Alike fs' := by
  refine alike_of_leaves h.workingDirectory fun other => ?_
  by_cases hother : other = place
  · subst hother
    exact .inr ⟨h.leaf, by simp [IsLeaf, h.entry?_self]⟩
  · left
    rw [h.entries, if_neg hother]

end Filled

/-- What it takes to write a file, and what it does. -/
theorem write_eq_ok {path : Bytes} {bytes : ByteArray} (h : fs.write path bytes = .ok fs') :
    path.getLast? ≠ some Path.slash ∧ ∃ place, fs.resolve path true = .ok place ∧
      fs.entry? place ≠ some .directory ∧ fs' = fs.fill place (.bytes bytes) := by
  unfold write at h
  cases hr : fs.resolve path true with
  | error e =>
    rw [hr] at h
    cases h
  | ok place =>
    simp only [hr] at h
    split at h
    · cases h
    · split at h
      · cases h
      · rename_i hslash hdir
        rw [isDirectory_iff] at hdir
        exact ⟨by simpa using hslash, place, rfl, hdir, (Except.ok.inj h).symm⟩

/-- An entry has been moved from one place to another, unless both were names of one file. -/
structure Moved (fs fs' : Files) (a b : Place) (e : Entry) : Prop where
  source : fs.entry? a = some e
  target : fs.entry? b ≠ some .directory
  content : ∀ n, fs'.content n = fs.content n
  workingDirectory : fs'.workingDirectory = fs.workingDirectory
  both : fs.areNamesOfOne a b = true → ∀ place, fs'.entry? place = fs.entry? place
  entries : fs.areNamesOfOne a b = false → a ≠ [] → ∀ place, fs'.entry? place =
    if place = b then some e else if place = a then none else fs.entry? place

namespace Moved

variable {a b : Place} {e : Entry}

/-- It lies at the other place then, in either case. -/
theorem entry?_target (h : fs.Moved fs' a b e) (hroot : a ≠ []) : fs'.entry? b = some e := by
  cases hone : fs.areNamesOfOne a b with
  | true =>
    obtain ⟨n, ha, hb⟩ := areNamesOfOne_iff.1 hone
    rw [h.both hone, hb, ← ha, h.source]
  | false => rw [h.entries hone hroot, if_pos rfl]

theorem entry?_source (h : fs.Moved fs' a b e) (hroot : a ≠ []) (hone : fs.areNamesOfOne a b = false)
    (hne : a ≠ b) : fs'.entry? a = none := by
  rw [h.entries hone hroot, if_neg hne, if_pos rfl]

theorem beside (h : fs.Moved fs' a b e) (hroot : a ≠ []) {place : Place} (ha : place ≠ a)
    (hb : place ≠ b) : fs'.entry? place = fs.entry? place := by
  cases hone : fs.areNamesOfOne a b with
  | true => exact h.both hone place
  | false => rw [h.entries hone hroot, if_neg hb, if_neg ha]

/-- A file that is moved over another leads no path elsewhere. -/
theorem alike {n : Nat} (h : fs.Moved fs' a b (.file n)) (hroot : a ≠ []) (hleaf : fs.IsLeaf b) :
    fs.Alike fs' := by
  have ha : fs.IsLeaf a := by simp [IsLeaf, h.source]
  refine alike_of_leaves h.workingDirectory fun place => ?_
  by_cases hb : place = b
  · subst hb
    exact .inr ⟨hleaf, by simp [IsLeaf, h.entry?_target hroot]⟩
  by_cases hplace : place = a
  · subst hplace
    cases hone : fs.areNamesOfOne place b with
    | true => exact .inl (h.both hone place)
    | false => exact .inr ⟨ha, by simp [IsLeaf, h.entry?_source hroot hone hb]⟩
  · exact .inl (h.beside hroot hplace hb)

end Moved

/-- What it takes to move an entry, and what it does. -/
theorem rename_eq_ok {source target : Bytes} (h : fs.rename source target = .ok fs') :
    target.getLast? ≠ some Path.slash ∧ ∃ a b e, fs.resolve source false = .ok a ∧
      fs.resolve target false = .ok b ∧ fs.Moved fs' a b e := by
  unfold rename at h
  cases ha : fs.resolve source false with
  | error e => simp [ha] at h
  | ok a =>
    cases hb : fs.resolve target false with
    | error e => simp [ha, hb] at h
    | ok b =>
      simp only [ha, hb] at h
      split at h
      · cases h
      cases he : fs.entry? a with
      | none => simp [he] at h
      | some e =>
        simp only [he] at h
        split at h
        · cases h
        split at h
        · cases h
        rename_i hslash hdir
        rw [isDirectory_iff] at hdir
        have hroot : b ≠ [] := by
          rintro rfl
          exact hdir rfl
        refine ⟨by simpa using hslash, a, b, e, rfl, rfl, ?_⟩
        split at h
        · rename_i hsame
          obtain rfl := Except.ok.inj h
          refine ⟨he, hdir, fun _ => rfl, rfl, fun _ _ => rfl, fun hno _ place => ?_⟩
          have heq : a = b := by simpa [hno] using hsame
          by_cases hplace : place = b <;> simp [hplace, heq, ← he]
        · rename_i hother
          simp only [Bool.or_eq_true, decide_eq_true_eq, not_or, Bool.not_eq_true] at hother
          obtain rfl := Except.ok.inj h
          refine ⟨he, hdir, fun _ => rfl, rfl, fun hone => ?_, fun _ hne place => ?_⟩
          · rw [hother.2] at hone
            cases hone
          · rw [entry?_put hroot, entry?_remove hne]

end Files

end LaneQueue
