import LaneQueue.Media.ScanFolder
import LaneQueue.Proofs.Files.Folders
/-!
# What a scan finds

The walk keeps the directories that it has still to list. `Reaches` says which files it is to find below
one of them, and `Walking` is what holds of the directories that are listed and those that wait: they are
real directories below the folder, no two of them the same, and whatever lies above one has been listed.
So every directory is listed once, there are steps enough for all of them (`Walking.length_le`), and no
file is found twice (`regularFiles_spec`).
-/
namespace LaneQueue

namespace ScanFolder

open LaneQueue.Path (IsName below)

/-- The regular files in a directory and below it, going down through folders that can be listed. A link
is neither a file nor a folder. -/
inductive Reaches (list : Listing) : Bytes → Bytes → Prop
  | file {dir name : Bytes} {e : Entry} {entries : List (Bytes × Entry)} :
      list dir = .ok entries → (name, e) ∈ entries → isRegular e = true →
        Reaches list dir (Path.join dir name)
  | folder {dir name path : Bytes} {entries : List (Bytes × Entry)} :
      list dir = .ok entries → (name, Entry.directory) ∈ entries →
        Reaches list (Path.join dir name) path → Reaches list dir path

variable {fs : Files} {root : Bytes} {top : Place}

/-- A directory below the folder can be listed: its entries are to be read, and its path is not too
long. -/
def IsOpen (fs : Files) (root : Bytes) (top names : Place) : Prop :=
  top ++ names ∉ fs.unreadable ∧ (below root names).length < 4096

/-- Of the directories below a folder the open ones can be listed, and they list what lies in them. -/
def Lists (fs : Files) (root : Bytes) (top : Place) : Prop :=
  ∀ names, fs.LeadsDown top names → ∀ entries,
    fs.list (below root names) = .ok entries ↔
      IsOpen fs root top names ∧ entries = fs.children (top ++ names)

theorem lists_of_list (hw : fs.WellFormed) (hroot : ∃ entries, fs.list root = .ok entries) :
    ∃ top, root ≠ [] ∧ fs.resolve root true = .ok top ∧ Lists fs root top := by
  obtain ⟨top, hr, hresolve, hlist⟩ := Files.list_below hw hroot
  refine ⟨top, hr, hresolve, fun x hx entries => ?_⟩
  rw [hlist x hx]
  by_cases hlong : 4096 ≤ (below root x).length
  · have hno : ¬ (below root x).length < 4096 := by omega
    simp [IsOpen, hlong, hno]
  · have hshort : (below root x).length < 4096 := by omega
    by_cases hu : top ++ x ∈ fs.unreadable
    · simp [IsOpen, hlong, hu]
    · simp [IsOpen, hlong, hu, hshort, eq_comm]

/-! ## One directory -/

/-- The folders in a folder. -/
def foldersIn (fs : Files) (top x : Place) : List Place :=
  ((fs.children (top ++ x)).filter fun e => isFolder e.2).map fun e => x ++ [e.1]

theorem mem_foldersIn {x y : Place} :
    y ∈ foldersIn fs top x ↔ ∃ n, y = x ++ [n] ∧ (top ++ (x ++ [n]), Entry.directory) ∈ fs.entries := by
  simp only [foldersIn, List.mem_map, List.mem_filter]
  constructor
  · rintro ⟨⟨n, e⟩, ⟨hmem, hfolder⟩, rfl⟩
    cases e with
    | directory => exact ⟨n, rfl, by simpa [List.append_assoc] using hmem⟩
    | file | link => cases hfolder
  · rintro ⟨n, rfl, hmem⟩
    refine ⟨(n, .directory), ⟨?_, rfl⟩, rfl⟩
    rw [Files.mem_children, List.append_assoc]
    exact hmem

theorem nodup_foldersIn (hw : fs.WellFormed) (x : Place) : (foldersIn fs top x).Nodup := by
  have hnames := List.pairwise_map.1 (Files.nodup_children hw (top ++ x))
  apply List.pairwise_map.2
  refine (hnames.filter _).imp fun hne heq => hne ?_
  simpa using heq

theorem pathsOf_isFolder (x : Place) :
    pathsOf (below root x) isFolder (fs.children (top ++ x)) =
      (foldersIn fs top x).map (below root) := by
  simp [pathsOf, foldersIn]

theorem mem_pathsOf {x : Place} {p : Bytes} :
    p ∈ pathsOf (below root x) isRegular (fs.children (top ++ x)) ↔
      ∃ n, (∃ e, (top ++ (x ++ [n]), e) ∈ fs.entries ∧ isRegular e = true) ∧
        p = below root (x ++ [n]) := by
  simp only [pathsOf, List.mem_map, List.mem_filter]
  constructor
  · rintro ⟨⟨n, e⟩, ⟨hmem, hregular⟩, rfl⟩
    rw [Files.mem_children, List.append_assoc] at hmem
    exact ⟨n, ⟨e, hmem, hregular⟩, (Path.below_concat root x n).symm⟩
  · rintro ⟨n, ⟨e, hmem, hregular⟩, rfl⟩
    refine ⟨(n, e), ⟨?_, hregular⟩, (Path.below_concat root x n).symm⟩
    rw [Files.mem_children, List.append_assoc]
    exact hmem

/-- What is reached from a folder is in it, or reached from a folder in it. -/
theorem reaches_cases (hl : Lists fs root top) {x : Place} (hx : fs.LeadsDown top x) {p : Bytes} :
    Reaches fs.list (below root x) p ↔ IsOpen fs root top x ∧
      (p ∈ pathsOf (below root x) isRegular (fs.children (top ++ x)) ∨
        ∃ y ∈ foldersIn fs top x, Reaches fs.list (below root y) p) := by
  constructor
  · intro h
    generalize hdir : below root x = dir at h
    cases h with
    | @file _ name e entries hlist hmem hregular =>
      subst hdir
      obtain ⟨hopen, rfl⟩ := (hl _ hx _).1 hlist
      rw [Files.mem_children, List.append_assoc] at hmem
      exact ⟨hopen, .inl (mem_pathsOf.2 ⟨name, ⟨e, hmem, hregular⟩, (Path.below_concat _ _ _).symm⟩)⟩
    | @folder _ name _ entries hlist hmem hbelow =>
      subst hdir
      obtain ⟨hopen, rfl⟩ := (hl _ hx _).1 hlist
      rw [Files.mem_children, List.append_assoc] at hmem
      rw [← Path.below_concat] at hbelow
      exact ⟨hopen, .inr ⟨_, mem_foldersIn.2 ⟨name, rfl, hmem⟩, hbelow⟩⟩
  · rintro ⟨hopen, hp | ⟨y, hy, hbelow⟩⟩
    · obtain ⟨n, ⟨e, hmem, hregular⟩, rfl⟩ := mem_pathsOf.1 hp
      rw [← List.append_assoc] at hmem
      rw [Path.below_concat]
      exact .file ((hl _ hx _).2 ⟨hopen, rfl⟩) (Files.mem_children.2 hmem) hregular
    · obtain ⟨n, rfl, hmem⟩ := mem_foldersIn.1 hy
      rw [← List.append_assoc] at hmem
      rw [Path.below_concat] at hbelow
      exact .folder ((hl _ hx _).2 ⟨hopen, rfl⟩) (Files.mem_children.2 hmem) hbelow

/-! ## Files by their names -/

/-- A regular file below the folder under some names: all folders on the way are open. -/
structure IsFile (fs : Files) (root : Bytes) (top names : Place) (n : Bytes) : Prop where
  down : fs.LeadsDown top names
  isOpen : ∀ m, m <+: names → IsOpen fs root top m
  regular : ∃ e, (top ++ (names ++ [n]), e) ∈ fs.entries ∧ isRegular e = true

/-- What is reached from a folder are the files under names that go on from those of the folder. -/
theorem reaches_iff (hl : Lists fs root top) {x : Place} (hx : fs.LeadsDown top x) {p : Bytes} :
    Reaches fs.list (below root x) p ↔
      ∃ zs n, fs.LeadsDown top (x ++ zs) ∧ (∀ m, m <+: zs → IsOpen fs root top (x ++ m)) ∧
        (∃ e, (top ++ (x ++ zs ++ [n]), e) ∈ fs.entries ∧ isRegular e = true) ∧
        p = below root (x ++ zs ++ [n]) := by
  constructor
  · intro h
    generalize hdir : below root x = dir at h
    induction h generalizing x with
    | @file dir name e entries hlist hmem hregular =>
      subst hdir
      obtain ⟨hopen, rfl⟩ := (hl _ hx _).1 hlist
      rw [Files.mem_children, List.append_assoc] at hmem
      refine ⟨[], name, by simpa using hx, ?_, ⟨e, by simpa using hmem, hregular⟩, by simp⟩
      intro m hm
      rw [List.prefix_nil.1 hm, List.append_nil]
      exact hopen
    | @folder dir name path entries hlist hmem _ ih =>
      subst hdir
      obtain ⟨hopen, rfl⟩ := (hl _ hx _).1 hlist
      rw [Files.mem_children, List.append_assoc] at hmem
      obtain ⟨zs, n, hdown, hall, hfile, hp⟩ := ih (hx.snoc hmem) (Path.below_concat root x name)
      have happend : x ++ name :: zs = x ++ [name] ++ zs := List.append_cons x name zs
      refine ⟨name :: zs, n, happend ▸ hdown, ?_, happend ▸ hfile, happend ▸ hp⟩
      intro m hm
      cases m with
      | nil => simpa using hopen
      | cons k m =>
        obtain ⟨rfl, hmz⟩ := List.cons_prefix_cons.1 hm
        rw [List.append_cons]
        exact hall m hmz
  · rintro ⟨zs, n, hdown, hall, hfile, rfl⟩
    induction zs generalizing x with
    | nil =>
      have hopen := hall [] List.nil_prefix
      rw [List.append_nil] at hopen hfile ⊢
      exact (reaches_cases hl hx).2 ⟨hopen, .inl (mem_pathsOf.2 ⟨n, hfile, rfl⟩)⟩
    | cons k zs ih =>
      have hopen := hall [] List.nil_prefix
      rw [List.append_nil] at hopen
      have happend : x ++ k :: zs = x ++ [k] ++ zs := List.append_cons x k zs
      rw [happend] at hdown hfile ⊢
      have hk : fs.LeadsDown top (x ++ [k]) := hdown.of_prefix (List.prefix_append _ _)
      have hbelow := ih hk hdown (fun m hm => by
        have hkm := hall (k :: m) (List.cons_prefix_cons.2 ⟨rfl, hm⟩)
        rwa [List.append_cons] at hkm) hfile
      have hfolder := mem_foldersIn.2 ⟨k, rfl, hk x k (List.prefix_refl _)⟩
      exact (reaches_cases hl hx).2 ⟨hopen, .inr ⟨x ++ [k], hfolder, hbelow⟩⟩

theorem reaches_root_iff (hl : Lists fs root top) {p : Bytes} :
    Reaches fs.list root p ↔
      ∃ names n, IsFile fs root top names n ∧ p = below root (names ++ [n]) := by
  have hiff := reaches_iff (p := p) hl Files.leadsDown_nil
  rw [Path.below_nil] at hiff
  rw [hiff]
  simp only [List.nil_append]
  constructor
  · rintro ⟨zs, n, hdown, hall, hfile, hp⟩
    exact ⟨zs, n, ⟨hdown, hall, hfile⟩, hp⟩
  · rintro ⟨zs, n, ⟨hdown, hall, hfile⟩, hp⟩
    exact ⟨zs, n, hdown, hall, hfile, hp⟩

/-! ## Listed and waiting -/

/-- Directories that have been listed, and those that wait to be. -/
structure Walking (fs : Files) (top : Place) (listed waiting : List Place) : Prop where
  nodup : (listed ++ waiting).Nodup
  down : ∀ x ∈ listed ++ waiting, fs.LeadsDown top x
  above : ∀ x ∈ listed ++ waiting, ∀ y, y <+: x → y ≠ x → y ∈ listed

namespace Walking

variable {x : Place} {listed waiting : List Place}

theorem init : Walking fs top [] [[]] where
  nodup := by simp
  down x hx := by
    rw [List.mem_singleton.1 hx]
    exact Files.leadsDown_nil
  above x hx y hy hne := by
    rw [List.mem_singleton.1 hx] at hy hne
    exact absurd (List.prefix_nil.1 hy) hne

/-- The next directory cannot be listed. -/
theorem skip (h : Walking fs top listed (x :: waiting)) : Walking fs top (x :: listed) waiting := by
  have hperm : (x :: listed ++ waiting).Perm (listed ++ x :: waiting) := List.perm_middle.symm
  refine ⟨hperm.nodup_iff.2 h.nodup, fun y hy => h.down y (hperm.mem_iff.1 hy), ?_⟩
  intro y hy z hz hne
  exact List.mem_cons_of_mem x (h.above y (hperm.mem_iff.1 hy) z hz hne)

/-- The next directory is listed: its folders wait. -/
theorem list (hw : fs.WellFormed) (h : Walking fs top listed (x :: waiting)) :
    Walking fs top (x :: listed) ((foldersIn fs top x).reverse ++ waiting) := by
  have hskip := h.skip
  have hx : x ∈ listed ++ x :: waiting := by simp
  have hnew : ∀ y ∈ foldersIn fs top x, y ∉ x :: listed ++ waiting := by
    intro y hy hmem
    obtain ⟨n, rfl, -⟩ := mem_foldersIn.1 hy
    -- the folder would be there before what lies above it has been listed
    have hold : x ++ [n] ∈ listed ++ x :: waiting := by simpa using hmem
    have hlisted := h.above _ hold x (List.prefix_append _ _) (by simp)
    exact (List.nodup_append.1 h.nodup).2.2 x hlisted x List.mem_cons_self rfl
  have hperm : (x :: listed ++ ((foldersIn fs top x).reverse ++ waiting)).Perm
      (foldersIn fs top x ++ (x :: listed ++ waiting)) := by
    refine List.perm_append_comm_assoc _ _ _ |>.trans ?_
    exact (List.reverse_perm _).append_right _
  refine ⟨hperm.nodup_iff.2 (List.nodup_append.2 ⟨nodup_foldersIn hw x, hskip.nodup, ?_⟩), ?_, ?_⟩
  · rintro y hy z hz rfl
    exact hnew y hy hz
  · intro y hy
    rcases List.mem_append.1 (hperm.mem_iff.1 hy) with hy | hy
    · obtain ⟨n, rfl, hmem⟩ := mem_foldersIn.1 hy
      exact (h.down x hx).snoc hmem
    · exact hskip.down y hy
  · intro y hy z hz hne
    rcases List.mem_append.1 (hperm.mem_iff.1 hy) with hy | hy
    · obtain ⟨n, rfl, hmem⟩ := mem_foldersIn.1 hy
      have hzx : z <+: x := (List.prefix_concat_iff.1 hz).resolve_left hne
      by_cases heq : z = x
      · exact heq ▸ List.mem_cons_self
      · exact List.mem_cons_of_mem x (h.above x hx z hzx heq)
    · exact hskip.above y hy z hz hne

/-- There are no more of them than directories in all. -/
theorem length_le (h : Walking fs top listed waiting) :
    listed.length + waiting.length ≤ fs.entries.length + 1 := by
  have hsub : listed ++ waiting ⊆ [] :: fs.entries.map fun e => e.1.drop top.length := by
    intro x hx
    cases x using List.reverseRecOn with
    | nil => exact List.mem_cons_self
    | append_singleton x n =>
      have hmem := h.down _ hx x n (List.prefix_refl _)
      exact List.mem_cons_of_mem _ (List.mem_map.2 ⟨_, hmem, by simp⟩)
  have hle := h.nodup.length_le_of_subset hsub
  simpa using hle

end Walking

/-! ## The walk -/

theorem nodup_pathsOf (hw : fs.WellFormed) (hr : root ≠ []) (x : Place) :
    (pathsOf (below root x) isRegular (fs.children (top ++ x))).Nodup := by
  have hnames := List.pairwise_map.1 (Files.nodup_children hw (top ++ x))
  apply List.pairwise_map.2
  refine (hnames.filter _).imp_of_mem fun {a b} ha hb hne heq => hne ?_
  have hname : ∀ {c : Bytes × Entry}, c ∈ (fs.children (top ++ x)).filter (fun e => isRegular e.2) →
      ∀ m ∈ x ++ [c.1], IsName m := by
    intro c hc m hm
    have hmem := Files.mem_children.1 (List.mem_of_mem_filter hc)
    rw [List.append_assoc] at hmem
    exact hw.names _ hmem m (List.mem_append_right _ hm)
  rw [← Path.below_concat, ← Path.below_concat] at heq
  simpa using Path.below_inj hr (hname ha) (hname hb) heq

/-- What a directory adds to the files found, and to those that wait. -/
theorem regularFiles_ok (hl : Lists fs root top) {x : Place} (hx : fs.LeadsDown top x)
    (hopen : IsOpen fs root top x) (steps : Nat) (waiting : List Place) :
    regularFiles fs.list (steps + 1) ((x :: waiting).map (below root)) =
      pathsOf (below root x) isRegular (fs.children (top ++ x)) ++
        regularFiles fs.list steps (((foldersIn fs top x).reverse ++ waiting).map (below root)) := by
  have hlist := (hl _ hx _).2 ⟨hopen, rfl⟩
  rw [List.map_cons, regularFiles, hlist]
  simp [pathsOf_isFolder]

theorem regularFiles_error (hl : Lists fs root top) {x : Place} (hx : fs.LeadsDown top x)
    (hclosed : ¬ IsOpen fs root top x) (steps : Nat) (waiting : List Place) :
    regularFiles fs.list (steps + 1) ((x :: waiting).map (below root)) =
      regularFiles fs.list steps (waiting.map (below root)) := by
  cases hlist : fs.list (below root x) with
  | ok entries => exact absurd ((hl _ hx _).1 hlist).1 hclosed
  | error e => rw [List.map_cons, regularFiles, hlist]

/-- A file in a directory is below none of the others: whatever lies above it has been listed. -/
theorem not_reaches_of_mem (hw : fs.WellFormed) (hr : root ≠ []) (hl : Lists fs root top)
    {listed waiting : List Place} {x y : Place} {p : Bytes}
    (h : Walking fs top listed (x :: waiting))
    (hp : p ∈ pathsOf (below root x) isRegular (fs.children (top ++ x)))
    (hy : y ∈ foldersIn fs top x ∨ y ∈ waiting) : ¬ Reaches fs.list (below root y) p := by
  intro hreaches
  have hydown : fs.LeadsDown top y := by
    rcases hy with hy | hy
    · exact (h.list hw).down y (by simp [hy])
    · exact h.down y (by simp [hy])
  obtain ⟨n, ⟨e, hmem, -⟩, hpn⟩ := mem_pathsOf.1 hp
  obtain ⟨zs, k, -, -, ⟨e', hmem', -⟩, hpk⟩ := (reaches_iff hl hydown).1 hreaches
  have hnames : ∀ m ∈ x ++ [n], IsName m :=
    fun m hm => hw.names _ hmem m (List.mem_append_right _ hm)
  have hnames' : ∀ m ∈ y ++ zs ++ [k], IsName m :=
    fun m hm => hw.names _ hmem' m (List.mem_append_right _ hm)
  have heq := Path.below_inj hr hnames hnames' (hpn.symm.trans hpk)
  have hyx : y <+: x := ⟨zs, (List.append_inj_left' heq rfl).symm⟩
  rcases hy with hy | hy
  · obtain ⟨m, rfl, -⟩ := mem_foldersIn.1 hy
    have hle := hyx.length_le
    rw [List.length_append, List.length_singleton] at hle
    omega
  · have hnodup := List.nodup_append.1 h.nodup
    have hne : y ≠ x := by
      rintro rfl
      exact (List.nodup_cons.1 hnodup.2.1).1 hy
    have hlisted := h.above x (by simp) y hyx hne
    exact hnodup.2.2 y hlisted y (List.mem_cons_of_mem _ hy) rfl

/-- **What the walk finds**: every file below the directories that wait, and none twice. -/
theorem regularFiles_spec (hw : fs.WellFormed) (hr : root ≠ []) (hl : Lists fs root top)
    {steps : Nat} {listed waiting : List Place} (h : Walking fs top listed waiting)
    (hsteps : fs.entries.length + 1 ≤ steps + listed.length) :
    (regularFiles fs.list steps (waiting.map (below root))).Nodup ∧
      ∀ p, p ∈ regularFiles fs.list steps (waiting.map (below root)) ↔
        ∃ x ∈ waiting, Reaches fs.list (below root x) p := by
  induction steps generalizing listed waiting with
  | zero =>
    have hle := h.length_le
    have hnil : waiting = [] := List.length_eq_zero_iff.1 (by omega)
    simp [hnil, regularFiles]
  | succ steps ih =>
    cases waiting with
    | nil => simp [regularFiles]
    | cons x waiting =>
      have hx : fs.LeadsDown top x := h.down x (by simp)
      have hlater : fs.entries.length + 1 ≤ steps + (x :: listed).length := by
        rw [List.length_cons]
        omega
      by_cases hopen : IsOpen fs root top x
      · rw [regularFiles_ok hl hx hopen]
        obtain ⟨hnodup, hmem⟩ := ih (h.list hw) hlater
        constructor
        · refine List.nodup_append.2 ⟨nodup_pathsOf hw hr x, hnodup, ?_⟩
          rintro p hp q hq rfl
          obtain ⟨y, hy, hreaches⟩ := (hmem p).1 hq
          refine not_reaches_of_mem hw hr hl h hp ?_ hreaches
          simpa using hy
        · intro p
          rw [List.mem_append, hmem]
          simp only [List.mem_append, List.mem_reverse, List.mem_cons, or_and_right, exists_or,
            exists_eq_left, reaches_cases hl hx, hopen, true_and, or_assoc]
      · rw [regularFiles_error hl hx hopen]
        obtain ⟨hnodup, hmem⟩ := ih h.skip hlater
        refine ⟨hnodup, fun p => ?_⟩
        rw [hmem]
        simp only [List.mem_cons, or_and_right, exists_or, exists_eq_left, reaches_cases hl hx, hopen,
          false_and, false_or]

/-- The files in a folder that can be listed, and below it. -/
theorem regularFiles_root (hw : fs.WellFormed) (hroot : ∃ entries, fs.list root = .ok entries) :
    ∃ top, fs.resolve root true = .ok top ∧
      (regularFiles fs.list (fs.entries.length + 1) [root]).Nodup ∧
      ∀ p, p ∈ regularFiles fs.list (fs.entries.length + 1) [root] ↔
        ∃ names n, IsFile fs root top names n ∧ p = below root (names ++ [n]) := by
  obtain ⟨top, hr, hresolve, hl⟩ := lists_of_list hw hroot
  have hsteps : fs.entries.length + 1 ≤ fs.entries.length + 1 + ([] : List Place).length := Nat.le_refl _
  obtain ⟨hnodup, hmem⟩ := regularFiles_spec hw hr hl .init hsteps
  rw [List.map_singleton, Path.below_nil] at hnodup hmem
  refine ⟨top, hresolve, hnodup, fun p => ?_⟩
  rw [hmem, ← reaches_root_iff hl]
  simp

end ScanFolder

end LaneQueue
