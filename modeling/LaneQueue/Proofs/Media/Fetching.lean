import Mathlib
import LaneQueue.Media.FetchImage
import LaneQueue.Proofs.Files.Writing
/-!
# What a fetch leaves behind

A fetch that does not end in success by what it was answered has changed nothing. One that stores an image
makes the directories that are missing, writes the image beside the destination and moves it there
(`FetchImage.Stored`): of what was there before, only the destination has changed and whatever lay where
the image was written first. That path is made from the destination by its extension alone, so a file that
happens to lie there is lost (`FetchImage.neighbour_lost`), and if it has other names too, they are names
of the image then (`FetchImage.namesake_overwritten`).
-/
namespace LaneQueue

namespace FetchImage

variable {image : ByteArray} {dest : Bytes} {before made after : Files} {p q d : Place}

/-! ## The answer -/

/-- An answer brings an image: a success whose body has arrived, of the length that was declared. -/
inductive Delivers : Reception → ByteArray → Prop
  | intro {status : Nat} {declared : Option Nat} {image : ByteArray} :
      HttpStatus.isSuccess status = true → (∀ n, declared = some n → image.size = n) →
        Delivers (.answer status declared (some image)) image

theorem delivers_of_imageOf {r : Reception} (h : imageOf r = .ok image) : Delivers r image := by
  unfold imageOf at h
  cases r with
  | unreachable => cases h
  | answer status declared body =>
    simp only at h
    split at h
    · cases h
    rename_i hstatus
    cases body with
    | none => cases h
    | some body =>
      cases declared with
      | none =>
        obtain rfl := Except.ok.inj h
        exact .intro (by simpa using hstatus) nofun
      | some n =>
        simp only at h
        split at h
        · rename_i hsize
          obtain rfl := Except.ok.inj h
          exact .intro (by simpa using hstatus) fun m hm => hsize.trans (Option.some.inj hm)
        · cases h

theorem refusal_ne_success (status : HttpStatus) : refusal status ≠ .success := by
  unfold refusal
  split <;> nofun

/-- An answer without an image is no success. -/
theorem ne_success_of_imageOf {r : Reception} {o : Outcome} (h : imageOf r = .error o) :
    o ≠ .success := by
  unfold imageOf at h
  rintro rfl
  cases r with
  | unreachable => cases h
  | answer status declared body =>
    simp only at h
    split at h
    · exact refusal_ne_success status (Except.error.inj h)
    cases body with
    | none => cases h
    | some body =>
      cases declared with
      | none => cases h
      | some n =>
        simp only at h
        split at h <;> cases h

/-! ## Storing -/

/-- The stages of a storing that comes to its end. -/
theorem store_eq_none (h : store image dest before = (none, after)) :
    ∃ made written, before.Grows made ∧ made.write (partialPath dest) image = .ok written ∧
      written.rename (partialPath dest) dest = .ok after := by
  unfold store at h
  simp only at h
  split at h
  · cases h
  rename_i made hmade
  have hgrows : before.Grows made := by
    split at hmade
    · rename_i dir _
      have hdirs := before.createDirectories_grows dir
      rwa [hmade] at hdirs
    · obtain rfl := (Prod.mk.inj hmade).2
      exact .refl _
  cases hwrite : made.write (partialPath dest) image with
  | error e => simp [hwrite] at h
  | ok written =>
    cases hmove : written.rename (partialPath dest) dest with
    | error e => simp [hwrite, hmove] at h
    | ok moved =>
      simp only [hwrite, hmove] at h
      obtain rfl := (Prod.mk.inj h).2
      exact ⟨made, written, hgrows, hwrite, hmove⟩

/-- An image has been stored. The directories are made; then the path beside the destination names the
place `p` and leads to `q`, and the destination names `d`. -/
structure Stored (image : ByteArray) (dest : Bytes) (before made after : Files) (p q d : Place) :
    Prop where
  grows : before.Grows made
  beside : made.resolve (partialPath dest) false = .ok p
  written : made.resolve (partialPath dest) true = .ok q
  target : made.resolve dest false = .ok d
  /-- Away from these places whatever was there is there as before, -/
  kept : ∀ place e, place ≠ p → place ≠ d → before.entry? place = some e → after.entry? place = some e
  /-- there may be new directories, -/
  added : ∀ place e, place ≠ p → place ≠ q → place ≠ d → after.entry? place = some e →
    before.entry? place = some e ∨ e = .directory
  /-- and every file holds what it held, whatever its names are, but the one that lay at `q`. -/
  unchanged : ∀ n place, before.entry? place = some (.file n) → before.entry? q ≠ some (.file n) →
    after.content n = before.content n
  /-- Nothing is left beside the destination, unless both were names of one file; they still are. -/
  moved : before.areNamesOfOne p d = false → p ≠ d → after.entry? p = none
  stays : before.areNamesOfOne p d = true →
    after.entry? p = before.entry? p ∧ after.entry? d = before.entry? d
  /-- Unless `p` was a link, the image is what lies at the destination now. -/
  direct : (∀ link, before.entry? p ≠ some (.link link)) → q = p
  holds : (∀ link, before.entry? p ≠ some (.link link)) → after.content? d = some (.bytes image)
  reads : (∀ link, before.entry? p ≠ some (.link link)) →
    (∀ link, before.entry? d ≠ some (.link link)) → after.read dest = .ok image

/-- A working directory without links stays one when directories are made. -/
theorem direct_of_grows (h : before.Grows made) (hcwd : before.Direct before.workingDirectory) :
    made.Direct made.workingDirectory := by
  intro above habove target hlink
  exact hcwd above (h.workingDirectory ▸ habove) target (h.link_iff.1 hlink)

/-- **What storing an image does.** -/
theorem stored_of_store (hcwd : before.Direct before.workingDirectory)
    (h : store image dest before = (none, after)) :
    ∃ made p q d, Stored image dest before made after p q d := by
  obtain ⟨made, written, hgrows, hwrite, hmove⟩ := store_eq_none h
  obtain ⟨hslash, q, hq, hqdir, rfl⟩ := Files.write_eq_ok hwrite
  have hleaf : made.IsLeaf q :=
    ⟨hqdir, ((direct_of_grows hgrows hcwd).resolve hslash hq) q (List.prefix_refl q)⟩
  obtain ⟨n, hfilled⟩ := Files.filled_fill hleaf (.bytes image)
  generalize made.fill q (.bytes image) = written at hwrite hmove hfilled
  obtain ⟨hslash', p, d, e, hp, hd, hmoved⟩ := Files.rename_eq_ok hmove
  have hp' : made.resolve (partialPath dest) false = .ok p :=
    Files.resolve_of_alike hfilled.alike.symm hslash hp
  have hd' : made.resolve dest false = .ok d := Files.resolve_of_alike hfilled.alike.symm hslash' hd
  have hpne : p ≠ [] := by
    -- the root is no link, so the image would have been written there
    rintro rfl
    have hroot := Files.resolve_follow hslash hp' (by simp)
    obtain rfl := Except.ok.inj (hq.symm.trans hroot)
    exact hqdir rfl
  have hdirect : (∀ link, before.entry? p ≠ some (.link link)) → q = p := by
    intro hlink
    have hfollow := Files.resolve_follow hslash hp' fun target => mt hgrows.link_iff.1 (hlink target)
    exact Except.ok.inj (hq.symm.trans hfollow)
  have hone : p ≠ d → written.areNamesOfOne p d = before.areNamesOfOne p d := by
    intro hne
    rw [hfilled.areNamesOfOne hne, Bool.eq_iff_iff, Files.areNamesOfOne_iff, Files.areNamesOfOne_iff]
    simp only [hgrows.file_iff]
  have himage : q = p → e = .file n := by
    rintro rfl
    exact Option.some.inj (hmoved.source.symm.trans hfilled.entry?_self)
  refine ⟨made, p, q, d, hgrows, hp', hq, hd', ?_, ?_, ?_, ?_, ?_, hdirect, ?_, ?_⟩
  · intro place entry hplace hplace' hbefore
    rw [hmoved.beside hpne hplace hplace']
    exact hfilled.kept (hgrows.kept _ _ hbefore)
  · intro place entry hplace hplace' hplace'' hentry
    rw [hmoved.beside hpne hplace hplace'', hfilled.entries, if_neg hplace'] at hentry
    exact hgrows.added _ _ hentry
  · intro m place hm hno
    rw [hmoved.content, hfilled.unchanged (hgrows.kept _ _ hm) (mt hgrows.file_iff.1 hno),
      hgrows.content]
  · exact fun hno hne => hmoved.entry?_source hpne ((hone hne).trans hno) hne
  · intro hboth
    obtain ⟨m, hm, hm'⟩ := Files.areNamesOfOne_iff.1 hboth
    have hwm := hfilled.kept (hgrows.kept _ _ hm)
    have hwm' := hfilled.kept (hgrows.kept _ _ hm')
    have hafter := hmoved.both (Files.areNamesOfOne_iff.2 ⟨m, hwm, hwm'⟩)
    rw [hafter, hafter, hwm, hwm', hm, hm']
    exact ⟨rfl, rfl⟩
  · intro hlink
    obtain rfl := himage (hdirect hlink)
    rw [Files.content?_of_file (hmoved.entry?_target hpne), hmoved.content, hfilled.content_self]
  · intro hlink hlink'
    obtain rfl := himage (hdirect hlink)
    have hleaf' : written.IsLeaf d := by
      refine ⟨hmoved.target, fun target hd => hlink' target ?_⟩
      exact hgrows.link_iff.1 ((hfilled.alike.link d target).2 hd)
    have hfile := hmoved.entry?_target hpne
    have hresolve := Files.resolve_of_alike (hmoved.alike hpne hleaf') hslash' hd
    have hfollow := Files.resolve_follow hslash' hresolve (by simp [hfile])
    have hcontent : after.content n = .bytes image := by rw [hmoved.content, hfilled.content_self]
    simp only [Files.read, Files.find, hfollow, hfile, hcontent]

/-- **A fetch touches its destination** and the path beside it from which the image is moved there. If it
succeeds, the answer has brought an image, which is stored; if it ends in another outcome, recoverable or
fatal, no file and no directory has changed. -/
theorem fetch_touches_destination (c : FetchImage) (w : Media) :
    (w.files.Direct w.files.workingDirectory → ∀ after, c.exchange w = (.outcome .success, after) →
      ∃ image made p q d, Delivers (w.fetch w.requests c.url) image ∧
        Stored image c.dest w.files made after p q d) ∧
    ∀ o after, o ≠ .success → c.exchange w = (.outcome o, after) → after = w.files := by
  unfold exchange settle
  cases himage : imageOf (w.fetch w.requests c.url) with
  | error o =>
    have hne := ne_success_of_imageOf himage
    refine ⟨fun _ after h => ?_, fun o' after _ h => ?_⟩
    · exact absurd (Finish.outcome.inj (Prod.mk.inj h).1) hne
    · exact (Prod.mk.inj h).2.symm
  | ok image =>
    cases hstore : store image c.dest w.files with
    | mk fault stored =>
      simp only [hstore]
      cases fault with
      | some e => simp
      | none =>
        refine ⟨fun hcwd after h => ?_, fun o after hne h => ?_⟩
        · obtain rfl := (Prod.mk.inj h).2
          obtain ⟨made, p, q, d, h⟩ := stored_of_store hcwd hstore
          exact ⟨image, made, p, q, d, delivers_of_imageOf himage, h⟩
        · exact absurd (Finish.outcome.inj (Prod.mk.inj h).1).symm hne

/-- An image is to be stored as `/c/a.j`. -/
def portrait : FetchImage := ⟨"http://h/", [0x2f, 0x63, 0x2f, 0x61, 0x2e, 0x6a]⟩

/-- A server with an image, and some files. -/
def gallery (files : Files) : Media where
  files := files
  fetch _ _ := .answer 200 (some 1) (some ⟨#[0x69]⟩)

/-- The files with the image as the only one. -/
def hung : Files :=
  { entries := [([[0x63]], .directory), ([[0x63], [0x61, 0x2e, 0x6a]], .file 0)]
    contents := [(0, .bytes ⟨#[0x69]⟩)] }

/-- Where there was nothing yet, the directory is made and the image lies in it. -/
theorem fetch_into_nothing :
    (gallery {}).files.Direct (gallery {}).files.workingDirectory ∧
      portrait.exchange (gallery {}) = (.outcome .success, hung) ∧
      ∃ image made p q d, Delivers (.answer 200 (some 1) (some ⟨#[0x69]⟩)) image ∧
        Stored image portrait.dest {} made hung p q d := by
  have hexchange : portrait.exchange (gallery {}) = (.outcome .success, hung) := by cbv
  exact ⟨Files.direct_nil, hexchange,
    (fetch_touches_destination portrait (gallery {})).1 Files.direct_nil hung hexchange⟩

/-- The directory `/c` with the file `/c/a.part`. -/
def cupboard : Files :=
  { entries := [([[0x63]], .directory), ([[0x63], [0x61, 0x2e, 0x70, 0x61, 0x72, 0x74]], .file 0)]
    contents := [(0, .bytes ⟨#[0x78]⟩)] }

/-- A file beside the destination under the name that the image has at first is gone after a success. -/
theorem neighbour_lost :
    ¬ (∀ (c : FetchImage) (w : Media) (after : Files) (d : Place),
      w.files.Direct w.files.workingDirectory → c.exchange w = (.outcome .success, after) →
      after.resolve c.dest false = .ok d →
      ∀ place content, place ≠ d → w.files.content? place = some content →
        after.content? place = some content) := by
  intro h
  have hexchange : portrait.exchange (gallery cupboard) = (.outcome .success, hung) := by cbv
  have htarget : hung.resolve portrait.dest false = .ok [[0x63], [0x61, 0x2e, 0x6a]] := by cbv
  have hlost := h portrait (gallery cupboard) hung _ Files.direct_nil hexchange htarget
    [[0x63], [0x61, 0x2e, 0x70, 0x61, 0x72, 0x74]] (.bytes ⟨#[0x78]⟩) (by decide) rfl
  cases hlost

/-- The same, and `/k` is another name of the file. -/
def shared : Files :=
  { cupboard with entries := cupboard.entries ++ [([[0x6b]], .file 0)] }

/-- Under its other names that file holds the image then. -/
theorem namesake_overwritten :
    ∃ after, portrait.exchange (gallery shared) = (.outcome .success, after) ∧
      shared.content? [[0x6b]] = some (.bytes ⟨#[0x78]⟩) ∧
      after.content? [[0x6b]] = some (.bytes ⟨#[0x69]⟩) := by
  have hexchange : portrait.exchange (gallery shared) = (.outcome .success,
      { entries := [([[0x63]], .directory), ([[0x6b]], .file 0), ([[0x63], [0x61, 0x2e, 0x6a]], .file 0)]
        contents := [(0, .bytes ⟨#[0x69]⟩)] }) := by cbv
  exact ⟨_, hexchange, rfl, rfl⟩

end FetchImage

end LaneQueue
