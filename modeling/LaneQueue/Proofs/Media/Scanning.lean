import LaneQueue.Proofs.Files.Scan
import LaneQueue.Proofs.Media.Identities
import LaneQueue.Proofs.Scheduler.Bodies
/-!
# What a scan submits

A scan asks for the hashing of one file after the other, and the first failure ends it. A store that
takes every submission leaves one way for a request to fail: the path of the file has no stored form
(`ScanFolder.ofDraft_of_not_text`). So a scan in which all paths are texts submits every file that it
finds, and any other stops at the first path that is none (`ScanFolder.executes_scan`).
-/
namespace LaneQueue

namespace ScanFolder

open LaneQueue.Path (IsName below)
open Point (Executes Completes)

/-- What a scan asks for a file. -/
def hashing (path : Bytes) : Request := .submit (HashFile.commands.draft ⟨path⟩) {}

/-- Why a path cannot be submitted. -/
def noText : QueueError := .serialization "path contains invalid UTF-8 characters"

section Submissions

variable {σ W : Type} [QueueStore σ] {w : Wiring W} {get : W → Media} {set : Media → W → W}
  {l : Lane} {r : Record} {s : Shared σ W} {log : List Request} {fate : Fate}

/-! ## One file -/

section File

variable {path : Bytes} {next : Reply → Body W}

/-- A path that is no text does not come to the store. -/
theorem ofDraft_of_not_text (hw : w.registry.OffersMedia get set) (ht : path.text? = none) :
    Call.ofDraft w (HashFile.commands.draft ⟨path⟩) {} = .done (.failed noText) := by
  have hk : w.registry.descriptor? (HashFile.commands.draft ⟨path⟩).tag =
      some HashFile.commands.descriptor := hw.descriptor? (.hashFile ⟨path⟩)
  have hpayload : (HashFile.commands.draft ⟨path⟩).payload = .error noText := by
    simp [CommandClass.draft, CommandClass.payload, HashFile.commands, Path.toJson, ht, Except.map,
      noText]
  simp only [Call.ofDraft, hk, Draft.toCommand, hpayload, Except.map]

theorem ofDraft_of_text (hw : w.registry.OffersMedia get set) (ht : path.text?.isSome) :
    ∃ c policy, Call.ofDraft w (HashFile.commands.draft ⟨path⟩) {} = .store c policy .first := by
  obtain ⟨t, ht⟩ := Option.isSome_iff_exists.1 ht
  exact ⟨_, _, MediaCommand.ofDraft_eq (c := .hashFile ⟨path⟩) hw ht {}⟩

theorem executes_check (h : Executes w l Shared.Accepts (.run r (.ask (hashing path) next)) s log fate) :
    ∃ rest, ∃ t : Shared σ W, log = hashing path :: rest ∧ Executes w l Shared.Accepts
      (.asking r (.ofDraft w (HashFile.commands.draft ⟨path⟩) {}) next) t rest fate := by
  obtain ⟨t, rest, rfl, hasking⟩ := h.of_ask
  obtain ⟨call, s', u, -, hstep, hrest⟩ := hasking.of_call rfl
  cases hstep
  exact ⟨rest, u, rfl, hrest⟩

/-- The hashing of a path that is a text is submitted. -/
theorem executes_text (hw : w.registry.OffersMedia get set) (ht : path.text?.isSome)
    (h : Executes w l Shared.Accepts (.run r (.ask (hashing path) next)) s log fate) :
    ∃ outcome rest, ∃ t : Shared σ W, log = hashing path :: rest ∧
      Executes w l Shared.Accepts (.run r (next (.submitted outcome))) t rest fate := by
  obtain ⟨rest, t, hlog, hrest⟩ := executes_check h
  obtain ⟨c, policy, hdraft⟩ := ofDraft_of_text hw ht
  rw [hdraft] at hrest
  obtain ⟨outcome, u, hnext⟩ := hrest.of_storing .store
  exact ⟨outcome, rest, u, hlog, hnext⟩

/-- The hashing of any other path fails. -/
theorem executes_not_text (hw : w.registry.OffersMedia get set) (ht : path.text? = none)
    (h : Executes w l Shared.Accepts (.run r (.ask (hashing path) next)) s log fate) :
    ∃ rest, ∃ t : Shared σ W, log = hashing path :: rest ∧
      Executes w l Shared.Accepts (.run r (next (.failed noText))) t rest fate := by
  obtain ⟨rest, t, hlog, hrest⟩ := executes_check h
  rw [ofDraft_of_not_text hw ht] at hrest
  obtain ⟨u, hnext⟩ := hrest.of_reply
  exact ⟨rest, u, hlog, hnext⟩

theorem completes_hashing (hw : w.registry.OffersMedia get set)
    (hfailed : Completes w l (Shared.Accepts (σ := σ)) (.run r (next (.failed noText))))
    (hsubmitted : ∀ outcome,
      Completes w l (Shared.Accepts (σ := σ)) (.run r (next (.submitted outcome)))) :
    Completes w l (Shared.Accepts (σ := σ)) (.run r (.ask (hashing path) next)) := by
  refine Point.completes_ask (Point.completes_call rfl fun s _ => ⟨_, _, rfl, ?_⟩)
  cases ht : path.text? with
  | none =>
    rw [ofDraft_of_not_text hw ht]
    exact Point.completes_reply hfailed
  | some t =>
    obtain ⟨c, policy, hdraft⟩ := ofDraft_of_text hw (Option.isSome_iff_exists.2 ⟨t, ht⟩)
    rw [hdraft]
    exact Point.completes_storing hsubmitted .store

end File

/-! ## The files one after the other -/

section Files

variable {paths : List Bytes}

/-- Whatever the paths are, the scan comes to an end. -/
theorem completes_submitAll (hw : w.registry.OffersMedia get set) (paths : List Bytes) :
    Completes w l (Shared.Accepts (σ := σ)) (.run r ((submitAll paths).on get set)) := by
  induction paths with
  | nil => exact Point.completes_done _
  | cons path paths ih => exact completes_hashing hw (Point.completes_done _) fun _ => ih

/-- Paths that are texts are all submitted. -/
theorem submitAll_texts (hw : w.registry.OffersMedia get set) (htexts : ∀ p ∈ paths, p.text?.isSome)
    (h : Executes w l Shared.Accepts (.run r ((submitAll paths).on get set)) s log fate) :
    log = paths.map hashing ∧ fate = ⟨none, .completed r.identity r.tag r.attempt⟩ := by
  induction paths generalizing s log with
  | nil => exact h.of_done
  | cons path paths ih =>
    obtain ⟨outcome, rest, t, rfl, hrest⟩ := executes_text hw (htexts path List.mem_cons_self) h
    obtain ⟨rfl, hfate⟩ := ih (fun p hp => htexts p (List.mem_cons_of_mem _ hp)) hrest
    exact ⟨rfl, hfate⟩

/-- The first path that is no text is the last one asked for. -/
theorem submitAll_stops (hw : w.registry.OffersMedia get set) {before after : List Bytes} {bad : Bytes}
    (htexts : ∀ p ∈ before, p.text?.isSome) (hbad : bad.text? = none)
    (h : Executes w l Shared.Accepts (.run r ((submitAll (before ++ bad :: after)).on get set)) s log
      fate) :
    log = (before ++ [bad]).map hashing ∧
      ∃ now, fate = .ofOutcome w.config.retry now r (.recoverable noText.chain) := by
  induction before generalizing s log with
  | nil =>
    -- the failed request ends the body, whatever comes after it
    obtain ⟨rest, t, rfl, hrest⟩ := executes_not_text hw hbad h
    obtain ⟨rfl, hfate⟩ := hrest.of_done
    exact ⟨rfl, t.now, hfate⟩
  | cons path before ih =>
    obtain ⟨outcome, rest, t, rfl, hrest⟩ := executes_text hw (htexts path List.mem_cons_self) h
    obtain ⟨rfl, hfate⟩ := ih (fun p hp => htexts p (List.mem_cons_of_mem _ hp)) hrest
    exact ⟨rfl, hfate⟩

end Files

/-! ## A scan -/

/-- A folder that can be listed is scanned. -/
theorem scan_eq {fs : Files} {c : ScanFolder} (hroot : ∃ entries, fs.list c.path = .ok entries) :
    c.scan fs = submitAll (regularFiles fs.list (fs.entries.length + 1) [c.path]) := by
  obtain ⟨entries, hlist⟩ := hroot
  obtain ⟨top, hresolve, hdir, -⟩ := Files.resolve_of_list hlist
  have hexists : fs.exists? c.path = .ok true := by
    simp only [Files.exists?, Files.find, hresolve, hdir]
  simp only [scan, hexists, hlist]

/-- A scan of a folder that can be listed goes through its files. -/
theorem executes_body {c : ScanFolder} {e : Execution}
    (hroot : ∃ entries, (get s.world).files.list c.path = .ok entries)
    (h : Executes w l Shared.Accepts (.run r ((commands.body c e).on get set)) s log fate) :
    ∃ t : Shared σ W, Executes w l Shared.Accepts (.run r ((submitAll (regularFiles
      (get s.world).files.list ((get s.world).files.entries.length + 1) [c.path])).on get set)) t log
        fate := by
  obtain ⟨t, hscan⟩ := h.of_act
  exact ⟨t, scan_eq hroot ▸ hscan⟩

/-- Any scan comes to an end; one that finds no folder, or none to be listed, ends at once. -/
theorem completes_body (hw : w.registry.OffersMedia get set) (c : ScanFolder) (e : Execution) :
    Completes w l (Shared.Accepts (σ := σ)) (.run r ((commands.body c e).on get set)) := by
  refine Point.completes_act fun v => ?_
  simp only [scan]
  split
  · exact Point.completes_done _
  · exact Point.completes_done _
  · split
    · exact Point.completes_done _
    · exact completes_submitAll hw _

end Submissions

/-! ## A small library -/

section Library

/-- The folder `/m` with a file whose name is one byte and the file `a` in its folder `s`. -/
def library (b : UInt8) : Files where
  entries := [([[0x6d]], .directory), ([[0x6d], [b]], .file 1), ([[0x6d], [0x73]], .directory),
    ([[0x6d], [0x73], [0x61]], .file 2)]

/-- The path `/m`. -/
def libraryPath : Bytes := [0x2f, 0x6d]

/-- The path `/m/s/a`. -/
def songPath : Bytes := [0x2f, 0x6d, 0x2f, 0x73, 0x2f, 0x61]

variable {b : UInt8}

theorem isName_singleton (hs : b ≠ Path.slash) (hz : b ≠ 0) (hd : b ≠ Path.dot) :
    IsName [b] := by
  constructor <;> simp [hs.symm, hz.symm, hd]

theorem wellFormed_library (hn : IsName [b]) (hne : b ≠ 0x73) : (library b).WellFormed := by
  constructor
  · simp [library, hne]
  · have hm : IsName [0x6d] := isName_singleton (by decide) (by decide) (by decide)
    have hs : IsName [0x73] := isName_singleton (by decide) (by decide) (by decide)
    have ha : IsName [0x61] := isName_singleton (by decide) (by decide) (by decide)
    simp [library, hn, hm, hs, ha]

theorem list_library (b : UInt8) :
    (library b).list libraryPath = .ok [([b], .file 1), ([0x73], .directory)] := by
  have hparts : Path.parts [0x2f, 0x6d] = [[0x6d]] := by decide
  have hresolve : (library b).resolve [0x2f, 0x6d] true = .ok [[0x6d]] := by
    simp [Files.resolve, Files.walk, hparts, Path.isAbsolute, Path.slash, Files.entry?, library, Path.dot]
  rw [libraryPath, Files.list_of_resolve hresolve rfl]
  simp [library, Files.children]

theorem join_folder_song : Path.join (Path.join libraryPath [0x73]) [0x61] = songPath := by decide

theorem list_library_folder (hne : b ≠ 0x73) :
    (library b).list (Path.join libraryPath [0x73]) = .ok [([0x61], .file 2)] := by
  have hother : (([0x73] : Bytes) == [b]) = false := by simpa using hne.symm
  have hpath : Path.join libraryPath [0x73] = [0x2f, 0x6d, 0x2f, 0x73] := by decide
  have hparts : Path.parts [0x2f, 0x6d, 0x2f, 0x73] = [[0x6d], [0x73]] := by decide
  have hresolve : (library b).resolve [0x2f, 0x6d, 0x2f, 0x73] true = .ok [[0x6d], [0x73]] := by
    simp [Files.resolve, Files.walk, hparts, Path.isAbsolute, Path.slash, Files.entry?, library,
      Path.dot, List.lookup_cons, hother]
  have hdir : Files.entry? (library b) [[0x6d], [0x73]] = some .directory := by
    simp [library, Files.entry?, List.lookup_cons, hother]
  rw [hpath, Files.list_of_resolve hresolve hdir]
  simp [library, Files.children]

theorem regularFiles_library (hne : b ≠ 0x73) :
    regularFiles (library b).list ((library b).entries.length + 1) [libraryPath] =
      [Path.join libraryPath [b], songPath] := by
  have hsize : (library b).entries.length = 4 := rfl
  simp [hsize, regularFiles, list_library, list_library_folder hne, pathsOf, isRegular, isFolder,
    join_folder_song]

theorem reaches_song (hne : b ≠ 0x73) : Reaches (library b).list libraryPath songPath := by
  have hregular : isRegular (.file 2) = true := rfl
  have hbelow := Reaches.file (list_library_folder hne) List.mem_cons_self hregular
  rw [join_folder_song] at hbelow
  exact .folder (list_library b) (List.mem_cons_of_mem _ List.mem_cons_self) hbelow

theorem accepts_memory {W : Type} (s : Shared MemoryStore W) : s.Accepts := fun c policy =>
  MemoryStore.submit_ok s.store c policy s.now

/-- A scheduler that stores in memory, with the library in its world. -/
def shelf (b : UInt8) : Shared MemoryStore Media := .init {} .empty 0 { files := library b }

/-- A worker that begins to scan the library. -/
def scanning : Point Media :=
  .run (.ofCommand ((MediaCommand.scanFolder ⟨libraryPath⟩).queued {} "/m") 1 0)
    (commands.body ⟨libraryPath⟩ ⟨.general, "ScanFolder:/m", 1⟩)

/-- A request for a path that is a text is none for a path that is not. -/
theorem hashing_ne {p q : Bytes} (hp : p.text?.isSome) (hq : q.text? = none) :
    hashing p ≠ hashing q := by
  intro h
  obtain ⟨c, policy, hstore⟩ := ofDraft_of_text (w := MediaCommand.server) offersMedia_classes hp
  have hdraft : HashFile.commands.draft ⟨p⟩ = HashFile.commands.draft ⟨q⟩ := (Request.submit.inj h).1
  rw [hdraft, ofDraft_of_not_text offersMedia_classes hq] at hstore
  cases hstore

end Library

/-! ## What is submitted -/

/-- **What a scan submits.** The folder leads to a directory, and the files that are found are those
below it on ways through open folders, each of them once. The scan always comes to an end. If all paths
are texts, it has submitted every file, in the order in which they are found, and is completed.
Otherwise the first path that is no text ends it with an error, and no file after that is asked for. -/
theorem executes_scan {σ W : Type} [QueueStore σ] {w : Wiring W} {get : W → Media}
    {set : Media → W → W} (hw : w.registry.OffersMedia get set) {s : Shared σ W}
    (hfs : (get s.world).files.WellFormed) {c : ScanFolder}
    (hroot : ∃ entries, (get s.world).files.list c.path = .ok entries) (l : Lane) (r : Record)
    (e : Execution) :
    let fs := (get s.world).files
    let files := regularFiles fs.list (fs.entries.length + 1) [c.path]
    let body := (commands.body c e).on get set
    (∃ top, fs.resolve c.path true = .ok top ∧ files.Nodup ∧
      ∀ p, p ∈ files ↔ ∃ names n, IsFile fs c.path top names n ∧ p = below c.path (names ++ [n])) ∧
    Completes w l (Shared.Accepts (σ := σ)) (.run r body) ∧
    ∀ log fate, Executes w l Shared.Accepts (.run r body) s log fate →
      ((∀ p ∈ files, p.text?.isSome) →
        log = files.map hashing ∧ fate = ⟨none, .completed r.identity r.tag r.attempt⟩) ∧
      ∀ before bad after, files = before ++ bad :: after → (∀ p ∈ before, p.text?.isSome) →
        bad.text? = none → log = (before ++ [bad]).map hashing ∧
          ∃ now, fate = .ofOutcome w.config.retry now r (.recoverable noText.chain) := by
  intro fs files body
  refine ⟨regularFiles_root hfs hroot, completes_body hw c e, ?_⟩
  intro log fate h
  obtain ⟨t, hfiles⟩ := executes_body hroot h
  refine ⟨fun htexts => submitAll_texts hw htexts hfiles, ?_⟩
  intro before bad after heq htexts hbad
  have hsplit : Executes w l Shared.Accepts
      (.run r ((submitAll (before ++ bad :: after)).on get set)) t log fate := heq ▸ hfiles
  exact submitAll_stops hw htexts hbad hsplit

/-- The files `/m/f` and `/m/s/a` are submitted. -/
theorem executes_scan_library :
    (library 0x66).WellFormed ∧ (∃ entries, (library 0x66).list libraryPath = .ok entries) ∧
      ∃ fate, Executes MediaCommand.server .general Shared.Accepts scanning (shelf 0x66)
        [hashing (Path.join libraryPath [0x66]), hashing songPath] fate ∧
        fate = ⟨none, .completed "ScanFolder:/m" "ScanFolder" 1⟩ := by
  have hne : (0x66 : UInt8) ≠ 0x73 := by decide
  have hname : IsName [0x66] := isName_singleton (by decide) (by decide) (by decide)
  have hfs := wellFormed_library hname hne
  have hroot : ∃ entries, (library 0x66).list libraryPath = .ok entries := ⟨_, list_library 0x66⟩
  obtain ⟨-, hcompletes, hends⟩ := executes_scan (w := MediaCommand.server) (s := shelf 0x66)
    (c := ⟨libraryPath⟩) offersMedia_classes hfs hroot .general
    (.ofCommand ((MediaCommand.scanFolder ⟨libraryPath⟩).queued {} "/m") 1 0)
    ⟨.general, "ScanFolder:/m", 1⟩
  rw [Body.on_id] at hcompletes hends
  obtain ⟨log, fate, hexecutes⟩ := hcompletes.executes (accepts_memory (shelf 0x66))
  have hfiles := regularFiles_library hne
  have htexts : ∀ p ∈ [Path.join libraryPath [0x66], songPath], p.text?.isSome := by decide +kernel
  obtain ⟨hlog, hfate⟩ := (hends log fate hexecutes).1 (hfiles ▸ htexts)
  obtain rfl : log = [Path.join libraryPath [0x66], songPath].map hashing := hfiles ▸ hlog
  exact ⟨hfs, hroot, fate, hexecutes, hfate⟩

/-- A file whose name is no text ends the scan, and the file in the folder beside it is never asked
for. -/
theorem scan_ends_early :
    ¬ (∀ (s : Shared MemoryStore Media) (c : ScanFolder) (l : Lane) (r : Record) (e : Execution)
      (log : List Request) (fate : Fate),
      s.world.files.WellFormed → c.path.text?.isSome →
      (∃ entries, s.world.files.list c.path = .ok entries) →
      Executes MediaCommand.server l Shared.Accepts (.run r (commands.body c e)) s log fate →
      fate = ⟨none, .completed r.identity r.tag r.attempt⟩ ∧
        ∀ p, Reaches s.world.files.list c.path p → p.text?.isSome → hashing p ∈ log) ∧
    let bad := Path.join libraryPath [0xff]
    (library 0xff).WellFormed ∧ Reaches (library 0xff).list libraryPath songPath ∧
      songPath.text?.isSome ∧ hashing songPath ∉ [hashing bad] ∧
      Executes MediaCommand.server .general Shared.Accepts scanning (shelf 0xff) [hashing bad]
        ⟨none, .failureSwallowed "ScanFolder:/m" "ScanFolder" noText.chain⟩ := by
  have hne : (0xff : UInt8) ≠ 0x73 := by decide
  have hname : IsName [0xff] := isName_singleton (by decide) (by decide) (by decide)
  have hfs := wellFormed_library hname hne
  have htext : songPath.text?.isSome := by decide +kernel
  have hbad : (Path.join libraryPath [0xff]).text? = none := by decide +kernel
  have hroot : ∃ entries, (library 0xff).list libraryPath = .ok entries := ⟨_, list_library 0xff⟩
  have hasked : hashing songPath ∉ [hashing (Path.join libraryPath [0xff])] := by
    simpa using hashing_ne htext hbad
  have hexecutes : Executes MediaCommand.server .general Shared.Accepts scanning (shelf 0xff)
      [hashing (Path.join libraryPath [0xff])]
      ⟨none, .failureSwallowed "ScanFolder:/m" "ScanFolder" noText.chain⟩ := by
    have hcompletes := completes_body (σ := MemoryStore) (w := MediaCommand.server) (l := .general)
      (r := .ofCommand ((MediaCommand.scanFolder ⟨libraryPath⟩).queued {} "/m") 1 0)
      offersMedia_classes ⟨libraryPath⟩ ⟨.general, "ScanFolder:/m", 1⟩
    obtain ⟨log, fate, hexecutes⟩ := hcompletes.executes (accepts_memory (shelf 0xff))
    obtain ⟨t, hfiles⟩ := executes_body hroot hexecutes
    have hsplit : regularFiles (library 0xff).list ((library 0xff).entries.length + 1) [libraryPath] =
        [] ++ Path.join libraryPath [0xff] :: [songPath] := regularFiles_library hne
    obtain ⟨rfl, now, rfl⟩ := submitAll_stops offersMedia_classes (by simp) hbad (hsplit ▸ hfiles)
    rw [Body.on_id] at hexecutes
    exact hexecutes
  refine ⟨fun hall => ?_, hfs, reaches_song hne, htext, hasked, hexecutes⟩
  have hmem := (hall (shelf 0xff) ⟨libraryPath⟩ .general _ _ _ _ hfs (by decide +kernel) hroot
    hexecutes).2 songPath (reaches_song hne) htext
  exact hasked hmem

end ScanFolder

end LaneQueue
