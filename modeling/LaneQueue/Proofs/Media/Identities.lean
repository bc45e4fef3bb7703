import LaneQueue.Proofs.Media.Commands
import LaneQueue.Proofs.Store.Bookkeeping
import LaneQueue.Scheduler.Call
/-!
# Which submissions meet

Commands of the server are queued under the name of their class, a colon and their place; a forced
submission adds a suffix. The class can be read off, but not the flag: a place may end in the suffix
itself. `MediaCommand.identity_eq_iff` says exactly which submissions go under one identity, and so
which of them can be in each other's way.
-/
namespace LaneQueue

/-- The stored record that is in the way of a submission. -/
def Submission.existing? : Submission → Option Record
  | .inserted _ => none
  | .replaced old _ | .kept old | .refused old => some old

/-- What is in the way of a submission has its identity. -/
theorem Ledger.Submits.identity_existing {l l' : Ledger} {c : NewCommand} {p : ConflictPolicy}
    {now : Instant} {x : Submission} {old : Record} (h : l.Submits c p now (.ok x) l')
    (hx : x.existing? = some old) : old.identity = c.identity := by
  have hfinds : l.Finds c.identity old := by
    cases x with
    | inserted r => cases hx
    | replaced r _ | kept r | refused r =>
      obtain rfl : r = old := Option.some.inj hx
      exact h.2.1
  obtain ⟨row, -, hi, hr⟩ := hfinds
  exact hr.identity.symm.trans hi

namespace MediaCommand

/-- The suffix of a submission, empty for a passive one. -/
def suffix (o : SubmitOptions) : String := if o.forced then forcedSuffix else ""

/-- The names of the classes are told apart by what stands before the colon. -/
theorem tagged_eq_iff (c d : MediaCommand) {x y : String} :
    c.descriptor.tag ++ ":" ++ x = d.descriptor.tag ++ ":" ++ y ↔
      c.descriptor.tag = d.descriptor.tag ∧ x = y := by
  constructor
  · intro h
    have htag : c.descriptor.tag = d.descriptor.tag := by
      have hhead := congrArg (fun s : String => s.toList.head?) h
      cases c <;> cases d <;>
        simp [descriptor, ScanFolder.commands, HashFile.commands, FetchImage.commands] at hhead ⊢
    rw [htag] at h
    exact ⟨htag, (String.append_right_inj _).1 h⟩
  · rintro ⟨htag, rfl⟩
    rw [htag]

/-- A text with one suffix is another text with its suffix. -/
theorem suffixed_eq_iff {s t : String} {o p : SubmitOptions} :
    s ++ suffix o = t ++ suffix p ↔
      s = t ∧ o.forced = p.forced ∨
      o.forced = true ∧ p.forced = false ∧ t = s ++ forcedSuffix ∨
      o.forced = false ∧ p.forced = true ∧ s = t ++ forcedSuffix := by
  cases ho : o.forced <;> cases hp : p.forced <;> simp [suffix, ho, hp, eq_comm]

/-- The command that is stored for a submission. -/
def queued (c : MediaCommand) (o : SubmitOptions) (place : String) : NewCommand where
  identity := c.descriptor.tag ++ ":" ++ (place ++ suffix o)
  tag := c.descriptor.tag
  lane := c.descriptor.lane
  priority := o.priority.getD c.descriptor.priority
  payload := Payload.encode (c.fields place)
  bubbles := c.descriptor.bubbles

/-- A submission with a text for its place goes on to the store. -/
theorem ofDraft_eq {W : Type} {w : Wiring W} {get : W → Media} {set : Media → W → W}
    (hw : w.registry.OffersMedia get set) {c : MediaCommand} {s : String}
    (h : c.place.text? = some s) (o : SubmitOptions) :
    Call.ofDraft w c.draft o = .store (c.queued o s) c.descriptor.conflict .first := by
  have hid : o.identity c.draft.identity = (c.queued o s).identity := by
    rw [c.identity_draft, Bytes.shown_of_text? h]
    cases ho : o.forced <;> simp [SubmitOptions.identity, queued, suffix, ho, String.append_assoc]
  rw [Call.ofDraft, c.tag_draft, hw.descriptor?]
  simp only [Draft.toCommand, payload_draft h, Except.map, hid]
  rfl

/-- Two submissions of one class with one place and one flag, or a forced one and a passive one whose
place is that of the forced one with the suffix. -/
def Meets (c : MediaCommand) (o : SubmitOptions) (d : MediaCommand) (p : SubmitOptions) : Prop :=
  c.descriptor.tag = d.descriptor.tag ∧
    (c.place = d.place ∧ o.forced = p.forced ∨
      o.forced = true ∧ p.forced = false ∧ d.place = c.place ++ Bytes.ofText forcedSuffix ∨
      o.forced = false ∧ p.forced = true ∧ c.place = d.place ++ Bytes.ofText forcedSuffix)

/-- **Which submissions go under one identity**: those of one class, place and flag, and a forced one
together with a passive one whose place is that of the forced one with the suffix. Whatever a store
does to a record because of a submission, it does only to the record of such a one. -/
theorem identity_eq_iff {W σ : Type} [QueueStore σ] [LawfulStore σ] (w : Wiring W) {get : W → Media}
    {set : Media → W → W} (hw : w.registry.OffersMedia get set) (c d : MediaCommand)
    (hc : c.place.text?.isSome) (hd : d.place.text?.isSome) (o p : SubmitOptions) :
    ∃ a b : NewCommand,
      Call.ofDraft w c.draft o = .store a c.descriptor.conflict .first ∧
      Call.ofDraft w d.draft p = .store b d.descriptor.conflict .first ∧
      (a.identity = b.identity ↔ c.Meets o d p) ∧
      ∀ s : σ, (LawfulStore.ledger s).Sound → ∀ now x old,
        (QueueStore.submit b d.descriptor.conflict now s).1 = .ok x → x.existing? = some old →
        old.identity = a.identity → c.Meets o d p := by
  obtain ⟨s, hs⟩ := Option.isSome_iff_exists.1 hc
  obtain ⟨t, ht⟩ := Option.isSome_iff_exists.1 hd
  have hmeets : (c.queued o s).identity = (d.queued p t).identity ↔ c.Meets o d p := by
    simp only [queued, Meets, tagged_eq_iff, suffixed_eq_iff, ← Bytes.ofText_of_text? hs,
      ← Bytes.ofText_of_text? ht, ← Bytes.ofText_append, Bytes.ofText_inj]
  refine ⟨c.queued o s, d.queued p t, ofDraft_eq hw hs o, ofDraft_eq hw ht p, hmeets, ?_⟩
  intro st hst now x old hx hold hold'
  have hlaw := LawfulStore.submit hst (d.queued p t) d.descriptor.conflict now
  rw [hx] at hlaw
  exact hmeets.1 (hold'.symm.trans (hlaw.identity_existing hold))

/-- A server. -/
def server : Wiring Media := { registry := ⟨Media.classes⟩ }

theorem identity_eq_iff_suffixed :
    ∃ a b : NewCommand,
      Call.ofDraft server (hashFile ⟨Bytes.ofText "/a"⟩).draft { forced := true } =
        .store a .rejectDuplicate .first ∧
      Call.ofDraft server (hashFile ⟨Bytes.ofText "/a_Forced"⟩).draft {} =
        .store b .rejectDuplicate .first ∧
      a.identity = b.identity := by
  obtain ⟨a, b, ha, hb, hmeets, -⟩ := identity_eq_iff (σ := MemoryStore) server offersMedia_classes
    (hashFile ⟨Bytes.ofText "/a"⟩) (hashFile ⟨Bytes.ofText "/a_Forced"⟩)
    (by simp [place]) (by simp [place]) { forced := true } {}
  refine ⟨a, b, ha, hb, hmeets.2 ⟨rfl, .inr (.inl ⟨rfl, rfl, ?_⟩)⟩⟩
  exact Bytes.ofText_append "/a" forcedSuffix

/-- What a store in memory answers to the second of two submissions with one identity. -/
theorem submit_twice {a b : NewCommand} (h : a.identity = b.identity) (policy : ConflictPolicy) :
    (QueueStore.submit b policy 0 (QueueStore.submit a policy 0 MemoryStore.empty).2).1 =
      .ok (match policy with
        | .rejectDuplicate => .kept (.ofCommand a 1 0)
        | .replace => .replaced (.ofCommand a 1 0) (.ofCommand b 2 0)
        | .error => .refused (.ofCommand a 1 0)) := by
  cases policy <;>
    simp [QueueStore.submit, MemoryStore.submit, MemoryStore.find?, MemoryStore.empty,
      MemoryStore.add, MemoryStore.fresh, Record.ofCommand, ConflictPolicy.resolve, h]

/-- A forced submission has the identity of a passive one for its place with the suffix. -/
theorem identity_suffixed {c d : MediaCommand} (h : c.descriptor.tag = d.descriptor.tag)
    {s t : String} (ht : t = s ++ forcedSuffix) :
    (c.queued { forced := true } s).identity = (d.queued {} t).identity := by
  simp [queued, suffix, h, ht]

/-- A forced submission and a passive one for another path: the second hash is dropped in favour of
the first, and the second image takes the place of the first. -/
theorem forced_meets_passive :
    let hash (path : String) : MediaCommand := hashFile ⟨Bytes.ofText path⟩
    let image (dest : String) : MediaCommand := fetchImage ⟨"http://a", Bytes.ofText dest⟩
    ¬ (∀ c d : MediaCommand, ∀ o p, ∀ a b : NewCommand,
      Call.ofDraft server c.draft o = .store a c.descriptor.conflict .first →
      Call.ofDraft server d.draft p = .store b d.descriptor.conflict .first →
      a.identity = b.identity → c.place = d.place ∧ o.forced = p.forced) ∧
    ∃ a b x y : NewCommand,
      Call.ofDraft server (hash "/a").draft { forced := true } =
        .store a .rejectDuplicate .first ∧
      Call.ofDraft server (hash "/a_Forced").draft {} = .store b .rejectDuplicate .first ∧
      (QueueStore.submit b .rejectDuplicate 0
          (QueueStore.submit a .rejectDuplicate 0 MemoryStore.empty).2).1 =
        .ok (.kept (.ofCommand a 1 0)) ∧
      Call.ofDraft server (image "/a").draft { forced := true } = .store x .replace .first ∧
      Call.ofDraft server (image "/a_Forced").draft {} = .store y .replace .first ∧
      (QueueStore.submit y .replace 0 (QueueStore.submit x .replace 0 MemoryStore.empty).2).1 =
        .ok (.replaced (.ofCommand x 1 0) (.ofCommand y 2 0)) := by
  intro hash image
  have hqueued (c : MediaCommand) (s : String) (h : c.place = Bytes.ofText s) (o : SubmitOptions) :
      Call.ofDraft server c.draft o = .store (c.queued o s) c.descriptor.conflict .first :=
    ofDraft_eq offersMedia_classes (h ▸ Bytes.text?_ofText s) o
  have hname : "/a_Forced" = "/a" ++ forcedSuffix := rfl
  have hhash := identity_suffixed (c := hash "/a") (d := hash "/a_Forced") rfl hname
  have himage := identity_suffixed (c := image "/a") (d := image "/a_Forced") rfl hname
  refine ⟨fun hall => ?_, (hash "/a").queued { forced := true } "/a",
    (hash "/a_Forced").queued {} "/a_Forced", (image "/a").queued { forced := true } "/a",
    (image "/a_Forced").queued {} "/a_Forced", hqueued _ _ rfl _, hqueued _ _ rfl _,
    submit_twice hhash .rejectDuplicate, hqueued _ _ rfl _, hqueued _ _ rfl _,
    submit_twice himage .replace⟩
  have hflags := (hall (hash "/a") (hash "/a_Forced") { forced := true } {} _ _ (hqueued _ _ rfl _)
    (hqueued _ _ rfl _) hhash).2
  cases hflags

end MediaCommand

end LaneQueue
