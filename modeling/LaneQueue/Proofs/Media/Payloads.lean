import LaneQueue.Proofs.Json.Records
import LaneQueue.Proofs.Media.Identities
import LaneQueue.Proofs.Scheduler.Dropping
/-!
# Stored commands are read back

The bytes that are stored for a command of the server are read as that command, and whatever bytes are
read as a command, the command is stored and read again as itself (`MediaCommand.reread_payload`,
`MediaCommand.exists_payload_of_reread`). A worker drops a record only if its bytes are no command, so
it never drops a record that was stored for a command of the server.
-/
namespace LaneQueue

open Json (Reader Value Fields)

/-! ## The record around a command -/

namespace Payload

/-- What is stored of a value that a reader takes is read with it. -/
theorem decode_encode {α : Type} {body : Reader α} {v : Value} {a : α} (hv : v.isExact = true)
    (h : body v.tree = .ok a) : decode body (encode v) = .ok a := by
  let members : List (String × Value) := [("v", .nat schemaVersion.toNat), ("body", v)]
  have hexact : (Value.object members).isExact = true := by
    simp [members, Value.isExact, Value.isExact.exactMembers, Value.nat, hv]
  have hdistinct : (Value.members members).Distinct := by
    simp [members, Value.members, Json.Members.Distinct]
  have hspells : (fields body).Spells (Value.members members) (schemaVersion, a) := by
    refine ⟨hdistinct, by simp [members, Value.members, fields], ?_⟩
    have hversion : (Fields.field "v" Reader.word16).Reads (Value.members members) schemaVersion :=
      .member hdistinct 0 rfl (Reader.word16_toNat schemaVersion)
    exact (hversion.map _).seq (.member hdistinct 1 rfl h)
  have hread := Value.read_bytes hexact (r := (fields body).reader) (a := (schemaVersion, a))
    (by rw [Value.tree_object]; exact hspells.reader)
  rw [decode, encode, hread]
  rfl

/-- What is read of some bytes is what the reader of the command takes of a part of them. -/
theorem exists_of_decode {α : Type} {body : Reader α} {bytes : Bytes} {a : α}
    (h : decode body bytes = .ok a) : ∃ t, body t = .ok a := by
  have hfields : (fields body).Yields fun va => ∃ t, body t = .ok va.2 :=
    .seq (P := fun b => ∃ t, body t = .ok b)
      (.map (P := fun _ => True) (fun _ _ _ hb => hb) (.field fun _ => trivial))
      (.field fun hb => ⟨_, hb⟩)
  unfold decode at h
  split at h
  · cases h
  · rename_i v b hread
    split at h
    · cases h
    · obtain rfl := Except.ok.inj h
      exact hfields.reader (Json.reader_of_read hread)

end Payload

theorem Path.reader_text (s : String) : Path.reader (Value.text s).tree = .ok (Bytes.ofText s) := rfl

/-- A path that is read is a text. -/
theorem Path.text?_of_reader {t : Json.Tree} {p : Bytes} (h : Path.reader t = .ok p) :
    ∃ s, p.text? = some s := by
  unfold reader at h
  cases ht : Reader.text t with
  | error e => rw [ht] at h; cases h
  | ok s =>
    rw [ht] at h
    obtain rfl := Except.ok.inj h
    exact ⟨s, Bytes.text?_ofText s⟩

/-- A record that is created for a submission holds the submitted command. -/
theorem Ledger.Submits.toNewCommand_created {l l' : Ledger} {n : NewCommand} {p : ConflictPolicy}
    {now : Instant} {x : Submission} {r : Record} (h : l.Submits n p now (.ok x) l')
    (hr : (Answer.submission x).created? = some r) : r.toNewCommand = n := by
  cases x with
  | inserted y =>
    obtain rfl := Option.some.inj hr
    rw [h.2.1]
    rfl
  | replaced old y =>
    obtain rfl := Option.some.inj hr
    rw [h.2.2.1]
    rfl
  | kept | refused => cases hr

namespace MediaCommand

/-- The command of the same class that some bytes hold. -/
def reread (c : MediaCommand) (bytes : Bytes) : Except PayloadFault MediaCommand :=
  match c with
  | scanFolder _ => (ScanFolder.commands.decode bytes).map scanFolder
  | hashFile _ => (HashFile.commands.decode bytes).map hashFile
  | fetchImage _ => (FetchImage.commands.decode bytes).map fetchImage

theorem decode_registration (c : MediaCommand) (bytes : Bytes) :
    c.registration.decode bytes = (c.reread bytes).map command := by
  cases c <;> simp only [registration, CommandClass.registration, reread]
  · cases ScanFolder.commands.decode bytes <;> rfl
  · cases HashFile.commands.decode bytes <;> rfl
  · cases FetchImage.commands.decode bytes <;> rfl

/-- The only field of a scan and of a hash. -/
theorem reader_path {α : Type} (mk : Bytes → α) (s : String) :
    (mk <$> Fields.field "path" Path.reader).reader (Value.object [("path", .text s)]).tree =
      .ok (mk (Bytes.ofText s)) := by
  have hdistinct : (Value.members [("path", Value.text s)]).Distinct := by
    simp [Value.members, Json.Members.Distinct]
  rw [Value.tree_object]
  refine Fields.Spells.reader ⟨hdistinct, by simp [Value.members], ?_⟩
  exact (Fields.Reads.member hdistinct 0 rfl (Path.reader_text s)).map mk

theorem reader_image (url s : String) :
    FetchImage.commands.reader (Value.object [("url", .text url), ("dest", .text s)]).tree =
      .ok ⟨url, Bytes.ofText s⟩ := by
  have hdistinct : (Value.members [("url", .text url), ("dest", .text s)]).Distinct := by
    simp [Value.members, Json.Members.Distinct]
  have hurl : (Fields.field "url" Reader.text).Reads
      (Value.members [("url", .text url), ("dest", .text s)]) url :=
    .member hdistinct 0 rfl rfl
  rw [Value.tree_object]
  refine Fields.Spells.reader ⟨hdistinct, by simp [Value.members], ?_⟩
  exact (hurl.map FetchImage.mk).seq
    (.member hdistinct 1 rfl (Path.reader_text s))

/-- **What is stored of a command** is read as that command. -/
theorem reread_payload {c : MediaCommand} {s : String} (h : c.place.text? = some s) :
    c.reread (Payload.encode (c.fields s)) = .ok c := by
  have hplace := Bytes.ofText_of_text? h
  cases c with
  | scanFolder c =>
    have hread := Payload.decode_encode (v := (scanFolder c).fields s) rfl
      (reader_path ScanFolder.mk s)
    rw [hplace] at hread
    simp only [reread, CommandClass.decode, ScanFolder.commands, hread]
    rfl
  | hashFile c =>
    have hread := Payload.decode_encode (v := (hashFile c).fields s) rfl (reader_path HashFile.mk s)
    rw [hplace] at hread
    simp only [reread, CommandClass.decode, HashFile.commands, hread]
    rfl
  | fetchImage c =>
    have hread := Payload.decode_encode (v := (fetchImage c).fields s) rfl (reader_image c.url s)
    rw [hplace] at hread
    simp only [reread, CommandClass.decode, hread]
    rfl

/-- Whatever bytes are read, the place of the command is a text, and its class is the one that was
asked for. -/
theorem place_of_reread {c d : MediaCommand} {bytes : Bytes} (h : c.reread bytes = .ok d) :
    (∃ s, d.place.text? = some s) ∧ d.descriptor = c.descriptor ∧ d.reread = c.reread := by
  cases c with
  | scanFolder =>
    simp only [reread] at h
    obtain ⟨x, hx, rfl⟩ := exists_of_map_eq_ok h
    obtain ⟨t, ht⟩ := Payload.exists_of_decode hx
    have hyields : (ScanFolder.mk <$> Fields.field "path" Path.reader).Yields
        fun c => ∃ s, c.path.text? = some s :=
      .map (fun _ hp => hp) (.field Path.text?_of_reader)
    exact ⟨hyields.reader ht, rfl, rfl⟩
  | hashFile =>
    obtain ⟨x, hx, rfl⟩ := exists_of_map_eq_ok h
    obtain ⟨t, ht⟩ := Payload.exists_of_decode hx
    have hyields : (HashFile.mk <$> Fields.field "path" Path.reader).Yields
        fun c => ∃ s, c.path.text? = some s :=
      .map (fun _ hp => hp) (.field Path.text?_of_reader)
    exact ⟨hyields.reader ht, rfl, rfl⟩
  | fetchImage =>
    obtain ⟨x, hx, rfl⟩ := exists_of_map_eq_ok h
    obtain ⟨t, ht⟩ := Payload.exists_of_decode hx
    have hyields : (FetchImage.mk <$> Fields.field "url" Reader.text <*>
        Fields.field "dest" Path.reader).Yields fun c => ∃ s, c.dest.text? = some s :=
      .seq (.map (P := fun _ => True) (fun _ _ _ hp => hp) (.field fun _ => trivial))
        (.field Path.text?_of_reader)
    exact ⟨hyields.reader ht, rfl, rfl⟩

/-- **Whatever bytes are read as a command**, the command is stored and read again as itself. -/
theorem exists_payload_of_reread {c d : MediaCommand} {bytes : Bytes} (h : c.reread bytes = .ok d) :
    ∃ again, d.command.payload = .ok again ∧ c.reread again = .ok d := by
  obtain ⟨⟨s, hs⟩, -, hreread⟩ := place_of_reread h
  exact ⟨_, d.payload_command.trans (payload_draft hs), hreread ▸ reread_payload hs⟩

/-! ## In a scheduler -/

open LawfulStore (ledger)

variable {W : Type} {w : Wiring W} {get : W → Media} {set : Media → W → W}

/-- What a registry makes of a record of a class of the server. -/
theorem decode_eq_ok_iff (hw : w.registry.OffersMedia get set) {c : MediaCommand} {r : Record}
    (hr : r.tag = c.descriptor.tag) {d : Command W} :
    w.registry.decode r = .ok d ↔ ∃ x, c.reread r.payload = .ok x ∧ d = x.command.on get set := by
  have hfind : w.registry.find? r.tag = some (c.registration.on get set) := by
    rw [hr, ← c.descriptor_registration]
    exact hw _ c.registration_mem
  have hdecode : (c.registration.on get set).decode r.payload =
      (c.reread r.payload).map fun x => x.command.on get set := by
    simp only [Registration.on, decode_registration]
    cases c.reread r.payload <;> rfl
  simp only [Registry.decode, hfind, hdecode]
  cases c.reread r.payload with
  | error e => simp [Except.map]
  | ok x => simp [Except.map, eq_comm]

/-- A record of a class of the server that holds the bytes of one of its commands is that command. -/
theorem decode_of_payload (hw : w.registry.OffersMedia get set) {c : MediaCommand} {s : String}
    (hs : c.place.text? = some s) {r : Record} (ht : r.tag = c.descriptor.tag)
    (hp : r.payload = Payload.encode (c.fields s)) :
    w.registry.decode r = .ok (c.command.on get set) :=
  (decode_eq_ok_iff hw ht).2 ⟨c, by rw [hp]; exact reread_payload hs, rfl⟩

/-- **Stored commands are read back.** Take a command of the server whose place is a text, and any
submission of it. Whatever record a store creates for it holds the command's bytes; these are read as
the command again, also by the registry, and the command that is read would be stored as the same bytes;
and in no run of a scheduler is a record with these bytes dropped. Whatever bytes a registry reads as a
command of that class, what is stored of the command is read as the same command. -/
theorem stored_reads_back {σ : Type} [QueueStore σ] [LawfulStore σ] (w : Wiring W)
    (hw : w.registry.OffersMedia get set) (c : MediaCommand) :
    (c.place.text?.isSome → ∀ o : SubmitOptions, ∃ n : NewCommand,
      Call.ofDraft w c.draft o = .store n c.descriptor.conflict .first ∧
      (∀ store : σ, (ledger store).Sound → ∀ now x r,
        (QueueStore.submit n c.descriptor.conflict now store).1 = .ok x →
          (Answer.submission x).created? = some r → r.toNewCommand = n) ∧
      c.reread n.payload = .ok c ∧
      (∀ r : Record, r.tag = n.tag → r.payload = n.payload →
        ∃ d, w.registry.decode r = .ok d ∧ d = c.command.on get set ∧
          d.identity = c.draft.identity ∧ d.description = c.command.description ∧
          d.payload = .ok n.payload) ∧
      ∀ (store : σ) (now : Instant) (world : W) (as : List Action) (s : System σ W),
        (System.init w.config store now world).steps w as = some s →
          s.shared.executions = ((System.init w.config store now world).chronicle w as {}).told ∧
          ∀ x e, (x, Note.told e) ∈ ((System.init w.config store now world).chronicle w as {}).notes →
            x.tag = n.tag → x.payload = n.payload → e.isDrop = false) ∧
    ∀ r : Record, r.tag = c.descriptor.tag → ∀ d, w.registry.decode r = .ok d →
      ∃ x, c.reread r.payload = .ok x ∧ x.descriptor = c.descriptor ∧ d = x.command.on get set ∧
        ∃ again, d.payload = .ok again ∧ c.reread again = .ok x ∧
          ∀ r' : Record, r'.tag = r.tag → r'.payload = again → w.registry.decode r' = .ok d := by
  refine ⟨fun hc o => ?_, fun r hr d hd => ?_⟩
  · obtain ⟨s, hs⟩ := Option.isSome_iff_exists.1 hc
    refine ⟨c.queued o s, ofDraft_eq hw hs o, ?_, reread_payload hs, ?_, ?_⟩
    · intro store hstore now x r hx hr
      have hlaw := LawfulStore.submit hstore (c.queued o s) c.descriptor.conflict now
      rw [hx] at hlaw
      exact Ledger.Submits.toNewCommand_created hlaw hr
    · intro r ht hp
      exact ⟨_, decode_of_payload hw hs ht hp, rfl, c.identity_command, rfl,
        c.payload_command.trans (payload_draft hs)⟩
    · intro store now world as t hrun
      refine ⟨((System.Chronicle.tells_init w.config store now world).steps hrun).told, ?_⟩
      intro x e hx ht hp
      have hdrops := (System.Chronicle.DropsUnread.init (w := w) w.config store now world).steps hrun
      refine Bool.eq_false_iff.2 fun he => ?_
      obtain ⟨f, hf⟩ := hdrops.notes x e hx he
      rw [decode_of_payload hw hs ht hp] at hf
      cases hf
  · obtain ⟨x, hx, rfl⟩ := (decode_eq_ok_iff hw hr).1 hd
    obtain ⟨-, hdesc, hreread⟩ := place_of_reread hx
    obtain ⟨again, hagain, hread⟩ := exists_payload_of_reread hx
    refine ⟨x, hx, hdesc, rfl, again, hagain, hread, fun r' hr' hp' => ?_⟩
    exact (decode_eq_ok_iff hw (hr'.trans hr)).2 ⟨x, hp' ▸ hread, rfl⟩

/-- Quotes, a backslash, controls, and a character beyond the first plane. -/
theorem stored_reads_back_escapes :
    let url := "http://a/?q=\"\\\n"
    let dest := "/é\x01/😀.png"
    let c := fetchImage ⟨url, Bytes.ofText dest⟩
    ∃ n d, Call.ofDraft server c.draft {} = .store n .replace .first ∧
      c.reread n.payload = .ok c ∧ server.registry.decode (.ofCommand n 1 0) = .ok d ∧
      d.identity = "FetchImage:" ++ dest ∧ d.description = "Downloading " ++ url := by
  intro url dest c
  obtain ⟨n, hn, -, hread, hdecode, -⟩ :=
    (stored_reads_back (σ := MemoryStore) server offersMedia_classes c).1 (by simp [c, place]) {}
  obtain ⟨d, hd, -, hid, hdesc, -⟩ := hdecode (.ofCommand n 1 0) rfl rfl
  refine ⟨n, d, hn, hread, hd, ?_, hdesc⟩
  have hshown : c.place.shown = dest := Bytes.shown_of_text? (Bytes.text?_ofText dest)
  rw [hid, identity_draft, hshown]
  rfl

end MediaCommand

end LaneQueue
