import LaneQueue.Scheduler.System
/-!
# What one step does

Every step of a request or of a worker carries out at most one operation on the store, which
`Call.operation?` and `Point.operation?` name; a failure of the medium leaves none. The lemmas here
say what a step does to the store, what else of that which is shared a request changes
(`Call.Changes`), and what becomes of the flags of a start and of the record that a worker has in hand,
so that later proofs need not go through the steps again.
-/
namespace LaneQueue

/-! ## The operation of a step -/

/-- The store after an operation, if there is one. -/
def Operation.after {σ : Type} [QueueStore σ] (op : Option Operation) (now : Instant) (s : σ) : σ :=
  match op with
  | none => s
  | some op => (op.run now s).2

/-- The operation of a storage call with a second try: none during the pause, and none if the medium
fails. -/
def Try.operation? (fault : Option QueueError) (op : Operation) : Try → Option Operation
  | .pause _ => none
  | .first | .second => if fault.isSome then none else some op

/-- The operation of the next step of a request. -/
def Call.operation? (fault : Option QueueError) : Call → Option Operation
  | recover t => t.operation? fault .recover
  | store c p t => t.operation? fault (.submit c p)
  | purge l t => t.operation? fault (.purgeLane l)
  | count l _ t => t.operation? fault (.pendingCount l)
  | _ => none

/-- Whether a request is about to spawn the workers. -/
def Call.isLaunching : Call → Bool
  | recover _ | spawn _ => true
  | _ => false

/-- The record whose claim an operation gives up. -/
def Operation.settled? : Operation → Option Record
  | .retire r | .reschedule r _ _ | .release r => some r
  | _ => none

/-- The operation that settles a record. -/
def Fate.operation (r : Record) (f : Fate) : Operation :=
  match f.retry with
  | none => .retire r
  | some (attempts, readyAt) => .reschedule r attempts readyAt

/-- The operation of the next step of the worker of a lane. Giving up a claim needs no medium. -/
def Point.operation? {W : Type} (l : Lane) (fault : Option QueueError) : Point W → Option Operation
  | claim t => t.operation? fault (.nextEligible l)
  | askWake => Try.first.operation? fault (.nextWakeAt l)
  | asking _ call _ => call.operation? fault
  | settle r f t => t.operation? fault (f.operation r)
  | release r _ => some (.release r)
  | _ => none

namespace Action

/-- The failure that an action meets at the store. -/
def fault? : Action → Option QueueError
  | .advance _ fault | .work _ _ fault => fault
  | .request _ | .tick _ => none

end Action

/-- The operation that an action carries out on the store. -/
def System.operation? {σ W : Type} (s : System σ W) : Action → Option Operation
  | .request _ | .tick _ => none
  | .advance i fault => s.calls[i]?.bind (·.operation? fault)
  | .work l _ fault => (s.workers.get l).operation? l fault

/-! ## Which operations there are -/

theorem Try.operation?_eq_some {fault : Option QueueError} {op x : Operation} {t : Try}
    (h : t.operation? fault op = some x) : x = op ∧ fault = none := by
  unfold Try.operation? at h
  split at h
  · cases h
  all_goals
    split at h
    · cases h
    · rename_i hf
      exact ⟨(Option.some.inj h).symm, by simpa using hf⟩

/-- What a request asks of the store. -/
theorem Call.operation?_cases {c : Call} {fault : Option QueueError} {op : Operation}
    (h : c.operation? fault = some op) : fault = none ∧
      ((op = .recover ∧ c.isLaunching = true) ∨ (∃ d p, op = .submit d p) ∨
        (∃ l, op = .purgeLane l) ∨ ∃ l, op = .pendingCount l) := by
  cases c with
  | recover t =>
    obtain ⟨rfl, hf⟩ := Try.operation?_eq_some h
    exact ⟨hf, .inl ⟨rfl, rfl⟩⟩
  | store d p t =>
    obtain ⟨rfl, hf⟩ := Try.operation?_eq_some h
    exact ⟨hf, .inr (.inl ⟨d, p, rfl⟩)⟩
  | purge l t =>
    obtain ⟨rfl, hf⟩ := Try.operation?_eq_some h
    exact ⟨hf, .inr (.inr (.inl ⟨l, rfl⟩))⟩
  | count l g t =>
    obtain ⟨rfl, hf⟩ := Try.operation?_eq_some h
    exact ⟨hf, .inr (.inr (.inr ⟨l, rfl⟩))⟩
  | start | spawn | submit | announce | wake | pause | resume | announcePause | announceResume |
    announceCleared | snapshot | drain | cancel | gather | await | halt | done => cases h

/-- Only the storing of a command asks for a submission. -/
theorem Call.operation?_eq_submit {c : Call} {fault : Option QueueError} {d : NewCommand}
    {p : ConflictPolicy} (h : c.operation? fault = some (.submit d p)) :
    ∃ t, c = .store d p t ∧ t.operation? fault (.submit d p) = some (.submit d p) := by
  cases c with
  | store d' p' t =>
    have h : t.operation? fault (.submit d' p') = some (.submit d p) := h
    cases (Try.operation?_eq_some h).1
    exact ⟨t, rfl, h⟩
  | recover t | purge l t | count l g t => cases (Try.operation?_eq_some h).1
  | start | spawn | submit | announce | wake | pause | resume | announcePause | announceResume |
    announceCleared | snapshot | drain | cancel | gather | await | halt | done => cases h

/-- A request settles no record. -/
theorem Call.settled?_operation? {c : Call} {fault : Option QueueError} {op : Operation}
    (h : c.operation? fault = some op) : op.settled? = none := by
  obtain ⟨-, ⟨rfl, -⟩ | ⟨d, p, rfl⟩ | ⟨l, rfl⟩ | ⟨l, rfl⟩⟩ := operation?_cases h <;> rfl

theorem Fate.settled?_operation (r : Record) (f : Fate) : (f.operation r).settled? = some r := by
  unfold operation
  split <;> rfl

/-- What a worker asks of the store: a claim, the next instant to wake at, the settlement of the
record in hand, or what its body asks for. -/
theorem Point.operation?_cases {W : Type} {p : Point W} {l : Lane} {fault : Option QueueError}
    {op : Operation} (h : p.operation? l fault = some op) :
    op = .nextEligible l ∨ op = .nextWakeAt l ∨
      (∃ r f t, p = settle r f t ∧ op = f.operation r ∧ fault = none) ∨
      (∃ r f, p = release r f ∧ op = .release r) ∨
      ∃ r c next, p = asking r c next ∧ c.operation? fault = some op := by
  cases p with
  | claim t => exact .inl (Try.operation?_eq_some h).1
  | askWake =>
    change Try.first.operation? fault (.nextWakeAt l) = some op at h
    exact .inr (.inl (Try.operation?_eq_some h).1)
  | settle r f t =>
    obtain ⟨hop, hf⟩ := Try.operation?_eq_some h
    exact .inr (.inr (.inl ⟨r, f, t, rfl, hop, hf⟩))
  | release r f => exact .inr (.inr (.inr (.inl ⟨r, f, rfl, (Option.some.inj h).symm⟩)))
  | asking r c next => exact .inr (.inr (.inr (.inr ⟨r, c, next, rfl, h⟩)))
  | top | readPause | showPaused | paused | claimFailed | showIdle | measure | arm | idle | decode |
    begin | announce | run | collapsed | publish | finish | stop | exited => cases h

/-! ## Storage calls -/

variable {σ W : Type}

namespace Try

variable {α : Type} {config : QueueConfig} {fault : Option QueueError} {call : σ → Result σ α}
  {t : Try} {s s' : Shared σ W} {tried : Tried α}

/-- A step that settles a call with a result has made it, and the medium did not fail. -/
theorem step_ok {a : α} (h : t.step config fault call s = some (.settled (.ok a), s')) :
    (∀ op : Operation, t.operation? fault op = some op) ∧ (call s.store).1 = .ok a ∧
      s' = { s with store := (call s.store).2 } := by
  cases fault with
  | some e =>
    cases t with
    | pause d => simp only [step] at h; split at h <;> cases h
    | second => cases h
    | first => simp only [step, Shared.access] at h; split at h <;> cases h
  | none =>
    cases t with
    | pause d => simp only [step] at h; split at h <;> cases h
    | second =>
      simp only [step, Shared.access, Option.some.injEq, Prod.mk.injEq, Tried.settled.injEq] at h
      exact ⟨fun _ => rfl, h.1, h.2.symm⟩
    | first =>
      simp only [step, Shared.access] at h
      split at h
      · rename_i b hb
        cases h
        exact ⟨fun _ => rfl, hb, rfl⟩
      · split at h <;> cases h

/-- A call that is made and answered is settled with the answer. -/
theorem step_of_ok {op : Operation} (hop : t.operation? fault op = some op) {a : α}
    (ha : (call s.store).1 = .ok a) :
    t.step config fault call s = some (.settled (.ok a), { s with store := (call s.store).2 }) := by
  obtain ⟨-, rfl⟩ := operation?_eq_some hop
  cases t with
  | pause d => cases hop
  | first | second => simp only [step, Shared.access, ha]

/-- A step that does not settle its call with a result has not made it, or the call has failed. -/
theorem step_failed (h : t.step config fault call s = some (tried, s'))
    (hn : ∀ a, tried ≠ .settled (.ok a)) (op : Operation) :
    t.operation? fault op = none ∨ ∃ e, (call s.store).1 = .error e := by
  cases hop : t.operation? fault op with
  | none => exact .inl rfl
  | some x =>
    obtain ⟨rfl, -⟩ := operation?_eq_some hop
    cases ha : (call s.store).1 with
    | error e => exact .inr ⟨e, rfl⟩
    | ok a =>
      rw [step_of_ok hop ha] at h
      cases h
      exact absurd rfl (hn a)

/-- A call waits only for the pause before its second try. -/
theorem step_eq_none (h : t.step config fault call s = none) : ∃ d, t = .pause d ∧ s.now < d := by
  cases t with
  | pause d =>
    refine ⟨d, rfl, ?_⟩
    simpa [step] using h
  | second => cases h
  | first =>
    simp only [step] at h
    split at h
    · cases h
    · split at h <;> cases h

variable [QueueStore σ]

/-- A step changes nothing but the store, and that by the operation of its call. -/
theorem step_shared (h : t.step config fault call s = some (tried, s')) (op : Operation)
    (hop : ∀ store : σ, (op.run s.now store).2 = (call store).2) :
    s' = { s with store := Operation.after (t.operation? fault op) s.now s.store } := by
  cases fault with
  | some e =>
    cases t with
    | pause d => simp only [step] at h; split at h <;> cases h; rfl
    | second => cases h; rfl
    | first => simp only [step, Shared.access] at h; split at h <;> cases h <;> rfl
  | none =>
    cases t with
    | pause d => simp only [step] at h; split at h <;> cases h; rfl
    | second =>
      simp only [step, Shared.access] at h
      cases h
      simp [Operation.after, operation?, hop]
    | first =>
      simp only [step, Shared.access] at h
      split at h
      · cases h
        simp [Operation.after, operation?, hop]
      · split at h <;> cases h <;> simp [Operation.after, operation?, hop]

end Try

/-! ## Requests -/

/-- What only a start and the time change. -/
structure Shared.Steady (s s' : Shared σ W) : Prop where
  now : s'.now = s.now
  started : s'.started = s.started
  spawned : ∀ l, (s'.cell l).spawned = (s.cell l).spawned

namespace Shared.Steady

variable {s s' s'' : Shared σ W}

theorem refl (s : Shared σ W) : Steady s s := ⟨rfl, rfl, fun _ => rfl⟩

theorem trans (h : Steady s s') (h' : Steady s' s'') : Steady s s'' where
  now := h'.now.trans h.now
  started := h'.started.trans h.started
  spawned l := (h'.spawned l).trans (h.spawned l)

theorem modifyCell (s : Shared σ W) (l : Lane) {f : LaneCell → LaneCell}
    (hf : ∀ c, (f c).spawned = c.spawned) : Steady s (s.modifyCell l f) where
  now := rfl
  started := rfl
  spawned m := by
    rw [Shared.cell_modifyCell]
    split
    · exact hf _
    · rfl

theorem setState (s : Shared σ W) (l : Lane) (state : LaneState) : Steady s (s.setState l state) :=
  modifyCell s l fun c => by unfold LaneCell.setState; split <;> rfl

end Shared.Steady

/-- What a step of a request makes of that which is shared. -/
inductive Call.Changes (s : Shared σ W) : Call → Shared σ W → Prop
  | same {c : Call} : Changes s c s
  | stored {c : Call} (store : σ) : Changes s c { s with store := store }
  | started : Changes s .start { s with started := true }
  | spawned (found : PerLane Nat) (handles : List Lane) : Changes s (.spawn found)
      { s with
        lanes := .ofFn fun l => { s.cell l with spawned := true }
        handles := handles }
  | told {c : Call} (l : Lane) (b : EventBody) : Changes s c (s.publish l b)
  | woken {c : Call} (l : Lane) : Changes s c (s.wake l)
  | paused (l : Lane) : Changes s (.pause l) (s.setPaused l true)
  | resumed (l : Lane) : Changes s (.resume l) (s.setPaused l false)
  | shown {c : Call} (l : Lane) (state : LaneState) (h : state.isTerminal = true) :
    Changes s c (s.setState l state)
  | cancelled : Changes s .cancel { s with cancelled := true }
  | gathered : Changes s .gather { s with handles := [] }

namespace Call

variable {w : Wiring W} {fault : Option QueueError} {c c' : Call} {s s' : Shared σ W}

theorem isLaunching_ofSubmission (lane : Lane) (x : Submission) :
    (ofSubmission lane x).isLaunching = false := by
  cases x <;> rfl

theorem isLaunching_ofStatus (x : LaneStatus) (g : StatusGoal) :
    (ofStatus x g).isLaunching = false := by
  match g with
  | .one | .all _ [] | .all _ (_ :: _) => rfl

theorem isLaunching_ofDraft (w : Wiring W) (d : Draft) (o : SubmitOptions) :
    (ofDraft w d o).isLaunching = false := by
  unfold ofDraft
  split
  · rfl
  · split <;> rfl

variable [QueueStore σ]

/-- What a step of a storage call leads to. -/
theorem trying_cases {α : Type} {call : σ → Result σ α} {t : Try} {onward : Try → Call}
    {next : α → Call} (h : trying w fault call t onward next s = some (c', s')) (op : Operation)
    (hop : ∀ store : σ, (op.run s.now store).2 = (call store).2) :
    s' = { s with store := Operation.after (t.operation? fault op) s.now s.store } ∧
      ((∃ t', c' = onward t') ∨
        (∃ a, c' = next a ∧ t.operation? fault op = some op ∧ (call s.store).1 = .ok a) ∨
          ∃ e, c' = done (.failed e)) := by
  unfold trying at h
  split at h
  · cases h
  · rename_i hstep
    cases h
    exact ⟨Try.step_shared hstep op hop, .inl ⟨_, rfl⟩⟩
  · rename_i hstep
    cases h
    obtain ⟨hmade, ha, -⟩ := Try.step_ok hstep
    exact ⟨Try.step_shared hstep op hop, .inr (.inl ⟨_, rfl, hmade op, ha⟩)⟩
  · rename_i hstep
    cases h
    exact ⟨Try.step_shared hstep op hop, .inr (.inr ⟨_, rfl⟩)⟩

/-- **A step of a request** carries out the operation that is named for it. -/
theorem step_store (h : c.step w fault s = some (c', s')) :
    s'.store = Operation.after (c.operation? fault) s.now s.store := by
  cases c with
  | recover t =>
    rw [(trying_cases h .recover fun _ => rfl).1]
    rfl
  | store d p t =>
    rw [(trying_cases h (.submit d p) fun _ => rfl).1]
    rfl
  | purge l t =>
    rw [(trying_cases h (.purgeLane l) fun _ => rfl).1]
    rfl
  | count l g t =>
    rw [(trying_cases h (.pendingCount l) fun _ => rfl).1]
    rfl
  | start =>
    simp only [step] at h
    split at h <;> cases h <;> rfl
  | drain ls | halt ls => cases ls <;> cases h <;> rfl
  | await ls t =>
    simp only [step] at h
    split at h <;> cases h
    rfl
  | done => cases h
  | spawn | submit | announce | wake | pause | resume | announcePause | announceResume |
    announceCleared | snapshot | cancel | gather => cases h; rfl

/-- **What a step of a request changes**: one thing at most, and what it shows of a lane is that the lane
shuts down. -/
theorem step_changes (h : c.step w fault s = some (c', s')) : c.Changes s s' := by
  cases c with
  | recover t => rw [(trying_cases h .recover fun _ => rfl).1]; exact .stored _
  | store d p t => rw [(trying_cases h (.submit d p) fun _ => rfl).1]; exact .stored _
  | purge l t => rw [(trying_cases h (.purgeLane l) fun _ => rfl).1]; exact .stored _
  | count l g t => rw [(trying_cases h (.pendingCount l) fun _ => rfl).1]; exact .stored _
  | start =>
    simp only [step] at h
    split at h
    · cases h; exact .same
    · cases h; exact .started
  | spawn found => cases h; exact .spawned found _
  | announce l b o => cases h; exact .told l b
  | announcePause l => cases h; exact .told l .lanePaused
  | announceResume l => cases h; exact .told l .laneResumed
  | announceCleared l n => cases h; exact .told l (.laneCleared (.ofNat n))
  | wake l r => cases h; exact .woken l
  | pause l => cases h; exact .paused l
  | resume l => cases h; exact .resumed l
  | drain ls =>
    cases ls with
    | nil => cases h; exact .same
    | cons l ls => cases h; exact .shown l .draining rfl
  | halt ls =>
    cases ls with
    | nil => cases h; exact .same
    | cons l ls => cases h; exact .shown l .stopped rfl
  | cancel => cases h; exact .cancelled
  | gather => cases h; exact .gathered
  | await ls t =>
    simp only [step] at h
    split at h <;> cases h
    exact .same
  | done => cases h
  | submit | snapshot => cases h; exact .same

/-- What a step of a request does to the flags of a start: nothing, unless it is one that asks for
the start or spawns the workers. -/
theorem step_flags (h : c.step w fault s = some (c', s')) :
    (Shared.Steady s s' ∧ (c'.isLaunching → c.isLaunching)) ∨
      (c = start ∧ s.started = false ∧ s' = { s with started := true }) ∨
      (c.isLaunching ∧ c'.isLaunching = false ∧ s'.now = s.now ∧ s'.started = s.started) := by
  cases c with
  | recover t =>
    obtain ⟨hs, -⟩ := trying_cases h .recover fun _ => rfl
    refine .inl ⟨?_, fun _ => rfl⟩
    rw [hs]
    exact ⟨rfl, rfl, fun _ => rfl⟩
  | store d p t =>
    obtain ⟨hs, hc⟩ := trying_cases h (.submit d p) fun _ => rfl
    refine .inl ⟨?_, ?_⟩
    · rw [hs]
      exact ⟨rfl, rfl, fun _ => rfl⟩
    · rcases hc with ⟨t', rfl⟩ | ⟨a, rfl, -⟩ | ⟨e, rfl⟩
      · exact id
      · simp [isLaunching_ofSubmission]
      · exact nofun
  | purge l t =>
    obtain ⟨hs, hc⟩ := trying_cases h (.purgeLane l) fun _ => rfl
    refine .inl ⟨?_, ?_⟩
    · rw [hs]
      exact ⟨rfl, rfl, fun _ => rfl⟩
    · rcases hc with ⟨t', rfl⟩ | ⟨a, rfl, -⟩ | ⟨e, rfl⟩ <;> exact nofun
  | count l g t =>
    obtain ⟨hs, hc⟩ := trying_cases h (.pendingCount l) fun _ => rfl
    refine .inl ⟨?_, ?_⟩
    · rw [hs]
      exact ⟨rfl, rfl, fun _ => rfl⟩
    · rcases hc with ⟨t', rfl⟩ | ⟨a, rfl, -⟩ | ⟨e, rfl⟩ <;> exact nofun
  | start =>
    simp only [step] at h
    split at h
    · cases h
      exact .inl ⟨.refl s, nofun⟩
    · rename_i hn
      cases h
      exact .inr (.inl ⟨rfl, by simpa using hn, rfl⟩)
  | spawn => cases h; exact .inr (.inr ⟨rfl, rfl, rfl, rfl⟩)
  | submit d o =>
    cases h
    exact .inl ⟨.refl s, by simp [isLaunching_ofDraft]⟩
  | snapshot l n g =>
    cases h
    exact .inl ⟨.refl s, by simp [isLaunching_ofStatus]⟩
  | wake l r =>
    cases h
    exact .inl ⟨.modifyCell s l fun _ => rfl, nofun⟩
  | pause l =>
    cases h
    exact .inl ⟨.modifyCell s l fun _ => rfl, by split <;> exact nofun⟩
  | resume l =>
    cases h
    exact .inl ⟨.modifyCell s l fun _ => rfl, by split <;> exact nofun⟩
  | drain ls | halt ls =>
    cases ls with
    | nil => cases h; exact .inl ⟨⟨rfl, rfl, fun _ => rfl⟩, nofun⟩
    | cons l ls => cases h; exact .inl ⟨.setState s l _, nofun⟩
  | await ls t =>
    simp only [step] at h
    split at h <;> cases h
    exact .inl ⟨.refl s, nofun⟩
  | done => cases h
  | announce | announcePause | announceResume | announceCleared | cancel | gather =>
    cases h
    exact .inl ⟨⟨rfl, rfl, fun _ => rfl⟩, nofun⟩

/-- The workers are about to be spawned only after a recovery. -/
theorem step_toSpawn {found : PerLane Nat} (h : c.step w fault s = some (spawn found, s')) :
    c.operation? fault = some .recover := by
  cases c with
  | recover t =>
    obtain ⟨-, ⟨t', hc⟩ | ⟨a, -, hop, -⟩ | ⟨e, hc⟩⟩ := trying_cases h .recover fun _ => rfl
    · cases hc
    · exact hop
    · cases hc
  | spawn | done => cases h
  | start =>
    simp only [step] at h
    split at h <;> cases h
  | store | purge | count | submit | announce | wake | pause | resume | announcePause |
    announceResume | announceCleared | snapshot | drain | cancel | gather | await | halt =>
    rcases step_flags h with ⟨-, himp⟩ | ⟨hc, -⟩ | ⟨hl, -⟩
    · cases himp rfl
    · cases hc
    · cases hl

/-- Only one step spawns workers. -/
theorem step_spawned (h : c.step w fault s = some (c', s')) {l : Lane}
    (hl : (s'.cell l).spawned = true) :
    (s.cell l).spawned = true ∨ ∃ found, c = spawn found := by
  rcases step_flags h with ⟨hsteady, -⟩ | ⟨-, -, rfl⟩ | ⟨hlaunch, -⟩
  · exact .inl ((hsteady.spawned l).symm.trans hl)
  · exact .inl hl
  · cases c with
    | spawn found => exact .inr ⟨found, rfl⟩
    | recover t =>
      obtain ⟨hs, -⟩ := trying_cases h .recover fun _ => rfl
      rw [hs] at hl
      exact .inl hl
    | start | store | purge | count | submit | announce | wake | pause | resume | announcePause |
      announceResume | announceCleared | snapshot | drain | cancel | gather | await | halt | done =>
      cases hlaunch

end Call

/-! ## Workers -/

namespace Point

/-- The record that a worker has in hand. -/
def record? : Point W → Option Record
  | decode r | begin r _ | announce r _ | run r _ | asking r _ _ | settle r _ _ | collapsed r |
    release r _ => some r
  | _ => none

/-- The request that a body waits for. -/
def request? : Point W → Option Call
  | asking _ c _ => some c
  | _ => none

variable {w : Wiring W} {l : Lane} {signal : Signal} {fault : Option QueueError} {p p' : Point W}
  {s s' : Shared σ W}

/-- Only a worker that is about to claim asks its store for a record, and for one of its lane. -/
theorem operation?_eq_nextEligible {m : Lane} (h : p.operation? l fault = some (.nextEligible m)) :
    m = l ∧ ∃ t, p = claim t ∧ t.operation? fault (.nextEligible l) = some (.nextEligible l) := by
  cases p with
  | claim t =>
    have hop := (Try.operation?_eq_some h).1
    cases hop
    exact ⟨rfl, t, rfl, h⟩
  | askWake =>
    change Try.first.operation? fault (.nextWakeAt l) = _ at h
    cases (Try.operation?_eq_some h).1
  | settle r f t =>
    have hset := Fate.settled?_operation r f
    rw [← (Try.operation?_eq_some h).1] at hset
    cases hset
  | asking r c next =>
    obtain ⟨-, ⟨hop, -⟩ | ⟨d, q, hop⟩ | ⟨k, hop⟩ | ⟨k, hop⟩⟩ := Call.operation?_cases h <;> cases hop
  | release r f => cases h
  | top | readPause | showPaused | paused | claimFailed | showIdle | measure | arm | idle | decode |
    begin | announce | run | collapsed | publish | finish | stop | exited => cases h

theorem wait_cases {signals : List Signal} {deadline : Option Instant}
    (h : wait l signals deadline signal s = some (p', s')) :
    signal.isReady s l deadline = true ∧ s'.store = s.store ∧ Shared.Steady s s' ∧
      (p' = stop ∧ signal = .cancellation ∨ p' = top) := by
  unfold wait at h
  split at h
  · rename_i hr
    simp only [Bool.and_eq_true] at hr
    cases signal with
    | cancellation => cases h; exact ⟨hr.2, rfl, .refl s, .inl ⟨rfl, rfl⟩⟩
    | permit => cases h; exact ⟨hr.2, rfl, .modifyCell s l fun _ => rfl, .inr rfl⟩
    | flag => cases h; exact ⟨hr.2, rfl, .modifyCell s l fun _ => rfl, .inr rfl⟩
    | timer => cases h; exact ⟨hr.2, rfl, .refl s, .inr rfl⟩
  · cases h

theorem conclude_cases {r : Record} {f : Fate} (h : conclude l r f s = (p', s')) :
    (f.isDated = true ∧ p' = settle r f .first ∧ s' = s) ∨
      (f.isDated = false ∧ p' = collapsed r ∧
        s' = s.modifyCell l fun c => { c with exited := true }) := by
  unfold conclude at h
  split at h
  · rename_i hd
    cases h
    exact .inl ⟨hd, rfl, rfl⟩
  · rename_i hd
    cases h
    exact .inr ⟨by simpa using hd, rfl, rfl⟩

theorem runBody_cases {r : Record} {b : Body W} (h : runBody w l r s b = some (p', s')) :
    s'.store = s.store ∧ Shared.Steady s s' ∧
      ((∃ f, b = .done f ∧ p' = settle r (.ofOutcome w.config.retry s.now r f.toOutcome) .first) ∨
        p' = collapsed r ∨ (∃ b', p' = run r b') ∨
        ∃ request next, p' = asking r (.ofRequest request) next) := by
  cases b with
  | done f =>
    obtain ⟨-, rfl, rfl⟩ | ⟨-, rfl, rfl⟩ := conclude_cases (Option.some.inj h)
    · exact ⟨rfl, .refl _, .inl ⟨f, rfl, rfl⟩⟩
    · exact ⟨rfl, .modifyCell s l fun _ => rfl, .inr (.inl rfl)⟩
  | act effect next => cases h; exact ⟨rfl, ⟨rfl, rfl, fun _ => rfl⟩, .inr (.inr (.inl ⟨_, rfl⟩))⟩
  | ask request next => cases h; exact ⟨rfl, .refl s, .inr (.inr (.inr ⟨_, _, rfl⟩))⟩
  | await effect? next =>
    obtain ⟨world, -, hw⟩ := Option.map_eq_some_iff.1 h
    cases hw
    exact ⟨rfl, ⟨rfl, rfl, fun _ => rfl⟩, .inr (.inr (.inl ⟨_, rfl⟩))⟩

variable [QueueStore σ]

/-- What a body that has come to its end leads to. -/
theorem done_cases {r : Record} {f : Finish}
    (h : (run r (.done f) : Point W).step w l signal fault s = some (p', s')) :
    let fate := Fate.ofOutcome w.config.retry s.now r f.toOutcome
    (fate.isDated = true ∧ p' = settle r fate .first ∧ s' = s) ∨
      (fate.isDated = false ∧ p' = collapsed r ∧
        s' = s.modifyCell l fun c => { c with exited := true }) :=
  conclude_cases (Option.some.inj h)

theorem run_operation (r : Record) (f : Fate) (now : Instant) (store : σ) :
    ((f.operation r).run now store).2 = (settling r f store).2 := by
  obtain ⟨retry, event⟩ := f
  cases retry <;> rfl

/-- What a claim leads to. -/
theorem claim_cases {t : Try} (h : (claim t : Point W).step w l signal fault s = some (p', s')) :
    s' = { s with store := Operation.after (t.operation? fault (.nextEligible l)) s.now s.store } ∧
      ((∃ t', p' = claim t') ∨ (∃ d, p' = claimFailed d) ∨
        ∃ r, (QueueStore.nextEligible l s.now s.store).1 = .ok r ∧
          t.operation? fault (.nextEligible l) = some (.nextEligible l) ∧
          p' = r.elim showIdle decode) := by
  simp only [step] at h
  split at h
  · cases h
  · rename_i hstep
    cases h
    exact ⟨Try.step_shared hstep (.nextEligible l) fun _ => rfl, .inl ⟨_, rfl⟩⟩
  · rename_i r _ hstep
    cases h
    obtain ⟨hop, ha, -⟩ := Try.step_ok hstep
    exact ⟨Try.step_shared hstep (.nextEligible l) fun _ => rfl, .inr (.inr ⟨some r, ha, hop _, rfl⟩)⟩
  · rename_i hstep
    cases h
    obtain ⟨hop, ha, -⟩ := Try.step_ok hstep
    exact ⟨Try.step_shared hstep (.nextEligible l) fun _ => rfl, .inr (.inr ⟨none, ha, hop _, rfl⟩)⟩
  · rename_i hstep
    cases h
    exact ⟨Try.step_shared hstep (.nextEligible l) fun _ => rfl, .inr (.inl ⟨_, rfl⟩)⟩

/-- What the settlement of a record leads to. -/
theorem settle_cases {r : Record} {f : Fate} {t : Try}
    (h : (settle r f t : Point W).step w l signal fault s = some (p', s')) :
    s' = { s with store := Operation.after (t.operation? fault (f.operation r)) s.now s.store } ∧
      ((∃ t', p' = settle r f t') ∨
        (p' = publish r.lane f.event ∧ t.operation? fault (f.operation r) = some (f.operation r)) ∨
        p' = release r f) := by
  simp only [step] at h
  split at h
  · cases h
  · rename_i hstep
    cases h
    exact ⟨Try.step_shared hstep _ (run_operation r f s.now), .inl ⟨_, rfl⟩⟩
  · rename_i hstep
    cases h
    exact ⟨Try.step_shared hstep _ (run_operation r f s.now),
      .inr (.inl ⟨rfl, (Try.step_ok hstep).1 _⟩)⟩
  · rename_i hstep
    cases h
    exact ⟨Try.step_shared hstep _ (run_operation r f s.now), .inr (.inr rfl)⟩

/-- A settlement that does not succeed has not been made, or its call has failed. -/
theorem settle_failed {r : Record} {f : Fate} {t : Try}
    (h : (settle r f t : Point W).step w l signal fault s = some (p', s'))
    (hp : p'.record? = some r) :
    t.operation? fault (f.operation r) = none ∨
      ∃ e, ((f.operation r).run s.now s.store).1 = .error e := by
  have hfail : ∀ e, (settling r f s.store).1 = .error e →
      ∃ e, ((f.operation r).run s.now s.store).1 = .error e := by
    intro e he
    obtain ⟨retry, event⟩ := f
    cases retry <;> exact ⟨e, congrArg (Except.map _) he⟩
  simp only [step] at h
  split at h
  · cases h
  · rename_i hstep
    exact (Try.step_failed hstep (fun _ hx => by cases hx) _).imp id fun ⟨e, he⟩ => hfail e he
  · cases h
    cases hp
  · rename_i hstep
    exact (Try.step_failed hstep (fun _ hx => by cases hx) _).imp id fun ⟨e, he⟩ => hfail e he

/-- What a body that waits for a request comes to. -/
theorem asking_cases {r : Record} {c : Call} {next : Reply → Body W}
    (h : (asking r c next : Point W).step w l signal fault s = some (p', s')) :
    (s' = s ∧ c.operation? fault = none ∧ ∃ b, p' = run r b) ∨
      ∃ c', c.step w fault s = some (c', s') ∧ p' = asking r c' next := by
  simp only [step] at h
  split at h
  · rename_i reply hr
    cases h
    cases c <;> cases hr
    exact .inl ⟨rfl, rfl, _, rfl⟩
  · obtain ⟨⟨c', x⟩, hc, hp⟩ := Option.map_eq_some_iff.1 h
    cases hp
    exact .inr ⟨c', hc, rfl⟩

/-- **A step of a worker** carries out the operation that is named for it. -/
theorem step_store (h : p.step w l signal fault s = some (p', s')) :
    s'.store = Operation.after (p.operation? l fault) s.now s.store := by
  cases p with
  | claim t => rw [(claim_cases h).1]; rfl
  | settle r f t => rw [(settle_cases h).1]; rfl
  | asking r c next =>
    rcases asking_cases h with ⟨rfl, hop, -⟩ | ⟨c', hc, -⟩
    · simp only [operation?, hop]
      rfl
    · exact Call.step_store hc
  | askWake =>
    have hstore : s'.store = s.store := by
      simp only [step] at h
      split at h <;> cases h <;> rfl
    rw [hstore]
    cases fault <;> rfl
  | decode r =>
    simp only [step] at h
    split at h <;> cases h <;> rfl
  | run r b => exact (runBody_cases h).1
  | paused | idle | claimFailed => exact (wait_cases h).2.1
  | collapsed | exited => cases h
  | top | readPause | showPaused | showIdle | measure | arm | begin | announce | release | publish |
    finish | stop => cases h; rfl

/-- A claim that is answered with a record puts it into the hand of the worker. -/
theorem step_claim_of_ok {t : Try} (hop : t.operation? fault (.nextEligible l) = some (.nextEligible l))
    {r : Record} (hr : (QueueStore.nextEligible l s.now s.store).1 = .ok (some r)) :
    (claim t : Point W).step w l signal fault s =
      some (decode r, { s with store := (QueueStore.nextEligible l s.now s.store).2 }) := by
  simp only [step, Try.step_of_ok hop hr]

end Point

end LaneQueue
