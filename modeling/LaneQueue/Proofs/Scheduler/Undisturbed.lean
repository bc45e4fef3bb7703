import LaneQueue.Proofs.Scheduler.Story
/-!
# Runs that only work off what is stored

If nobody submits a command or clears a lane, neither a client nor a body, and every body succeeds,
then no record is displaced and none is repeated: rows only disappear, each by its settlement. So the
story of a stored record is one execution, repeated as long as its settlement fails
(`System.Outlasts`).
-/
namespace LaneQueue

/-- A request that neither submits a command nor clears a lane. -/
def Request.isQuiet : Request → Bool
  | .submit .. | .clear _ => false
  | .start | .pause _ | .resume _ | .status _ | .statusAll | .shutdown => true

/-- A client's action that brings no other request. -/
def Action.isQuiet : Action → Bool
  | .request r => r.isQuiet
  | .advance .. | .work .. | .tick _ => true

/-- A request under way that will neither store a command nor clear a lane. -/
def Call.isQuiet : Call → Bool
  | submit .. | store .. | purge .. => false
  | _ => true

/-- The body succeeds, whatever the world is and whatever it is answered, with quiet requests only. -/
def Body.Succeeds {W : Type} : Body W → Prop
  | done f => f.toOutcome = .success
  | act _ next => ∀ world, (next world).Succeeds
  | ask r next => r.isQuiet = true ∧ ∀ reply, (next reply).Succeeds
  | await _ next => next.Succeeds

/-- So does the body of every record that can be read. -/
def Registry.Succeeds {W : Type} (g : Registry W) : Prop :=
  ∀ r c, g.decode r = .ok c → ∀ e, (c.body e).Succeeds

theorem Registry.Succeeds.of_registrations {W : Type} {g : Registry W}
    (h : ∀ k ∈ g.registrations, ∀ bytes c, k.decode bytes = .ok c → ∀ e, (c.body e).Succeeds) :
    g.Succeeds := by
  intro r c hc
  unfold decode at hc
  split at hc
  · cases hc
  · rename_i k hk
    split at hc
    · rename_i c' hc'
      cases hc
      exact h k (List.mem_of_find?_eq_some hk) _ _ hc'
    · cases hc

namespace Call

theorem isQuiet_ofRequest {r : Request} (h : r.isQuiet = true) : (ofRequest r).isQuiet = true := by
  cases r with
  | submit | clear => cases h
  | start | pause | resume | status | statusAll | shutdown => rfl

theorem isQuiet_ofStatus (x : LaneStatus) (g : StatusGoal) : (ofStatus x g).isQuiet = true := by
  match g with
  | .one | .all _ [] | .all _ (_ :: _) => rfl

/-- It asks the store for nothing but a recovery or a count. -/
theorem operation?_of_isQuiet {c : Call} (hc : c.isQuiet = true) {fault : Option QueueError}
    {op : Operation} (h : c.operation? fault = some op) : op = .recover ∨ ∃ l, op = .pendingCount l := by
  cases c with
  | recover t => exact .inl (Try.operation?_eq_some h).1
  | count l g t => exact .inr ⟨l, (Try.operation?_eq_some h).1⟩
  | submit | store | purge => cases hc
  | start | spawn | announce | wake | pause | resume | announcePause | announceResume |
    announceCleared | snapshot | drain | cancel | gather | await | halt | done => cases h

variable {σ W : Type} [QueueStore σ] {w : Wiring W} {fault : Option QueueError} {s s' : Shared σ W}

theorem isQuiet_step {c c' : Call} (h : c.step w fault s = some (c', s')) (hc : c.isQuiet = true) :
    c'.isQuiet = true := by
  cases c with
  | submit | store | purge => cases hc
  | recover t =>
    obtain ⟨-, ⟨t', rfl⟩ | ⟨a, rfl, -⟩ | ⟨e, rfl⟩⟩ := trying_cases h .recover fun _ => rfl <;> rfl
  | count l g t =>
    obtain ⟨-, ⟨t', rfl⟩ | ⟨a, rfl, -⟩ | ⟨e, rfl⟩⟩ :=
      trying_cases h (.pendingCount l) fun _ => rfl <;> rfl
  | start =>
    simp only [step] at h
    split at h <;> cases h <;> rfl
  | snapshot l n g => cases h; exact isQuiet_ofStatus _ _
  | pause l | resume l => cases h; split <;> rfl
  | drain ls | halt ls => cases ls <;> cases h <;> rfl
  | await ls t =>
    simp only [step] at h
    split at h <;> cases h
    rfl
  | done => cases h
  | spawn | announce | wake | announcePause | announceResume | announceCleared | cancel | gather =>
    cases h
    rfl

end Call

namespace Point

variable {σ W : Type} {w : Wiring W}

/-- A worker that goes on to succeed with the record in hand, or to remove it. -/
def Succeeds : Point W → Prop
  | begin _ c | announce _ c => ∀ e, (c.body e).Succeeds
  | run _ b => b.Succeeds
  | asking _ d next => d.isQuiet = true ∧ ∀ reply, (next reply).Succeeds
  | settle _ f _ | release _ f => f.retry = none
  | collapsed _ => False
  | _ => True

/-- Then it asks the store only for what removes rows or leaves them alone. -/
theorem operation?_of_succeeds {p : Point W} (hp : p.Succeeds) {l : Lane} {fault : Option QueueError}
    {op : Operation} (h : p.operation? l fault = some op) :
    op = .nextEligible l ∨ op = .nextWakeAt l ∨ (∃ r, op = .retire r) ∨ (∃ r, op = .release r) ∨
      op = .recover ∨ ∃ m, op = .pendingCount m := by
  rcases operation?_cases h with hop | hop | ⟨r, f, t, rfl, rfl, -⟩ | ⟨r, f, rfl, rfl⟩ |
    ⟨r, c, next, rfl, hop⟩
  · exact .inl hop
  · exact .inr (.inl hop)
  · have hf : f.retry = none := hp
    unfold Fate.operation
    rw [hf]
    exact .inr (.inr (.inl ⟨r, rfl⟩))
  · exact .inr (.inr (.inr (.inl ⟨r, rfl⟩)))
  · exact .inr (.inr (.inr (.inr (Call.operation?_of_isQuiet hp.1 hop))))

variable [QueueStore σ] {l : Lane} {signal : Signal} {fault : Option QueueError} {p p' : Point W}
  {s s' : Shared σ W}

theorem succeeds_step (h : p.step w l signal fault s = some (p', s')) (hw : w.registry.Succeeds)
    (hp : p.Succeeds) : p'.Succeeds := by
  cases step_moves h with
  | accept r c hc => exact hw r c hc
  | reject => exact rfl
  | settleAgain | giveUp | begin => exact hp
  | execute r c => exact hp _
  | act => exact hp s.world
  | await => exact hp
  | ask r request next => exact ⟨Call.isQuiet_ofRequest hp.1, hp.2⟩
  | proceed r d d' next hd =>
    obtain ⟨⟨d', x⟩, hstep, rfl⟩ := Option.map_eq_some_iff.1 hd
    exact ⟨Call.isQuiet_step hstep hp.1, hp.2⟩
  | hear r d next reply => exact hp.2 reply
  | finish r f =>
    have hf : f.toOutcome = .success := hp
    rw [hf]
    rfl
  | collapse r f hd =>
    have hf : f.toOutcome = .success := hp
    rw [hf] at hd
    cases hd
  | look | leave | hold | pass | park | cancel | rouse | claimAgain | claimFails | findNone | find |
    rest | learn | refuse | measure | sleep | settled | release | publish | again | exit => trivial

/-- And it notes no end of a body but success. -/
theorem eq_success_of_note? (hp : p.Succeeds) {o : Outcome} (h : p.note? = some (.ended o)) :
    o = .success := by
  cases p with
  | run r b =>
    cases b with
    | done f => cases h; exact hp
    | act | ask | await => cases h
  | announce | release | publish => cases h
  | top | readPause | showPaused | paused | claim | claimFailed | showIdle | askWake | measure | arm |
    idle | decode | begin | asking | settle | collapsed | finish | stop | exited => cases h

end Point

/-! ## The rows of an undisturbed run -/

/-- Whether an operation adds no row and changes none. -/
def Operation.isRemoving : Operation → Bool
  | .insert _ | .submit .. | .reschedule .. => false
  | _ => true

theorem Ledger.Edit.mem_rows_of_isRemoving {l l' : Ledger} {now : Instant} {op : Operation}
    (h : l.Edit now op l') (hop : op.isRemoving = true) {row : Row} (hr : row ∈ l'.rows) :
    row ∈ l.rows := by
  cases h with
  | insert | submit | replace | postpone => cases hop
  | delete | remove | purge => exact List.mem_of_mem_filter hr
  | same | claim | keep | leave | release | recover => exact hr

namespace System

open LawfulStore (ledger)

variable {σ W : Type} {w : Wiring W} {s s' s₀ : System σ W} {c c₀ : Chronicle} {a : Action}
  {l : Lane} {r : Record}

/-- Nobody is about to store a command or to clear a lane, and every worker goes on to succeed. -/
structure Undisturbed (s : System σ W) : Prop where
  calls : ∀ d ∈ s.calls, d.isQuiet = true
  workers : ∀ l, (s.workers.get l).Succeeds

namespace Undisturbed

theorem init (config : QueueConfig) (store : σ) (now : Instant) (world : W) :
    (System.init config store now world).Undisturbed where
  calls d hd := by cases hd
  workers l := by
    simp only [System.init, PerLane.get_ofFn]
    trivial

/-- Nothing is asked of the store that could displace a record, or store one. -/
theorem operation? (h : s.Undisturbed) {op : Operation} (hop : s.operation? a = some op) :
    op.mayDisplace = false ∧ op.isRemoving = true := by
  cases a with
  | request | tick => cases hop
  | advance i fault =>
    obtain ⟨d, hd, hop⟩ := Option.bind_eq_some_iff.1 hop
    rcases Call.operation?_of_isQuiet (h.calls d (List.mem_of_getElem? hd)) hop with rfl | ⟨m, rfl⟩ <;>
      exact ⟨rfl, rfl⟩
  | work m signal fault =>
    rcases Point.operation?_of_succeeds (h.workers m) hop with rfl | rfl | ⟨x, rfl⟩ | ⟨x, rfl⟩ | rfl |
      ⟨k, rfl⟩ <;> exact ⟨rfl, rfl⟩

variable [QueueStore σ]

theorem step (h : s.Undisturbed) (hw : w.registry.Succeeds) (ha : a.isQuiet = true)
    (hstep : s.step w a = some s') : s'.Undisturbed where
  workers l := by
    rcases step_worker hstep l with heq | ⟨signal, fault, -, hown⟩
    · exact heq ▸ h.workers l
    · exact Point.succeeds_step hown hw (h.workers l)
  calls d hd := by
    cases a with
    | tick => cases hstep; exact h.calls d hd
    | request r =>
      cases hstep
      rcases List.mem_append.1 hd with hd | hd
      · exact h.calls d hd
      · rw [List.mem_singleton.1 hd]
        exact Call.isQuiet_ofRequest ha
    | work m signal fault =>
      obtain ⟨p, x, -, -, rfl⟩ := work_cases hstep
      exact h.calls d hd
    | advance i fault =>
      obtain ⟨e, e', x, he, hcall, rfl⟩ := advance_cases hstep
      rcases List.mem_or_eq_of_mem_set hd with hd | rfl
      · exact h.calls d hd
      · exact Call.isQuiet_step hcall (h.calls e (List.mem_of_getElem? he))

theorem steps (h : s₀.Undisturbed) (hw : w.registry.Succeeds) {as : List Action}
    (has : ∀ a ∈ as, a.isQuiet = true) (hrun : s₀.steps w as = some s) : s.Undisturbed := by
  refine steps_induction_forall (P := fun _ t => t.Undisturbed) h ?_ has hrun
  intro as a t t' _ _ ha ih hstep
  exact ih.step hw ha hstep

/-- No body is noted to have ended but with success. -/
theorem eq_success_of_ended (h : s₀.Undisturbed) (hw : w.registry.Succeeds) (hc : c₀.notes = [])
    {as : List Action} (has : ∀ a ∈ as, a.isQuiet = true) (hrun : s₀.steps w as = some s) {q : Int}
    {o : Outcome} (ho : .ended o ∈ (s₀.chronicle w as c₀).about q) : o = .success := by
  have hind := steps_induction_forall (w := w) (P := fun as _ =>
    ∀ x, (x, .ended o) ∈ (s₀.chronicle w as c₀).notes → o = .success) ?_ ?_ has hrun
  · obtain ⟨⟨x, n⟩, hn, hno⟩ := List.mem_filterMap.1 ho
    simp only [Option.ite_none_right_eq_some, Option.some.injEq] at hno
    exact hind x (hno.2 ▸ hn)
  · intro x hx
    simp [chronicle, hc] at hx
  · intro as a t t' ht hbefore _ ih hstep x hx
    rw [chronicle_snoc ht hstep] at hx
    rcases List.mem_append.1 hx with hx | hx
    · exact ih x hx
    · obtain ⟨l, -, -, hnote⟩ := Chronicle.noted?_eq_some (Option.mem_toList.1 hx)
      exact Point.eq_success_of_note? ((h.steps hw hbefore ht).workers l) hnote

variable [LawfulStore σ]

theorem rows_step (h : s.Undisturbed) (htidy : s.Tidy) (hstep : s.step w a = some s') {row : Row}
    (hrow : row ∈ (ledger s'.shared.store).rows) : row ∈ (ledger s.shared.store).rows := by
  rw [step_store hstep] at hrow
  cases hop : s.operation? a with
  | none =>
    rw [hop] at hrow
    exact hrow
  | some op =>
    rw [hop] at hrow
    exact (LawfulStore.edit_run htidy.sound op _).mem_rows_of_isRemoving (h.operation? hop).2 hrow

/-- Before any worker has been spawned all rows stay. -/
theorem rows_unspawned (h : s.Undisturbed) (htidy : s.Tidy)
    (hno : ∀ l, (s.shared.cell l).spawned = false) (hstep : s.step w a = some s') :
    (ledger s'.shared.store).rows = (ledger s.shared.store).rows := by
  rw [step_store hstep]
  cases a with
  | request | tick => rfl
  | work m signal fault =>
    obtain ⟨p, x, hsp, -, -⟩ := work_cases hstep
    rw [hno m] at hsp
    cases hsp
  | advance i fault =>
    cases hop : s.operation? (.advance i fault) with
    | none => rfl
    | some op =>
      obtain ⟨d, hd, hop⟩ := Option.bind_eq_some_iff.1 hop
      rcases Call.operation?_of_isQuiet (h.calls d (List.mem_of_getElem? hd)) hop with rfl | ⟨m, rfl⟩
      · obtain ⟨q, -, hl⟩ := LawfulStore.recover htidy.sound
        change (ledger (QueueStore.recover s.shared.store).2).rows = _
        rw [hl]
        rfl
      · rfl

/-- Every row is one of those that were there at first. -/
theorem rows_steps (h : s₀.Undisturbed) (hw : w.registry.Succeeds) (htidy : s₀.Tidy)
    {as : List Action} (has : ∀ a ∈ as, a.isQuiet = true) (hrun : s₀.steps w as = some s) {row : Row}
    (hrow : row ∈ (ledger s.shared.store).rows) : row ∈ (ledger s₀.shared.store).rows := by
  refine steps_induction_forall (P := fun _ t =>
    row ∈ (ledger t.shared.store).rows → row ∈ (ledger s₀.shared.store).rows) id ?_ has hrun hrow
  intro as a t t' ht hbefore _ ih hstep hrow
  exact ih ((h.steps hw hbefore ht).rows_step (htidy.steps ht) hstep hrow)

/-- And nothing is noted but about their records. -/
theorem shows_of_subject? (h : s₀.Undisturbed) (hw : w.registry.Succeeds) (htidy : s₀.Tidy)
    (h₀ : ∀ l, c₀.subject? s₀ l = none) {as : List Action} (has : ∀ a ∈ as, a.isQuiet = true)
    (hrun : s₀.steps w as = some s) (hr : (s₀.chronicle w as c₀).subject? s l = some r) :
    ∃ row ∈ (ledger s₀.shared.store).rows, row.Shows r := by
  refine steps_induction_forall (P := fun as t => ∀ l r,
    (s₀.chronicle w as c₀).subject? t l = some r →
      ∃ row ∈ (ledger s₀.shared.store).rows, row.Shows r) ?_ ?_ has hrun l r hr
  · intro l r hr
    cases (h₀ l).symm.trans hr
  · intro as a t t' ht hbefore _ ih hstep l r hr
    rw [chronicle_snoc ht hstep] at hr
    rcases Chronicle.subject_cases hstep hr with hold | ⟨-, -, hclaim⟩
    · exact ih l r hold
    · obtain ⟨row, hrow, hshows, -⟩ := (htidy.steps ht).claims_due hclaim
      exact ⟨row, h.rows_steps hw htidy hbefore ht hrow, hshows⟩

theorem not_displacedIn (h : s₀.Undisturbed) (hw : w.registry.Succeeds) {as : List Action}
    (has : ∀ a ∈ as, a.isQuiet = true) : ¬ DisplacedIn w s₀ as r := by
  rintro ⟨bs, b, u, hpre, hu, -, hdis⟩
  have hbs : ∀ a ∈ bs, a.isQuiet = true :=
    fun a ha => has a (hpre.subset (List.mem_append_left _ ha))
  have hund := h.steps hw hbs hu
  cases hdis with
  | replaced hop => cases (hund.operation? hop).1
  | cleared hop => cases (hund.operation? hop).1

end Undisturbed

end System

/-! ## The story of a record -/

namespace Record

variable {W : Type}

/-- What is noted of a record from a claim to the settlement, if its body succeeds. -/
def untilSettled (w : Wiring W) (r : Record) : List Note :=
  match w.registry.decode r with
  | .ok _ => [.told (.started r.identity r.tag r.attempt), .ended .success]
  | .error _ => []

/-- What is told of it then. -/
def verdict (w : Wiring W) (r : Record) : EventBody :=
  match w.registry.decode r with
  | .ok _ => .completed r.identity r.tag r.attempt
  | .error e => .dropped r.identity r.tag e.message

/-- What is noted if it could not be settled some times. -/
def unsettled (w : Wiring W) (r : Record) (k : Nat) : List Note :=
  (List.replicate k (r.untilSettled w ++ [.givenUp, .told (r.verdict w)])).flatten

theorem unsettled_succ (w : Wiring W) (r : Record) (k : Nat) :
    r.unsettled w (k + 1) = r.unsettled w k ++ (r.untilSettled w ++ [.givenUp, .told (r.verdict w)]) := by
  simp [unsettled, List.replicate_succ']

theorem eq_zero_of_unsettled {w : Wiring W} {r : Record} {k : Nat}
    (h : Note.givenUp ∉ r.unsettled w k) : k = 0 := by
  cases k with
  | zero => rfl
  | succ k =>
    rw [unsettled_succ] at h
    simp at h

end Record

section Success

variable {W : Type} {w : Wiring W} {r x : Record} {ns ms : List Note} {f : Fate}

theorem Episode.of_success (h : Episode w x ms f) (ho : ∀ o, .ended o ∈ ms → o = .success) :
    ms = x.untilSettled w ∧ f.event = x.verdict w ∧ f.retry = none := by
  cases h with
  | executed o now hc =>
    obtain rfl := ho o (by simp)
    refine ⟨?_, ?_, rfl⟩
    · simp only [Record.untilSettled, hc]
    · simp only [Record.verdict, hc]
      rfl
  | rejected he =>
    refine ⟨?_, ?_, rfl⟩
    · simp only [Record.untilSettled, he]
    · simp only [Record.verdict, he]
      rfl

theorem Chapters.of_success (h : Chapters w r ns x) (ho : ∀ o, .ended o ∈ ns → o = .success) :
    x = r ∧ ∃ k, ns = r.unsettled w k := by
  induction h with
  | stored => exact ⟨rfl, 0, rfl⟩
  | retried _ hep hf =>
    have hsuccess := hep.of_success fun o hmem => ho o (by simp [hmem])
    cases hf.symm.trans hsuccess.2.2
  | repeated _ hep ih =>
    obtain ⟨rfl, k, rfl⟩ := ih fun o hmem => ho o (by simp [hmem])
    obtain ⟨rfl, hev, -⟩ := hep.of_success fun o hmem => ho o (by simp [hmem])
    refine ⟨rfl, k + 1, ?_⟩
    rw [Record.unsettled_succ, hev]
    simp

theorem Underway.of_success {p : Point W} (h : Underway w x p ms)
    (ho : ∀ o, .ended o ∈ ms → o = .success) : ms <+: x.untilSettled w := by
  cases h with
  | decode | begin | announce => exact List.nil_prefix
  | run b hc | asking d next hc =>
    simp only [Record.untilSettled, hc]
    exact ⟨[.ended .success], rfl⟩
  | settle t hep _ | collapsed hep _ | release hep => exact (hep.of_success ho).1 ▸ List.prefix_rfl

end Success

namespace System

open LawfulStore (ledger)

variable {σ W : Type} [QueueStore σ] [LawfulStore σ] {w : Wiring W} {s s₀ : System σ W}
  {c c₀ : Chronicle} {r : Record}

/-- How it stands with a record if every body succeeds: some times it could not be settled, and now it is
stored as it was, or has been removed. -/
inductive Outlasts (w : Wiring W) (c : Chronicle) (s : System σ W) (r : Record) : Prop
  | stored (k : Nat) (ms : List Note) : c.about r.seq = r.unsettled w k ++ ms →
      ms <+: r.untilSettled w ++ [.givenUp] → (ledger s.shared.store).Keeps r →
      Outlasts w c s r
  /-- The last word about it is still to be told. -/
  | removed (k : Nat) (l : Lane) : c.about r.seq = r.unsettled w k ++ r.untilSettled w →
      c.subject? s l = some r → (ledger s.shared.store).Vacant r.seq → Outlasts w c s r
  | gone (k : Nat) : c.about r.seq = r.unsettled w k ++ (r.untilSettled w ++ [.told (r.verdict w)]) →
      c.Unattended s r.seq → (ledger s.shared.store).Vacant r.seq → Outlasts w c s r

theorem Stands.outlasts (h : Stands w c s r) (ho : ∀ o, .ended o ∈ c.about r.seq → o = .success) :
    Outlasts w c s r := by
  cases h with
  | @waiting ns x hch hns hk hn =>
    obtain ⟨rfl, k, hk'⟩ := hch.of_success fun o hmem => ho o (hns ▸ hmem)
    exact .stored k [] (by rw [hns, hk', List.append_nil]) List.nil_prefix hk
  | inHand l hch hns hk hun =>
    obtain ⟨rfl, k, rfl⟩ := hch.of_success fun o hmem => ho o (by simp [hns, hmem])
    have hms := hun.of_success fun o hmem => ho o (by simp [hns, hmem])
    exact .stored k _ hns (hms.trans (List.prefix_append _ _)) hk
  | settled l hch hns hep hp hlast hgone hback =>
    obtain ⟨rfl, k, rfl⟩ := hch.of_success fun o hmem => ho o (by simp [hns, hmem])
    obtain ⟨rfl, hev, hf⟩ := hep.of_success fun o hmem => ho o (by simp [hns, hmem])
    exact .removed k l hns (Chronicle.subject?_of_publish hp hlast) (hgone hf)
  | givenUp l hch hns hep hp hlast hk =>
    obtain ⟨rfl, k, rfl⟩ := hch.of_success fun o hmem => ho o (by simp [hns, hmem])
    obtain ⟨rfl, hev, hf⟩ := hep.of_success fun o hmem => ho o (by simp [hns, hmem])
    exact .stored k _ (hns.trans (List.append_assoc _ _ _)) List.prefix_rfl hk
  | gone hch hns hep hf hv _ hn =>
    obtain ⟨rfl, k, rfl⟩ := hch.of_success fun o hmem => ho o (by simp [hns, hmem])
    obtain ⟨rfl, hev, -⟩ := hep.of_success fun o hmem => ho o (by simp [hns, hmem])
    exact .gone k (by rw [hns, hev, List.append_assoc]) hn hv

/-- A record of which no settlement has been given up has been executed at most once. -/
theorem Outlasts.about_isPrefix (h : Outlasts w c s r) (hno : Note.givenUp ∉ c.about r.seq) :
    c.about r.seq <+: r.untilSettled w ++ [.told (r.verdict w)] := by
  have hzero : ∀ {k : Nat} {ms : List Note}, c.about r.seq = r.unsettled w k ++ ms →
      c.about r.seq = ms := by
    intro k ms habout
    rw [habout] at hno
    obtain rfl := Record.eq_zero_of_unsettled fun hmem => hno (List.mem_append_left ms hmem)
    exact habout
  cases h with
  | stored k ms habout hms =>
    rw [hzero habout] at hno ⊢
    rcases List.prefix_concat_iff.1 hms with rfl | hms
    · simp at hno
    · exact hms.trans (List.prefix_append _ _)
  | removed k l habout => exact hzero habout ▸ List.prefix_append _ _
  | gone k habout => exact hzero habout ▸ List.prefix_rfl

/-- What is over stays so. -/
theorem Chronicle.over_steps (htidy : s₀.Tidy) {l : Lane} (hsp : (s₀.shared.cell l).spawned = true)
    {q : Int} (hv : (ledger s₀.shared.store).Vacant q) (hn : c₀.Unattended s₀ q) {as : List Action}
    (hrun : s₀.steps w as = some s) :
    (s₀.chronicle w as c₀).about q = c₀.about q ∧ (ledger s.shared.store).Vacant q ∧
      (s₀.chronicle w as c₀).Unattended s q := by
  refine steps_induction (P := fun as t => (s₀.chronicle w as c₀).about q = c₀.about q ∧
    (ledger t.shared.store).Vacant q ∧ (s₀.chronicle w as c₀).Unattended t q) ⟨rfl, hv, hn⟩ ?_ hrun
  rintro as a t t' ht ⟨habout, hvt, hnt⟩ hstep
  have htidy' := htidy.steps ht
  have hsp' := (htidy.vacant_steps hsp hv ht).1
  rw [chronicle_snoc ht hstep, Chronicle.about_after_beside fun l y _ hy => hnt l y hy]
  exact ⟨habout, htidy'.vacant_step hsp' hvt hstep, hnt.step_vacant htidy' hvt hstep⟩

end System

end LaneQueue
