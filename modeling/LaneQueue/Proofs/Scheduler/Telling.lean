import LaneQueue.Proofs.Scheduler.Chronicle
/-!
# The chronicle and the event bus

Requests publish what they do to the queue and to the lanes; only workers publish what happens in an
execution, and each of these events is noted in the step that publishes it. So what is noted as told is
what subscribers have been sent about executions, in the same order (`Chronicle.Tells`).
-/
namespace LaneQueue

/-- Whether an event is about an execution and its end, and not about a request. -/
def EventBody.isOfExecution : EventBody → Bool
  | started .. | completed .. | retrying .. | failureSwallowed .. | deadLettered .. | dropped .. => true
  | _ => false

namespace Fate

theorem isOfExecution_ofOutcome (c : RetryConfig) (now : Instant) (r : Record) (o : Outcome) :
    (ofOutcome c now r o).event.isOfExecution = true := by
  cases o with
  | success | fatal => rfl
  | recoverable reason =>
    simp only [ofOutcome]
    split
    · rfl
    · split <;> rfl

end Fate

/-- What a worker will tell about the record that it settles. -/
def Point.toTell? {W : Type} : Point W → Option EventBody
  | settle _ f _ | release _ f => some f.event
  | publish _ e => some e
  | _ => none

/-- A worker that has let go of the record is about to tell. -/
theorem Point.eq_publish_of_toTell? {W : Type} {p : Point W} {e : EventBody} (h : p.toTell? = some e)
    (hn : p.record? = none) : ∃ lane, p = publish lane e := by
  cases p with
  | publish lane e' => cases h; exact ⟨lane, rfl⟩
  | settle | release => cases hn
  | top | readPause | showPaused | paused | claim | claimFailed | showIdle | askWake | measure | arm |
    idle | decode | begin | announce | run | asking | collapsed | finish | stop | exited => cases h

/-! ## What a step publishes -/

section Telling

variable {σ W : Type} {w : Wiring W} {fault : Option QueueError} {s s' : Shared σ W}

/-- What has been published about executions. -/
def Shared.executions (s : Shared σ W) : List EventBody :=
  (s.bus.published.map (·.body)).filter (·.isOfExecution)

theorem Shared.executions_publish (s : Shared σ W) (l : Lane) (b : EventBody) :
    (s.publish l b).executions = s.executions ++ if b.isOfExecution then [b] else [] := by
  simp only [executions, published_publish, List.map_append, List.filter_append, List.map_cons,
    List.map_nil]
  split
  · rename_i h
    simp [h]
  · rename_i h
    simp [h]

/-- Whether what a request has still to tell is about the request alone. -/
def Call.isPlain : Call → Bool
  | announce _ b _ => !b.isOfExecution
  | _ => true

namespace Call

theorem isPlain_ofSubmission (lane : Lane) (x : Submission) :
    (ofSubmission lane x).isPlain = true := by
  cases x <;> rfl

theorem isPlain_ofStatus (x : LaneStatus) (g : StatusGoal) : (ofStatus x g).isPlain = true := by
  match g with
  | .one | .all _ [] | .all _ (_ :: _) => rfl

theorem isPlain_ofDraft (w : Wiring W) (d : Draft) (o : SubmitOptions) :
    (ofDraft w d o).isPlain = true := by
  unfold ofDraft
  split
  · rfl
  · split <;> rfl

variable [QueueStore σ]

/-- A request tells nothing about executions. -/
theorem step_executions {c c' : Call} (h : c.step w fault s = some (c', s')) (hc : c.isPlain = true) :
    c'.isPlain = true ∧ s'.executions = s.executions := by
  have hplain : ∀ (l : Lane) (b : EventBody), b.isOfExecution = false →
      (s.publish l b).executions = s.executions := by
    intro l b hb
    simp [Shared.executions_publish, hb]
  cases c with
  | recover t =>
    obtain ⟨hs, ⟨t', rfl⟩ | ⟨a, rfl, -⟩ | ⟨e, rfl⟩⟩ := trying_cases h .recover fun _ => rfl <;>
      exact ⟨rfl, by rw [hs]; rfl⟩
  | store d p t =>
    obtain ⟨hs, ⟨t', rfl⟩ | ⟨a, rfl, -⟩ | ⟨e, rfl⟩⟩ := trying_cases h (.submit d p) fun _ => rfl
    · exact ⟨rfl, by rw [hs]; rfl⟩
    · exact ⟨isPlain_ofSubmission _ _, by rw [hs]; rfl⟩
    · exact ⟨rfl, by rw [hs]; rfl⟩
  | purge l t =>
    obtain ⟨hs, ⟨t', rfl⟩ | ⟨a, rfl, -⟩ | ⟨e, rfl⟩⟩ := trying_cases h (.purgeLane l) fun _ => rfl <;>
      exact ⟨rfl, by rw [hs]; rfl⟩
  | count l g t =>
    obtain ⟨hs, ⟨t', rfl⟩ | ⟨a, rfl, -⟩ | ⟨e, rfl⟩⟩ :=
      trying_cases h (.pendingCount l) fun _ => rfl <;> exact ⟨rfl, by rw [hs]; rfl⟩
  | start =>
    simp only [step] at h
    split at h <;> cases h <;> exact ⟨rfl, rfl⟩
  | submit d o => cases h; exact ⟨isPlain_ofDraft _ _ _, rfl⟩
  | snapshot l n g => cases h; exact ⟨isPlain_ofStatus _ _, rfl⟩
  | announce l b o => cases h; exact ⟨rfl, hplain l b (by simpa [isPlain] using hc)⟩
  | announcePause l | announceResume l => cases h; exact ⟨rfl, hplain l _ rfl⟩
  | announceCleared l n => cases h; exact ⟨rfl, hplain l _ rfl⟩
  | pause l | resume l => cases h; exact ⟨by split <;> rfl, rfl⟩
  | drain ls | halt ls => cases ls <;> cases h <;> exact ⟨rfl, rfl⟩
  | await ls t =>
    simp only [step] at h
    split at h <;> cases h
    exact ⟨rfl, rfl⟩
  | done => cases h
  | spawn | wake | cancel | gather => cases h; exact ⟨rfl, rfl⟩

end Call

namespace Point

variable {p p' : Point W} {l : Lane} {signal : Signal}

theorem wait_published {signals : List Signal} {deadline : Option Instant}
    (h : wait l signals deadline signal s = some (p', s')) : s'.bus.published = s.bus.published := by
  unfold wait at h
  split at h
  · cases signal <;> cases h <;> rfl
  · cases h

theorem wait_executions {signals : List Signal} {deadline : Option Instant}
    (h : wait l signals deadline signal s = some (p', s')) : s'.executions = s.executions := by
  simp only [Shared.executions, wait_published h]

variable [QueueStore σ]

/-- Whatever a worker will tell is about executions. -/
theorem toTell?_step (h : p.step w l signal fault s = some (p', s')) {e : EventBody}
    (he : p'.toTell? = some e) : p.toTell? = some e ∨ e.isOfExecution = true := by
  cases step_moves h with
  | finish r f => cases he; exact .inr (Fate.isOfExecution_ofOutcome _ _ _ _)
  | reject r d => cases he; exact .inr rfl
  | settleAgain | settled | giveUp | release => exact .inl he
  | look | leave | hold | pass | park | cancel | rouse | claimAgain | claimFails | findNone | find |
    rest | learn | refuse | measure | sleep | accept | begin | execute | act | await | ask | proceed |
    hear | collapse | publish | again | exit => cases he

/-- The requests of a body tell nothing about executions. -/
theorem isPlain_step (h : p.step w l signal fault s = some (p', s'))
    (hp : ∀ c, p.request? = some c → c.isPlain = true) {c : Call} (hc : p'.request? = some c) :
    c.isPlain = true := by
  cases step_moves h with
  | ask r request next =>
    cases hc
    cases request <;> rfl
  | proceed r d d' next hd =>
    cases hc
    obtain ⟨⟨d', x⟩, hstep, rfl⟩ := Option.map_eq_some_iff.1 hd
    exact (Call.step_executions hstep (hp d rfl)).1
  | look | leave | hold | pass | park | cancel | rouse | claimAgain | claimFails | findNone | find |
    rest | learn | refuse | measure | sleep | accept | reject | begin | execute | act | await | hear |
    finish | collapse | settleAgain | settled | giveUp | release | publish | again | exit => cases hc

/-- A worker publishes what it notes as told. -/
theorem step_executions (h : p.step w l signal fault s = some (p', s'))
    (hc : ∀ c, p.request? = some c → c.isPlain = true)
    (he : ∀ e, p.toTell? = some e → e.isOfExecution = true) :
    s'.executions = s.executions ++ (p.note?.bind Note.event?).toList := by
  have hquiet : ∀ {x : Shared σ W}, x.executions = s.executions →
      x.executions = s.executions ++ (none : Option EventBody).toList :=
    fun hx => hx.trans (List.append_nil _).symm
  cases p with
  | claim t => rw [(claim_cases h).1]; exact hquiet rfl
  | settle r f t => rw [(settle_cases h).1]; exact hquiet rfl
  | asking r c next =>
    rcases asking_cases h with ⟨rfl, -, -⟩ | ⟨c', hstep, -⟩
    · exact hquiet rfl
    · exact hquiet (Call.step_executions hstep (hc c rfl)).2
  | run r b =>
    cases b with
    | done f => obtain ⟨-, -, rfl⟩ | ⟨-, -, rfl⟩ := done_cases h <;> exact hquiet rfl
    | act effect next | ask request next => cases h; exact hquiet rfl
    | await effect? next =>
      obtain ⟨world, -, hw⟩ := Option.map_eq_some_iff.1 h
      cases hw
      exact hquiet rfl
  | announce r c =>
    cases h
    exact Shared.executions_publish s l _
  | publish lane e =>
    cases h
    rw [Shared.executions_publish, he e rfl]
    rfl
  | paused | idle | claimFailed => exact hquiet (wait_executions h)
  | askWake =>
    simp only [step] at h
    split at h <;> cases h <;> exact hquiet rfl
  | decode r =>
    simp only [step] at h
    split at h <;> cases h <;> exact hquiet rfl
  | top | readPause | showPaused | showIdle | measure | arm | begin | release | finish | stop =>
    cases h
    exact hquiet rfl
  | collapsed | exited => cases h

end Point

end Telling

namespace System

open LawfulStore (ledger)

variable {σ W : Type} {s s' s₀ : System σ W} {c c₀ : Chronicle} {a : Action} {l : Lane}

/-- What has been noted as told is what has been published about executions, in the same order. -/
structure Chronicle.Tells (c : Chronicle) (s : System σ W) : Prop where
  told : s.shared.executions = c.told
  calls : ∀ d ∈ s.calls, d.isPlain = true
  asking : ∀ l d, (s.workers.get l).request? = some d → d.isPlain = true
  toTell : ∀ l e, (s.workers.get l).toTell? = some e → e.isOfExecution = true
  /-- Whoever has something to tell knows of which record. -/
  publishing : ∀ l lane e, s.workers.get l = .publish lane e → (c.last.get l).isSome = true

theorem Chronicle.tells_init (config : QueueConfig) (store : σ) (now : Instant) (world : W) :
    ({} : Chronicle).Tells (System.init config store now world) where
  told := rfl
  calls d hd := by cases hd
  asking l d hd := by simp [System.init, Point.request?] at hd
  toTell l e he := by simp [System.init, Point.toTell?] at he
  publishing l lane e he := by simp [System.init] at he

namespace Chronicle.Tells

theorem told_after (c : Chronicle) (s : System σ W) (a : Action) :
    (c.after s a).told = c.told ++ ((c.noted? s a).bind fun n => n.2.event?).toList := by
  simp only [Chronicle.told, after, List.filterMap_append]
  cases c.noted? s a with
  | none => rfl
  | some n => cases h : n.2.event? <;> simp [h]

/-- A worker that notes something is busy with a record. -/
theorem noted?_event? (hc : c.Tells s) (ha : a.lane? = some l) :
    ((c.noted? s a).bind fun n => n.2.event?) = (s.workers.get l).note?.bind Note.event? := by
  rw [noted?_of_lane ha]
  cases hn : (s.workers.get l).note? with
  | none => cases c.subject? s l <;> rfl
  | some n =>
    have hx : (c.subject? s l).isSome = true := by
      simp only [subject?]
      cases hp : s.workers.get l with
      | publish lane e => exact hc.publishing l lane e hp
      | announce | run | release => rfl
      | _ =>
        rw [hp] at hn
        cases hn
    obtain ⟨x, hx⟩ := Option.isSome_iff_exists.1 hx
    simp [hx]

variable [QueueStore σ] {w : Wiring W}

theorem publishing_step (hc : c.Tells s) (hstep : s.step w a = some s') {lane : Lane}
    {e : EventBody} (hp : s'.workers.get l = .publish lane e) :
    ((c.after s a).last.get l).isSome = true := by
  rcases step_worker hstep l with heq | ⟨signal, fault, rfl, hown⟩
  · rw [heq] at hp
    by_cases ha : a.lane? = some l
    · rw [last_after_own ha, hp]
      exact hc.publishing l lane e hp
    · rw [last_after_beside ha]
      exact hc.publishing l lane e hp
  · -- it has just let go of a record
    rw [last_after_own rfl]
    rw [hp] at hown
    generalize s.workers.get l = p at hown
    cases Point.step_moves hown with
    | settled | release => rfl

/-- **What is noted is what is published**, step by step. -/
theorem step (hc : c.Tells s) (hstep : s.step w a = some s') : (c.after s a).Tells s' where
  publishing _ _ _ := hc.publishing_step hstep
  toTell l e he := by
    rcases step_worker hstep l with heq | ⟨signal, fault, -, hown⟩
    · exact hc.toTell l e (heq ▸ he)
    · exact (Point.toTell?_step hown he).elim (hc.toTell l e) id
  asking l d hd := by
    rcases step_worker hstep l with heq | ⟨signal, fault, -, hown⟩
    · exact hc.asking l d (heq ▸ hd)
    · exact Point.isPlain_step hown (hc.asking l) hd
  calls d hd := by
    cases a with
    | tick => cases hstep; exact hc.calls d hd
    | request r =>
      cases hstep
      rcases List.mem_append.1 hd with hd | hd
      · exact hc.calls d hd
      · rw [List.mem_singleton.1 hd]
        cases r <;> rfl
    | work m signal fault =>
      obtain ⟨p, x, -, -, rfl⟩ := work_cases hstep
      exact hc.calls d hd
    | advance i fault =>
      obtain ⟨e, e', x, he, hcall, rfl⟩ := advance_cases hstep
      rcases List.mem_or_eq_of_mem_set hd with hd | rfl
      · exact hc.calls d hd
      · exact (Call.step_executions hcall (hc.calls e (List.mem_of_getElem? he))).1
  told := by
    rw [told_after]
    cases a with
    | request | tick => cases hstep; exact hc.told.trans (List.append_nil _).symm
    | advance i fault =>
      obtain ⟨e, e', x, he, hcall, rfl⟩ := advance_cases hstep
      have hsame := (Call.step_executions hcall (hc.calls e (List.mem_of_getElem? he))).2
      exact (hsame.trans hc.told).trans (List.append_nil _).symm
    | work l signal fault =>
      rw [hc.noted?_event? rfl, ← hc.told]
      exact Point.step_executions (worker_own hstep) (hc.asking l) (hc.toTell l)

theorem steps (hc : c₀.Tells s₀) {as : List Action} (hrun : s₀.steps w as = some s) :
    (s₀.chronicle w as c₀).Tells s := by
  refine steps_induction (P := fun as t => (s₀.chronicle w as c₀).Tells t) hc ?_ hrun
  intro as a t t' ht ih hstep
  rw [chronicle_snoc ht hstep]
  exact ih.step hstep

end Chronicle.Tells

end System

end LaneQueue
