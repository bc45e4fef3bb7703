import LaneQueue.Proofs.Scheduler.Breakdown
import LaneQueue.Proofs.Scheduler.Cuts
import LaneQueue.Proofs.Scheduler.Display
import LaneQueue.Proofs.Scheduler.Overtaking
import LaneQueue.Proofs.Scheduler.Yields
/-!
# The states of a lane

A command is shown from the step with which the worker of its lane begins with the record to the one with
which it has done with it (`System.Processes`), whether a shutdown has stopped the lane in the meantime or
not. That the execution begins is told once in between. `lane_states` says what follows for whoever asks
for the status of a lane.
-/
namespace LaneQueue

/-! ## Beginnings that are told -/

/-- Whether an event tells that an execution has begun. -/
def EventBody.isStart : EventBody → Bool
  | started .. => true
  | _ => false

theorem EventBody.isStart_of_not_isOfExecution {e : EventBody} (h : e.isOfExecution = false) :
    e.isStart = false := by
  cases e with
  | started => cases h
  | _ => rfl

/-- No fate is told as a beginning. -/
theorem Episode.isStart {W : Type} {w : Wiring W} {x : Record} {ms : List Note} {f : Fate}
    (h : Episode w x ms f) : f.event.isStart = false := by
  cases h with
  | rejected => rfl
  | executed o now =>
    cases o with
    | success | fatal => rfl
    | recoverable reason =>
      simp only [Fate.ofOutcome]
      split
      · rfl
      · split <;> rfl

/-- Only a worker that announces an execution tells a beginning, if it ends none with one. -/
theorem Point.isStart_of_note? {W : Type} {p : Point W} {e : EventBody}
    (h : p.note?.bind Note.event? = some e)
    (hends : ∀ lane e, p = publish lane e → e.isStart = false) :
    (∃ r d, p = announce r d) ∨ e.isStart = false := by
  cases p with
  | announce r d => exact .inl ⟨r, d, rfl⟩
  | publish lane e' => cases h; exact .inr (hends lane _ rfl)
  | run r b => cases b <;> cases h
  | _ => cases h

namespace Shared

variable {σ W : Type} {s s' : Shared σ W} {l : Lane}

/-- What has been published in a lane about executions that have begun. -/
def starts (s : Shared σ W) (l : Lane) : List EventBody :=
  (s.bus.published.filter fun e => e.lane == l && e.body.isStart).map (·.body)

theorem starts_publish (s : Shared σ W) (l m : Lane) (b : EventBody) :
    (s.publish m b).starts l = s.starts l ++ if m = l ∧ b.isStart = true then [b] else [] := by
  simp only [starts, published_publish, List.filter_append, List.map_append]
  by_cases h : m = l ∧ b.isStart = true
  · rw [if_pos h]
    simp [h.1, h.2]
  · rw [if_neg h]
    simpa using h

/-- Where no beginning is among what is published about executions, none is published. -/
theorem starts_of_executions (hpre : s.bus.published <+: s'.bus.published) {xs : List EventBody}
    (hex : s'.executions = s.executions ++ xs) (hxs : ∀ e ∈ xs, e.isStart = false) :
    s'.starts l = s.starts l := by
  obtain ⟨es, hes⟩ := hpre
  simp only [executions, ← hes, List.map_append, List.filter_append, List.append_cancel_left_eq] at hex
  simp only [starts, ← hes, List.filter_append, List.map_append, List.append_right_eq_self,
    List.map_eq_nil_iff, List.filter_eq_nil_iff]
  intro e he hstart
  simp only [Bool.and_eq_true] at hstart
  cases hof : e.body.isOfExecution with
  | false =>
    rw [EventBody.isStart_of_not_isOfExecution hof] at hstart
    cases hstart.2
  | true =>
    have hmem : e.body ∈ xs := hex ▸ List.mem_filter.2 ⟨List.mem_map_of_mem he, hof⟩
    rw [hxs _ hmem] at hstart
    cases hstart.2

end Shared

namespace System

open LawfulStore (ledger)

variable {σ W : Type} [QueueStore σ] {w : Wiring W} {s s' s₀ u u' : System σ W} {a b : Action} {l : Lane}
  {x : Record} {d : Command W} {c : Chronicle} {as bs ds : List Action}

/-- A worker that announces an execution tells that it has begun, in its lane. -/
theorem starts_announce (hstep : s.step w a = some s') (ha : a.lane? = some l)
    (hp : s.workers.get l = .announce x d) :
    s'.shared.starts l = s.shared.starts l ++ [.started x.identity x.tag x.attempt] := by
  obtain ⟨signal, fault, rfl⟩ := Action.eq_work_of_lane? ha
  have hown := worker_own hstep
  rw [hp] at hown
  simp only [Point.step, Option.some.injEq, Prod.mk.injEq] at hown
  rw [← hown.2, Shared.starts_publish, if_pos ⟨rfl, rfl⟩]

/-- Nothing else tells so. -/
theorem starts_beside (htells : c.Tells s)
    (hends : ∀ m lane e, s.workers.get m = .publish lane e → e.isStart = false)
    (hstep : s.step w a = some s')
    (ha : a.lane? ≠ some l ∨ ∀ y f, s.workers.get l ≠ .announce y f) :
    s'.shared.starts l = s.shared.starts l := by
  have hpre := step_published hstep
  cases a with
  | request | tick => cases hstep; rfl
  | advance i fault =>
    obtain ⟨e, e', y, he, hcall, rfl⟩ := advance_cases hstep
    have hsame := (Call.step_executions hcall (htells.calls e (List.mem_of_getElem? he))).2
    have hnone : y.executions = s.shared.executions ++ [] := by
      rw [List.append_nil]; exact hsame
    exact Shared.starts_of_executions hpre hnone nofun
  | work m signal fault =>
    have hown := worker_own hstep
    have hex := Point.step_executions hown (htells.asking m) (htells.toTell m)
    by_cases hp : ∃ y f, s.workers.get m = .announce y f
    · obtain ⟨y, f, hp⟩ := hp
      have hm : m ≠ l := by
        rintro rfl
        exact ha.elim (absurd rfl) fun hno => hno y f hp
      rw [hp] at hown
      simp only [Point.step, Option.some.injEq, Prod.mk.injEq] at hown
      rw [← hown.2, Shared.starts_publish, if_neg fun h => hm h.1, List.append_nil]
    · refine Shared.starts_of_executions hpre hex fun e he => ?_
      exact (Point.isStart_of_note? (Option.mem_toList.1 he) (hends m)).resolve_left hp

/-- A worker that tells of an end tells no beginning. -/
theorem isStart_of_publish (h₀ : ∀ l, s₀.workers.get l = .top) (hrun : s₀.steps w as = some s)
    {lane : Lane} {e : EventBody} (hp : s.workers.get l = .publish lane e) : e.isStart = false := by
  obtain ⟨x, f, bs, u, b, u', ds, hgo, -, rfl⟩ := exists_letGo h₀ hrun hp
  obtain ⟨ms, hep⟩ := hgo.episode fun m => by rw [h₀ m]; rfl
  exact hep.isStart

/-! ## From the showing of a command to its end -/

/-- Since a step of a run that showed the command of a record, the worker of a lane has been processing
it. -/
structure Processes (w : Wiring W) (s₀ : System σ W) (as : List Action) (s : System σ W) (l : Lane)
    (x : Record) (d : Command W) (bs : List Action) (u : System σ W) (b : Action) (u' : System σ W)
    (ds : List Action) : Prop where
  split : as = bs ++ b :: ds
  before : s₀.steps w bs = some u
  begins : u.workers.get l = .begin x d
  own : b.lane? = some l
  step : u.step w b = some u'
  after : u'.steps w ds = some s
  ongoing : ∀ cs t, cs <+: ds → u'.steps w cs = some t → (t.workers.get l).isProcessing = true

namespace Processes

theorem snoc (h : Processes w s₀ as s l x d bs u b u' ds) (hstep : s.step w a = some s')
    (hp : (s'.workers.get l).isProcessing = true) :
    Processes w s₀ (as ++ [a]) s' l x d bs u b u' (ds ++ [a]) where
  split := by rw [h.split, List.append_assoc, List.cons_append]
  before := h.before
  begins := h.begins
  own := h.own
  step := h.step
  after := steps_snoc.2 ⟨s, h.after, hstep⟩
  ongoing cs t hcs ht := by
    rcases List.prefix_concat_iff.1 hcs with rfl | hcs
    · rw [steps_snoc.2 ⟨s, h.after, hstep⟩] at ht
      exact Option.some.inj ht ▸ hp
    · exact h.ongoing cs t hcs ht

/-- What holds when the command is shown, and is kept while it is processed, holds from then on. -/
theorem induction {P : System σ W → Prop} (h : Processes w s₀ as s l x d bs u b u' ds) (start : P u')
    (step : ∀ {cs : List Action} {a : Action} {t t' : System σ W}, s₀.steps w cs = some t →
      (t.workers.get l).isProcessing = true → (t'.workers.get l).isProcessing = true → P t →
        t.step w a = some t' → P t') : P s := by
  have hind := steps_induction (w := w) (P := fun cs t => cs <+: ds → P t) (fun _ => start) ?_ h.after
  · exact hind List.prefix_rfl
  · intro cs a t t' ht ih hstep hcs
    have hrun : s₀.steps w (bs ++ b :: cs) = some t := by
      rw [steps_append, h.before, Option.bind_some]
      simp only [System.steps, h.step]
      exact ht
    have hcs' := (List.prefix_append cs [a]).trans hcs
    exact step hrun (h.ongoing _ t hcs' ht) (h.ongoing _ t' hcs (steps_snoc.2 ⟨t, ht, hstep⟩))
      (ih hcs') hstep

theorem announce (h : Processes w s₀ as s l x d bs u b u' ds) : u'.workers.get l = .announce x d := by
  obtain ⟨signal, fault, rfl⟩ := Action.eq_work_of_lane? h.own
  have hown := worker_own h.step
  rw [h.begins] at hown
  exact (congrArg Prod.fst (Option.some.inj hown)).symm

/-- It is shown all the time, as it was shown at first. -/
theorem current (h : Processes w s₀ as s l x d bs u b u' ds) :
    (s.shared.cell l).current = some (x.shownAs d u.shared.now) := by
  refine h.induction (P := fun t => (t.shared.cell l).current = some (x.shownAs d u.shared.now)) ?_ ?_
  · have hturns := step_turns h.step h.own
    rw [h.begins, h.announce] at hturns
    generalize u'.shared.cell l = c' at hturns ⊢
    cases hturns with
    | beside hp => cases hp
    | begin => rfl
  · intro cs a t t' _ hp hp' ih hstep
    by_cases ha : a.lane? = some l
    · have hturns := step_turns hstep ha
      generalize t'.shared.cell l = c' at hturns ⊢
      generalize t.shared.cell l = c at hturns ih
      generalize t.workers.get l = q at hturns hp
      generalize t'.workers.get l = q' at hturns hp'
      cases hturns with
      | beside _ _ hcell => rw [hcell.current]; exact ih
      | pause | rest | begin | stop => cases hp
      | collapse => exact ih
      | finish => cases hp'
    · rw [(step_cell_beside hstep ha).current]
      exact ih

/-- Whatever the worker has in hand is that record. -/
theorem eq_of_record? (h : Processes w s₀ as s l x d bs u b u' ds) {y : Record}
    (hy : (s.workers.get l).record? = some y) : y = x := by
  refine h.induction (P := fun t => ∀ y, (t.workers.get l).record? = some y → y = x) ?_ ?_ y hy
  · intro y hy
    rw [h.announce] at hy
    exact (Option.some.inj hy).symm
  · intro cs a t t' _ _ hp' ih hstep y hy
    rcases comesBy_cases hstep hy with hold | ⟨hdecode, -⟩
    · exact ih y hold
    · rw [hdecode] at hp'
      cases hp'

/-- It is about to tell that the execution has begun, or has told so since, and nothing else has been
told so in the lane. -/
theorem starts (h : Processes w s₀ as s l x d bs u b u' ds) {c : Chronicle} (htells : c.Tells s₀)
    (h₀ : ∀ l, s₀.workers.get l = .top) :
    (s.workers.get l = .announce x d ∧ s.shared.starts l = u.shared.starts l) ∨
      (∀ y f, s.workers.get l ≠ .announce y f) ∧
        s.shared.starts l = u.shared.starts l ++ [.started x.identity x.tag x.attempt] := by
  refine h.induction (P := fun t =>
    (t.workers.get l = .announce x d ∧ t.shared.starts l = u.shared.starts l) ∨
      (∀ y f, t.workers.get l ≠ .announce y f) ∧
        t.shared.starts l = u.shared.starts l ++ [.started x.identity x.tag x.attempt]) ?_ ?_
  · refine .inl ⟨h.announce, starts_beside (htells.steps h.before) ?_ h.step (.inr ?_)⟩
    · exact fun m lane e hp => isStart_of_publish h₀ h.before hp
    · rw [h.begins]
      exact nofun
  · intro cs a t t' ht hp _ ih hstep
    have hends : ∀ m lane e, t.workers.get m = .publish lane e → e.isStart = false :=
      fun m lane e hp => isStart_of_publish h₀ ht hp
    by_cases ha : a.lane? = some l
    · -- an execution is announced only when it has just been shown
      have hnext : ∀ y f, t'.workers.get l ≠ .announce y f := by
        intro y f hy
        obtain ⟨signal, fault, rfl⟩ := Action.eq_work_of_lane? ha
        have hmoves := Point.step_moves (worker_own hstep)
        rw [hy] at hmoves
        generalize t.workers.get l = q at hmoves hp
        cases hmoves
        cases hp
      rcases ih with ⟨hann, hsame⟩ | ⟨hno, htold⟩
      · exact .inr ⟨hnext, by rw [starts_announce hstep ha hann, hsame]⟩
      · exact .inr ⟨hnext, by rw [starts_beside (htells.steps ht) hends hstep (.inr hno), htold]⟩
    · rw [worker_beside hstep ha, starts_beside (htells.steps ht) hends hstep (.inl ha)]
      exact ih

end Processes

/-- A command that is shown has been shown by its worker, which has been processing it ever since. -/
theorem exists_processes (h₀ : (s₀.workers.get l).Showing (s₀.shared.cell l))
    (hnone : (s₀.shared.cell l).current = none) (hrun : s₀.steps w as = some s) {c : CurrentCommand}
    (hc : (s.shared.cell l).current = some c) :
    ∃ x d bs u b u' ds, Processes w s₀ as s l x d bs u b u' ds ∧ c = x.shownAs d u.shared.now := by
  refine steps_induction (w := w) (P := fun as t => (t.shared.cell l).current = some c →
    ∃ x d bs u b u' ds, Processes w s₀ as t l x d bs u b u' ds ∧ c = x.shownAs d u.shared.now)
    ?_ ?_ hrun hc
  · intro hc
    rw [hnone] at hc
    cases hc
  · intro as a t t' ht ih hstep hc
    have hprocessing := (showing_steps h₀ (steps_snoc.2 ⟨t, ht, hstep⟩)).processing (by rw [hc]; rfl)
    have hsame : (t.shared.cell l).current = some c →
        ∃ x d bs u b u' ds, Processes w s₀ (as ++ [a]) t' l x d bs u b u' ds ∧
          c = x.shownAs d u.shared.now := by
      intro hold
      obtain ⟨x, d, bs, u, b, u', ds, hp, hx⟩ := ih hold
      exact ⟨x, d, bs, u, b, u', ds ++ [a], hp.snoc hstep hprocessing, hx⟩
    by_cases ha : a.lane? = some l
    · have hturns := step_turns hstep ha
      generalize hq : t.workers.get l = q at hturns
      generalize t'.workers.get l = q' at hturns
      generalize t'.shared.cell l = c' at hturns hc
      cases hturns with
      | beside _ _ hcell => exact hsame (hcell.current.symm.trans hc)
      | pause | rest | stop =>
        simp only [LaneCell.current_setState] at hc
        exact hsame hc
      | collapse => exact hsame hc
      | begin x d =>
        refine ⟨x, d, as, t, a, t', [], ⟨rfl, ht, hq, ha, hstep, rfl, ?_⟩, (Option.some.inj hc).symm⟩
        intro cs v hcs hv
        rw [List.prefix_nil.1 hcs] at hv
        exact Option.some.inj hv ▸ hprocessing
      | finish => cases hc
    · exact hsame ((step_cell_beside hstep ha).current.symm.trans hc)

/-! ## The number of an attempt -/

/-- Whatever a worker has in hand it has claimed. -/
theorem mem_claims_of_record? (h₀ : ∀ l, (s₀.workers.get l).record? = none)
    (hrun : s₀.steps w as = some s) (hx : (s.workers.get l).record? = some x) :
    x ∈ s₀.claims w l as := by
  refine steps_induction (w := w) (P := fun as t => ∀ x, (t.workers.get l).record? = some x →
    x ∈ s₀.claims w l as) ?_ ?_ hrun x hx
  · intro x hx
    rw [h₀ l] at hx
    cases hx
  · intro as a t t' ht ih hstep x hx
    have hsnoc : s₀.claims w l (as ++ [a]) = s₀.claims w l as ++ (t.claimed? l a).toList :=
      yields_snoc ht hstep
    rw [hsnoc, List.mem_append]
    rcases comesBy_cases hstep hx with hold | ⟨hp, hop, -⟩
    · exact .inl (ih x hold)
    · exact .inr (Option.mem_toList.2 (claimed?_of_decode hstep hop hp))

variable [LawfulStore σ]

/-- Every stored row has a next attempt, if that is so at first: a record that is repeated has not
reached its bound. -/
theorem retries_lt_steps (htidy : s₀.Tidy) (h₀ : ∀ l, (s₀.workers.get l).record? = none)
    (hrows : ∀ row ∈ (ledger s₀.shared.store).rows, row.retries.toNat + 1 < UInt32.size)
    (hrun : s₀.steps w as = some s) :
    ∀ row ∈ (ledger s.shared.store).rows, row.retries.toNat + 1 < UInt32.size := by
  refine steps_induction (P := fun _ t =>
    ∀ row ∈ (ledger t.shared.store).rows, row.retries.toNat + 1 < UInt32.size) hrows ?_ hrun
  intro as a t t' ht ih hstep row hrow
  rw [step_store hstep] at hrow
  cases hop : t.operation? a with
  | none =>
    rw [hop] at hrow
    exact ih row hrow
  | some op =>
    rw [hop] at hrow
    rcases (LawfulStore.edit_run (htidy.steps ht).sound op _).mem_rows_cases hrow with
      hold | ⟨c, rfl, -⟩ | ⟨r, n, v, rfl, y, -, -, rfl⟩
    · exact ih row hold
    · rw [(Row.shows_ofRecord _).retryCount]
      exact (by decide : (0 : UInt32).toNat + 1 < UInt32.size)
    · rw [Row.retries_postponed]
      exact toNat_lt_of_reschedule h₀ ht hop

/-- The number of the attempt is one more than the failed attempts that were stored at the claim. -/
theorem toNat_attempt_of_mem_claims (htidy : s₀.Tidy) (h₀ : ∀ l, (s₀.workers.get l).record? = none)
    (hrows : ∀ row ∈ (ledger s₀.shared.store).rows, row.retries.toNat + 1 < UInt32.size)
    (hrun : s₀.steps w as = some s) (hx : x ∈ s₀.claims w l as) :
    x.attempt.toNat = x.retryCount.toNat + 1 := by
  obtain ⟨cs, e, v, v', -, hv, -, hclaim⟩ := exists_of_mem_yields hrun hx
  have hanswer := (answer?_eq_some.1 (claimed?_eq_some.1 hclaim)).2
  obtain ⟨row, hrow, hshows, -⟩ := (htidy.steps hv).claims_due hanswer
  refine Record.toNat_attempt ?_
  rw [← hshows.retryCount]
  exact retries_lt_steps htidy h₀ hrows hv row hrow

/-! ## The states of a lane -/

/-- How it stands with a lane, as a status query shows it with any number of stored commands. -/
structure LaneStates (w : Wiring W) (s₀ : System σ W) (as : List Action) (s : System σ W) (l : Lane)
    (n : Nat) : Prop where
  /-- Once it shuts down, it is not idle, running or paused any more, -/
  shutsDown : (s.shared.status l n).state.isTerminal = true → ∀ bs t m, s.steps w bs = some t →
    (t.shared.status l m).state.isTerminal = true
  /-- and once it has stopped, it stays stopped. -/
  stops : (s.shared.status l n).state = .stopped → ∀ bs t m, s.steps w bs = some t →
    (t.shared.status l m).state = .stopped
  /-- A command is shown just while the worker processes it. -/
  shows : ∀ c, (s.shared.status l n).current = some c ↔ ∃ x d bs u b u' ds,
    Processes w s₀ as s l x d bs u b u' ds ∧ c = x.shownAs d u.shared.now
  /-- Then the lane is running or shuts down. -/
  running : ∀ c, (s.shared.status l n).current = some c → (s.shared.status l n).state = .running ∨
    (s.shared.status l n).state = .draining ∨ (s.shared.status l n).state = .stopped
  /-- What is processed is a record of the lane that the worker has claimed, and it has no other in
  hand. -/
  claimed : ∀ x d bs u b u' ds, Processes w s₀ as s l x d bs u b u' ds →
    x.lane = l ∧ x ∈ s₀.claims w l bs ∧ ∀ y, (s.workers.get l).record? = some y → y = x
  /-- That its execution begins is about to be told, or has been told once since. -/
  started : ∀ x d bs u b u' ds, Processes w s₀ as s l x d bs u b u' ds →
    s.workers.get l = .announce x d ∧ s.shared.starts l = u.shared.starts l ∨
      (∀ y f, s.workers.get l ≠ .announce y f) ∧
        s.shared.starts l = u.shared.starts l ++ [.started x.identity x.tag x.attempt]
  /-- The attempts are counted from the failed ones that were stored at the claim, up to the greatest
  word, -/
  attempt : ∀ x d bs u b u' ds, Processes w s₀ as s l x d bs u b u' ds →
    x.attempt.toNat = min (x.retryCount.toNat + 1) (UInt32.size - 1)
  /-- and a run does not get there of itself. -/
  counted : (∀ row ∈ (ledger s₀.shared.store).rows, row.retries.toNat + 1 < UInt32.size) →
    ∀ x d bs u b u' ds, Processes w s₀ as s l x d bs u b u' ds →
      x.attempt.toNat = x.retryCount.toNat + 1
  /-- When the worker has left its loop nothing is shown and the lane has stopped, -/
  gone : s.workers.get l = .exited →
    (s.shared.status l n).current = none ∧ (s.shared.status l n).state = .stopped
  /-- and its task ends in no other way unless it breaks down. -/
  ended : (s.shared.cell l).exited = true →
    s.workers.get l = .exited ∨ ∃ x, s.workers.get l = .collapsed x ∧ BrokenDown w s₀ as l x

/-- **The states of a lane.** Take any run of a scheduler, with any failures of the storage, any number
of shutdowns and status queries at any moments, and any grace period. Once a lane shuts down there is no
way back. A command is shown from the step with which the worker begins with its record to the one with
which it has done with it, whether or not a shutdown has stopped the lane in the meantime; what is shown
are the identity and the tag of that record and the number of the attempt, the same as are told when the
execution begins; that number is one more than the failed attempts, unless no word can count them. When
the worker has left its loop nothing is shown and the lane has stopped; its task ends so, unless it
breaks down over a failure whose next instant is none of the calendar. -/
theorem lane_states (w : Wiring W) {store : σ} (hs : (ledger store).Sound) (now : Instant) (world : W)
    (hrun : (System.init w.config store now world).steps w as = some s) (l : Lane) (n : Nat) :
    LaneStates w (.init w.config store now world) as s l n := by
  have htidy := Tidy.init (W := W) w.config hs now world
  have htop := workers_init w.config store now world
  have hnone := record?_init w.config store now world
  have htells := Chronicle.tells_init (W := W) w.config store now world
  have hshowing := showing_init (W := W) w.config store now world l
  have hnow := showing_steps hshowing hrun
  have hcell : ((System.init w.config store now world).shared.cell l).current = none :=
    hshowing.current_eq_none (by rw [htop l]; rfl)
  have hclaimed : ∀ x d bs u b u' ds,
      Processes w (.init w.config store now world) as s l x d bs u b u' ds →
        x.lane = l ∧ x ∈ (System.init w.config store now world).claims w l bs := by
    intro x d bs u b u' ds hp
    have hx : (u.workers.get l).record? = some x := by rw [hp.begins]; rfl
    exact ⟨((htidy.steps hp.before).inHand l x hx).lane, mem_claims_of_record? hnone hp.before hx⟩
  refine ⟨?_, ?_, ?_, ?_, ?_, ?_, ?_, ?_, ?_, ?_⟩
  · exact fun hterm bs t m ht => (lasts_steps ht l).terminal hterm
  · exact fun hstop bs t m ht => (lasts_steps ht l).stopped hstop
  · refine fun c => ⟨exists_processes hshowing hcell hrun, ?_⟩
    rintro ⟨x, d, bs, u, b, u', ds, hp, rfl⟩
    exact hp.current
  · intro c hc
    have hc' : (s.shared.cell l).current = some c := hc
    exact (hnow.state (by rw [hc']; rfl)).imp_right LaneState.eq_of_isTerminal
  · intro x d bs u b u' ds hp
    exact ⟨(hclaimed x d bs u b u' ds hp).1, (hclaimed x d bs u b u' ds hp).2,
      fun y hy => hp.eq_of_record? hy⟩
  · exact fun x d bs u b u' ds hp => hp.starts htells htop
  · exact fun x _ _ _ _ _ _ _ => x.toNat_attempt_eq_min
  · exact fun hrows x d bs u b u' ds hp =>
      toNat_attempt_of_mem_claims htidy hnone hrows hp.before (hclaimed x d bs u b u' ds hp).2
  · exact fun hp => ⟨hnow.current_eq_none (by rw [hp]; rfl), hnow.stopped hp⟩
  · intro hexited
    have hend := hnow.exited.1 hexited
    cases hx : (s.workers.get l).record? with
    | none =>
      refine .inl ?_
      generalize s.workers.get l = p at hend hx
      cases p with
      | exited => rfl
      | collapsed => cases hx
      | _ => cases hend
    | some x =>
      have hp := Point.eq_collapsed hend hx
      exact .inr ⟨x, hp, brokenDown_of_collapsed (hnone l) hrun hp⟩

/-- While the first command is executed, a shutdown is asked for, and nobody waits for it any more. -/
def stoppedMeanwhile : List Action :=
  Trial.upToStore ++ .advance 1 none :: List.replicate 6 Trial.turn ++
    .request .shutdown :: List.replicate 6 (.advance 2 none) ++ .tick 10000 ::
      List.replicate 5 (.advance 2 none)

/-- The lane has been stopped and still shows the command, until its worker has done with it and is
gone. -/
theorem lane_states_stoppedMeanwhile :
    ∃ (s t : System MemoryStore Unit) (c : CurrentCommand),
      let w := Trial.wiring fun _ => .success
      let s₀ : System MemoryStore Unit := .init w.config .empty 0 ()
      s₀.steps w stoppedMeanwhile = some s ∧ s.steps w (List.replicate 6 Trial.turn) = some t ∧
        LaneStates w s₀ stoppedMeanwhile s .general 0 ∧ (s.calls[2]?.bind Call.reply?).isSome = true ∧
        (s.shared.status .general 0).state = .stopped ∧
        (s.shared.status .general 0).current = some c ∧
        (c.identity, c.tag, c.attempt) = ("f", "Flaky", 1) ∧
        (∃ x d bs u b u' ds, Processes w s₀ stoppedMeanwhile s .general x d bs u b u' ds) ∧
        (t.shared.status .general 0).current = none ∧
        (t.shared.status .general 0).state = .stopped := by
  let w := Trial.wiring fun _ => .success
  let s₀ : System MemoryStore Unit := .init w.config .empty 0 ()
  have hrun : (s₀.steps w stoppedMeanwhile).any fun s =>
      (s.steps w (List.replicate 6 Trial.turn)).any fun t =>
        ((s.shared.status .general 0).current).any fun c =>
          (s.calls[2]?.bind Call.reply?).isSome = true ∧ (s.shared.status .general 0).state = .stopped ∧
            (c.identity, c.tag, c.attempt) = ("f", "Flaky", 1) ∧
            (t.shared.cell .general).exited = true ∧
            (t.workers.get .general).record? = none := by decide +kernel
  obtain ⟨s, hs, hrun⟩ := (Option.any_eq_true _ _).1 hrun
  obtain ⟨t, ht, hrun⟩ := (Option.any_eq_true _ _).1 hrun
  obtain ⟨c, hc, hend⟩ := (Option.any_eq_true _ _).1 hrun
  obtain ⟨hreply, hstate, hshown, hexited, hfree⟩ := of_decide_eq_true hend
  have hempty : (ledger MemoryStore.empty).Sound := Ledger.Sound.empty
  have hstates := lane_states w hempty 0 () hs .general 0
  have hboth : s₀.steps w (stoppedMeanwhile ++ List.replicate 6 Trial.turn) = some t := by
    rw [steps_append, hs]
    exact ht
  have hlast := lane_states w hempty 0 () hboth .general 0
  have hgone : t.workers.get .general = .exited := by
    refine (hlast.ended hexited).resolve_right ?_
    rintro ⟨x, hp, -⟩
    rw [hp] at hfree
    cases hfree
  obtain ⟨hnone, hstopped⟩ := hlast.gone hgone
  obtain ⟨x, d, bs, u, b, u', ds, hp, -⟩ := (hstates.shows c).1 hc
  exact ⟨s, t, c, hs, ht, hstates, hreply, hstate, hc, hshown, ⟨x, d, bs, u, b, u', ds, hp⟩, hnone,
    hstopped⟩

/-- A store with one command, as many of whose attempts have failed as a word can count. -/
def countless : MemoryStore :=
  { records := [⟨⟨"f", "Flaky", .general, .ofNat 5, [], true⟩, 0xFFFFFFFF, 1, 0⟩]
    lastSeq := 1 }

/-- The attempt that is shown of it is not one more than that. -/
theorem attempt_countless :
    ∃ (s : System MemoryStore Unit) (x : Record) (c : CurrentCommand),
      let w := Trial.wiring fun _ => .success
      (System.init w.config countless 0 ()).steps w
          ([.request .start, .advance 0 none, .advance 0 none, .advance 0 none] ++
            List.replicate 6 Trial.turn) = some s ∧
        (s.workers.get .general).record? = some x ∧
        (s.shared.status .general 1).current = some c ∧
        c.attempt.toNat ≠ x.retryCount.toNat + 1 := by
  let w := Trial.wiring fun _ => .success
  have hrun : ((System.init w.config countless 0 ()).steps w
      ([.request .start, .advance 0 none, .advance 0 none, .advance 0 none] ++
        List.replicate 6 Trial.turn)).any fun s =>
      ((s.workers.get .general).record?).any fun x =>
        ((s.shared.status .general 1).current).any fun c =>
          c.attempt.toNat ≠ x.retryCount.toNat + 1 := by decide +kernel
  obtain ⟨s, hs, hrun⟩ := (Option.any_eq_true _ _).1 hrun
  obtain ⟨x, hx, hrun⟩ := (Option.any_eq_true _ _).1 hrun
  obtain ⟨c, hc, hne⟩ := (Option.any_eq_true _ _).1 hrun
  exact ⟨s, x, c, hs, hx, hc, of_decide_eq_true hne⟩

end System

end LaneQueue
