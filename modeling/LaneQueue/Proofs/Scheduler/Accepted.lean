import LaneQueue.Proofs.Scheduler.Tidy
import LaneQueue.Proofs.Store.Bookkeeping
import LaneQueue.Proofs.Store.Frame
/-!
# Accepted work is kept

A record that is stored for a submission stays stored until something ends it: an execution of that
very record with an outcome that ends it, a payload that cannot be read, a submission that replaces
it, or a clearing of its lane while it is not claimed. Every removal of a row by a worker is traced
back to the point where its fate was settled.
-/
namespace LaneQueue

/-- Whether an outcome is the last that is heard of a record. -/
def Outcome.Ends (c : RetryConfig) (r : Record) : Outcome → Prop
  | .success | .fatal _ => True
  | .recoverable _ => r.bubbles = false ∨ c.exhausted r.attempt.toNat = true

theorem Fate.retry_ofOutcome {c : RetryConfig} {now : Instant} {r : Record} {o : Outcome} :
    (Fate.ofOutcome c now r o).retry = none ↔ o.Ends c r := by
  cases o with
  | success | fatal => simp [Fate.ofOutcome, Outcome.Ends]
  | recoverable reason =>
    simp only [Fate.ofOutcome, Outcome.Ends]
    split
    · rename_i hb
      simpa using Or.inl (by simpa using hb)
    · rename_i hb
      split
      · rename_i he
        simpa using Or.inr he
      · rename_i he
        simp only [reduceCtorEq, false_iff, not_or]
        exact ⟨by simpa using hb, he⟩

/-- The same command at the same place, after any number of failed attempts. -/
structure Record.IsVersionOf (x r : Record) : Prop where
  command : x.toNewCommand = r.toNewCommand
  seq : x.seq = r.seq

/-! ## Where a fate was settled -/

namespace Point

variable {σ W : Type}

/-- The record that a worker settles, and its fate. -/
def settling? : Point W → Option (Record × Fate)
  | settle r f _ | release r f => some (r, f)
  | _ => none

theorem record?_of_settling? {p : Point W} {r : Record} {f : Fate}
    (h : p.settling? = some (r, f)) : p.record? = some r := by
  cases p with
  | settle | release => cases h; rfl
  | top | readPause | showPaused | paused | claim | claimFailed | showIdle | askWake | measure | arm |
    idle | decode | begin | announce | run | asking | collapsed | publish | finish | stop | exited =>
    cases h

/-- A worker removes nothing but a record that it settles so. -/
theorem operation?_eq_retire {p : Point W} {l : Lane} {fault : Option QueueError} {r : Record}
    (h : p.operation? l fault = some (.retire r)) :
    fault = none ∧ ∃ f t, p = settle r f t ∧ f.retry = none := by
  rcases operation?_cases h with hop | hop | ⟨x, f, t, rfl, hop, hfault⟩ | ⟨x, f, -, hop⟩ |
    ⟨x, c, next, -, hop⟩
  · cases hop
  · cases hop
  · unfold Fate.operation at hop
    split at hop
    · rename_i hretry
      cases hop
      exact ⟨hfault, f, t, rfl, hretry⟩
    · cases hop
  · cases hop
  · cases Call.settled?_operation? hop

variable [QueueStore σ] {w : Wiring W} {l : Lane} {signal : Signal} {fault : Option QueueError}
  {p p' : Point W} {s s' : Shared σ W}

/-- A fate is settled where a body ends, and where a payload cannot be read. -/
theorem step_settling (h : p.step w l signal fault s = some (p', s')) {r : Record} {f : Fate}
    (hf : p'.settling? = some (r, f)) :
    p.settling? = some (r, f) ∨
      (∃ fin, p = run r (.done fin) ∧
        f = .ofOutcome w.config.retry s.now r fin.toOutcome) ∨
      ∃ e, p = decode r ∧ w.registry.decode r = .error e ∧ f = .dropped r e := by
  cases step_moves h with
  | finish x fin =>
    cases hf
    exact .inr (.inl ⟨fin, rfl, rfl⟩)
  | reject x e he =>
    cases hf
    exact .inr (.inr ⟨e, rfl, he, rfl⟩)
  | settleAgain | giveUp => exact .inl hf
  | look | leave | hold | pass | park | cancel | rouse | claimAgain | claimFails | findNone | find |
    rest | learn | refuse | measure | sleep | accept | begin | execute | act | await | ask | proceed |
    hear | collapse | settled | release | publish | again | exit => cases hf

end Point

namespace System

open LawfulStore (ledger)

variable {σ W : Type} {w : Wiring W} {s s' s₀ : System σ W}

theorem operation?_eq_retire {a : Action} {x : Record} (h : s.operation? a = some (.retire x)) :
    ∃ l signal f t, a = .work l signal none ∧ s.workers.get l = .settle x f t ∧ f.retry = none := by
  cases a with
  | request | tick => cases h
  | advance i fault =>
    obtain ⟨c, -, hop⟩ := Option.bind_eq_some_iff.1 h
    cases Call.settled?_operation? hop
  | work l signal fault =>
    obtain ⟨rfl, f, t, hp, hf⟩ := Point.operation?_eq_retire h
    exact ⟨l, signal, f, t, rfl, hp, hf⟩

variable [QueueStore σ]

/-- The fate of a record comes from the end of a body or from an unreadable payload, at a moment of
the run. -/
def Justified (w : Wiring W) (s₀ : System σ W) (as : List Action) (l : Lane) (r : Record)
    (f : Fate) : Prop :=
  (∃ fin now, Visits w s₀ as l (.run r (.done fin)) ∧
      f = .ofOutcome w.config.retry now r fin.toOutcome) ∨
    ∃ e, Visits w s₀ as l (.decode r) ∧ w.registry.decode r = .error e ∧ f = .dropped r e

theorem Justified.snoc {as : List Action} {l : Lane} {r : Record} {f : Fate}
    (h : Justified w s₀ as l r f) (a : Action) : Justified w s₀ (as ++ [a]) l r f := by
  rcases h with ⟨fin, now, hv, hf⟩ | ⟨e, hv, he, hf⟩
  · exact .inl ⟨fin, now, hv.snoc a, hf⟩
  · exact .inr ⟨e, hv.snoc a, he, hf⟩

/-- Every fate that is settled in a run is justified by the run, if no worker starts it with a record
at that place in hand. -/
theorem justified_of_steps {q : Int}
    (h₀ : ∀ l r, (s₀.workers.get l).record? = some r → r.seq ≠ q) {as : List Action}
    (h : s₀.steps w as = some s) :
    ∀ l r f, (s.workers.get l).settling? = some (r, f) → r.seq = q → Justified w s₀ as l r f := by
  refine steps_induction (P := fun as t => ∀ l r f, (t.workers.get l).settling? = some (r, f) →
    r.seq = q → Justified w s₀ as l r f) ?_ ?_ h
  · intro l r f hf hq
    exact absurd hq (h₀ l r (Point.record?_of_settling? hf))
  · intro as a t t' ht ih hstep l r f hf hq
    rcases step_worker hstep l with heq | ⟨signal, fault, rfl, hp⟩
    · rw [heq] at hf
      exact (ih l r f hf hq).snoc a
    · have hv := (Visits.here ht l).snoc (.work l signal fault)
      rcases Point.step_settling hp hf with hf | ⟨fin, hrun, hfate⟩ | ⟨e, hdec, he, hfate⟩
      · exact (ih l r f hf hq).snoc _
      · rw [hrun] at hv
        exact .inl ⟨fin, _, hv, hfate⟩
      · rw [hdec] at hv
        exact .inr ⟨e, hv, he, hfate⟩

/-! ## How a record ends -/

variable [LawfulStore σ]

/-- The record that an action stores for a submission. -/
def accepted? (s : System σ W) (a : Action) : Option Record :=
  (s.operation? a).bind fun op => (op.run s.shared.now s.shared.store).1.toOption.bind Answer.created?

/-- What an action ends a record by, after a run from the moment when it was stored. -/
inductive Ends (w : Wiring W) (s₀ : System σ W) (as : List Action) (s : System σ W) (r : Record) :
    Action → Prop
  /-- That very record was executed, and the outcome ends it. -/
  | executed {l : Lane} {signal : Signal} {x : Record} {f : Fate} {t : Try} {fin : Finish} :
      s.workers.get l = .settle x f t → x.IsVersionOf r →
      Visits w s₀ as l (.run x (.done fin)) → fin.toOutcome.Ends w.config.retry x →
      Ends w s₀ as s r (.work l signal none)
  /-- Its payload could not be read. -/
  | undecodable {l : Lane} {signal : Signal} {x : Record} {f : Fate} {t : Try} {e : QueueError} :
      s.workers.get l = .settle x f t → x.IsVersionOf r →
      Visits w s₀ as l (.decode x) → w.registry.decode x = .error e →
      Ends w s₀ as s r (.work l signal none)
  /-- A later submission of its identity took its place. -/
  | replaced {a : Action} {c : NewCommand} :
      s.operation? a = some (.submit c .replace) → c.identity = r.identity → Ends w s₀ as s r a
  /-- Its lane was cleared while it was not claimed. -/
  | cleared {a : Action} :
      s.operation? a = some (.purgeLane r.lane) → r.seq ∉ (ledger s.shared.store).claimed →
      Ends w s₀ as s r a

/-- **A step that removes a record** is one of those that end it. -/
theorem ends_of_not_stores (h : s.Tidy) {r : Record} {as : List Action}
    (hj : ∀ l x f, (s.workers.get l).settling? = some (x, f) → x.seq = r.seq →
      Justified w s₀ as l x f)
    {a : Action} (hstep : s.step w a = some s')
    (hst : (ledger s.shared.store).Stores r.toNewCommand r.seq)
    (hgone : ¬ (ledger s'.shared.store).Stores r.toNewCommand r.seq) : Ends w s₀ as s r a := by
  obtain ⟨row, hrow, hc⟩ := hst
  rw [step_store hstep] at hgone
  cases hop : s.operation? a with
  | none =>
    rw [hop] at hgone
    exact absurd ⟨row, hrow, hc⟩ hgone
  | some op =>
    rw [hop] at hgone
    by_cases hrem : op.Removes (ledger s.shared.store) row
    · cases op with
      | submit c p =>
        obtain ⟨rfl, hi⟩ := hrem
        exact .replaced hop (hi.trans hc.identity)
      | deleteByIdentity i => exact absurd rfl ((operation?_ne_insert_delete hop).2 i)
      | purgeLane lane =>
        obtain ⟨hl, hq⟩ := hrem
        obtain rfl : lane = r.lane := Lane.index_inj (hl.symm.trans hc.lane)
        exact .cleared hop (hc.seq ▸ hq)
      | retire x =>
        obtain ⟨-, hq⟩ := hrem
        obtain ⟨l, signal, f, t, rfl, hp, hf⟩ := operation?_eq_retire hop
        have hxq : x.seq = r.seq := hq.symm.trans hc.seq
        -- what is stored at the place of the record in hand is a version of it
        have hhand := h.inHand l x (by rw [hp]; rfl)
        have hver : x.IsVersionOf r := ⟨(hhand.carries row hrow hq).unique hc, hxq⟩
        rcases hj l x f (by rw [hp]; rfl) hxq with ⟨fin, now, hv, rfl⟩ | ⟨e, hv, he, -⟩
        · exact .executed hp hver hv (Fate.retry_ofOutcome.1 hf)
        · exact .undecodable hp hver hv he
      | insert | findByIdentity | nextEligible | reschedule | release | pendingCount | nextWakeAt |
        recover => cases hrem
    · exact absurd ((LawfulStore.edit_run h.sound op _).stores hrow hc hrem) hgone

/-- When a record is stored for a submission, no worker has a record at its place in hand. -/
theorem seq_ne_of_accepted (h : s.Tidy) {a : Action} {r : Record} (hacc : s.accepted? a = some r)
    (hstep : s.step w a = some s') :
    (ledger s'.shared.store).Keeps r ∧
      ∀ l x, (s'.workers.get l).record? = some x → x.seq ≠ r.seq := by
  obtain ⟨op, hop, hcr⟩ := Option.bind_eq_some_iff.1 hacc
  obtain ⟨y, hok, hcr⟩ := Operation.exists_of_created? hcr
  obtain ⟨hfree, hkeeps⟩ := LawfulStore.created_run h.sound hok hcr
  refine ⟨by rw [step_store hstep, hop]; exact hkeeps, fun l x hx => ?_⟩
  have hle : x.seq ≤ (ledger s.shared.store).lastSeq := by
    rcases step_worker hstep l with heq | ⟨signal, fault, rfl, hp⟩
    · rw [heq] at hx
      exact (h.inHand l x hx).seq_le
    · rcases Point.step_record hp hx with hx | ⟨-, hclaim, -⟩
      · exact (h.inHand l x hx).seq_le
      · -- a claim creates no record
        have he : op = .nextEligible l := Option.some.inj (hop.symm.trans hclaim)
        subst he
        obtain ⟨z, -, rfl⟩ := exists_of_map_eq_ok hok
        cases hcr
  have := hfree.next
  omega

/-- At some moment of a run a step ended a record. -/
def EndedIn (w : Wiring W) (s₀ : System σ W) (as : List Action) (r : Record) : Prop :=
  ∃ bs b u u', bs ++ [b] <+: as ∧ s₀.steps w bs = some u ∧ u.step w b = some u' ∧
    (ledger u.shared.store).Stores r.toNewCommand r.seq ∧
    ¬ (ledger u'.shared.store).Stores r.toNewCommand r.seq ∧ Ends w s₀ bs u r b

/-- A record that is stored when a run starts is stored until a step of the run ends it. -/
theorem stores_or_endedIn (h : s₀.Tidy) {r : Record}
    (hst : (ledger s₀.shared.store).Stores r.toNewCommand r.seq)
    (h₀ : ∀ l x, (s₀.workers.get l).record? = some x → x.seq ≠ r.seq) {as : List Action}
    (hrun : s₀.steps w as = some s) :
    (ledger s.shared.store).Stores r.toNewCommand r.seq ∨ EndedIn w s₀ as r := by
  refine steps_induction (P := fun as t => (ledger t.shared.store).Stores r.toNewCommand r.seq ∨
    EndedIn w s₀ as r) (.inl hst) ?_ hrun
  intro as a t t' ht ih hstep
  rcases ih with hs | ⟨bs, b, u, u', hpre, hend⟩
  · by_cases hs' : (ledger t'.shared.store).Stores r.toNewCommand r.seq
    · exact .inl hs'
    · have hj := justified_of_steps h₀ ht
      exact .inr ⟨as, a, t, t', List.prefix_rfl, ht, hstep, hs, hs',
        ends_of_not_stores (h.steps ht) hj hstep hs hs'⟩
  · exact .inr ⟨bs, b, u, u', hpre.trans (List.prefix_append as [a]), hend⟩

/-- **Accepted work is not lost.** Take any run of a scheduler, any step of it that stores a record
for a submission, and any run from there. The record is stored at first, and then until a step ends
it; and no step touches any row of the store unless it carries out an operation that is about that
row, and the store has not failed. -/
theorem accepted_kept (w : Wiring W) {store : σ} (hs : (ledger store).Sound) (now : Instant)
    (world : W) {as bs : List Action} {a : Action} {s s₁ t : System σ W} {r : Record}
    (hrun : (System.init w.config store now world).steps w as = some s)
    (hacc : s.accepted? a = some r) (hstep : s.step w a = some s₁)
    (hrest : s₁.steps w bs = some t) :
    (ledger s₁.shared.store).Keeps r ∧
      ((ledger t.shared.store).Stores r.toNewCommand r.seq ∨ EndedIn w s₁ bs r) ∧
      ∀ b t', t.step w b = some t' → ∀ row ∈ (ledger t.shared.store).rows,
        row ∈ (ledger t'.shared.store).rows ∨
          ∃ op x, t.operation? b = some op ∧ (op.run t.shared.now t.shared.store).1 = .ok x ∧
            op.Concerns (ledger t.shared.store) row := by
  have htidy : s.Tidy := (Tidy.init w.config hs now world).steps hrun
  obtain ⟨hkeeps, hne⟩ := seq_ne_of_accepted htidy hacc hstep
  have htidy₁ := htidy.step hstep
  obtain ⟨row, hrow, hshows⟩ := hkeeps
  refine ⟨⟨row, hrow, hshows⟩,
    stores_or_endedIn htidy₁ ⟨row, hrow, hshows.toCarries⟩ hne hrest, ?_⟩
  intro b t' hb x hx
  rw [step_store hb]
  cases hop : t.operation? b with
  | none => exact .inl hx
  | some op =>
    rcases LawfulStore.row_kept (htidy₁.steps hrest).sound op t.shared.now hx with hx | ⟨y, hy, hc⟩
    · exact .inl hx
    · exact .inr ⟨op, y, rfl, hy, hc⟩

/-- A first attempt that fails, a settlement that the medium refuses once, and a second attempt that
succeeds and so ends the record. -/
def twoAttempts : List Action :=
  List.replicate 7 Trial.turn ++ [.work .general .timer (some (.transientStorage "busy")), .tick 1] ++
    List.replicate 4 Trial.turn ++ [.tick 4] ++ List.replicate 8 Trial.turn

theorem accepted_kept_twoAttempts :
    ∃ s s₁ t : System MemoryStore Unit, ∃ r,
      let outcome : UInt32 → Outcome := fun n => if n = 1 then .recoverable "x" else .success
      (Trial.init outcome).steps (Trial.wiring outcome) Trial.upToStore = some s ∧
        s.accepted? (.advance 1 none) = some r ∧
        s.step (Trial.wiring outcome) (.advance 1 none) = some s₁ ∧
        s₁.steps (Trial.wiring outcome) twoAttempts = some t ∧
        (ledger s₁.shared.store).Keeps r ∧ t.shared.store.records = [] ∧
        EndedIn (Trial.wiring outcome) s₁ twoAttempts r := by
  let outcome : UInt32 → Outcome := fun n => if n = 1 then .recoverable "x" else .success
  have hrun : (((Trial.init outcome).steps (Trial.wiring outcome) Trial.upToStore).bind fun s =>
      (s.accepted? (.advance 1 none)).bind fun _ =>
        (s.step (Trial.wiring outcome) (.advance 1 none)).bind fun s₁ =>
          (s₁.steps (Trial.wiring outcome) twoAttempts).map fun t => t.shared.store.records) =
      some [] := by decide +kernel
  obtain ⟨s, hs, hrun⟩ := Option.bind_eq_some_iff.1 hrun
  obtain ⟨r, hr, hrun⟩ := Option.bind_eq_some_iff.1 hrun
  obtain ⟨s₁, hs₁, hrun⟩ := Option.bind_eq_some_iff.1 hrun
  obtain ⟨t, ht, hrecords⟩ := Option.map_eq_some_iff.1 hrun
  have hempty : (ledger MemoryStore.empty).Sound := Ledger.Sound.empty
  obtain ⟨hkeeps, hend, -⟩ :=
    accepted_kept (Trial.wiring outcome) hempty 0 () hs hr hs₁ ht
  refine ⟨s, s₁, t, r, hs, hr, hs₁, ht, hkeeps, hrecords, hend.resolve_left ?_⟩
  rintro ⟨row, hrow, -⟩
  obtain ⟨x, hx, -⟩ := MemoryStore.mem_rows.1 hrow
  rw [hrecords] at hx
  cases hx

end System

end LaneQueue
