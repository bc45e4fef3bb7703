import LaneQueue.Proofs.Scheduler.Accepted
import LaneQueue.Proofs.Scheduler.Claims
import LaneQueue.Proofs.Scheduler.Signals
/-!
# No wake-up is lost

A record that has never failed is due from the moment when it is stored. So a claim that finds nothing
leaves nothing of the kind behind in its lane, and what comes later is brought by a caller who has
still to wake the lane: until then the record is owed a wake-up (`System.Owed`), and after it a permit
is there that only the worker takes. The pause flag is told in one step, and the worker that reads it
takes the news of the change away in the same step.
-/
namespace LaneQueue

/-! ## Records that have not failed -/

theorem Record.attempt_ne_zero (r : Record) : r.attempt ≠ 0 := by
  unfold attempt
  split
  · rename_i h
    rw [h]
    decide
  · rename_i h
    intro h0
    apply h
    have hn := congrArg UInt32.toNat h0
    have hlt := r.retryCount.toNat_lt
    simp only [UInt32.toNat_add, UInt32.reduceToNat] at hn
    apply UInt32.toNat_inj.1
    simp only [UInt32.reduceToNat]
    omega

/-- A record that is put off has failed at least once. -/
theorem Fate.retry_ne_zero {c : RetryConfig} {now : Instant} {r : Record} {o : Outcome} {n : UInt32}
    {t : Instant} (h : (Fate.ofOutcome c now r o).retry = some (n, t)) : n ≠ 0 := by
  cases o with
  | success | fatal => cases h
  | recoverable reason =>
    simp only [ofOutcome] at h
    split at h
    · cases h
    · split at h
      · cases h
      · cases h
        exact r.attempt_ne_zero

theorem Row.retries_postponed (row : Row) (n : UInt32) (t : Instant) :
    ({ row with retryCount := n.toNat, availableAt := t } : Row).retries = n := by
  have hn : (n.toNat : Int) < UInt32.size := by exact_mod_cast n.toNat_lt
  unfold retries
  rw [if_pos ⟨Int.natCast_nonneg _, hn⟩]
  simp

/-- A row that has not failed has been there as it is, or is that of a command that has just come. -/
theorem Ledger.Edit.unfailed_cases {l l' : Ledger} {now : Instant} {op : Operation}
    (h : l.Edit now op l') (hop : ∀ r n t, op = .reschedule r n t → n ≠ 0) {row : Row}
    (hr : row ∈ l'.rows) (h0 : row.retries = 0) :
    row ∈ l.rows ∨ ∃ c, row = .ofRecord (l.fresh c now) := by
  rcases h.mem_rows_cases hr with hold | ⟨c, hnew, -⟩ | ⟨r, n, t, he, x, -, -, rfl⟩
  · exact .inl hold
  · exact .inr ⟨c, hnew⟩
  · rw [Row.retries_postponed] at h0
    exact absurd h0 (hop r n t he)

/-- An event tells that a record has come to be stored. -/
inductive EventBody.Announces (r : Record) : EventBody → Prop
  | queued : Announces r (.queued r.identity r.tag r.priority)
  | replaced : Announces r (.replaced r.identity r.tag r.priority)

namespace System

open LawfulStore (ledger)

variable {σ W : Type} [QueueStore σ] [LawfulStore σ] {w : Wiring W} {s s' s₀ : System σ W}
  {a : Action} {l : Lane}

/-- Whatever has never failed is due. -/
structure Prompt (s : System σ W) : Prop where
  fates : ∀ l r f, (s.workers.get l).settling? = some (r, f) → ∀ n t, f.retry = some (n, t) → n ≠ 0
  due : ∀ row ∈ (ledger s.shared.store).rows, row.retries = 0 → row.availableAt ≤ s.shared.now

theorem Prompt.init (config : QueueConfig) {store : σ} {now : Instant} (world : W)
    (h : ∀ row ∈ (ledger store).rows, row.retries = 0 → row.availableAt ≤ now) :
    (System.init config store now world).Prompt where
  fates l r f hf := by simp [System.init, Point.settling?] at hf
  due := h

/-- Whatever is put off has failed. -/
theorem Prompt.of_reschedule (h : s.Prompt) {r : Record} {n : UInt32} {t : Instant}
    (hop : s.operation? a = some (.reschedule r n t)) : n ≠ 0 := by
  rcases operation?_cases hop with ⟨k, c, -, -, hop⟩ | ⟨l, -, hop | hop | ⟨x, f, u, hp, hop⟩ | ⟨x, f, -, hop⟩⟩
  · cases Call.settled?_operation? hop
  · cases hop
  · cases hop
  · unfold Fate.operation at hop
    split at hop
    · cases hop
    · rename_i hretry
      cases hop
      exact h.fates l r f (by rw [hp]; rfl) n t hretry
  · cases hop

theorem Prompt.step (h : s.Prompt) (htidy : s.Tidy) (hstep : s.step w a = some s') : s'.Prompt where
  fates l r f hf n t hretry := by
    rcases step_worker hstep l with heq | ⟨signal, fault, -, hp⟩
    · rw [heq] at hf
      exact h.fates l r f hf n t hretry
    · rcases Point.step_settling hp hf with hf | ⟨fin, -, rfl⟩ | ⟨e, -, -, rfl⟩
      · exact h.fates l r f hf n t hretry
      · exact Fate.retry_ne_zero hretry
      · cases hretry
  due row hr h0 := by
    have hnow := htidy.now_le_step hstep
    rw [step_store hstep] at hr
    cases hop : s.operation? a with
    | none =>
      rw [hop] at hr
      exact Int.le_trans (h.due row hr h0) hnow
    | some op =>
      rw [hop] at hr
      have hedit := LawfulStore.edit_run htidy.sound op s.shared.now
      rcases hedit.unfailed_cases (fun r n t he => h.of_reschedule (he ▸ hop)) hr h0 with
        hold | ⟨c, rfl⟩
      · exact Int.le_trans (h.due row hold h0) hnow
      · exact hnow

/-! ## Records that are owed a wake-up -/

/-- A caller has stored a record at a moment of a run, and has not taken its wake step since. -/
inductive Owed (w : Wiring W) (s₀ : System σ W) (k : Caller) (r : Record) :
    List Action → System σ W → Prop
  | stored {as : List Action} {a : Action} {s s' : System σ W} : s₀.steps w as = some s →
      s.accepted? a = some r → a.caller? = some k → s.step w a = some s' →
      Owed w s₀ k r (as ++ [a]) s'
  | later {as : List Action} {a : Action} {s s' : System σ W} : Owed w s₀ k r as s →
      s.step w a = some s' → (a.caller? = some k → ∀ l x, s.callOf k ≠ some (.wake l x)) →
      Owed w s₀ k r (as ++ [a]) s'

/-- Whoever stores a record is about to tell of it. -/
theorem announce_of_accepted (h : s.Tidy) {r : Record} (hacc : s.accepted? a = some r)
    (hstep : s.step w a = some s') :
    ∃ k b o, a.caller? = some k ∧ b.Announces r ∧ s'.callOf k = some (.announce r.lane b o) := by
  obtain ⟨op, hop, hcr⟩ := Option.bind_eq_some_iff.1 hacc
  rcases Operation.creates_of_created? hcr with ⟨c, rfl⟩ | ⟨c, p, rfl⟩
  · exact absurd rfl ((operation?_ne_insert_delete hop).1 c)
  · obtain ⟨k, t, hk, hc, htry⟩ := operation?_eq_submit hop
    obtain ⟨c', hcall, hc'⟩ := callOf_own hstep hk hc rfl
    obtain ⟨x, hok, hx⟩ := Operation.exists_of_created? hcr
    obtain ⟨sub, hsub, rfl⟩ := exists_of_map_eq_ok hok
    have hlaw := LawfulStore.submit h.sound c p s.shared.now
    rw [hsub] at hlaw
    simp only [Call.step, Call.trying, Try.step_of_ok htry hsub, Option.some.injEq,
      Prod.mk.injEq] at hcall
    rw [← hcall.1] at hc'
    cases sub with
    | inserted y =>
      obtain ⟨-, hy, -⟩ := hlaw
      obtain rfl := Option.some.inj hx
      exact ⟨k, _, _, hk, .queued, by rw [hc', hy]; rfl⟩
    | replaced old y =>
      obtain ⟨-, -, hy, -⟩ := hlaw
      obtain rfl := Option.some.inj hx
      exact ⟨k, _, _, hk, .replaced, by rw [hc', hy]; rfl⟩
    | kept | refused => cases hx

/-- Who owes a record its wake-up is between storing it and waking its lane. -/
theorem Owed.callOf (h₀ : s₀.Tidy) {k : Caller} {r : Record} {as : List Action}
    (h : Owed w s₀ k r as s) : s₀.steps w as = some s ∧
      ((∃ b o, s.callOf k = some (.announce r.lane b o)) ∨ ∃ x, s.callOf k = some (.wake r.lane x)) := by
  induction h with
  | stored hrun hacc hk hstep =>
    obtain ⟨k', b, o, hk', -, hc⟩ := announce_of_accepted (h₀.steps hrun) hacc hstep
    obtain rfl := Option.some.inj (hk.symm.trans hk')
    exact ⟨steps_snoc.2 ⟨_, hrun, hstep⟩, .inl ⟨b, o, hc⟩⟩
  | @later as a s s' _ hstep hn ih =>
    obtain ⟨hrun, hcall⟩ := ih
    refine ⟨steps_snoc.2 ⟨_, hrun, hstep⟩, ?_⟩
    by_cases hk : a.caller? = some k
    · rcases hcall with ⟨b, o, hc⟩ | ⟨x, hc⟩
      · obtain ⟨c', hstep', hc'⟩ := callOf_own hstep hk hc rfl
        simp only [Call.step, Option.some.injEq, Prod.mk.injEq] at hstep'
        rw [← hstep'.1] at hc'
        exact .inr ⟨_, hc'⟩
      · exact absurd hc (hn hk _ _)
    · rcases hcall with ⟨b, o, hc⟩ | ⟨x, hc⟩
      · exact .inl ⟨b, o, callOf_beside hstep hk hc⟩
      · exact .inr ⟨x, callOf_beside hstep hk hc⟩

/-! ## What a worker that waits has been told -/

/-- A record of a lane is stored, not claimed, and has never failed. -/
structure Untried (s : System σ W) (l : Lane) (r : Record) : Prop where
  keeps : (ledger s.shared.store).Keeps r
  lane : r.lane = l
  free : r.seq ∉ (ledger s.shared.store).claimed
  unfailed : r.retryCount = 0

/-- While a worker has nothing in hand, a record of its lane is new to it only by the step that stores
it. -/
theorem Tidy.untried_step (h : s.Tidy) (hsp : (s.shared.cell l).spawned = true)
    (hn : (s.workers.get l).record? = none) (hstep : s.step w a = some s') {r : Record}
    (hr : s'.Untried l r) : s.Untried l r ∨ s.accepted? a = some r := by
  obtain ⟨row, hrow, hshows⟩ := hr.keeps
  have hw : (ledger s'.shared.store).isWaiting l row = true :=
    Ledger.isWaiting_iff.2 ⟨hr.lane ▸ hshows.lane, hshows.seq ▸ hr.free⟩
  rcases h.waiting_step hsp hn hstep hrow hw with ⟨hold, hwait⟩ | ⟨c, hnew⟩
  · have hfree := (Ledger.isWaiting_iff.1 hwait).2
    exact .inl ⟨⟨row, hold, hshows⟩, hr.lane, hshows.seq ▸ hfree, hr.unfailed⟩
  · have hseq : row.seq = (ledger s.shared.store).lastSeq + 1 := by rw [hnew]; rfl
    rw [step_store hstep] at hrow
    unfold accepted?
    cases hop : s.operation? a with
    | none =>
      rw [hop] at hrow
      have := h.sound.stored_le row hrow
      omega
    | some op =>
      rw [hop] at hrow
      exact .inr (LawfulStore.created?_of_next h.sound hrow hseq hshows)

/-- What a worker that waits knows of, or is about to be told. -/
structure Told (w : Wiring W) (s₀ : System σ W) (l : Lane) (as : List Action) (s : System σ W) :
    Prop where
  /-- While it waits for work, a permit is there for every untried record or is still owed. -/
  idle : (s.workers.get l).isIdling = true → ∀ r, s.Untried l r →
    (s.shared.cell l).permit = true ∨ ∃ k, Owed w s₀ k r as s
  /-- While it waits for its flag, that is up, or the change is there to be noticed. -/
  paused : (s.workers.get l).isPausing = true →
    (s.shared.cell l).paused = true ∨ (s.shared.cell l).changed = true

/-- A caller that owes a wake-up goes on to owe it, or leaves the permit. -/
theorem Owed.step (h₀ : s₀.Tidy) {k : Caller} {r : Record} {as : List Action}
    (ho : Owed w s₀ k r as s) (hstep : s.step w a = some s') :
    (s'.shared.cell r.lane).permit = true ∨ Owed w s₀ k r (as ++ [a]) s' := by
  by_cases hwake : a.caller? = some k ∧ ∃ l x, s.callOf k = some (.wake l x)
  · obtain ⟨hk, l, x, hc⟩ := hwake
    rcases (ho.callOf h₀).2 with ⟨b, o, hc'⟩ | ⟨y, hc'⟩
    · cases hc.symm.trans hc'
    · exact .inl (permit_of_wake hstep hk hc')
  · exact .inr (.later ho hstep fun hk l x hc => hwake ⟨hk, l, x, hc⟩)

/-- **One step**: whatever a worker that waits has not been told is still owed to it. -/
theorem Told.step (h₀ : s₀.Tidy) {as : List Action} (hrun : s₀.steps w as = some s)
    (hprompt : s.Prompt) (ht : Told w s₀ l as s) (hstep : s.step w a = some s') :
    Told w s₀ l (as ++ [a]) s' where
  idle hi r hr := by
    have htidy := h₀.steps hrun
    rcases idling_cases hstep hi with ⟨hold, hheeds⟩ | ⟨signal, fault, t, rfl, hclaim, hshow⟩
    · have hsp := htidy.spawned_of_ne_top (l := l) (fun htop => by rw [htop] at hold; cases hold)
      rcases htidy.untried_step hsp (Point.record?_of_isIdling hold) hstep hr with hr | hacc
      · rcases ht.idle hold r hr with hpermit | ⟨k, ho⟩
        · exact .inl ((step_signals hstep hheeds).permit hpermit)
        · rcases ho.step h₀ hstep with hpermit | ho
          · exact .inl (hr.lane ▸ hpermit)
          · exact .inr ⟨k, ho⟩
      · obtain ⟨k, b, o, hk, -, -⟩ := announce_of_accepted htidy hacc hstep
        exact .inr ⟨k, .stored hrun hacc hk hstep⟩
    · -- the claim would have found the record
      exfalso
      obtain ⟨hsame, hnone⟩ := htidy.claim_none hclaim hstep hshow
      obtain ⟨⟨row, hrow, hshows⟩, hlane, hfree, hunfailed⟩ := hr
      rw [hsame] at hrow hfree
      have hdue := hprompt.due row hrow (hshows.retryCount.trans hunfailed)
      have hd := hnone row hrow
      rw [Ledger.isDue_iff.2 ⟨hlane ▸ hshows.lane, hshows.seq ▸ hfree, hdue⟩] at hd
      cases hd
  paused := paused_or_changed_step hstep ht.paused

/-- Along every run a worker that waits has been told, or will be. -/
theorem told_steps (h₀ : s₀.Tidy) (hprompt : s₀.Prompt) (hl : s₀.workers.get l = .top)
    {as : List Action} (hrun : s₀.steps w as = some s) : s.Prompt ∧ Told w s₀ l as s := by
  refine steps_induction (P := fun as t => t.Prompt ∧ Told w s₀ l as t) ⟨hprompt, ?_, ?_⟩ ?_ hrun
  · intro hi
    rw [hl] at hi
    cases hi
  · intro hp
    rw [hl] at hp
    cases hp
  · rintro as a t t' ht ⟨hpt, htold⟩ hstep
    exact ⟨hpt.step (h₀.steps ht) hstep, htold.step h₀ ht hpt hstep⟩

/-- **No wake-up is lost.** Take any run of a scheduler over a sound store in which whatever has never
failed is due at first. If the worker of a lane waits for work and no permit is there for it, every
record of the lane that is not claimed and has never failed was stored by a caller that has not taken
its wake step since, and that is about to tell of the record or to take that step. If the worker waits
for its flag, the flag is up, or the worker has been told of a change. -/
theorem waits_told (w : Wiring W) {store : σ} (hs : (ledger store).Sound) {now : Instant}
    (hdue : ∀ row ∈ (ledger store).rows, row.retries = 0 → row.availableAt ≤ now) (world : W)
    {as : List Action} (hrun : (System.init w.config store now world).steps w as = some s)
    (l : Lane) :
    (∀ timer, s.workers.get l = .idle timer → (s.shared.cell l).permit = false →
      ∀ r, (ledger s.shared.store).Keeps r → r.lane = l →
        r.seq ∉ (ledger s.shared.store).claimed → r.retryCount = 0 →
          ∃ k, Owed w (.init w.config store now world) k r as s ∧
            ((∃ b o, s.callOf k = some (.announce l b o)) ∨ ∃ x, s.callOf k = some (.wake l x))) ∧
      (s.workers.get l = .paused →
        (s.shared.cell l).paused = true ∨ (s.shared.cell l).changed = true) := by
  have h₀ := Tidy.init (W := W) w.config hs now world
  have htop : (System.init w.config store now world).workers.get l = .top := PerLane.get_ofFn _ l
  obtain ⟨-, htold⟩ := told_steps h₀ (Prompt.init w.config world hdue) htop hrun
  constructor
  · intro timer hidle hpermit r hkeeps hlane hfree hunfailed
    rcases htold.idle (by rw [hidle]; rfl) r ⟨hkeeps, hlane, hfree, hunfailed⟩ with htrue | ⟨k, ho⟩
    · rw [hpermit] at htrue
      cases htrue
    · exact ⟨k, ho, hlane ▸ (ho.callOf h₀).2⟩
  · intro hpaused
    exact htold.paused (by rw [hpaused]; rfl)

/-- The worker of a lane has found nothing to do, and a command is stored that it has not been told
of. -/
def upToUntold : List Action :=
  [.request .start, .advance 0 none, .advance 0 none, .advance 0 none] ++
    List.replicate 7 Trial.turn ++
    [.request (.submit ⟨"Flaky", "f", .ok []⟩ {}), .advance 1 none, .advance 1 none]

/-- The client who has stored it owes the wake-up. -/
theorem waits_told_untold :
    ∃ (s : System MemoryStore Unit) (r : Record) (k : Caller),
      (Trial.init fun _ => .success).steps (Trial.wiring fun _ => .success) upToUntold = some s ∧
        s.shared.store.records = [r] ∧ (s.shared.cell .general).permit = false ∧
        Owed (Trial.wiring fun _ => .success) (Trial.init fun _ => .success) k r upToUntold s := by
  have hrun : ((Trial.init fun _ => .success).steps (Trial.wiring fun _ => .success)
      upToUntold).any fun s =>
        (s.workers.get .general).timer? = some none ∧ (s.shared.cell .general).permit = false ∧
          s.shared.store.claimed = [] ∧
          s.shared.store.records = [.ofCommand ⟨"f", "Flaky", .general, .default, [], true⟩ 1 0] := by
    decide +kernel
  obtain ⟨s, hs, hend⟩ := (Option.any_eq_true _ _).1 hrun
  obtain ⟨htimer, hpermit, hclaimed, hrecords⟩ := of_decide_eq_true hend
  have hempty : (ledger MemoryStore.empty).Sound := Ledger.Sound.empty
  have hkeeps : (ledger s.shared.store).Keeps
      (.ofCommand ⟨"f", "Flaky", .general, .default, [], true⟩ 1 0) := by
    refine ⟨_, MemoryStore.mem_rows.2 ⟨_, ?_, rfl⟩, Row.shows_ofRecord _⟩
    rw [hrecords]
    exact List.mem_singleton_self _
  have hfree : (1 : Int) ∉ (ledger s.shared.store).claimed := by
    change (1 : Int) ∉ s.shared.store.claimed
    rw [hclaimed]
    exact List.not_mem_nil
  have hdue : ∀ row ∈ (ledger MemoryStore.empty).rows, row.retries = 0 → row.availableAt ≤ 0 :=
    fun row hr => by cases hr
  obtain ⟨hidle, -⟩ := waits_told (Trial.wiring fun _ => .success) hempty hdue () hs .general
  obtain ⟨k, ho, -⟩ :=
    hidle none (Point.timer?_eq_some.1 htimer) hpermit _ hkeeps rfl hfree rfl
  exact ⟨s, _, k, hs, hrecords, hpermit, ho⟩

end System

end LaneQueue
