import LaneQueue.Proofs.Scheduler.Story
import LaneQueue.Proofs.Scheduler.Telling
/-!
# What the end of an execution announces

A worker tells of the fate of a record when it has let go of it, and also when it could not settle it.
So a terminal event means that the record has left the store only if the settlement was answered; if it
was given up the record is still there, is executed once more and may be told to end once more. The
chronicle tells the two apart, and while the storage serves only the first happens (`terminal_told`).
-/
namespace LaneQueue

section Fates

variable {W : Type} {w : Wiring W} {x : Record} {ms : List Note} {f : Fate}

/-- A fate is about its record. -/
theorem Episode.identity? (h : Episode w x ms f) : f.event.identity? = some x.identity := by
  cases h with
  | rejected => rfl
  | executed o now =>
    cases o with
    | success | fatal => rfl
    | recoverable reason =>
      simp only [Fate.ofOutcome]
      split
      · rfl
      · split <;> rfl

/-- It is told as an end just when it removes the record. -/
theorem Episode.isTerminal (h : Episode w x ms f) : f.event.isTerminal = f.retry.isNone := by
  cases h with
  | rejected => rfl
  | executed o now =>
    cases o with
    | success | fatal => rfl
    | recoverable reason =>
      simp only [Fate.ofOutcome]
      split
      · rfl
      · split <;> rfl

end Fates

namespace System

open LawfulStore (ledger)

variable {σ W : Type} [QueueStore σ] {w : Wiring W} {s s' s₀ : System σ W} {c c₀ : Chronicle}
  {a : Action} {l : Lane} {x : Record}

/-- Whoever has a record in hand has come some way with an episode of it. -/
theorem underway_of_record? (h₀ : ∀ l, (s₀.workers.get l).record? = none) {as : List Action}
    (hrun : s₀.steps w as = some s) (hx : (s.workers.get l).record? = some x) :
    ∃ ms, Underway w x (s.workers.get l) ms := by
  refine steps_induction (w := w) (P := fun _ t => ∀ l x, (t.workers.get l).record? = some x →
    ∃ ms, Underway w x (t.workers.get l) ms) ?_ ?_ hrun l x hx
  · intro l x hx
    rw [h₀ l] at hx
    cases hx
  · intro as a t t' _ ih hstep l x hx
    rcases comesBy_cases hstep hx with hold | ⟨hp, -, -⟩
    · obtain ⟨ms, hun⟩ := ih l x hold
      rcases step_worker hstep l with heq | ⟨signal, fault, -, hown⟩
      · exact ⟨ms, heq ▸ hun⟩
      · rcases hun.step hown with hun' | ⟨f, -, hp', -⟩
        · exact ⟨_, hun'⟩
        · rw [hp'] at hx
          cases hx
    · exact ⟨[], hp ▸ .decode⟩

/-! ## Letting go of a record -/

/-- A worker comes to tell of a record by a settlement that is answered, or by giving up the claim. -/
theorem settles_or_releases {signal : Signal} {fault : Option QueueError}
    (hstep : s.step w (.work l signal fault) = some s') {lane : Lane} {e : EventBody}
    (hp' : s'.workers.get l = .publish lane e) :
    ∃ x f, (lane = x.lane ∧ e = f.event) ∧
      (Settles w s s' l x f ∨ s.workers.get l = .release x f) := by
  have hown := worker_own hstep
  rw [hp'] at hown
  cases hp : s.workers.get l with
  | settle x f t =>
    have hset := settles_of_publish hp hstep hp'
    rw [hp] at hown
    exact ⟨x, f, (Point.settle_answered hown).1, .inl hset⟩
  | release x f =>
    rw [hp] at hown
    simp only [Point.step, Option.some.injEq, Prod.mk.injEq, Point.publish.injEq] at hown
    exact ⟨x, f, ⟨hown.1.1.symm, hown.1.2.symm⟩, .inr rfl⟩
  | _ =>
    rw [hp] at hown
    cases Point.step_moves hown

/-- A run whose last step of the worker of a lane let go of a record in hand. -/
structure LetGo (w : Wiring W) (s₀ : System σ W) (as : List Action) (s : System σ W) (l : Lane)
    (x : Record) (f : Fate) (bs : List Action) (u : System σ W) (b : Action) (u' : System σ W)
    (ds : List Action) : Prop where
  split : as = bs ++ b :: ds
  before : s₀.steps w bs = some u
  step : u.step w b = some u'
  after : u'.steps w ds = some s
  own : b.lane? = some l
  beside : ∀ d ∈ ds, d.lane? ≠ some l
  how : Settles w u u' l x f ∨ u.workers.get l = .release x f

/-- A worker that has something to tell has let go of a record by its last step. -/
theorem exists_letGo (h₀ : ∀ l, s₀.workers.get l = .top) {as : List Action}
    (hrun : s₀.steps w as = some s) {lane : Lane} {e : EventBody}
    (hp : s.workers.get l = .publish lane e) :
    ∃ x f bs u b u' ds, LetGo w s₀ as s l x f bs u b u' ds ∧ lane = x.lane ∧ e = f.event := by
  refine steps_induction (w := w) (P := fun as t => t.workers.get l = .publish lane e →
    ∃ x f bs u b u' ds, LetGo w s₀ as t l x f bs u b u' ds ∧ lane = x.lane ∧ e = f.event) ?_ ?_ hrun hp
  · intro hp
    rw [h₀ l] at hp
    cases hp
  · intro as a t t' ht ih hstep hp
    by_cases ha : a.lane? = some l
    · obtain ⟨signal, fault, rfl⟩ := Action.eq_work_of_lane? ha
      obtain ⟨x, f, he, how⟩ := settles_or_releases hstep hp
      exact ⟨x, f, as, t, _, t', [], ⟨rfl, ht, hstep, rfl, rfl, nofun, how⟩, he⟩
    · rw [worker_beside hstep ha] at hp
      obtain ⟨x, f, bs, u, b, u', ds, hgo, he⟩ := ih hp
      refine ⟨x, f, bs, u, b, u', ds ++ [a], ⟨?_, hgo.before, hgo.step, ?_, hgo.own, ?_, hgo.how⟩, he⟩
      · rw [hgo.split, List.append_assoc]
        rfl
      · exact steps_snoc.2 ⟨t, hgo.after, hstep⟩
      · intro d hd
        rcases List.mem_append.1 hd with hd | hd
        · exact hgo.beside d hd
        · rw [List.mem_singleton.1 hd]
          exact ha

namespace LetGo

variable {as bs ds : List Action} {u u' : System σ W} {b : Action} {f : Fate}

theorem settling? (h : LetGo w s₀ as s l x f bs u b u' ds) :
    (u.workers.get l).settling? = some (x, f) := by
  rcases h.how with hset | hp
  · obtain ⟨t, ht⟩ := hset.settling
    rw [ht]
    rfl
  · rw [hp]
    rfl

theorem record? (h : LetGo w s₀ as s l x f bs u b u' ds) : (u.workers.get l).record? = some x :=
  Point.record?_of_settling? h.settling?

theorem episode (h : LetGo w s₀ as s l x f bs u b u' ds)
    (h₀ : ∀ l, (s₀.workers.get l).record? = none) : ∃ ms, Episode w x ms f := by
  obtain ⟨ms, hun⟩ := underway_of_record? h₀ h.before h.record?
  have hset := h.settling?
  cases hp : u.workers.get l with
  | settle y g t =>
    rw [hp] at hun hset
    cases hset
    cases hun with
    | settle _ hep _ => exact ⟨ms, hep⟩
  | release y g =>
    rw [hp] at hun hset
    cases hset
    cases hun with
    | release hep => exact ⟨ms, hep⟩
  | _ =>
    rw [hp] at hset
    cases hset

theorem steps (h : LetGo w s₀ as s l x f bs u b u' ds) : s₀.steps w (bs ++ [b]) = some u' :=
  steps_snoc.2 ⟨u, h.before, h.step⟩

theorem chronicle_eq (h : LetGo w s₀ as s l x f bs u b u' ds) :
    s₀.chronicle w as c₀ = u'.chronicle w ds ((s₀.chronicle w bs c₀).after u b) := by
  have hsplit : as = bs ++ [b] ++ ds := by
    rw [h.split, List.append_assoc]
    rfl
  rw [hsplit, chronicle_append h.steps, chronicle_snoc h.before h.step]

end LetGo

/-! ## While the worker stands still -/

theorem worker_steps_beside {as : List Action} (h : ∀ d ∈ as, d.lane? ≠ some l)
    (hrun : s₀.steps w as = some s) : s.workers.get l = s₀.workers.get l := by
  refine steps_induction_forall (P := fun _ t => t.workers.get l = s₀.workers.get l) rfl ?_ h hrun
  intro as a t t' _ _ ha ih hstep
  rw [worker_beside hstep ha]
  exact ih

theorem last_chronicle_beside {as : List Action} (h : ∀ d ∈ as, d.lane? ≠ some l)
    (hrun : s₀.steps w as = some s) : (s₀.chronicle w as c₀).last.get l = c₀.last.get l := by
  refine steps_induction_forall (P := fun as _ =>
    (s₀.chronicle w as c₀).last.get l = c₀.last.get l) rfl ?_ h hrun
  intro as a t t' ht _ ha ih hstep
  rw [chronicle_snoc ht hstep, Chronicle.last_after_beside ha]
  exact ih

/-- It is busy with the same record. -/
theorem subject?_chronicle_beside (hsub : c₀.subject? s₀ l = some x) {as : List Action}
    (h : ∀ d ∈ as, d.lane? ≠ some l) (hrun : s₀.steps w as = some s) :
    (s₀.chronicle w as c₀).subject? s l = some x := by
  simp only [Chronicle.subject?, worker_steps_beside h hrun, last_chronicle_beside h hrun]
  exact hsub

/-- What it has still to tell is about the record that it has let go of. -/
theorem LetGo.last {as bs ds : List Action} {u u' : System σ W} {b : Action} {f : Fate}
    (h : LetGo w s₀ as s l x f bs u b u' ds) : (s₀.chronicle w as c₀).last.get l = some x := by
  rw [h.chronicle_eq, last_chronicle_beside h.beside h.after, Chronicle.last_after_own h.own,
    h.record?]
  rfl

variable [LawfulStore σ]

/-- Nothing more is noted about the record. -/
theorem about_chronicle_beside (htidy : s₀.Tidy) (hc : c₀.Sound s₀)
    (hsub : c₀.subject? s₀ l = some x) {as : List Action} (h : ∀ d ∈ as, d.lane? ≠ some l)
    (hrun : s₀.steps w as = some s) : (s₀.chronicle w as c₀).about x.seq = c₀.about x.seq := by
  refine steps_induction_forall (P := fun as _ =>
    (s₀.chronicle w as c₀).about x.seq = c₀.about x.seq) rfl ?_ h hrun
  intro as a t t' ht hbefore ha ih hstep
  have hsub' := subject?_chronicle_beside hsub hbefore ht
  rw [chronicle_snoc ht hstep, (hc.steps htidy ht).about_after_of_subject? hsub' rfl, if_neg ha,
    List.append_nil]
  exact ih

/-- The record stays stored, unless it is displaced. -/
theorem keeps_beside (htidy : s₀.Tidy) (hc : c₀.Sound s₀) (hsub : c₀.subject? s₀ l = some x)
    (hk : (ledger s₀.shared.store).Keeps x) {as : List Action} (h : ∀ d ∈ as, d.lane? ≠ some l)
    (hrun : s₀.steps w as = some s) (hd : ¬ DisplacedIn w s₀ as x) :
    (ledger s.shared.store).Keeps x := by
  refine steps_induction_forall (P := fun as t => ¬ DisplacedIn w s₀ as x →
    (ledger t.shared.store).Keeps x) (fun _ => hk) ?_ h hrun hd
  intro as a t t' ht hbefore ha ih hstep hd
  have hk := ih fun hdis => hd (hdis.snoc a)
  have hsub' := subject?_chronicle_beside hsub hbefore ht
  exact (hc.steps htidy ht).keeps_step (htidy.steps ht) hsub' rfl hk hstep
    (fun hdis => hd (.of_keeps List.prefix_rfl ht hk hdis)) fun _ _ hl => absurd hl ha

/-! ## Terminal events -/

/-- How it stands with a record that a worker is about to tell to be over. -/
inductive Concluded (w : Wiring W) (s₀ : System σ W) (as : List Action) (s : System σ W)
    (c : Chronicle) (l : Lane) (x : Record) (f : Fate) : Prop
  /-- Its settlement was answered, and its place is vacant. -/
  | removed {bs ds : List Action} {b : Action} {u u' : System σ W} :
      LetGo w s₀ as s l x f bs u b u' ds → Settles w u u' l x f →
      (ledger s.shared.store).Vacant x.seq → Concluded w s₀ as s c l x f
  /-- Its claim was given up, and nothing has been done to it. -/
  | givenUp {bs ds : List Action} {b : Action} {u u' : System σ W} :
      LetGo w s₀ as s l x f bs u b u' ds → u.workers.get l = .release x f →
      (c.about x.seq).getLast? = some .givenUp →
      ((ledger u.shared.store).Keeps x → ¬ DisplacedIn w u (b :: ds) x →
        (ledger s.shared.store).Keeps x) → Concluded w s₀ as s c l x f

/-- A worker that is about to tell an end has let go of the record by a settlement, or given it up. -/
theorem concluded_of_publish (htidy : s₀.Tidy) (hc : c₀.Sound s₀) (h₀ : ∀ l, s₀.workers.get l = .top)
    {as : List Action} (hrun : s₀.steps w as = some s) {lane : Lane} {e : EventBody}
    (hp : s.workers.get l = .publish lane e) (he : e.isTerminal = true) :
    ∃ x f, (s₀.chronicle w as c₀).last.get l = some x ∧ lane = x.lane ∧ e = f.event ∧
      e.identity? = some x.identity ∧ Concluded w s₀ as s (s₀.chronicle w as c₀) l x f := by
  obtain ⟨x, f, bs, u, b, u', ds, hgo, rfl, rfl⟩ := exists_letGo h₀ hrun hp
  obtain ⟨ms, hep⟩ := hgo.episode fun l => by rw [h₀ l]; rfl
  have hu := htidy.steps hgo.before
  have hcu := hc.steps htidy hgo.before
  have hsub : (s₀.chronicle w bs c₀).subject? u l = some x := Point.subject?_of_record? hgo.record? _
  refine ⟨x, f, hgo.last, rfl, rfl, hep.identity?, ?_⟩
  have hpub : u'.workers.get l = .publish x.lane f.event :=
    (worker_steps_beside hgo.beside hgo.after).symm.trans hp
  rcases hgo.how with hset | hrel
  · have hf : f.retry = none := Option.isNone_iff_eq_none.1 (hep.isTerminal.symm.trans he)
    have hsp := hu.spawned_step (hu.spawned_of_record hgo.record?) hgo.step
    exact .removed hgo hset ((hu.step hgo.step).vacant_steps hsp (hset.vacant hu hf) hgo.after).2
  · have hsub' : ((s₀.chronicle w bs c₀).after u b).subject? u' l = some x := by
      refine Chronicle.subject?_of_publish hpub ?_
      rw [Chronicle.last_after_own hgo.own, hgo.record?]
      rfl
    refine .givenUp hgo hrel ?_ fun hk hd => ?_
    · rw [hgo.chronicle_eq,
        about_chronicle_beside (hu.step hgo.step) (hcu.step hu hgo.step) hsub' hgo.beside hgo.after,
        Chronicle.about_after_own hgo.own hsub, hrel]
      exact List.getLast?_concat
    · have hk' : (ledger u'.shared.store).Keeps x := by
        refine hcu.keeps_step hu hsub rfl hk hgo.step (fun hdis => ?_) fun g t _ hm => ?_
        · have hpre : [] ++ [b] <+: b :: ds := ⟨ds, rfl⟩
          exact hd (.of_keeps hpre rfl hk hdis)
        · rw [hrel] at hm
          cases hm
      refine keeps_beside (hu.step hgo.step) (hcu.step hu hgo.step) hsub' hk' hgo.beside hgo.after ?_
      have hb : u.steps w [b] = some u' := by simp only [System.steps, hgo.step]
      exact fun hdis => hd (hdis.append hb)

/-- What has been told to be over is over, unless its settlement had just been given up. -/
def Chronicle.Truthful (c : Chronicle) (s : System σ W) : Prop :=
  ∀ q ns n ms, c.about q = ns ++ n :: ms → n.isTerminal = true →
    ns.getLast? = some .givenUp ∨
      ms = [] ∧ (ledger s.shared.store).Vacant q ∧ c.Unattended s q

namespace Chronicle.Truthful

/-- An end that is told now is that of a record which has been removed, or was given up before. -/
theorem step (ht : c.Truthful s) (htidy : s.Tidy) (hc : c.Sound s)
    (hend : ∀ l lane e x, s.workers.get l = .publish lane e → e.isTerminal = true →
      c.last.get l = some x →
        (ledger s.shared.store).Vacant x.seq ∨ (c.about x.seq).getLast? = some .givenUp)
    (hstep : s.step w a = some s') : (c.after s a).Truthful s' := by
  intro q ns n ms h hn
  by_cases hown : ∃ l x, a.lane? = some l ∧ c.subject? s l = some x ∧ x.seq = q
  · obtain ⟨l, x, ha, hx, rfl⟩ := hown
    rw [about_after_own ha hx] at h
    -- an end that had been told before was that of a record that had been given up
    have hbefore : ∀ ms', c.about x.seq = ns ++ n :: ms' → ns.getLast? = some .givenUp := by
      intro ms' h
      refine (ht x.seq ns n ms' h hn).resolve_right ?_
      rintro ⟨-, -, hno⟩
      exact hno l x hx rfl
    cases hnote : (s.workers.get l).note? with
    | none =>
      rw [hnote, Option.toList_none, List.append_nil] at h
      exact .inl (hbefore ms h)
    | some k =>
      rw [hnote, Option.toList_some] at h
      rcases List.eq_nil_or_concat ms with rfl | ⟨ms', k', rfl⟩
      · obtain ⟨hns, hk⟩ := List.append_inj' h rfl
        obtain rfl := List.singleton_inj.1 hk
        obtain ⟨lane, e, hp, rfl⟩ := Point.eq_publish_of_note? hnote hn
        have hlast : c.last.get l = some x := by
          rw [Chronicle.subject?, hp] at hx
          exact hx
        rcases hend l lane e x hp hn hlast with hv | hgiven
        · have hsp := spawned_of_subject? htidy hx
          exact .inr ⟨rfl, htidy.vacant_step hsp hv hstep, hc.unattended_of_told hp hlast hstep ha⟩
        · exact .inl (hns ▸ hgiven)
      · rw [List.concat_eq_append, ← List.cons_append, ← List.append_assoc] at h
        exact .inl (hbefore ms' (List.append_inj' h rfl).1)
  · rw [about_after_beside fun l x ha hx hq => hown ⟨l, x, ha, hx, hq⟩] at h
    -- somebody has been there, so the workers have been spawned
    obtain ⟨k, hk⟩ : ∃ k, (s.shared.cell k).spawned = true := by
      by_contra hno
      have hnil := hc.silent fun k => Bool.eq_false_iff.2 fun hk => hno ⟨k, hk⟩
      simp [about, hnil] at h
    rcases ht q ns n ms h hn with hgiven | ⟨hms, hv, hno⟩
    · exact .inl hgiven
    · exact .inr ⟨hms, htidy.vacant_step hk hv hstep, hno.step_vacant htidy hv hstep⟩

theorem steps (htidy : s₀.Tidy) (hc : c₀.Sound s₀) (hnotes : c₀.notes = [])
    (h₀ : ∀ l, s₀.workers.get l = .top) {as : List Action} (hrun : s₀.steps w as = some s) :
    (s₀.chronicle w as c₀).Truthful s := by
  refine steps_induction (P := fun as t => (s₀.chronicle w as c₀).Truthful t) ?_ ?_ hrun
  · intro q ns n ms h
    simp [chronicle, about, hnotes] at h
  · intro as a t t' ht ih hstep
    rw [chronicle_snoc ht hstep]
    refine ih.step (htidy.steps ht) (hc.steps htidy ht) (fun l lane e x hp he hx => ?_) hstep
    obtain ⟨y, f, hy, -, -, -, hcon⟩ := concluded_of_publish htidy hc h₀ ht hp he
    obtain rfl := Option.some.inj (hx.symm.trans hy)
    cases hcon with
    | removed _ _ hv => exact .inl hv
    | givenUp _ _ hgiven _ => exact .inr hgiven

end Chronicle.Truthful

/-- **What a terminal event tells.** Take any run of a scheduler, with any failures of the storage. A
worker that is about to tell an end has let go of the record that the event names: either its settlement
was answered, and its place is vacant; or its claim was given up, and then the record is stored as
before, if it was, unless it has been displaced since. Of the record at one place nothing is noted after
an end, and its place is vacant, except after an end that follows a claim given up. While the storage
serves, no claim is given up. And nothing but what has been published about executions is noted as
told. -/
theorem terminal_told (w : Wiring W) {store : σ} (hs : (ledger store).Sound) (now : Instant)
    (world : W) {as : List Action} (hrun : (System.init w.config store now world).steps w as = some s) :
    let s₀ := System.init w.config store now world
    let c := s₀.chronicle w as {}
    (∀ l lane e, s.workers.get l = .publish lane e → e.isTerminal = true →
        ∃ x f, c.last.get l = some x ∧ lane = x.lane ∧ e = f.event ∧
          e.identity? = some x.identity ∧ Concluded w s₀ as s c l x f) ∧
      c.Truthful s ∧
      (Unfailing w s₀ as → ∀ q, .givenUp ∉ c.about q ∧
        ∀ ns n ms, c.about q = ns ++ n :: ms → n.isTerminal = true →
          ms = [] ∧ (ledger s.shared.store).Vacant q) ∧
      s.shared.executions = c.told := by
  have htidy := Tidy.init (W := W) w.config hs now world
  have hc := Chronicle.sound_init w.config store now world
  have h₀ : ∀ l, (System.init w.config store now world).workers.get l = .top :=
    fun l => PerLane.get_ofFn _ l
  have htruth := Chronicle.Truthful.steps htidy hc rfl h₀ hrun
  refine ⟨fun l lane e hp he => concluded_of_publish htidy hc h₀ hrun hp he, htruth, ?_,
    ((Chronicle.tells_init w.config store now world).steps hrun).told⟩
  intro hserved q
  have hno : Note.givenUp ∉ ((System.init w.config store now world).chronicle w as {}).about q := by
    refine not_givenUp_of_unfailing rfl (fun l x hx => ?_) hrun hserved
    rw [Chronicle.subject?, h₀ l] at hx
    cases hx
  refine ⟨hno, fun ns n ms h hn => ?_⟩
  rcases htruth q ns n ms h hn with hgiven | ⟨hms, hv, -⟩
  · rw [h] at hno
    exact absurd (List.mem_append_left _ (List.mem_of_getLast? hgiven)) hno
  · exact ⟨hms, hv⟩

/-- A command is executed, and the storage refuses to remove it. -/
def unsettled : List Action :=
  Trial.upToStore ++ .advance 1 none :: List.replicate 7 Trial.turn ++
    [.work .general .timer (some (.storage "disk full")), Trial.turn]

/-- The worker is about to tell that the command is completed; its claim has been given up. -/
theorem terminal_told_unsettled :
    ∃ (s : System MemoryStore Unit) (lane : Lane) (x : Record) (f : Fate),
      let w := Trial.wiring fun _ => .success
      let s₀ := Trial.init fun _ => .success
      s₀.steps w unsettled = some s ∧
        s.workers.get .general = .publish lane (.completed "f" "Flaky" 1) ∧
        Concluded w s₀ unsettled s (s₀.chronicle w unsettled {}) .general x f ∧
        s.shared.store.records = [x] := by
  have hrun : ((Trial.init fun _ => .success).steps (Trial.wiring fun _ => .success) unsettled).any
      fun s => (s.workers.get .general).record? = none ∧
        (s.workers.get .general).toTell? = some (.completed "f" "Flaky" 1) ∧
        (((Trial.init fun _ => .success).chronicle (Trial.wiring fun _ => .success) unsettled
          {}).last.get .general).toList = s.shared.store.records := by decide +kernel
  obtain ⟨s, hs, hend⟩ := (Option.any_eq_true _ _).1 hrun
  obtain ⟨hnone, htell, hrecords⟩ := of_decide_eq_true hend
  obtain ⟨lane, hp⟩ := Point.eq_publish_of_toTell? htell hnone
  have hempty : (ledger MemoryStore.empty).Sound := Ledger.Sound.empty
  obtain ⟨x, f, hx, -, -, -, hcon⟩ := (terminal_told _ hempty 0 () hs).1 .general lane _ hp rfl
  exact ⟨s, lane, x, f, hs, hp, hcon, hrecords.symm.trans (congrArg Option.toList hx)⟩

/-- It has been told to be completed and is still stored; then it is executed once more, and told to be
completed once more. -/
theorem completed_twice :
    let w := Trial.wiring fun _ => .success
    let s₀ := Trial.init fun _ => .success
    ((s₀.steps w (unsettled ++ [Trial.turn])).map fun s =>
        (s.shared.executions, s.shared.store.records.map fun r => (r.identity, r.seq))) =
          some ([.started "f" "Flaky" 1, .completed "f" "Flaky" 1], [("f", 1)]) ∧
      ((s₀.steps w (unsettled ++ List.replicate 11 Trial.turn)).map fun s =>
        (s.shared.executions, s.shared.store.records)) =
          some ([.started "f" "Flaky" 1, .completed "f" "Flaky" 1, .started "f" "Flaky" 1,
            .completed "f" "Flaky" 1], []) := by
  decide +kernel

end System

end LaneQueue
