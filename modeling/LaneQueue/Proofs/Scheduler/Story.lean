import LaneQueue.Proofs.Scheduler.Settlement
/-!
# The story of a record

Whatever the storage does, the notes about a stored record that is not displaced are a list of
episodes. An episode begins with a claim and ends in a fate; it is told once the record has been settled
by that fate or its claim has been given up. A record that was settled to be repeated goes on with one
more failed attempt, one whose claim was given up goes on as it was, and one that was removed is over.
`System.Stands` ties what has been noted so far to the worker that is busy with the record and to the row
that is stored; every step keeps it (`Stands.step`).
-/
namespace LaneQueue

section Episodes

variable {W : Type}

/-- What is noted from the claim of a record until its fate is settled. -/
inductive Episode (w : Wiring W) (x : Record) : List Note → Fate → Prop
  /-- Its command is executed, and the outcome decides. -/
  | executed {c : Command W} (o : Outcome) (now : Instant) : w.registry.decode x = .ok c →
      Episode w x [.told (.started x.identity x.tag x.attempt), .ended o]
        (.ofOutcome w.config.retry now x o)
  /-- Its payload cannot be read. -/
  | rejected {e : QueueError} : w.registry.decode x = .error e → Episode w x [] (.dropped x e)

/-- A record is repeated only after a recoverable failure, if it bubbles and the bound is not reached. -/
theorem Episode.of_retry {w : Wiring W} {x : Record} {ms : List Note} {f : Fate}
    (h : Episode w x ms f) {n : UInt32} {u : Instant} (hf : f.retry = some (n, u)) :
    ∃ reason, x.bubbles = true ∧ x.attempt.toNat < w.config.retry.bound ∧ n = x.attempt ∧
      ms = [.told (.started x.identity x.tag x.attempt), .ended (.recoverable reason)] ∧
      f.event = .retrying x.identity x.tag x.attempt
        (.ofNat (w.config.retry.delayMs x.identity x.attempt.toNat)) reason := by
  cases h with
  | rejected => cases hf
  | executed o now hdec =>
    cases o with
    | success | fatal => cases hf
    | recoverable reason =>
      simp only [Fate.ofOutcome] at hf ⊢
      split at hf
      · cases hf
      · rename_i hb
        split at hf
        · cases hf
        · rename_i hex
          cases hf
          refine ⟨reason, by simpa using hb, ?_, rfl, rfl, by simp [hb, hex]⟩
          simpa [RetryConfig.exhausted] using hex

/-- What is noted of a record that was stored as `r` until it waits, after some episodes, as it is. -/
inductive Chapters (w : Wiring W) (r : Record) : List Note → Record → Prop
  | stored : Chapters w r [] r
  /-- One more attempt has failed, and the next one waits for its instant. -/
  | retried {ns ms : List Note} {x : Record} {f : Fate} {n : UInt32} {u : Instant} :
      Chapters w r ns x → Episode w x ms f → f.retry = some (n, u) →
        Chapters w r (ns ++ ms ++ [.told f.event]) (x.postponed n u)
  /-- It could not be settled, and waits as it was. -/
  | repeated {ns ms : List Note} {x : Record} {f : Fate} :
      Chapters w r ns x → Episode w x ms f →
        Chapters w r (ns ++ ms ++ [.givenUp] ++ [.told f.event]) x

theorem Chapters.isVersionOf {w : Wiring W} {r x : Record} {ns : List Note}
    (h : Chapters w r ns x) : x.IsVersionOf r := by
  induction h with
  | stored => exact ⟨rfl, rfl⟩
  | retried _ _ _ ih => exact ⟨ih.command, ih.seq⟩
  | repeated _ _ ih => exact ih

/-- How far the worker that has a record in hand has come with an episode. -/
inductive Underway (w : Wiring W) (x : Record) : Point W → List Note → Prop
  | decode : Underway w x (.decode x) []
  | begin {c : Command W} : w.registry.decode x = .ok c → Underway w x (.begin x c) []
  | announce {c : Command W} : w.registry.decode x = .ok c → Underway w x (.announce x c) []
  | run {c : Command W} (b : Body W) : w.registry.decode x = .ok c →
      Underway w x (.run x b) [.told (.started x.identity x.tag x.attempt)]
  | asking {c : Command W} (d : Call) (next : Reply → Body W) : w.registry.decode x = .ok c →
      Underway w x (.asking x d next) [.told (.started x.identity x.tag x.attempt)]
  | settle {ms : List Note} {f : Fate} (t : Try) : Episode w x ms f → f.isDated = true →
      Underway w x (.settle x f t) ms
  | collapsed {ms : List Note} {f : Fate} : Episode w x ms f → f.isDated = false →
      Underway w x (.collapsed x) ms
  | release {ms : List Note} {f : Fate} : Episode w x ms f → Underway w x (.release x f) ms

namespace Underway

variable {w : Wiring W} {x : Record} {p p' : Point W} {ms : List Note}

theorem record? (h : Underway w x p ms) : p.record? = some x := by
  cases h <;> rfl

/-- A step goes on with the episode, or ends it with a settlement or a release. -/
theorem step {σ : Type} [QueueStore σ] {l : Lane} {signal : Signal} {fault : Option QueueError}
    {s s' : Shared σ W} (h : Underway w x p ms) (hstep : p.step w l signal fault s = some (p', s')) :
    Underway w x p' (ms ++ p.note?.toList) ∨
      ∃ f, Episode w x ms f ∧ p' = .publish x.lane f.event ∧
        ((∃ t, p = .settle x f t) ∨ p = .release x f) := by
  have hmoves := Point.step_moves hstep
  cases h with
  | decode =>
    cases hmoves with
    | accept _ c hc => exact .inl (.begin hc)
    | reject _ e he => exact .inl (.settle _ (.rejected he) rfl)
    | cancel hp | rouse hp => cases hp
  | begin hc =>
    cases hmoves with
    | begin => exact .inl (.announce hc)
    | cancel hp | rouse hp => cases hp
  | announce hc =>
    cases hmoves with
    | execute => exact .inl (.run _ hc)
    | cancel hp | rouse hp => cases hp
  | run b hc =>
    cases hmoves with
    | act | await => exact .inl (.run _ hc)
    | ask => exact .inl (.asking _ _ hc)
    | finish _ fin hd => exact .inl (.settle _ (.executed fin.toOutcome s.now hc) hd)
    | collapse _ fin hd => exact .inl (.collapsed (.executed fin.toOutcome s.now hc) hd)
    | cancel hp | rouse hp => cases hp
  | asking d next hc =>
    cases hmoves with
    | proceed => exact .inl (.asking _ _ hc)
    | hear => exact .inl (.run _ hc)
    | cancel hp | rouse hp => cases hp
  | settle t hep hd =>
    cases hmoves with
    | settleAgain _ f _ t' => exact .inl (by simpa [Point.note?] using .settle t' hep hd)
    | giveUp => exact .inl (by simpa [Point.note?] using .release hep)
    | settled => exact .inr ⟨_, hep, rfl, .inl ⟨t, rfl⟩⟩
    | cancel hp | rouse hp => cases hp
  | collapsed => cases hstep
  | release hep =>
    cases hmoves with
    | release => exact .inr ⟨_, hep, rfl, .inr rfl⟩
    | cancel hp | rouse hp => cases hp

end Underway

end Episodes

namespace System

open LawfulStore (ledger)

variable {σ W : Type} [QueueStore σ] [LawfulStore σ] {w : Wiring W} {s s' s₀ : System σ W}
  {c c₀ : Chronicle} {a : Action} {r x : Record} {l : Lane}

theorem Displaces.of_version (hv : x.IsVersionOf r) (h : s.Displaces x a) : s.Displaces r a := by
  cases h with
  | replaced hop hid => exact .replaced hop (hid.trans (congrArg NewCommand.identity hv.command))
  | cleared hop hq =>
    have hlane : x.lane = r.lane := congrArg NewCommand.lane hv.command
    exact .cleared (hlane ▸ hop) (hv.seq ▸ hq)

/-- A place that nobody is busy with stays so until a claim answers the row there. -/
theorem Chronicle.Unattended.step {q : Int} (hn : c.Unattended s q) (htidy : s.Tidy)
    (hstep : s.step w a = some s') :
    (c.after s a).Unattended s' q ∨
      ∃ l y, s'.workers.get l = .decode y ∧ y.seq = q ∧
        ∃ row ∈ (ledger s.shared.store).rows, row.Shows y := by
  by_cases hclaim : ∃ l y, (c.after s a).subject? s' l = some y ∧ y.seq = q
  · obtain ⟨l, y, hy, hq⟩ := hclaim
    rcases Chronicle.subject_cases hstep hy with hold | ⟨hp, -, hclaim⟩
    · exact absurd hq (hn l y hold)
    · obtain ⟨row, hrow, hshows, -⟩ := htidy.claims_due hclaim
      exact .inr ⟨l, y, hp, hq, row, hrow, hshows⟩
  · exact .inl fun l y hy hq => hclaim ⟨l, y, hy, hq⟩

/-- Nobody comes to be busy with a vacant place. -/
theorem Chronicle.Unattended.step_vacant {q : Int} (hn : c.Unattended s q) (htidy : s.Tidy)
    (hv : (ledger s.shared.store).Vacant q) (hstep : s.step w a = some s') :
    (c.after s a).Unattended s' q := by
  refine (hn.step htidy hstep).resolve_right ?_
  rintro ⟨l, y, -, hq, row, hrow, hshows⟩
  exact hv.empty row hrow (hshows.seq.trans hq)

/-- A worker that has told of a record is done with it. -/
theorem Chronicle.Sound.unattended_of_told {lane : Lane} {e : EventBody} (hc : c.Sound s)
    (hp : s.workers.get l = .publish lane e) (hlast : c.last.get l = some x) (hstep : s.step w a = some s')
    (ha : a.lane? = some l) : (c.after s a).Unattended s' x.seq := by
  obtain ⟨signal, fault, rfl⟩ := Action.eq_work_of_lane? ha
  have hown := worker_own hstep
  rw [hp] at hown
  have hp' : s'.workers.get l = .finish := (Prod.mk.inj (Option.some.inj hown)).1.symm
  intro k y hy hq
  have hk : k = l := by
    rcases Chronicle.subject_cases hstep hy with hold | ⟨-, hop, -⟩
    · exact hc.apart k l y x hold (Chronicle.subject?_of_publish hp hlast) hq
    · obtain ⟨_, _, t, he, -⟩ := operation?_eq_nextEligible hop
      cases he
      rfl
  subst hk
  simp [Chronicle.subject?, hp', Point.subject?, Point.record?] at hy

/-- While a worker is busy with the record at a place, what is stored there stays so, unless it is
displaced or that worker tries to settle it. -/
theorem Chronicle.Sound.keeps_step (hc : c.Sound s) (htidy : s.Tidy) {y : Record}
    (hsub : c.subject? s l = some y) (hy : y.seq = x.seq) (hk : (ledger s.shared.store).Keeps x)
    (hstep : s.step w a = some s') (hd : ¬ s.Displaces x a)
    (hno : ∀ f t, a.lane? = some l → s.workers.get l ≠ .settle y f t) :
    (ledger s'.shared.store).Keeps x := by
  refine (htidy.keeps_step hk hstep hd).resolve_right ?_
  rintro ⟨m, z, f, t, ha, hp, hz⟩
  have hsub' : c.subject? s m = some z := Point.subject?_of_record? (by rw [hp]; rfl) _
  obtain rfl := hc.apart m l z y hsub' hsub (hz.trans hy.symm)
  obtain rfl : z = y := Option.some.inj (hsub'.symm.trans hsub)
  exact hno f t ha hp

/-- How it stands with a record that was stored as `r`. -/
inductive Stands (w : Wiring W) (c : Chronicle) (s : System σ W) (r : Record) : Prop
  /-- It waits. -/
  | waiting {ns : List Note} {x : Record} : Chapters w r ns x → c.about r.seq = ns →
      (ledger s.shared.store).Keeps x → c.Unattended s r.seq → Stands w c s r
  /-- It is stored, and a worker has it in hand. -/
  | inHand {ns ms : List Note} {x : Record} (l : Lane) : Chapters w r ns x →
      c.about r.seq = ns ++ ms → (ledger s.shared.store).Keeps x →
      Underway w x (s.workers.get l) ms → Stands w c s r
  /-- It has been settled, which is still to be told. -/
  | settled {ns ms : List Note} {x : Record} {f : Fate} (l : Lane) : Chapters w r ns x →
      c.about r.seq = ns ++ ms → Episode w x ms f →
      s.workers.get l = .publish x.lane f.event → c.last.get l = some x →
      (f.retry = none → (ledger s.shared.store).Vacant r.seq) →
      (∀ n u, f.retry = some (n, u) → (ledger s.shared.store).Keeps (x.postponed n u)) →
      Stands w c s r
  /-- Its claim has been given up, and its fate is still to be told. -/
  | givenUp {ns ms : List Note} {x : Record} {f : Fate} (l : Lane) : Chapters w r ns x →
      c.about r.seq = ns ++ ms ++ [.givenUp] → Episode w x ms f →
      s.workers.get l = .publish x.lane f.event → c.last.get l = some x →
      (ledger s.shared.store).Keeps x → Stands w c s r
  /-- It has been removed. -/
  | gone {ns ms : List Note} {x : Record} {f : Fate} : Chapters w r ns x →
      c.about r.seq = ns ++ ms ++ [.told f.event] → Episode w x ms f → f.retry = none →
      (ledger s.shared.store).Vacant r.seq → (∃ l, (s.shared.cell l).spawned = true) →
      c.Unattended s r.seq → Stands w c s r

namespace Stands

/-- While a record waits, it is stored until a claim answers it. -/
theorem step_waiting {ns : List Note} (hch : Chapters w r ns x) (hns : c.about r.seq = ns)
    (hk : (ledger s.shared.store).Keeps x) (hn : c.Unattended s r.seq) (htidy : s.Tidy)
    (hstep : s.step w a = some s') (hd : ¬ s.Displaces x a) : Stands w (c.after s a) s' r := by
  have hq := hch.isVersionOf.seq
  have hk' : (ledger s'.shared.store).Keeps x := by
    refine (htidy.keeps_step hk hstep hd).resolve_right ?_
    rintro ⟨l, y, f, t, -, hp, hy⟩
    have hsub : c.subject? s l = some y := Point.subject?_of_record? (by rw [hp]; rfl) _
    exact hn l y hsub (hy.trans hq)
  have hns' : (c.after s a).about r.seq = ns := by
    rw [Chronicle.about_after_beside fun l y _ hy => hn l y hy, hns]
  rcases hn.step htidy hstep with hn' | ⟨l, y, hp, hy, row, hrow, hshows⟩
  · exact .waiting hch hns' hk' hn'
  · -- what the claim has answered is the record that waits
    obtain ⟨row', hrow', hshows'⟩ := hk
    obtain rfl := htidy.sound.eq_of_seq hrow hrow'
      (hshows.seq.trans (hy.trans (hq.symm.trans hshows'.seq.symm)))
    obtain rfl := hshows.unique hshows'
    exact .inHand l hch (by rw [hns', List.append_nil]) hk' (by rw [hp]; exact .decode)

/-- The worker that has the record in hand moves. -/
theorem step_own {ns ms : List Note} {signal : Signal} {fault : Option QueueError}
    (hch : Chapters w r ns x) (hns : c.about r.seq = ns ++ ms) (hk : (ledger s.shared.store).Keeps x)
    (hun : Underway w x (s.workers.get l) ms) (htidy : s.Tidy) (hc : c.Sound s)
    (hstep : s.step w (.work l signal fault) = some s')
    (hd : ¬ s.Displaces x (.work l signal fault)) :
    Stands w (c.after s (.work l signal fault)) s' r := by
  have hq := hch.isVersionOf.seq
  have hsub : c.subject? s l = some x := Point.subject?_of_record? hun.record? _
  have hns' := Chronicle.about_after_own (a := .work l signal fault) rfl hsub
  rw [hq, hns] at hns'
  have hlast : (c.after s (.work l signal fault)).last.get l = some x := by
    rw [Chronicle.last_after_own rfl, hun.record?]
    rfl
  rcases hun.step (worker_own hstep) with hun' | ⟨f, hep, hp', ⟨t, hp⟩ | hp⟩
  · refine .inHand l hch (hns'.trans (List.append_assoc _ _ _)) ?_ hun'
    by_cases hset : ∃ f t, s.workers.get l = .settle x f t
    · obtain ⟨f, t, hp⟩ := hset
      have hrows := htidy.rows_of_unsettled hstep rfl hp hun'.record?
      obtain ⟨row, hrow, hshows⟩ := hk
      exact ⟨row, hrows ▸ hrow, hshows⟩
    · exact hc.keeps_step htidy hsub rfl hk hstep hd fun f t _ hp => hset ⟨f, t, hp⟩
  · -- the settlement has been answered
    have hset := settles_of_publish hp hstep hp'
    rw [hp] at hns'
    refine .settled l hch (by simpa [Point.note?] using hns') hep hp' hlast ?_ ?_
    · intro hf
      exact hq ▸ hset.vacant htidy hf
    · intro n u hf
      exact (hset.waits htidy hf hk).1
  · -- the claim has been given up
    rw [hp] at hns'
    refine .givenUp l hch hns' hep hp' hlast ?_
    exact hc.keeps_step htidy hsub rfl hk hstep hd fun f t _ hs => by rw [hp] at hs; cases hs

theorem step_inHand {ns ms : List Note} (hch : Chapters w r ns x)
    (hns : c.about r.seq = ns ++ ms) (hk : (ledger s.shared.store).Keeps x)
    (hun : Underway w x (s.workers.get l) ms) (htidy : s.Tidy) (hc : c.Sound s)
    (hstep : s.step w a = some s') (hd : ¬ s.Displaces x a) : Stands w (c.after s a) s' r := by
  by_cases ha : a.lane? = some l
  · obtain ⟨signal, fault, rfl⟩ := Action.eq_work_of_lane? ha
    exact step_own hch hns hk hun htidy hc hstep hd
  · have hsub : c.subject? s l = some x := Point.subject?_of_record? hun.record? _
    have hns' := hc.about_after_of_subject? (a := a) hsub hch.isVersionOf.seq
    rw [if_neg ha, List.append_nil, hns] at hns'
    refine .inHand l hch hns' ?_ ?_
    · exact hc.keeps_step htidy hsub rfl hk hstep hd fun _ _ hl => absurd hl ha
    · rw [worker_beside hstep ha]
      exact hun

/-- What has been settled or given up is told in one step, and then nobody is busy with the record. -/
theorem step_told {ns : List Note} {e : EventBody} (hq : x.seq = r.seq) (hns : c.about r.seq = ns)
    (hp : s.workers.get l = .publish x.lane e) (hlast : c.last.get l = some x) (hc : c.Sound s)
    (hstep : s.step w a = some s') :
    ((c.after s a).about r.seq = ns ∧ s'.workers.get l = .publish x.lane e ∧
        (c.after s a).last.get l = some x) ∨
      (c.after s a).about r.seq = ns ++ [.told e] ∧ (c.after s a).Unattended s' r.seq := by
  have hsub := Chronicle.subject?_of_publish hp hlast
  have hns' := hc.about_after_of_subject? (a := a) hsub hq
  rw [hns, hp] at hns'
  by_cases ha : a.lane? = some l
  · rw [if_pos ha] at hns'
    exact .inr ⟨hns', hq ▸ hc.unattended_of_told hp hlast hstep ha⟩
  · rw [if_neg ha, List.append_nil] at hns'
    exact .inl ⟨hns', (worker_beside hstep ha).trans hp,
      (Chronicle.last_after_beside ha).trans hlast⟩

/-- **Every step** keeps the story of a record that it does not displace. -/
theorem step (h : Stands w c s r) (htidy : s.Tidy) (hc : c.Sound s) (hstep : s.step w a = some s')
    (hd : (ledger s.shared.store).Stores r.toNewCommand r.seq → ¬ s.Displaces r a) :
    Stands w (c.after s a) s' r := by
  -- a version of the record that is stored is not displaced
  have hver : ∀ {ns : List Note} {x : Record}, Chapters w r ns x → (ledger s.shared.store).Keeps x →
      ¬ s.Displaces x a := by
    intro ns x hch hk hdis
    obtain ⟨row, hrow, hshows⟩ := hk
    have hv := hch.isVersionOf
    have hcar : row.Carries r.toNewCommand r.seq := hv.command ▸ hv.seq ▸ hshows.toCarries
    exact hd ⟨row, hrow, hcar⟩ (hdis.of_version hv)
  -- nobody settles a record that a worker has still to tell of
  have hkept : ∀ {ns : List Note} {x y : Record} {l : Lane} {lane : Lane} {e : EventBody},
      Chapters w r ns x → (ledger s.shared.store).Keeps x → c.subject? s l = some y →
        y.seq = r.seq → s.workers.get l = .publish lane e → (ledger s'.shared.store).Keeps x := by
    intro ns x y l lane e hch hk hsub hy hp
    refine hc.keeps_step htidy hsub (hy.trans hch.isVersionOf.seq.symm) hk hstep (hver hch hk) ?_
    intro f t _ hs
    rw [hp] at hs
    cases hs
  cases h with
  | waiting hch hns hk hn => exact step_waiting hch hns hk hn htidy hstep (hver hch hk)
  | inHand l hch hns hk hun => exact step_inHand hch hns hk hun htidy hc hstep (hver hch hk)
  | @settled ns ms x f l hch hns hep hp hlast hgone hback =>
    have hsub := Chronicle.subject?_of_publish hp hlast
    have hq := hch.isVersionOf.seq
    have hsp := Chronicle.spawned_of_subject? htidy hsub
    have hgone' : f.retry = none → (ledger s'.shared.store).Vacant r.seq :=
      fun hf => htidy.vacant_step hsp (hgone hf) hstep
    have hback' : ∀ n u, f.retry = some (n, u) → (ledger s'.shared.store).Keeps (x.postponed n u) :=
      fun n u hf => hkept (hch.retried hep hf) (hback n u hf) hsub hq hp
    rcases step_told hq hns hp hlast hc hstep with ⟨hns', hp', hlast'⟩ | ⟨hns', hn'⟩
    · exact .settled l hch hns' hep hp' hlast' hgone' hback'
    · cases hf : f.retry with
      | none => exact .gone hch hns' hep hf (hgone' hf) ⟨l, htidy.spawned_step hsp hstep⟩ hn'
      | some nu => exact .waiting (hch.retried hep hf) hns' (hback' nu.1 nu.2 hf) hn'
  | @givenUp ns ms x f l hch hns hep hp hlast hk =>
    have hsub := Chronicle.subject?_of_publish hp hlast
    have hq := hch.isVersionOf.seq
    have hk' := hkept hch hk hsub hq hp
    rcases step_told hq hns hp hlast hc hstep with ⟨hns', hp', hlast'⟩ | ⟨hns', hn'⟩
    · exact .givenUp l hch hns' hep hp' hlast' hk'
    · exact .waiting (hch.repeated hep) hns' hk' hn'
  | @gone ns ms x f hch hns hep hf hv hsp hn =>
    obtain ⟨l, hl⟩ := hsp
    have hns' : (c.after s a).about r.seq = ns ++ ms ++ [.told f.event] := by
      rw [Chronicle.about_after_beside fun l y _ hy => hn l y hy, hns]
    exact .gone hch hns' hep hf (htidy.vacant_step hl hv hstep) ⟨l, htidy.spawned_step hl hstep⟩
      (hn.step_vacant htidy hv hstep)

/-- **The story of a run**, from a moment at which the record waits and nothing has been noted of it. -/
theorem steps (htidy : s₀.Tidy) (hc : c₀.Sound s₀) (hr : c₀.about r.seq = [])
    (hk : (ledger s₀.shared.store).Keeps r) (hn : c₀.Unattended s₀ r.seq) {as : List Action}
    (hrun : s₀.steps w as = some s) (hd : ¬ DisplacedIn w s₀ as r) :
    Stands w (s₀.chronicle w as c₀) s r := by
  refine steps_induction (P := fun as t => ¬ DisplacedIn w s₀ as r →
    Stands w (s₀.chronicle w as c₀) t r) (fun _ => .waiting .stored hr hk hn) ?_ hrun hd
  intro as a t t' ht ih hstep hd
  rw [chronicle_snoc ht hstep]
  have hst := ih fun h => hd (h.snoc a)
  refine hst.step (htidy.steps ht) (hc.steps htidy ht) hstep fun hstores hdis => ?_
  exact hd ⟨as, a, t, List.prefix_rfl, ht, hstores, hdis⟩

end Stands

end System

end LaneQueue
