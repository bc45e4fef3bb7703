import Mathlib.Data.List.Chain
import LaneQueue.Proofs.Scheduler.Telling
import LaneQueue.Proofs.Scheduler.Yields
/-!
# The pause flag and its events

A request that pauses or resumes a lane tells of it only if it has changed the flag, in a step after the
change. So what has been told and what has still to be told are together the changes of the flag, as many
in each direction (`System.MirrorsFlag`). But two callers may tell of their changes in the other order: then
the events do not alternate, and the last one contradicts the flag (`System.told_in_reverse`).
-/
namespace LaneQueue

/-! ## A flag and its values -/

section Flag

variable {b x : Bool} {xs : List Bool}

/-- One more change keeps a list of values alternating. -/
theorem isChain_ne_concat (h : (b :: xs).IsChain (· ≠ ·)) (hx : xs.getLast?.getD b ≠ x) :
    (b :: (xs ++ [x])).IsChain (· ≠ ·) := by
  rw [← List.cons_append, List.isChain_append]
  refine ⟨h, .singleton x, fun y hy z hz => ?_⟩
  rw [List.getLast?_cons, Option.mem_some_iff] at hy
  simp only [List.head?_cons, Option.mem_some_iff] at hz
  exact hy ▸ hz ▸ hx

/-- Values that alternate go up as often as they go down, but for where they begin and where they end. -/
theorem count_of_isChain_ne (h : (b :: xs).IsChain (· ≠ ·)) :
    xs.count true + b.toNat = xs.count false + (xs.getLast?.getD b).toNat := by
  induction xs generalizing b with
  | nil => simp
  | cons x xs ih =>
    obtain ⟨hne, hrest⟩ := List.isChain_cons_cons.1 h
    have hlast : (x :: xs).getLast?.getD b = xs.getLast?.getD x := by
      rw [List.getLast?_cons, Option.getD_some]
    have hcount := ih hrest
    rw [hlast]
    cases b <;> cases x <;> simp at hne hcount ⊢ <;> omega

/-- What a change of one entry does to the values that a list yields. -/
theorem filterMap_update {ι : Type} {keys : List ι} {f g : ι → Option Bool} {k : ι} (hkeys : keys.Nodup)
    (hk : k ∈ keys) (h : ∀ x, x ≠ k → g x = f x) :
    ((f k).toList ++ keys.filterMap g).Perm (keys.filterMap f ++ (g k).toList) := by
  obtain ⟨before, after, rfl⟩ := List.append_of_mem hk
  obtain ⟨-, hafter, hdisjoint⟩ := List.nodup_append.1 hkeys
  have hleft : before.filterMap g = before.filterMap f := by
    refine List.filterMap_congr fun x hx => h x ?_
    exact hdisjoint x hx k List.mem_cons_self
  have hright : after.filterMap g = after.filterMap f := by
    refine List.filterMap_congr fun x hx => h x ?_
    rintro rfl
    exact (List.nodup_cons.1 hafter).1 hx
  have hcons : ∀ e : ι → Option Bool, (k :: after).filterMap e = (e k).toList ++ after.filterMap e := by
    intro e
    rw [List.filterMap_cons]
    cases e k <;> rfl
  rw [List.filterMap_append, List.filterMap_append, hcons, hcons, hleft, hright]
  refine List.perm_iff_count.2 fun x => ?_
  simp only [List.count_append]
  omega

/-- Of one value at most there is only one order. -/
theorem eq_of_perm_of_length_le_one {ys : List Bool} (h : xs.Perm ys) (hys : ys.length ≤ 1) : xs = ys := by
  match ys, hys with
  | [], _ => exact h.eq_nil
  | [y], _ => exact List.perm_singleton.1 h

end Flag

/-- What an event says of the pause flag of its lane. -/
def EventBody.flag? : EventBody → Option Bool
  | lanePaused => some true
  | laneResumed => some false
  | _ => none

theorem EventBody.flag?_eq_none {e : EventBody} (h : e.isOfExecution = true) : e.flag? = none := by
  cases e <;> first | rfl | cases h

section Steps

variable {σ W : Type} {w : Wiring W} {fault : Option QueueError} {s s' : Shared σ W} {l : Lane}

/-- What has been published of the pause flag of a lane. -/
def Shared.flagEvents (s : Shared σ W) (l : Lane) : List Bool :=
  s.bus.published.filterMap fun e => if e.lane = l then e.body.flag? else none

theorem Shared.flagEvents_publish (s : Shared σ W) (l m : Lane) (b : EventBody) :
    (s.publish m b).flagEvents l = s.flagEvents l ++ (if m = l then b.flag? else none).toList := by
  simp only [flagEvents, published_publish, List.filterMap_append, List.filterMap_cons,
    List.filterMap_nil]
  cases (if m = l then b.flag? else none) <;> rfl

namespace Call

/-- What a request is about to tell of the flag of a lane. -/
def tells? (l : Lane) : Call → Option Bool
  | announce m b _ => if m = l then b.flag? else none
  | announcePause m => if m = l then some true else none
  | announceResume m => if m = l then some false else none
  | _ => none

/-- How a request is about to change the flag of a lane, if it does not stand that way already. -/
def flips? (l : Lane) (s : Shared σ W) (c : Call) : Option Bool :=
  c.sets?.bind fun set => if set.1 = l ∧ (s.cell l).paused ≠ set.2 then some set.2 else none

theorem tells?_ofRequest (l : Lane) (r : Request) : (ofRequest r).tells? l = none := by
  cases r <;> rfl

theorem tells?_ofSubmission (l m : Lane) (x : Submission) : (ofSubmission m x).tells? l = none := by
  cases x <;> simp [ofSubmission, tells?, EventBody.flag?]

theorem tells?_ofStatus (l : Lane) (x : LaneStatus) (g : StatusGoal) :
    (ofStatus x g).tells? l = none := by
  match g with
  | .one | .all _ [] | .all _ (_ :: _) => rfl

theorem tells?_ofDraft (l : Lane) (w : Wiring W) (d : Draft) (o : SubmitOptions) :
    (ofDraft w d o).tells? l = none := by
  unfold ofDraft
  split
  · rfl
  · split <;> rfl

theorem eq_done_of_reply {c : Call} (h : c.reply?.isSome) : ∃ r, c = .done r := by
  cases c with
  | done r => exact ⟨r, rfl⟩
  | _ => cases h

theorem tells?_of_reply {c : Call} (h : c.reply?.isSome) : c.tells? l = none := by
  obtain ⟨r, rfl⟩ := eq_done_of_reply h
  rfl

theorem flips?_of_reply {c : Call} (h : c.reply?.isSome) (s : Shared σ W) : c.flips? l s = none := by
  obtain ⟨r, rfl⟩ := eq_done_of_reply h
  rfl

variable [QueueStore σ] {c c' : Call}

/-- A request tells what it was about to tell, and is about to tell of a change that it has made. -/
theorem step_tells (h : c.step w fault s = some (c', s')) (l : Lane) :
    c'.tells? l = c.flips? l s ∧ s'.flagEvents l = s.flagEvents l ++ (c.tells? l).toList := by
  have hquiet : ∀ {x : Shared σ W}, x.flagEvents l = s.flagEvents l →
      x.flagEvents l = s.flagEvents l ++ (none : Option Bool).toList :=
    fun hx => hx.trans (List.append_nil _).symm
  cases c with
  | recover t =>
    obtain ⟨hs, ⟨t', rfl⟩ | ⟨a, rfl, -⟩ | ⟨e, rfl⟩⟩ := trying_cases h .recover fun _ => rfl <;>
      exact ⟨rfl, by rw [hs]; exact hquiet rfl⟩
  | store d p t =>
    obtain ⟨hs, ⟨t', rfl⟩ | ⟨a, rfl, -⟩ | ⟨e, rfl⟩⟩ := trying_cases h (.submit d p) fun _ => rfl
    · exact ⟨rfl, by rw [hs]; exact hquiet rfl⟩
    · exact ⟨tells?_ofSubmission _ _ _, by rw [hs]; exact hquiet rfl⟩
    · exact ⟨rfl, by rw [hs]; exact hquiet rfl⟩
  | purge m t =>
    obtain ⟨hs, ⟨t', rfl⟩ | ⟨a, rfl, -⟩ | ⟨e, rfl⟩⟩ := trying_cases h (.purgeLane m) fun _ => rfl <;>
      exact ⟨rfl, by rw [hs]; exact hquiet rfl⟩
  | count m g t =>
    obtain ⟨hs, ⟨t', rfl⟩ | ⟨a, rfl, -⟩ | ⟨e, rfl⟩⟩ :=
      trying_cases h (.pendingCount m) fun _ => rfl <;> exact ⟨rfl, by rw [hs]; exact hquiet rfl⟩
  | start =>
    simp only [step] at h
    split at h <;> cases h <;> exact ⟨rfl, hquiet rfl⟩
  | submit d o => cases h; exact ⟨tells?_ofDraft _ _ _ _, hquiet rfl⟩
  | snapshot m n g => cases h; exact ⟨tells?_ofStatus _ _ _, hquiet rfl⟩
  | announce m b o => cases h; exact ⟨rfl, s.flagEvents_publish l m b⟩
  | announcePause m => cases h; exact ⟨rfl, s.flagEvents_publish l m .lanePaused⟩
  | announceResume m => cases h; exact ⟨rfl, s.flagEvents_publish l m .laneResumed⟩
  | announceCleared m n =>
    cases h
    refine ⟨rfl, ?_⟩
    rw [Shared.flagEvents_publish]
    simp [EventBody.flag?, tells?]
  | pause m | resume m =>
    cases h
    refine ⟨?_, hquiet rfl⟩
    by_cases hm : m = l
    · subst hm
      cases hp : (s.cell m).paused <;> simp [tells?, flips?, sets?, hp]
    · cases hp : (s.cell m).paused <;> simp [tells?, flips?, sets?, hm]
  | drain ls | halt ls => cases ls <;> cases h <;> exact ⟨rfl, hquiet rfl⟩
  | await ls t =>
    simp only [step] at h
    split at h <;> cases h
    exact ⟨rfl, hquiet rfl⟩
  | done => cases h
  | spawn | wake | cancel | gather => cases h; exact ⟨rfl, hquiet rfl⟩

/-- The flag of a lane changes as the request was about to change it, and not otherwise. -/
theorem step_flips (h : c.step w fault s = some (c', s')) (l : Lane) :
    (s'.cell l).paused = (c.flips? l s).getD (s.cell l).paused := by
  have hset : ∀ m up, (s.setPaused m up).cell l = s'.cell l → c.sets? = some (m, up) →
      (s'.cell l).paused = (c.flips? l s).getD (s.cell l).paused := by
    intro m up hcell hsets
    rw [← hcell, Shared.setPaused, Shared.cell_modifyCell]
    by_cases hm : m = l
    · cases hp : (s.cell l).paused <;> cases up <;> simp [flips?, hsets, hm, hp]
    · simp [flips?, hsets, hm]
  cases hsets : c.sets? with
  | none =>
    have hflips : c.flips? l s = none := by simp [flips?, hsets]
    rw [hflips, Option.getD_none]
    cases step_steers h with
    | none hkept => exact hkept.paused l
    | cancel hs => rw [hs]; rfl
    | pause | resume => cases hsets
  | some set =>
    obtain ⟨m, up⟩ := set
    obtain rfl := sets?_eq_some.1 hsets
    cases up <;> cases h <;> exact hset m _ rfl hsets

end Call

/-- A worker that has no request under way tells nothing of the flags. -/
theorem Point.step_flagEvents [QueueStore σ] {p p' : Point W} {m : Lane} {signal : Signal}
    (h : p.step w m signal fault s = some (p', s')) (hp : p.request? = none)
    (he : ∀ e, p.toTell? = some e → e.isOfExecution = true) (l : Lane) :
    s'.flagEvents l = s.flagEvents l := by
  cases step_changes h with
  | asked => cases hp
  | announced r c =>
    rw [Shared.flagEvents_publish]
    simp [EventBody.flag?]
  | published lane e =>
    rw [Shared.flagEvents_publish]
    simp [EventBody.flag?_eq_none (he e rfl)]
  | same | stored | acted | noticed | roused | shown | begun | collapsed | finished | stopped => rfl

end Steps

/-! ## Runs -/

namespace System

section Callers

variable {σ W : Type} {s : System σ W} {l : Lane}

/-- Whoever may have a request under way. -/
def callers (s : System σ W) : List Caller :=
  (List.range s.calls.length).map .client ++ Lane.all.map .body

theorem nodup_callers (s : System σ W) : s.callers.Nodup := by
  have hbodies : (Lane.all.map Caller.body).Nodup := by decide
  refine List.nodup_append.2 ⟨?_, hbodies, ?_⟩
  · exact List.nodup_range.map fun i j h => Caller.client.inj h
  · intro x hx y hy
    obtain ⟨i, -, rfl⟩ := List.mem_map.1 hx
    obtain ⟨m, -, rfl⟩ := List.mem_map.1 hy
    nofun

theorem mem_callers {k : Caller} {c : Call} (h : s.callOf k = some c) : k ∈ s.callers := by
  cases k with
  | client i =>
    have hi : i < s.calls.length := (List.getElem?_eq_some_iff.1 h).1
    simp [callers, hi]
  | body m => simp [callers, Lane.mem_all]

/-- Every request, of a client or of a body, has been answered. -/
def AllAnswered (s : System σ W) : Prop := ∀ k c, s.callOf k = some c → c.reply?.isSome

/-- What has still to be told of the flag of a lane. -/
def untold (s : System σ W) (l : Lane) : List Bool :=
  s.callers.filterMap fun k => (s.callOf k).bind (Call.tells? l)

theorem AllAnswered.untold (h : s.AllAnswered) : s.untold l = [] := by
  refine List.filterMap_eq_nil_iff.2 fun k _ => Option.bind_eq_none_iff.2 fun c hc => ?_
  exact Call.tells?_of_reply (h k c hc)

theorem allAnswered_init (config : QueueConfig) (store : σ) (now : Instant) (world : W) :
    (System.init config store now world).AllAnswered := by
  intro k c hc
  cases k <;> simp [callOf, System.init, Point.request?] at hc

/-- Whatever the workers have to tell is about executions. -/
def TellsExecutions (s : System σ W) : Prop :=
  ∀ m e, (s.workers.get m).toTell? = some e → e.isOfExecution = true

theorem tellsExecutions_init (config : QueueConfig) (store : σ) (now : Instant) (world : W) :
    (System.init config store now world).TellsExecutions := by
  intro m e he
  simp [System.init, Point.toTell?] at he

/-- What an action tells of the flag of a lane. -/
def told? (l : Lane) (s : System σ W) (a : Action) : Option Bool := (s.moved? a).bind (Call.tells? l)

/-- How an action changes the flag of a lane. -/
def flipped? (l : Lane) (s : System σ W) (a : Action) : Option Bool :=
  (s.moved? a).bind (Call.flips? l s.shared)

theorem ne_of_flipped? {a : Action} {up : Bool} (h : s.flipped? l a = some up) :
    (s.shared.cell l).paused ≠ up := by
  obtain ⟨c, -, hflips⟩ := Option.bind_eq_some_iff.1 h
  obtain ⟨set, -, hset⟩ := Option.bind_eq_some_iff.1 hflips
  split at hset
  · rename_i hne
    cases hset
    exact hne.2
  · cases hset

end Callers

variable {σ W : Type} [QueueStore σ] {w : Wiring W} {s s' s₀ : System σ W} {a : Action} {l : Lane}
  {as : List Action}

/-- The changes of the flag of a lane in a run. -/
def flips (w : Wiring W) (l : Lane) (as : List Action) (s : System σ W) : List Bool :=
  s.yields w (flipped? l) as

theorem TellsExecutions.step (h : s.TellsExecutions) (hstep : s.step w a = some s') :
    s'.TellsExecutions := by
  intro m e he
  rcases step_worker hstep m with heq | ⟨signal, fault, -, hp⟩
  · exact h m e (heq ▸ he)
  · exact (Point.toTell?_step hp he).elim (h m e) id

/-- An action moves a request, or one that has been answered already at most. -/
theorem moves_call (hstep : s.step w a = some s') :
    (∃ k c c', a.caller? = some k ∧ s.callOf k = some c ∧
      c.step w a.fault? s.shared = some (c', s'.shared) ∧ s'.callOf k = some c') ∨
    ∀ c, s.moved? a = some c → c.reply?.isSome := by
  cases hmoved : s.moved? a with
  | none => exact .inr fun c hc => by cases hc
  | some c =>
    obtain ⟨k, hk, hc⟩ := Option.bind_eq_some_iff.1 hmoved
    cases hr : c.reply? with
    | none =>
      obtain ⟨c', hcall, hc'⟩ := callOf_own hstep hk hc hr
      exact .inl ⟨k, c, c', hk, hc, hcall, hc'⟩
    | some r =>
      refine .inr fun d hd => ?_
      obtain rfl := Option.some.inj hd
      rw [hr]
      rfl

/-- Nobody else changes what a caller has still to tell. -/
theorem tells_beside (hstep : s.step w a = some s') {k : Caller} (hk : a.caller? ≠ some k) :
    (s'.callOf k).bind (Call.tells? l) = (s.callOf k).bind (Call.tells? l) := by
  cases hc : s.callOf k with
  | some c => rw [callOf_beside hstep hk hc]
  | none =>
    cases hc' : s'.callOf k with
    | none => rfl
    | some c' =>
      rcases callOf_step hstep hc' with hold | ⟨r, rfl⟩ | ⟨c, hk', -⟩
      · rw [hc] at hold
        cases hold
      · exact Call.tells?_ofRequest l r
      · exact absurd hk' hk

/-- An answered request has nothing to tell, and neither has what its caller brings next. -/
theorem tells_own (hstep : s.step w a = some s') (h : ∀ c, s.moved? a = some c → c.reply?.isSome)
    {k : Caller} (hk : a.caller? = some k) :
    (s'.callOf k).bind (Call.tells? l) = none ∧ (s.callOf k).bind (Call.tells? l) = none := by
  have hanswered : ∀ c, s.callOf k = some c → c.reply?.isSome := fun c hc => h c (moved?_eq hk hc)
  refine ⟨Option.bind_eq_none_iff.2 fun c' hc' => ?_, Option.bind_eq_none_iff.2 fun c hc => ?_⟩
  · rcases callOf_step hstep hc' with hold | ⟨r, rfl⟩ | ⟨c, -, hc, hcall⟩
    · exact Call.tells?_of_reply (hanswered c' hold)
    · exact Call.tells?_ofRequest l r
    · obtain ⟨r, rfl⟩ := Call.eq_done_of_reply (hanswered c hc)
      cases hcall
  · exact Call.tells?_of_reply (hanswered c hc)

/-- A request that has just been brought has nothing to tell. -/
theorem untold_step (hstep : s.step w a = some s') :
    s'.untold l = s.callers.filterMap fun k => (s'.callOf k).bind (Call.tells? l) := by
  cases a with
  | request r =>
    cases hstep
    simp only [untold, callers, List.length_append, List.length_cons, List.length_nil, Nat.zero_add,
      List.range_succ, List.map_append, List.filterMap_append, List.map_cons, List.map_nil]
    have hnew : callOf { s with calls := s.calls ++ [Call.ofRequest r] } (.client s.calls.length) =
        some (.ofRequest r) := by simp [callOf]
    simp [hnew, Call.tells?_ofRequest]
  | tick => cases hstep; rfl
  | advance i fault =>
    obtain ⟨c, c', x, -, -, rfl⟩ := advance_cases hstep
    simp [untold, callers]
  | work m signal fault =>
    obtain ⟨p, x, -, -, rfl⟩ := work_cases hstep
    rfl

/-- A step that moves no request leaves the flags alone and tells nothing of them. -/
theorem flags_of_answered (htell : s.TellsExecutions) (hstep : s.step w a = some s')
    (h : ∀ c, s.moved? a = some c → c.reply?.isSome) :
    (s'.shared.cell l).paused = (s.shared.cell l).paused ∧
      s'.shared.flagEvents l = s.shared.flagEvents l := by
  cases a with
  | request | tick => cases hstep; exact ⟨rfl, rfl⟩
  | advance i fault =>
    obtain ⟨c, c', x, hc, hcall, -⟩ := advance_cases hstep
    obtain ⟨r, rfl⟩ := Call.eq_done_of_reply (h c hc)
    cases hcall
  | work m signal fault =>
    have hp := worker_own hstep
    cases hreq : (s.workers.get m).request? with
    | none =>
      rcases Point.step_steers hp with hkept | ⟨c, hc, -⟩
      · exact ⟨hkept.paused l, Point.step_flagEvents hp hreq (htell m) l⟩
      · rw [hreq] at hc
        cases hc
    | some c =>
      have hr := h c hreq
      cases hworker : s.workers.get m with
      | asking r d next =>
        rw [hworker] at hp hreq
        obtain rfl := Option.some.inj hreq
        rcases Point.asking_cases hp with ⟨hs, -⟩ | ⟨d', hcall, -⟩
        · rw [hs]
          exact ⟨rfl, rfl⟩
        · obtain ⟨r, rfl⟩ := Call.eq_done_of_reply hr
          cases hcall
      | top | readPause | showPaused | paused | claim | claimFailed | showIdle | askWake | measure |
        arm | idle | decode | begin | announce | run | settle | collapsed | release | publish | finish |
        stop | exited =>
        rw [hworker] at hreq
        cases hreq

/-- **One step**: the flag changes as is noted, what is told is added to the events, and what has still to
be told grows by the change and shrinks by what is told. -/
theorem flag_step (htell : s.TellsExecutions) (hstep : s.step w a = some s') :
    (s'.shared.cell l).paused = (s.flipped? l a).getD (s.shared.cell l).paused ∧
      s'.shared.flagEvents l = s.shared.flagEvents l ++ (s.told? l a).toList ∧
      ((s.told? l a).toList ++ s'.untold l).Perm (s.untold l ++ (s.flipped? l a).toList) := by
  rcases moves_call hstep with ⟨k, c, c', hk, hc, hcall, hc'⟩ | hanswered
  · have hmoved := moved?_eq hk hc
    obtain ⟨htells, hevents⟩ := Call.step_tells hcall l
    simp only [flipped?, told?, hmoved, Option.bind_some]
    refine ⟨Call.step_flips hcall l, hevents, ?_⟩
    have hperm := filterMap_update (f := fun k => (s.callOf k).bind (Call.tells? l))
      (g := fun k => (s'.callOf k).bind (Call.tells? l)) s.nodup_callers (mem_callers hc)
      fun x hx => tells_beside hstep fun hx' => hx (Option.some.inj (hk.symm.trans hx')).symm
    simp only [hc, hc', Option.bind_some, htells] at hperm
    rw [untold_step hstep]
    exact hperm
  · have hnone : s.flipped? l a = none ∧ s.told? l a = none := by
      refine ⟨Option.bind_eq_none_iff.2 fun c hc => ?_, Option.bind_eq_none_iff.2 fun c hc => ?_⟩
      · exact Call.flips?_of_reply (hanswered c hc) s.shared
      · exact Call.tells?_of_reply (hanswered c hc)
    obtain ⟨hpaused, hevents⟩ := flags_of_answered (l := l) htell hstep hanswered
    rw [hnone.1, hnone.2, untold_step hstep]
    refine ⟨hpaused, hevents.trans (List.append_nil _).symm, ?_⟩
    rw [Option.toList_none, List.nil_append, List.append_nil, untold]
    refine List.Perm.of_eq (List.filterMap_congr fun k _ => ?_)
    by_cases hk : a.caller? = some k
    · obtain ⟨hnew, hold⟩ := tells_own (l := l) hstep hanswered hk
      rw [hnew, hold]
    · exact tells_beside hstep hk

/-- The flag of a lane goes back and forth from where it stood, and what has been told and what has still to
be told are together its changes. -/
structure KeepsBook (w : Wiring W) (s₀ : System σ W) (as : List Action) (s : System σ W) (l : Lane) :
    Prop where
  tells : s.TellsExecutions
  flips : ((s₀.shared.cell l).paused :: s₀.flips w l as).IsChain (· ≠ ·)
  ends : (s₀.flips w l as).getLast?.getD (s₀.shared.cell l).paused = (s.shared.cell l).paused
  told : (s.shared.flagEvents l ++ s.untold l).Perm (s₀.flips w l as)

variable {config : QueueConfig} {store : σ} {now : Instant} {world : W}

theorem KeepsBook.init (w : Wiring W) (l : Lane) :
    KeepsBook w (System.init config store now world) [] (.init config store now world) l where
  tells := tellsExecutions_init config store now world
  flips := .singleton _
  ends := rfl
  told := by
    rw [(allAnswered_init config store now world).untold]
    exact List.Perm.nil

/-- **Every step keeps it.** -/
theorem KeepsBook.step (h : KeepsBook w s₀ as s l) (hrun : s₀.steps w as = some s)
    (hstep : s.step w a = some s') : KeepsBook w s₀ (as ++ [a]) s' l := by
  obtain ⟨hpaused, hevents, htold⟩ := flag_step (l := l) h.tells hstep
  have hflips : s₀.flips w l (as ++ [a]) = s₀.flips w l as ++ (s.flipped? l a).toList :=
    yields_snoc hrun hstep
  refine ⟨h.tells.step hstep, ?_, ?_, ?_⟩
  · rw [hflips]
    cases hflip : s.flipped? l a with
    | none => simpa using h.flips
    | some up => exact isChain_ne_concat h.flips (h.ends ▸ ne_of_flipped? hflip)
  · rw [hflips, hpaused]
    cases s.flipped? l a with
    | none => simpa using h.ends
    | some up => simp
  · rw [hevents, hflips, List.append_assoc]
    refine (htold.append_left _).trans ?_
    rw [← List.append_assoc]
    exact h.told.append_right _

/-- No change is made while an earlier one has still to be told. -/
def TellsFirst (w : Wiring W) (l : Lane) (s₀ : System σ W) (as : List Action) : Prop :=
  Throughout w s₀ as fun u b => u.flipped? l b ≠ none → u.untold l = []

/-- Changes that are told before the next one is made are told in their order. -/
theorem events_of_tellsFirst (hrun : (System.init config store now world).steps w as = some s)
    (h : TellsFirst w l (System.init config store now world) as) :
    s.shared.flagEvents l ++ s.untold l = (System.init config store now world).flips w l as := by
  refine (steps_induction_throughout (P := fun as s => s.TellsExecutions ∧ (s.untold l).length ≤ 1 ∧
    s.shared.flagEvents l ++ s.untold l = (System.init config store now world).flips w l as)
    ?_ ?_ h hrun).2.2
  · rw [(allAnswered_init config store now world).untold]
    exact ⟨tellsExecutions_init _ _ _ _, Nat.zero_le 1, rfl⟩
  · intro as a s s' hs hfirst ⟨htell, hone, heq⟩ hstep
    obtain ⟨-, hevents, htold⟩ := flag_step (l := l) htell hstep
    have hle : (s.untold l ++ (s.flipped? l a).toList).length ≤ 1 := by
      cases hflip : s.flipped? l a with
      | none => simpa using hone
      | some up => simp [hfirst (by rw [hflip]; nofun)]
    have hsame := eq_of_perm_of_length_le_one htold hle
    refine ⟨htell.step hstep, ?_, ?_⟩
    · rw [← hsame, List.length_append] at hle
      exact (Nat.le_add_left _ _).trans hle
    · rw [hevents, List.append_assoc, hsame, ← List.append_assoc, heq]
      exact (yields_snoc hs hstep).symm

/-- How the events of the pause flag of a lane, in a run, stand to the flag. -/
structure MirrorsFlag (w : Wiring W) (s₀ : System σ W) (as : List Action) (s : System σ W) (l : Lane) :
    Prop where
  /-- The flag goes back and forth, -/
  flips : ((s₀.shared.cell l).paused :: s₀.flips w l as).IsChain (· ≠ ·)
  /-- up to where it stands. -/
  ends : (s₀.flips w l as).getLast?.getD (s₀.shared.cell l).paused = (s.shared.cell l).paused
  /-- Each change is told once, or has still to be told; nothing else is told of the flag. -/
  told : (s.shared.flagEvents l ++ s.untold l).Perm (s₀.flips w l as)
  /-- Once all have been answered, every change has been told, so the numbers of both events agree with
  the flag, -/
  answered : s.AllAnswered → (s.shared.flagEvents l).Perm (s₀.flips w l as) ∧
    (s.shared.flagEvents l).count true + (s₀.shared.cell l).paused.toNat =
      (s.shared.flagEvents l).count false + (s.shared.cell l).paused.toNat
  /-- and if the changes have been told in time, the events go back and forth, up to where it stands. -/
  inOrder : TellsFirst w l s₀ as →
    ((s₀.shared.cell l).paused :: s.shared.flagEvents l).IsChain (· ≠ ·) ∧
      (s.AllAnswered →
        (s.shared.flagEvents l).getLast?.getD (s₀.shared.cell l).paused = (s.shared.cell l).paused)

/-- **Events mirror the flag**, in every run of a new scheduler: any requests of clients and of bodies, in
any interleaving, any failures. -/
theorem flag_mirrored (w : Wiring W) (store : σ) (now : Instant) (world : W)
    (hrun : (System.init w.config store now world).steps w as = some s) (l : Lane) :
    MirrorsFlag w (System.init w.config store now world) as s l := by
  obtain ⟨-, hchain, hends, hperm⟩ := steps_induction (P := fun as s => KeepsBook w _ as s l)
    (.init w l) (fun ht h hstep => h.step ht hstep) hrun
  refine ⟨hchain, hends, hperm, fun hall => ?_, fun hfirst => ?_⟩
  · rw [hall.untold, List.append_nil] at hperm
    refine ⟨hperm, ?_⟩
    rw [hperm.count_eq, hperm.count_eq, ← hends]
    exact count_of_isChain_ne hchain
  · have hevents := events_of_tellsFirst hrun hfirst
    constructor
    · refine hchain.prefix (List.cons_prefix_cons.2 ⟨rfl, ?_⟩)
      rw [← hevents]
      exact List.prefix_append _ _
    · intro hall
      rw [hall.untold, List.append_nil] at hevents
      rw [hevents]
      exact hends

/-- A lane is paused, paused once more, and resumed, each time once the one before has been answered. -/
def oneByOne : List Action :=
  [.request (.pause .images), .advance 0 none, .advance 0 none,
    .request (.pause .images), .advance 1 none,
    .request (.resume .images), .advance 2 none, .advance 2 none, .advance 2 none]

theorem flag_mirrored_oneByOne :
    let w := Trial.wiring fun _ => .success
    let s₀ := Trial.init fun _ => .success
    ∃ s, s₀.steps w oneByOne = some s ∧ TellsFirst w .images s₀ oneByOne ∧
      MirrorsFlag w s₀ oneByOne s .images ∧ s₀.flips w .images oneByOne = [true, false] ∧
      s.shared.flagEvents .images = [true, false] ∧ (s.shared.cell .images).paused = false := by
  intro w s₀
  have hrun : (s₀.steps w oneByOne).any fun s => s.shared.flagEvents .images = [true, false] ∧
      (s.shared.cell .images).paused = false := by decide +kernel
  obtain ⟨s, hs, hend⟩ := (Option.any_eq_true _ _).1 hrun
  obtain ⟨hevents, hpaused⟩ := of_decide_eq_true hend
  have hfirst : TellsFirst w .images s₀ oneByOne := throughout_of_yields hs (by decide +kernel)
  exact ⟨s, hs, hfirst, flag_mirrored w MemoryStore.empty 0 () hs .images, by decide +kernel, hevents,
    hpaused⟩

/-- One caller pauses a lane, another resumes it before the first has told of the pause, and tells of it
first. -/
def overtaken : List Action :=
  [.request (.pause .images), .request (.resume .images), .advance 0 none, .advance 1 none,
    .advance 1 none, .advance 0 none, .advance 1 none]

/-- The events of two callers need not go back and forth, and the last one need not agree with the flag. -/
theorem told_in_reverse :
    ¬ (∀ (w : Wiring Unit) (as : List Action) (s : System MemoryStore Unit) (l : Lane),
      (System.init w.config .empty 0 ()).steps w as = some s → s.AllAnswered →
      (((System.init w.config MemoryStore.empty 0 ()).shared.cell l).paused ::
        s.shared.flagEvents l).IsChain (· ≠ ·)) ∧
    ¬ (∀ (w : Wiring Unit) (as : List Action) (s : System MemoryStore Unit) (l : Lane) (up : Bool),
      (System.init w.config .empty 0 ()).steps w as = some s → s.AllAnswered →
      (s.shared.flagEvents l).getLast? = some up → (s.shared.cell l).paused = up) := by
  have hrun : ((Trial.init fun _ => .success).steps (Trial.wiring fun _ => .success) overtaken).any
      fun s => (∀ c ∈ s.calls, (c.reply?).isSome) ∧ (∀ m ∈ Lane.all, (s.workers.get m).request?.isNone) ∧
        s.shared.flagEvents .images = [false, true] ∧ (s.shared.cell .images).paused = false := by
    decide +kernel
  obtain ⟨s, hs, hend⟩ := (Option.any_eq_true _ _).1 hrun
  obtain ⟨hcalls, hbodies, hevents, hpaused⟩ := of_decide_eq_true hend
  have hall : s.AllAnswered := by
    intro k c hc
    cases k with
    | client i => exact hcalls c (List.mem_of_getElem? hc)
    | body m => cases (Option.isNone_iff_eq_none.1 (hbodies m (Lane.mem_all m))).symm.trans hc
  constructor
  · intro h
    have hchain := h (Trial.wiring fun _ => .success) overtaken s .images hs hall
    rw [hevents] at hchain
    exact (List.isChain_cons_cons.1 hchain).1 rfl
  · intro h
    have hflag := h (Trial.wiring fun _ => .success) overtaken s .images true hs hall (by rw [hevents]; rfl)
    rw [hpaused] at hflag
    cases hflag

end System

end LaneQueue
