import LaneQueue.Proofs.Scheduler.Effects
/-!
# The ways of a worker

`Point.Moves` draws the map of a worker: from which point it goes to which, and what it has met with
there. That every step follows the map (`Point.step_moves`) is shown once; what holds of the points
alone, as how a worker comes by a record and how it lets go of it, is read off the map. What the step
makes of that which is shared is `Point.Changes` in the same way, as `Call.Changes` is for a request.
-/
namespace LaneQueue

namespace Point

variable {σ W : Type}

/-- Whether a worker waits for a signal. -/
def waits : Point W → Bool
  | paused | claimFailed _ | idle _ => true
  | _ => false

theorem record?_of_waits {p : Point W} (h : p.waits = true) : p.record? = none := by
  cases p with
  | paused | claimFailed | idle => rfl
  | top | readPause | showPaused | claim | showIdle | askWake | measure | arm | decode | begin |
    announce | run | asking | settle | collapsed | release | publish | finish | stop | exited =>
    cases h

/-- Whether a worker has found nothing to do. -/
def isIdling : Point W → Bool
  | showIdle | askWake | measure _ | arm _ | idle _ => true
  | _ => false

theorem record?_of_isIdling {p : Point W} (h : p.isIdling = true) : p.record? = none := by
  cases p with
  | showIdle | askWake | measure | arm | idle => rfl
  | top | readPause | showPaused | paused | claim | claimFailed | decode | begin | announce | run |
    asking | settle | collapsed | release | publish | finish | stop | exited => cases h

/-- Whether a worker's task is over: it has left its loop, or has broken down in it. -/
def hasEnded : Point W → Bool
  | collapsed _ | exited => true
  | _ => false

/-- The timer of a worker that waits for work. -/
def timer? : Point W → Option (Option Instant)
  | idle t => some t
  | _ => none

theorem timer?_eq_some {p : Point W} {t : Option Instant} : p.timer? = some t ↔ p = idle t := by
  cases p <;> simp [timer?]

variable [QueueStore σ] {w : Wiring W} {l : Lane} {signal : Signal} {fault : Option QueueError}
  {p p' : Point W} {s s' : Shared σ W}

/-- Where a worker goes from where, and what it has met with there. -/
inductive Moves (w : Wiring W) (l : Lane) (fault : Option QueueError) (s : Shared σ W) :
    Point W → Point W → Prop
  | look : s.cancelled = false → Moves w l fault s top readPause
  | leave : s.cancelled = true → Moves w l fault s top stop
  | hold : (s.cell l).paused = true → Moves w l fault s readPause showPaused
  | pass : (s.cell l).paused = false → Moves w l fault s readPause (claim .first)
  | park : Moves w l fault s showPaused paused
  | cancel {p : Point W} : p.waits = true → s.cancelled = true → Moves w l fault s p stop
  | rouse {p : Point W} : p.waits = true → Moves w l fault s p top
  | claimAgain (t t' : Try) : Moves w l fault s (claim t) (claim t')
  | claimFails (t : Try) (d : Instant) : Moves w l fault s (claim t) (claimFailed d)
  | findNone (t : Try) : t.operation? fault (.nextEligible l) = some (.nextEligible l) →
      (QueueStore.nextEligible l s.now s.store).1 = .ok none →
      Moves w l fault s (claim t) showIdle
  | find (t : Try) (r : Record) :
      t.operation? fault (.nextEligible l) = some (.nextEligible l) →
      (QueueStore.nextEligible l s.now s.store).1 = .ok (some r) →
      Moves w l fault s (claim t) (decode r)
  | rest : Moves w l fault s showIdle askWake
  | learn (t : Option Instant) : Moves w l fault s askWake (measure t)
  | refuse (ms : Nat) : Moves w l fault s askWake (arm (some ms))
  | measure (t : Option Instant) (d : Option Nat) : Moves w l fault s (measure t) (arm d)
  | sleep (d : Option Nat) (t : Option Instant) : Moves w l fault s (arm d) (idle t)
  | accept (r : Record) (c : Command W) : w.registry.decode r = .ok c →
      Moves w l fault s (decode r) (begin r c)
  | reject (r : Record) (e : QueueError) : w.registry.decode r = .error e →
      Moves w l fault s (decode r) (settle r (.dropped r e) .first)
  | begin (r : Record) (c : Command W) : Moves w l fault s (begin r c) (announce r c)
  | execute (r : Record) (c : Command W) :
      Moves w l fault s (announce r c) (run r (c.body ⟨r.lane, r.identity, r.attempt⟩))
  | act (r : Record) (effect : W → W) (next : W → Body W) :
      Moves w l fault s (run r (.act effect next)) (run r (next s.world))
  | await (r : Record) (effect? : W → Option W) (next : Body W) :
      Moves w l fault s (run r (.await effect? next)) (run r next)
  | ask (r : Record) (request : Request) (next : Reply → Body W) :
      Moves w l fault s (run r (.ask request next)) (asking r (.ofRequest request) next)
  | proceed (r : Record) (c c' : Call) (next : Reply → Body W) :
      (c.step w fault s).map Prod.fst = some c' →
      Moves w l fault s (asking r c next) (asking r c' next)
  | hear (r : Record) (c : Call) (next : Reply → Body W) (reply : Reply) :
      c.reply? = some reply → Moves w l fault s (asking r c next) (run r (next reply))
  | finish (r : Record) (f : Finish) :
      (Fate.ofOutcome w.config.retry s.now r f.toOutcome).isDated = true →
      Moves w l fault s (run r (.done f))
        (settle r (.ofOutcome w.config.retry s.now r f.toOutcome) .first)
  | collapse (r : Record) (f : Finish) :
      (Fate.ofOutcome w.config.retry s.now r f.toOutcome).isDated = false →
      Moves w l fault s (run r (.done f)) (collapsed r)
  | settleAgain (r : Record) (f : Fate) (t t' : Try) :
      Moves w l fault s (settle r f t) (settle r f t')
  | settled (r : Record) (f : Fate) (t : Try) :
      t.operation? fault (f.operation r) = some (f.operation r) →
      Moves w l fault s (settle r f t) (publish r.lane f.event)
  | giveUp (r : Record) (f : Fate) (t : Try) : Moves w l fault s (settle r f t) (release r f)
  | release (r : Record) (f : Fate) : Moves w l fault s (release r f) (publish r.lane f.event)
  | publish (m : Lane) (e : EventBody) : Moves w l fault s (publish m e) finish
  | again : Moves w l fault s finish top
  | exit : Moves w l fault s stop exited

/-- **Every step** of a worker is one of its ways. -/
theorem step_moves (h : p.step w l signal fault s = some (p', s')) : Moves w l fault s p p' := by
  have hwait : ∀ {signals : List Signal} {deadline : Option Instant}, p.waits = true →
      wait l signals deadline signal s = some (p', s') → Moves w l fault s p p' := by
    intro signals deadline hp h
    obtain ⟨hready, -, -, ⟨rfl, rfl⟩ | rfl⟩ := wait_cases h
    · exact .cancel hp hready
    · exact .rouse hp
  cases p with
  | top =>
    cases h
    cases hc : s.cancelled with
    | true => exact .leave hc
    | false => exact .look hc
  | readPause =>
    cases h
    cases hp : (s.cell l).paused with
    | true => exact .hold hp
    | false => exact .pass hp
  | paused | claimFailed | idle => exact hwait rfl h
  | claim t =>
    obtain ⟨-, ⟨t', rfl⟩ | ⟨d, rfl⟩ | ⟨r, hr, hop, rfl⟩⟩ := claim_cases h
    · exact .claimAgain t t'
    · exact .claimFails t d
    · cases r with
      | none => exact .findNone t hop hr
      | some r => exact .find t r hop hr
  | askWake =>
    simp only [step] at h
    split at h
    · cases h; exact .learn _
    · cases h; exact .refuse _
  | measure t => cases h; exact .measure t _
  | arm d => cases h; exact .sleep d _
  | decode r =>
    simp only [step] at h
    split at h
    · rename_i c hc
      cases h
      exact .accept r c hc
    · rename_i e he
      cases h
      exact .reject r e he
  | run r b =>
    cases b with
    | done f =>
      obtain ⟨hd, rfl, -⟩ | ⟨hd, rfl, -⟩ := done_cases h
      · exact .finish r f hd
      · exact .collapse r f hd
    | act effect next => cases h; exact .act r effect next
    | ask request next => cases h; exact .ask r request next
    | await effect? next =>
      obtain ⟨world, -, hw⟩ := Option.map_eq_some_iff.1 h
      cases hw
      exact .await r effect? next
  | asking r c next =>
    simp only [step] at h
    split at h
    · rename_i reply hr
      cases h
      exact .hear r c next reply hr
    · obtain ⟨⟨c', x⟩, hc, hp⟩ := Option.map_eq_some_iff.1 h
      cases hp
      exact .proceed r c c' next (congrArg (Option.map Prod.fst) hc)
  | settle r f t =>
    obtain ⟨-, ⟨t', rfl⟩ | ⟨rfl, hop⟩ | rfl⟩ := settle_cases h
    · exact .settleAgain r f t t'
    · exact .settled r f t hop
    · exact .giveUp r f t
  | showPaused => cases h; exact .park
  | showIdle => cases h; exact .rest
  | begin r c => cases h; exact .begin r c
  | announce r c => cases h; exact .execute r c
  | release r f => cases h; exact .release r f
  | publish m e => cases h; exact .publish m e
  | finish => cases h; exact .again
  | stop => cases h; exact .exit
  | collapsed | exited => cases h

/-- What a step of a worker makes of that which is shared, on its way from one point to another. -/
inductive Changes (w : Wiring W) (l : Lane) (fault : Option QueueError) (s : Shared σ W) :
    Point W → Point W → Shared σ W → Prop
  | same {p p' : Point W} : Changes w l fault s p p' s
  | stored {p p' : Point W} (store : σ) : Changes w l fault s p p' { s with store := store }
  | acted {p p' : Point W} (world : W) : Changes w l fault s p p' { s with world := world }
  | noticed {p p' : Point W} : p = readPause ∨ p = paused ∨ (∃ t, p = idle t) →
      Changes w l fault s p p' (s.modifyCell l fun c => { c with changed := false })
  | roused (t : Option Instant) : Changes w l fault s (idle t) top
      (s.modifyCell l fun c => { c with permit := false })
  | shown {p p' : Point W} (state : LaneState) : p = showPaused ∨ p = showIdle →
      Changes w l fault s p p' (s.setState l state)
  | begun (r : Record) (c : Command W) (current : CurrentCommand) :
      Changes w l fault s (begin r c) (announce r c)
        ((s.setState l .running).modifyCell l fun cell => { cell with current := some current })
  | announced {p' : Point W} (r : Record) (c : Command W) :
      Changes w l fault s (announce r c) p' (s.publish l (.started r.identity r.tag r.attempt))
  | asked {s' : Shared σ W} (r : Record) (c c' : Call) (next : Reply → Body W) :
      c.step w fault s = some (c', s') →
      Changes w l fault s (asking r c next) (asking r c' next) s'
  | collapsed (r : Record) (f : Finish) : Changes w l fault s (run r (.done f)) (.collapsed r)
      (s.modifyCell l fun c => { c with exited := true })
  | published (m : Lane) (e : EventBody) :
      Changes w l fault s (publish m e) finish (s.publish m e)
  | finished : Changes w l fault s finish top (s.modifyCell l fun c => { c with current := none })
  | stopped : Changes w l fault s stop exited
      ((s.setState l .stopped).modifyCell l fun c => { c with exited := true })

/-- **What a step of a worker changes**: one thing at most, but for the beginning of a record and the
end of the worker. -/
theorem step_changes (h : p.step w l signal fault s = some (p', s')) :
    Changes w l fault s p p' s' := by
  cases p with
  | claim t => rw [(claim_cases h).1]; exact .stored _
  | settle r f t => rw [(settle_cases h).1]; exact .stored _
  | release r f => cases h; exact .stored _
  | asking r c next =>
    rcases asking_cases h with ⟨rfl, -⟩ | ⟨c', hc, rfl⟩
    · exact .same
    · exact .asked r c c' next hc
  | run r b =>
    cases b with
    | done f =>
      obtain ⟨-, -, rfl⟩ | ⟨-, rfl, rfl⟩ := done_cases h
      · exact .same
      · exact .collapsed r f
    | act effect next => cases h; exact .acted _
    | ask request next => cases h; exact .same
    | await effect? next =>
      obtain ⟨world, -, hw⟩ := Option.map_eq_some_iff.1 h
      cases hw
      exact .acted world
  | readPause => cases h; exact .noticed (.inl rfl)
  | paused =>
    simp only [step, wait] at h
    split at h
    · rename_i hready
      cases signal with
      | cancellation => cases h; exact .same
      | flag => cases h; exact .noticed (.inr (.inl rfl))
      | permit | timer => cases hready
    · cases h
  | claimFailed d =>
    simp only [step, wait] at h
    split at h
    · rename_i hready
      cases signal with
      | cancellation | timer => cases h; exact .same
      | permit | flag => cases hready
    · cases h
  | idle t =>
    simp only [step, wait] at h
    split at h
    · cases signal with
      | cancellation | timer => cases h; exact .same
      | permit => cases h; exact .roused t
      | flag => cases h; exact .noticed (.inr (.inr ⟨t, rfl⟩))
    · cases h
  | askWake | decode =>
    simp only [step] at h
    split at h <;> cases h <;> exact .same
  | showPaused => cases h; exact .shown _ (.inl rfl)
  | showIdle => cases h; exact .shown _ (.inr rfl)
  | begin r c => cases h; exact .begun r c _
  | announce r c => cases h; exact .announced r c
  | publish m e => cases h; exact .published m e
  | finish => cases h; exact .finished
  | stop => cases h; exact .stopped
  | top | measure | arm => cases h; exact .same
  | collapsed | exited => cases h

/-- Once the lanes have been started, no request under way is about to spawn the workers. -/
theorem isLaunching_step (h : p.step w l signal fault s = some (p', s')) (hs : s.started = true)
    (hc : ∀ c, p.request? = some c → c.isLaunching = false) {c : Call} (hc' : p'.request? = some c) :
    c.isLaunching = false := by
  cases step_moves h with
  | ask r request next =>
    obtain rfl := Option.some.inj hc'
    cases request <;> rfl
  | proceed r d d' next hd =>
    obtain rfl := Option.some.inj hc'
    obtain ⟨⟨d', x⟩, hstep, rfl⟩ := Option.map_eq_some_iff.1 hd
    have hold := hc d rfl
    rcases Call.step_flags hstep with ⟨-, himp⟩ | ⟨-, hn, -⟩ | ⟨-, hnew, -⟩
    · cases hl : d'.isLaunching with
      | false => rfl
      | true => rw [himp hl] at hold; cases hold
    · rw [hs] at hn; cases hn
    · exact hnew
  | look | leave | hold | pass | park | cancel | rouse | claimAgain | claimFails | findNone | find |
    rest | learn | refuse | measure | sleep | accept | reject | begin | execute | act | await | hear |
    finish | collapse | settleAgain | settled | giveUp | release | publish | again | exit => cases hc'

/-- Once the lanes have been started, a step of a worker changes none of the flags of a start. -/
theorem step_steady (h : p.step w l signal fault s = some (p', s')) (hs : s.started = true)
    (hc : ∀ c, p.request? = some c → c.isLaunching = false) :
    Shared.Steady s s' ∧ ∀ c, p'.request? = some c → c.isLaunching = false := by
  refine ⟨?_, fun c hc' => isLaunching_step h hs hc hc'⟩
  cases step_changes h with
  | same => exact .refl s
  | stored | acted | announced | published => exact ⟨rfl, rfl, fun _ => rfl⟩
  | noticed | roused | collapsed | finished => exact .modifyCell s l fun _ => rfl
  | shown state => exact .setState s l state
  | begun | stopped => exact (Shared.Steady.setState s l _).trans (.modifyCell _ l fun _ => rfl)
  | asked r c c' next hstep =>
    have hold := hc c rfl
    rcases Call.step_flags hstep with ⟨hsteady, -⟩ | ⟨-, hn, -⟩ | ⟨hl, -⟩
    · exact hsteady
    · rw [hs] at hn; cases hn
    · rw [hl] at hold; cases hold

/-- A worker comes by a record only through a claim, and then has it in hand to the end. -/
theorem step_record (h : p.step w l signal fault s = some (p', s')) {r : Record}
    (hr : p'.record? = some r) :
    p.record? = some r ∨
      (p' = decode r ∧ p.operation? l fault = some (.nextEligible l) ∧
        (QueueStore.nextEligible l s.now s.store).1 = .ok (some r)) := by
  cases step_moves h with
  | find t x hop hx =>
    obtain rfl := Option.some.inj hr
    exact .inr ⟨rfl, hop, hx⟩
  | accept | reject | begin | execute | act | await | ask | proceed | hear | finish | collapse |
    settleAgain | giveUp => exact .inl hr
  | look | leave | hold | pass | park | cancel | rouse | claimAgain | claimFails | findNone | rest |
    learn | refuse | measure | sleep | settled | release | publish | again | exit => cases hr

/-- A worker lets go of a record only by giving up its claim. -/
theorem step_letsGo (h : p.step w l signal fault s = some (p', s')) {r : Record}
    (hr : p.record? = some r) :
    p'.record? = some r ∨ ∃ op, p.operation? l fault = some op ∧ op.settled? = some r := by
  cases step_moves h with
  | settled x f t hop => exact .inr ⟨_, hop, (Fate.settled?_operation x f).trans hr⟩
  | release => exact .inr ⟨_, rfl, hr⟩
  | cancel hp | rouse hp =>
    rw [record?_of_waits hp] at hr
    cases hr
  | accept | reject | begin | execute | act | await | ask | proceed | hear | finish | collapse |
    settleAgain | giveUp => exact .inl hr
  | look | leave | hold | pass | park | claimAgain | claimFails | find | findNone | rest | learn |
    refuse | measure | sleep | publish | again | exit => cases hr

/-- How a worker comes to wait: a claim that finds nothing, the question when to wake up, the time
until then, and the timer. -/
theorem step_toWait (h : p.step w l signal fault s = some (p', s')) :
    (p' = showIdle → ∃ t, p = claim t) ∧ (p' = askWake → p = showIdle) ∧
      (∀ t, p' = .measure t → p = askWake) ∧
      (∀ d, p' = arm d → p = askWake ∨ ∃ t, p = .measure t) ∧
      ∀ t, p' = idle t → ∃ d, p = arm d := by
  cases step_moves h <;> simp

end Point

end LaneQueue
