import LaneQueue.Scheduler.State
/-!
# Requests under way

A request to the scheduler is answered in steps: storing a command, telling subscribers and waking
its lane are three of them. Between two steps anything else may happen.
-/
namespace LaneQueue

/-- What a count of stored commands is for. -/
inductive StatusGoal where
  | one
  /-- The statuses taken so far and the lanes that come next. -/
  | all (before : List LaneStatus) (after : List Lane)
  deriving DecidableEq, Repr

/-- Where a request stands. -/
inductive Call where
  | start
  | recover (stage : Try)
  | spawn (found : PerLane Nat)
  | submit (draft : Draft) (options : SubmitOptions)
  | store (command : NewCommand) (policy : ConflictPolicy) (stage : Try)
  /-- Tell subscribers of a stored command, wake its lane afterwards. -/
  | announce (lane : Lane) (body : EventBody) (outcome : SubmitOutcome)
  | wake (lane : Lane) (reply : Reply)
  | pause (lane : Lane)
  | resume (lane : Lane)
  /-- Tell subscribers of a flag that has changed. -/
  | announcePause (lane : Lane)
  | announceResume (lane : Lane)
  | purge (lane : Lane) (stage : Try)
  | announceCleared (lane : Lane) (removed : Nat)
  | count (lane : Lane) (goal : StatusGoal) (stage : Try)
  | snapshot (lane : Lane) (pending : Nat) (goal : StatusGoal)
  /-- Mark the lanes as shutting down, one after the other. -/
  | drain (lanes : List Lane)
  | cancel
  /-- Take charge of the workers. -/
  | gather
  /-- Wait for some workers, but not for ever. -/
  | await (lanes : List Lane) (deadline : Instant)
  /-- Mark the lanes as stopped, one after the other. -/
  | halt (lanes : List Lane)
  | done (reply : Reply)

namespace Call

/-- How a request begins. -/
def ofRequest : Request → Call
  | .start => start
  | .submit d o => submit d o
  | .pause l => pause l
  | .resume l => resume l
  | .clear l => purge l .first
  | .status l => count l .one .first
  | .statusAll =>
    match Lane.all with
    | [] => done (.statuses [])
    | l :: ls => count l (.all [] ls) .first
  | .shutdown => drain Lane.all

def reply? : Call → Option Reply
  | done r => some r
  | _ => none

/-- The instant at which a waiting request goes on of itself. -/
def wakesAt? : Call → Option Instant
  | recover (.pause t) | store _ _ (.pause t) | purge _ (.pause t) | count _ _ (.pause t)
  | await _ t => some t
  | _ => none

/-- What follows the storing of a command. -/
def ofSubmission (lane : Lane) : Submission → Call
  | .inserted r => announce lane (.queued r.identity r.tag r.priority) .accepted
  | .replaced _ r => announce lane (.replaced r.identity r.tag r.priority) .replaced
  | .kept _ => done (.submitted .alreadyQueued)
  | .refused _ => done (.submitted (.rejected .duplicate))

/-- What follows the snapshot of a lane. -/
def ofStatus (status : LaneStatus) : StatusGoal → Call
  | .one => done (.status status)
  | .all before [] => done (.statuses (before ++ [status]))
  | .all before (l :: ls) => count l (.all (before ++ [status]) ls) .first

/-- The check of a submission before anything is stored. -/
def ofDraft {W : Type} (w : Wiring W) (d : Draft) (o : SubmitOptions) : Call :=
  match w.registry.descriptor? d.tag with
  | none => done (.submitted (.rejected (.unregistered d.tag)))
  | some k =>
    match d.toCommand k o with
    | .error e => done (.failed e)
    | .ok c => store c k.conflict .first

variable {σ W : Type} [QueueStore σ]

/-- A storage call with a second try, as a step of a request. -/
def trying {α : Type} (w : Wiring W) (fault : Option QueueError) (call : σ → Result σ α)
    (stage : Try) (onward : Try → Call) (next : α → Call) (s : Shared σ W) :
    Option (Call × Shared σ W) :=
  match stage.step w.config fault call s with
  | none => none
  | some (.onward t, s) => some (onward t, s)
  | some (.settled (.ok a), s) => some (next a, s)
  | some (.settled (.error e), s) => some (done (.failed e), s)

/-- The next step of a request; none while it has to wait or once it is answered. -/
def step (w : Wiring W) (fault : Option QueueError) : Call → Shared σ W →
    Option (Call × Shared σ W)
  | start, s =>
    if s.started then some (done (.failed (.internal "scheduler already started")), s)
    else some (recover .first, { s with started := true })
  | recover t, s => trying w fault QueueStore.recover t recover spawn s
  | spawn found, s =>
    some (done (.started found),
      { s with
        lanes := .ofFn fun l => { s.cell l with spawned := true }
        handles := s.handles ++ Lane.all })
  | submit d o, s => some (ofDraft w d o, s)
  | store c p t, s =>
    trying w fault (QueueStore.submit c p s.now) t (store c p) (ofSubmission c.lane) s
  | announce l b o, s => some (wake l (.submitted o), s.publish l b)
  | wake l r, s => some (done r, s.wake l)
  | pause l, s =>
    some (if (s.cell l).paused then done .done else announcePause l, s.setPaused l true)
  | resume l, s =>
    some (if (s.cell l).paused then announceResume l else done .done, s.setPaused l false)
  | announcePause l, s => some (done .done, s.publish l .lanePaused)
  | announceResume l, s => some (wake l .done, s.publish l .laneResumed)
  | purge l t, s => trying w fault (QueueStore.purgeLane l) t (purge l) (announceCleared l) s
  | announceCleared l n, s => some (done (.cleared n), s.publish l (.laneCleared (.ofNat n)))
  | count l g t, s =>
    trying w fault (fun store => (QueueStore.pendingCount l store, store)) t (count l g)
      (fun n => snapshot l n g) s
  | snapshot l n g, s => some (ofStatus (s.status l n) g, s)
  | drain (l :: ls), s => some (drain ls, s.setState l .draining)
  | drain [], s => some (cancel, s)
  | cancel, s => some (gather, { s with cancelled := true })
  | gather, s =>
    some (await s.handles (s.now + w.config.shutdownGraceMs.toNat), { s with handles := [] })
  | await ls t, s =>
    if ls.all (fun l => (s.cell l).exited) || t ≤ s.now then some (halt Lane.all, s) else none
  | halt (l :: ls), s => some (halt ls, s.setState l .stopped)
  | halt [], s => some (done .done, s)
  | done _, _ => none

end Call

end LaneQueue
