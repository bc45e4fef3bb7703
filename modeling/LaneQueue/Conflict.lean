/-!
# Submitting an identity that is queued already

A command class fixes one `ConflictPolicy`; `ConflictPolicy.resolve` says what a submission does,
given whether its identity is taken.
-/
namespace LaneQueue

inductive ConflictPolicy where
  /-- Keep the queued record and drop the submission. -/
  | rejectDuplicate
  /-- Put the submission in the place of the queued record. -/
  | replace
  /-- Refuse the submission. -/
  | error
  deriving DecidableEq, Repr, Inhabited

namespace ConflictPolicy

def all : List ConflictPolicy := [rejectDuplicate, replace, error]

def name : ConflictPolicy → String
  | rejectDuplicate => "reject_duplicate"
  | replace => "replace"
  | error => "error"

def ofName? (s : String) : Option ConflictPolicy := all.find? (fun p => p.name == s)

end ConflictPolicy

/-- What becomes of a submission. -/
inductive Resolution where
  | insert
  | replaceExisting
  | keepExisting
  | refuseDuplicate
  deriving DecidableEq, Repr

/-- A free identity is always taken; a taken one is settled by the policy. -/
def ConflictPolicy.resolve (policy : ConflictPolicy) (taken : Bool) : Resolution :=
  match taken, policy with
  | false, _ => .insert
  | true, .rejectDuplicate => .keepExisting
  | true, .replace => .replaceExisting
  | true, .error => .refuseDuplicate

end LaneQueue
