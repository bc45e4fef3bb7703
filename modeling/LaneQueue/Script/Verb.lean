import LaneQueue.Text.Bytes
/-!
# The verbs of a script

A script rehearses the scheduler: each of its verbs says what one execution of a command does. A
verb is written as its name, followed by its arguments after colons.
-/
namespace LaneQueue.Script

inductive Verb where
  | succeed
  /-- End recoverably. -/
  | fail (reason : String)
  | fatal (reason : String)
  /-- Fail with an error whose causes are given, outermost first. -/
  | error (causes : List String)
  | panic (message : String)
  /-- Ask for something that nobody provides. -/
  | require
  | pause (lane : String)
  | resume (lane : String)
  | clear (lane : String)
  /-- Submit a command of a class under a key. -/
  | submit (className key : String) (forced : Bool)
  /-- Wait for the gate of the command, then go on. -/
  | gate (next : Verb)
  | unknown (name : String)
  deriving Repr

namespace Verb

/-- A text up to a mark and the text behind it; all of it when there is no mark. -/
def cut (mark : Char) (s : List Char) : List Char × List Char :=
  (s.takeWhile (· != mark), (s.dropWhile (· != mark)).drop 1)

/-- Reads a verb; gates may be nested as deep as the text is long. -/
def ofChars : Nat → List Char → Verb
  | 0, _ => succeed
  | depth + 1, s =>
    let (name, rest) := cut ':' s
    let argument := String.ofList rest
    let (className, key) := cut ':' rest
    match String.ofList name with
    | "ok" => succeed
    | "fail" => fail argument
    | "fatal" => fatal argument
    | "err" => error ((rest.splitOn '|').map String.ofList)
    | "panic" => panic argument
    | "panic_str" => panic "static panic"
    | "panic_any" => panic "non-string panic payload"
    | "require" => require
    | "pause" => pause argument
    | "resume" => resume argument
    | "clear" => clear argument
    | "submit" => submit (String.ofList className) (String.ofList key) false
    | "force" => submit (String.ofList className) (String.ofList key) true
    | "gate" => gate (if rest.isEmpty then succeed else ofChars depth rest)
    | other => unknown other

def parse (s : String) : Verb := ofChars (s.length + 1) s.toList

end Verb

end LaneQueue.Script
