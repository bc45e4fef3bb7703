import LaneQueue.Json.Token
/-!
# The tree of a JSON text

`Tree.parse` builds the tree of a text in one pass over its tokens, with the open containers on a
stack. A fault of the text becomes a `broken` leaf at its place and closes what is open, so a
reader that goes through the tree from left to right meets the first fault first. Text after the
value is only noted, because it is noticed last.
-/
namespace LaneQueue.Json

inductive Tree where
  | null
  | bool (b : Bool)
  | number (n : Numeral)
  /-- A string, without a text when its bytes make none. -/
  | text (s : Option String)
  | array (items : List Tree)
  /-- Members in their order; a key without a text has bytes that make none. -/
  | object (members : List (Option String × Tree))
  /-- The place where the text stops to be well formed. -/
  | broken
  deriving Inhabited

namespace Tree

/-- A container that is open, with its parts so far in reverse. -/
inductive Frame where
  | items (done : List Tree)
  | members (done : List (Option String × Tree)) (key : Option String)

/-- What may come next. -/
inductive Place where
  /-- A value. -/
  | value
  /-- A value or the end of an array. -/
  | firstItem
  /-- A comma or the end of an array. -/
  | afterItem
  /-- A key or the end of an object; the key of the frame is not yet known. -/
  | firstKey
  /-- A key. -/
  | key
  /-- The colon after the key of the frame. -/
  | colon
  /-- A comma or the end of an object. -/
  | afterMember

inductive Status where
  | reading (frames : List Frame) (place : Place)
  | finished (t : Tree) (trailing : Bool)

/-- Puts a finished value into the innermost open container. -/
def supply (t : Tree) : List Frame → Status
  | [] => .finished t false
  | .items done :: up => .reading (.items (t :: done) :: up) .afterItem
  | .members done key :: up => .reading (.members ((key, t) :: done) none :: up) .afterMember

/-- Closes every open container around a value. -/
def closeAll (t : Tree) : List Frame → Tree
  | [] => t
  | .items done :: up => closeAll (.array (t :: done).reverse) up
  | .members done key :: up => closeAll (.object ((key, t) :: done).reverse) up

/-- A fault at the current place. -/
def cut (up : List Frame) : Status := .finished (closeAll .broken up) false

/-- A value begins with a token. -/
def beginValue (up : List Frame) : Token → Status
  | .null => supply .null up
  | .bool b => supply (.bool b) up
  | .number n => supply (.number n) up
  | .text s => supply (.text s) up
  | .beginArray => .reading (.items [] :: up) .firstItem
  | .beginObject => .reading (.members [] none :: up) .firstKey
  | _ => cut up

def step : Status → Token → Status
  | .finished t _, _ => .finished t true
  | .reading up .value, tok => beginValue up tok
  | .reading (.items done :: up) .firstItem, .endArray => supply (.array done.reverse) up
  | .reading up .firstItem, tok => beginValue up tok
  | .reading (.items done :: up) .afterItem, .endArray => supply (.array done.reverse) up
  | .reading up .afterItem, .comma => .reading up .value
  | .reading (.members done _ :: up) .firstKey, .endObject => supply (.object done.reverse) up
  | .reading (.members done _ :: up) .firstKey, .text s => .reading (.members done s :: up) .colon
  | .reading (.members done _ :: up) .key, .text s => .reading (.members done s :: up) .colon
  | .reading up .colon, .colon => .reading up .value
  | .reading (.members done _ :: up) .afterMember, .endObject =>
    supply (.object done.reverse) up
  | .reading up .afterMember, .comma => .reading up .key
  | .reading up _, _ => cut up

/-- A text: its tree, and whether something follows it. -/
structure Document where
  root : Tree
  trailing : Bool

def Status.document : Status → Document
  | .finished t trailing => ⟨t, trailing⟩
  | .reading up _ => ⟨closeAll .broken up, false⟩

def ofTokens (ts : List Token) : Document := (ts.foldl step (.reading [] .value)).document

def parse (bytes : List UInt8) : Document := ofTokens (Token.scan bytes)

/-- Whether the text breaks off inside the tree. Faults stand at the right edge only. -/
def isCut : Tree → Bool
  | .broken => true
  | .array items => lastItem items
  | .object members => lastMember members
  | _ => false
where
  lastItem : List Tree → Bool
    | [] => false
    | [t] => isCut t
    | _ :: t :: ts => lastItem (t :: ts)
  lastMember : List (Option String × Tree) → Bool
    | [] => false
    | [(_, t)] => isCut t
    | _ :: m :: ms => lastMember (m :: ms)

end Tree

end LaneQueue.Json
