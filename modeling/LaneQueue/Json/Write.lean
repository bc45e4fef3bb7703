import LaneQueue.Number.Shortest
/-!
# Writing JSON

Values with ordered members and their compact text: no blanks, the short escapes where there are
any, and every character above the controls written as itself.
-/
namespace LaneQueue.Json

inductive Value where
  | null
  | bool (b : Bool)
  | int (i : Int)
  /-- A single-precision number; one that is not finite is written as null. -/
  | single (x : Binary32)
  | text (s : String)
  | array (items : List Value)
  | object (members : List (String × Value))
  deriving Inhabited

def hexDigit (n : Nat) : Char := Char.ofNat (if n < 10 then 48 + n else 87 + n)

/-- The written form of one character inside quotes. -/
def escapeChar (c : Char) : List Char :=
  if c = '"' then ['\\', '"']
  else if c = '\\' then ['\\', '\\']
  else if c = '\n' then ['\\', 'n']
  else if c = '\r' then ['\\', 'r']
  else if c = '\t' then ['\\', 't']
  else if c.toNat = 8 then ['\\', 'b']
  else if c.toNat = 12 then ['\\', 'f']
  else if c.toNat < 32 then ['\\', 'u', '0', '0', hexDigit (c.toNat / 16), hexDigit (c.toNat % 16)]
  else [c]

def quote (s : String) : String := String.ofList ('"' :: s.toList.flatMap escapeChar ++ ['"'])

namespace Value

/-- The text of a value. -/
def render : Value → String
  | .null => "null"
  | .bool b => if b then "true" else "false"
  | .int i => toString i
  | .single x => if x.isFinite then x.render else "null"
  | .text s => quote s
  | .array items => "[" ++ ",".intercalate (renderItems items) ++ "]"
  | .object members => "\x7b" ++ ",".intercalate (renderMembers members) ++ "\x7d"
where
  renderItems : List Value → List String
    | [] => []
    | v :: vs => render v :: renderItems vs
  renderMembers : List (String × Value) → List String
    | [] => []
    | (k, v) :: ms => (quote k ++ ":" ++ render v) :: renderMembers ms

/-- The bytes of the text. -/
def bytes (v : Value) : List UInt8 := v.render.toUTF8.toList

def nat (n : Nat) : Value := .int n

end Value

end LaneQueue.Json
