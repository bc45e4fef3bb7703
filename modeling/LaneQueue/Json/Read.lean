import LaneQueue.Json.Tree
/-!
# Reading values out of a JSON tree

A `Reader` takes a tree to a value or to the first `Fault` in text order. `Fields` describes the
fields of a record in declaration order; the record may be written as an object, where unknown
members are skipped and a known one comes once, or as an array of the fields in their order.
-/
namespace LaneQueue.Json

/-- Why a text is no value of a type. -/
inductive Fault where
  /-- A field that is absent and has no default. -/
  | missing (field : String)
  /-- A field that is written twice. -/
  | duplicate (field : String)
  /-- Anything else: bad form, a wrong type, a number out of range, something after the value. -/
  | invalid
  deriving DecidableEq, Repr, Inhabited

def Fault.message : Fault → String
  | .missing f => "missing field `" ++ f ++ "`"
  | .duplicate f => "duplicate field `" ++ f ++ "`"
  | .invalid => "invalid"

abbrev Reader (α : Type) := Tree → Except Fault α

namespace Reader

variable {α : Type}

def bool : Reader Bool
  | .bool b => .ok b
  | _ => .error .invalid

def text : Reader String
  | .text (some s) => .ok s
  | _ => .error .invalid

/-- An integer below a bound, written without a point, an exponent or the sign of zero. -/
def below (bound : Nat) : Reader Nat
  | .number n =>
    match n.toInt? with
    | some i => if 0 ≤ i ∧ i < bound then .ok i.toNat else .error .invalid
    | none => .error .invalid
  | _ => .error .invalid

/-- A single-precision number. An integer of up to 64 bits is rounded once, any other number to
double precision first. -/
def single : Reader Binary32
  | .number n =>
    match n.toInt? with
    | some i =>
      if -9223372036854775808 ≤ i ∧ i < (UInt64.size : Int) then .ok (Binary32.ofMagnitude (i < 0) (i.natAbs : Rat))
      else viaDouble n
    | none => viaDouble n
  | _ => .error .invalid
where
  viaDouble (n : Numeral) : Except Fault Binary32 :=
    match n.toDouble? with
    | some x => .ok (Binary32.ofMagnitude n.negative x)
    | none => .error .invalid

/-- A value, or null for none. -/
def option (r : Reader α) : Reader (Option α)
  | .null => .ok none
  | t => (r t).map some

def list (r : Reader α) : Reader (List α)
  | .array items => items.mapM r
  | _ => .error .invalid

/-- One of several names, as a string or as the only key of an object whose value is null. -/
def oneOf (find? : String → Option α) : Reader α
  | .text (some s) => named s
  | .object [(some s, .null)] => named s
  | _ => .error .invalid
where
  named (s : String) : Except Fault α :=
    match find? s with
    | some a => .ok a
    | none => .error .invalid

def mapExcept {β : Type} (r : Reader α) (f : α → Except Fault β) : Reader β := fun t => r t >>= f

end Reader

/-- The members of an object that a record knows. -/
abbrev Members := List (String × Tree)

/-- The fields of a record, in declaration order. -/
structure Fields (α : Type) where
  names : List String
  /-- Refuses a value that the named field cannot have. -/
  check : String → Tree → Except Fault Unit
  /-- The record, from its known members. -/
  ofMembers : Members → Except Fault α
  /-- The record from the front of an array, and the items behind it. -/
  ofItems : List Tree → Except Fault (α × List Tree)

namespace Fields

variable {α β : Type}

/-- A record without fields. -/
protected def pure (a : α) : Fields α where
  names := []
  check _ _ := .ok ()
  ofMembers _ := .ok a
  ofItems items := .ok (a, items)

/-- The fields of one record followed by those of another. -/
protected def seq (f : Fields (α → β)) (x : Fields α) : Fields β where
  names := f.names ++ x.names
  check name t := if name ∈ f.names then f.check name t else x.check name t
  ofMembers ms := do
    let g ← f.ofMembers ms
    let a ← x.ofMembers ms
    return g a
  ofItems items := do
    let (g, items) ← f.ofItems items
    let (a, items) ← x.ofItems items
    return (g a, items)

instance : Applicative Fields where
  pure := Fields.pure
  seq f x := Fields.seq f (x ())

/-- A field that has to be there, unless `absent` gives a value for it. An array has to reach up
to the last field without one. -/
def field (name : String) (r : Reader α) (absent : Except Fault α := .error (.missing name)) :
    Fields α where
  names := [name]
  check _ t := (r t).map fun _ => ()
  ofMembers ms :=
    match ms.lookup name with
    | some t => r t
    | none => absent
  ofItems
    | t :: items => (r t).map fun a => (a, items)
    | [] =>
      match absent with
      | .ok a => .ok (a, [])
      | .error _ => .error .invalid

/-- A field that may be left out of an object; in an array only `null` stands for none. -/
def maybe (name : String) (r : Reader α) : Fields (Option α) :=
  { field name r.option (.ok none) with
    ofItems := fun items =>
      match items with
      | t :: items => (r.option t).map fun a => (a, items)
      | [] => .error .invalid }

/-- The known members of an object, each checked and none twice. -/
def known (f : Fields α) : List (Option String × Tree) → Members → Except Fault Members
  | [], seen => .ok seen.reverse
  | (none, _) :: _, _ => .error .invalid
  | (some k, t) :: rest, seen =>
    if k ∈ f.names then
      if (seen.lookup k).isSome then .error (.duplicate k)
      else do
        f.check k t
        known f rest ((k, t) :: seen)
    else if t.isCut then .error .invalid
    else known f rest seen

/-- A record without an array form is read from its members alone. -/
def ofObject (f : Fields α) (members : List (Option String × Tree)) : Except Fault α := do
  f.ofMembers (← f.known members [])

/-- The record as an array: an item too many is refused. -/
def ofArray (f : Fields α) (items : List Tree) : Except Fault α := do
  let (a, rest) ← f.ofItems items
  if rest.isEmpty then return a else .error .invalid

def reader (f : Fields α) : Reader α
  | .object members => f.ofObject members
  | .array items => f.ofArray items
  | _ => .error .invalid

end Fields

/-- Checks a value that is kept as it is until its type is known: it is complete, its strings are
texts, its numbers are finite, and at most `depth` containers are nested. -/
def Tree.buffered : Nat → Tree → Except Fault Unit
  | _, .broken => .error .invalid
  | _, .text none => .error .invalid
  | _, .number n => if n.toDouble?.isSome then .ok () else .error .invalid
  | 0, .array _ => .error .invalid
  | 0, .object _ => .error .invalid
  | depth + 1, .array items => items.forM (buffered depth)
  | depth + 1, .object members =>
    members.forM fun (k, t) => if k.isNone then .error .invalid else buffered depth t
  | _, _ => .ok ()

/-- A family of records told apart by the value of one member. -/
structure Tagged (α : Type) where
  /-- The name of the member that holds the tag. -/
  tag : String
  /-- The tags in declaration order, each with its record. -/
  variants : List (String × Fields α)

namespace Tagged

variable {α : Type}

/-- Containers may be nested 127 deep, the record itself included. -/
def maxDepth : Nat := 126

def find? (g : Tagged α) (name : String) : Option (Fields α) := g.variants.lookup name

def ofTag (g : Tagged α) : Reader (Fields α)
  | .text (some s) =>
    match g.find? s with
    | some f => .ok f
    | none => .error .invalid
  | _ => .error .invalid

/-- Splits the members into the record that the tag names and all others. -/
def split (g : Tagged α) (ofTag : Reader (Fields α)) : List (Option String × Tree) →
    Option (Fields α) → List (Option String × Tree) →
    Except Fault (Fields α × List (Option String × Tree))
  | [], some f, others => .ok (f, others.reverse)
  | [], none, _ => .error (.missing g.tag)
  | (k, t) :: rest, found, others =>
    if k = some g.tag then
      if found.isSome then .error (.duplicate g.tag)
      else do
        let f ← ofTag t
        split g ofTag rest (some f) others
    else if k.isNone then .error .invalid
    else do
      t.buffered maxDepth
      split g ofTag rest found ((k, t) :: others)

def ofObject (g : Tagged α) (ofTag : Reader (Fields α)) (members : List (Option String × Tree)) :
    Except Fault α := do
  let (f, others) ← g.split ofTag members none []
  f.ofObject others

/-- An object with the tag anywhere, or an array with the tag in front. -/
def reader (g : Tagged α) : Reader α
  | .object members => g.ofObject g.ofTag members
  | .array (t :: items) => do
    let f ← g.ofTag t
    items.forM (Tree.buffered maxDepth)
    f.ofArray items
  | _ => .error .invalid

/-- The tag by name or by its place in the declaration order. -/
def ofTagOrIndex (g : Tagged α) : Reader (Fields α)
  | .number n =>
    match n.toInt? with
    | some (.ofNat i) =>
      match g.variants[i]? with
      | some (_, f) => .ok f
      | none => .error .invalid
    | _ => .error .invalid
  | t => g.ofTag t

/-- Splits the members of an object into those of a record around the family and all others. -/
def around {β : Type} (outer : Fields β) : List (Option String × Tree) → Members →
    List (Option String × Tree) → Except Fault (Members × List (Option String × Tree))
  | [], seen, others => .ok (seen.reverse, others.reverse)
  | (none, _) :: _, _, _ => .error .invalid
  | (some k, t) :: rest, seen, others =>
    if k ∈ outer.names then
      if (seen.lookup k).isSome then .error (.duplicate k)
      else do
        outer.check k t
        around outer rest ((k, t) :: seen) others
    else do
      t.buffered maxDepth
      around outer rest seen ((some k, t) :: others)

/-- A record of the family whose members stand among those of another record. Only an object will
do. -/
def within {β : Type} (g : Tagged α) (outer : Fields (α → β)) : Reader β
  | .object members => do
    let (seen, others) ← around outer members [] []
    let f ← outer.ofMembers seen
    let a ← g.ofObject g.ofTagOrIndex others
    return f a
  | _ => .error .invalid

end Tagged

/-- The value of a whole text: nothing may follow it. -/
def read {α : Type} (r : Reader α) (bytes : List UInt8) : Except Fault α := do
  let doc := Tree.parse bytes
  let a ← r doc.root
  if doc.trailing then .error .invalid else return a

end LaneQueue.Json
