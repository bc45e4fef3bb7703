import LaneQueue.Toml.Text
/-!
# TOML texts

`Toml.parse?` reads a text as a table. A table is opened once: by its header, by dotted keys, or
in braces; what a header or a dotted key passes on its way may come into being implicitly and be
opened by its own header later.
-/
namespace LaneQueue.Toml

/-- A table under construction. -/
inductive Node where
  | leaf (v : Value)
  /-- A table that was only passed on the way so far, and one that dotted keys made. -/
  | table (isImplicit dotted : Bool) (entries : List (String × Node))
  /-- The tables of one repeated header. -/
  | tables (items : List (List (String × Node)))

abbrev Entries := List (String × Node)

def Entries.set (es : Entries) (k : String) (n : Node) : Entries :=
  if es.any (fun e => e.1 == k) then es.map fun e => if e.1 == k then (k, n) else e
  else es ++ [(k, n)]

/-- Changes the table at the end of a path, given whether dotted keys made it. A dotted key does
not reach into a table that was opened otherwise. -/
def descend (byDots : Bool) : List String → Bool → Entries →
    (Bool → Entries → Option Entries) → Option Entries
  | [], dotted, es, f => f dotted es
  | k :: ks, _, es, f =>
    match es.lookup k with
    | none =>
      (descend byDots ks byDots [] f).map fun sub => es ++ [(k, .table true byDots sub)]
    | some (.table isImplicit dotted sub) =>
      if byDots && !isImplicit then none
      else
        (descend byDots ks dotted sub f).map fun sub => es.set k (.table isImplicit dotted sub)
    | some (.tables items) =>
      match items.getLast? with
      | none => none
      | some last =>
        (descend byDots ks false last f).map fun last =>
          es.set k (.tables (items.dropLast ++ [last]))
    | some (.leaf _) => none

/-- Sets a key, whose way leads only through tables that dotted keys made. -/
def assign (path : List String) (v : Value) (dotted : Bool) (es : Entries) : Option Entries :=
  descend true path.dropLast dotted es fun dotted es =>
    match path.getLast? with
    | none => none
    | some k =>
      if dotted == path.dropLast.isEmpty then none
      else if (es.lookup k).isSome then none
      else some (es ++ [(k, .leaf v)])

/-- Opens the table of a header. -/
def openTable (path : List String) (root : Entries) : Option Entries :=
  descend false path.dropLast false root fun _ es =>
    match path.getLast? with
    | none => none
    | some k =>
      match es.lookup k with
      | none => some (es ++ [(k, .table false false [])])
      | some (.table true false sub) => some (es.set k (.table false false sub))
      | some _ => none

/-- Opens one more table of a repeated header. -/
def openNext (path : List String) (root : Entries) : Option Entries :=
  descend false path.dropLast false root fun _ es =>
    match path.getLast? with
    | none => none
    | some k =>
      match es.lookup k with
      | none => some (es ++ [(k, .tables [[]])])
      | some (.tables items) => some (es.set k (.tables (items ++ [[]])))
      | some _ => none

mutual

/-- The finished value of a node. -/
def Node.value : Node → Value
  | .leaf v => v
  | .table _ _ es => .table (entryValues es)
  | .tables items => .array (tableValues items)

def entryValues : List (String × Node) → List (String × Value)
  | [] => []
  | (k, n) :: es => (k, n.value) :: entryValues es

def tableValues : List (List (String × Node)) → List Value
  | [] => []
  | es :: rest => .table (entryValues es) :: tableValues rest

end

/-- Arrays and tables in braces may be nested this deep. -/
def maxDepth : Nat := 80

/-- The characters of words without quotes. -/
def isWordChar (c : Char) : Bool :=
  c.isAlphanum || c == '_' || c == '-' || c == '+' || c == '.' || c == ':'

/-- A word without quotes; a date may be followed by a blank and a time. -/
def takeWord (cs : Chars) : Chars × Chars :=
  let word := cs.takeWhile isWordChar
  let rest := cs.drop word.length
  match rest with
  | ' ' :: d :: more =>
    if isDecimal d && takeDate word == some [] then
      let time := (d :: more).takeWhile isWordChar
      (word ++ ' ' :: time, (d :: more).drop time.length)
    else (word, rest)
  | _ => (word, rest)

mutual

/-- A value from the front of a text; `fuel` bounds the nested calls and `depth` the nesting. -/
def takeValue (depth : Nat) : Nat → Chars → Option (Value × Chars)
  | 0, _ => none
  | fuel + 1, cs =>
    match cs with
    | '"' :: _ => (takeString cs).map fun (s, r) => (.text (String.ofList s), r)
    | '\'' :: _ => (takeString cs).map fun (s, r) => (.text (String.ofList s), r)
    | '[' :: rest =>
      if maxDepth ≤ depth then none
      else (takeItems (depth + 1) fuel (skipAll rest)).map fun (vs, r) => (.array vs, r)
    | '{' :: rest =>
      if maxDepth ≤ depth then none
      else (takeMembers (depth + 1) fuel [] (skipAll rest)).map fun (es, r) =>
        (.table (entryValues es), r)
    | _ =>
      let (word, rest) := takeWord cs
      (word? word).map (·, rest)

/-- The items of an array up to its bracket. -/
def takeItems (depth : Nat) : Nat → Chars → Option (List Value × Chars)
  | 0, _ => none
  | fuel + 1, cs =>
    match cs with
    | ']' :: rest => some ([], rest)
    | _ => do
      let (v, rest) ← takeValue depth fuel cs
      match skipAll rest with
      | ',' :: rest =>
        let (vs, rest) ← takeItems depth fuel (skipAll rest)
        return (v :: vs, rest)
      | ']' :: rest => return ([v], rest)
      | _ => none

/-- The entries of a table in braces, after those so far. -/
def takeMembers (depth : Nat) : Nat → Entries → Chars → Option (Entries × Chars)
  | 0, _, _ => none
  | fuel + 1, es, cs =>
    match cs with
    | '}' :: rest => some (es, rest)
    | _ => do
      let (path, rest) ← takeKey cs
      let rest ← mark? '=' rest
      let (v, rest) ← takeValue depth fuel (skipBlanks rest)
      let es ← assign path v false es
      match skipAll rest with
      | ',' :: rest => takeMembers depth fuel es (skipAll rest)
      | '}' :: rest => return (es, rest)
      | _ => none

end

/-- The statements of a text, `fuel` of them at most, each under the last header. -/
def takeStatements : Nat → List String → Entries → Chars → Option Entries
  | 0, _, _, _ => none
  | fuel + 1, header, root, cs =>
    match skipAll cs with
    | [] => some root
    | '[' :: '[' :: rest => do
      let (path, rest) ← takeKey rest
      let rest ← mark? ']' rest
      let rest ← mark? ']' rest
      let rest ← lineEnd? rest
      takeStatements fuel path (← openNext path root) rest
    | '[' :: rest => do
      let (path, rest) ← takeKey rest
      let rest ← mark? ']' rest
      let rest ← lineEnd? rest
      takeStatements fuel path (← openTable path root) rest
    | cs => do
      let (path, rest) ← takeKey cs
      let rest ← mark? '=' rest
      let rest := skipBlanks rest
      let (v, rest) ← takeValue 0 (2 * rest.length + 2) rest
      let rest ← lineEnd? rest
      let root ← descend false header false root fun dotted es => assign path v dotted es
      takeStatements fuel header root rest

/-- The table that a text writes; a byte order mark in front is passed over. -/
def parse? (text : String) : Option Value :=
  let cs := match text.toList with
    | c :: rest => if c.toNat = 0xFEFF then rest else c :: rest
    | [] => []
  (takeStatements (cs.length + 1) [] [] cs).map fun es => .table (entryValues es)

end LaneQueue.Toml
