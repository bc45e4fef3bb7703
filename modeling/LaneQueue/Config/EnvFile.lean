import LaneQueue.Text.Blank
/-!
# Files of variables

A file sets one variable a line as `NAME=value`, with comments, two kinds of quotes, escapes and
references to variables. Quotes may run over several lines. A variable that is set already keeps
its value. `EnvFile.load` gives the variables after the file, or nothing when a line is malformed.
-/
namespace LaneQueue.EnvFile

/-- Variables by name; the first one counts. -/
abbrev Variables := List (String × String)

/-- Where in a value the reader is at the end of a line. -/
inductive Mode where
  | complete
  | escape
  | strong
  | strongEscape
  | weak
  | weakEscape
  | blank
  deriving DecidableEq, Repr

/-- The mode after one character; none where a comment begins. -/
def Mode.step (m : Mode) (c : Char) : Option Mode :=
  let quoted : Mode :=
    if c = '\\' then .escape else if c = '"' then .weak else if c = '\'' then .strong
    else .complete
  match m with
  | .blank => if c = '#' then none else some quoted
  | .escape => some .complete
  | .complete => some (if isBlank c ∧ c ≠ '\n' ∧ c ≠ '\r' then .blank else quoted)
  | .weak => some (if c = '\\' then .weakEscape else if c = '"' then .complete else .weak)
  | .weakEscape => some .weak
  | .strong => some (if c = '\\' then .strongEscape else if c = '\'' then .complete else .strong)
  | .strongEscape => some .strong

/-- The characters before a comment, and the mode after them unless one begins. -/
def scanLine : Mode → List Char → List Char × Option Mode
  | m, [] => ([], some m)
  | m, c :: cs =>
    match m.step c with
    | none => ([], none)
    | some m => let (kept, e) := scanLine m cs; (c :: kept, e)

/-- Lines with their line ends. -/
def physicalLines (cs : List Char) : List (List Char) :=
  go cs []
where
  go : List Char → List Char → List (List Char)
    | [], [] => []
    | [], line => [line.reverse]
    | '\n' :: rest, line => ('\n' :: line).reverse :: go rest []
    | c :: rest, line => go rest (c :: line)

def dropLineEnd (cs : List Char) : List Char :=
  match cs.reverse with
  | '\n' :: '\r' :: rest => rest.reverse
  | '\n' :: rest => rest.reverse
  | _ => cs

/-- Joins lines that belong together and removes comments; none when the text ends inside a value
or in blanks. -/
def logicalLines : List (List Char) → List Char → Mode → Option (List (List Char))
  | [], _, m => if m = .complete then some [] else none
  | l :: ls, before, m =>
    if (trimLeft (before ++ l)).head? = some '#' then logicalLines ls [] .complete
    else
      match scanLine m l with
      | (kept, none) => (logicalLines ls [] .complete).map ((before ++ kept) :: ·)
      | (_, some .complete) =>
        (logicalLines ls [] .complete).map (dropLineEnd (before ++ l) :: ·)
      | (_, some m) => logicalLines ls (before ++ l) m

/-- Letters and digits, taken broadly outside ASCII. -/
def isNameChar (c : Char) : Bool :=
  c.isAlphanum ||
    (0xC0 ≤ c.toNat && c.toNat != 0xD7 && c.toNat != 0xF7 && !isBlank c &&
      !(0x2000 ≤ c.toNat && c.toNat ≤ 0x206F))

/-- A reference to a variable that is being read. -/
inductive Reference where
  | none
  /-- After a dollar sign. -/
  | plain
  /-- After a dollar sign and a brace. -/
  | braced
  deriving DecidableEq, Repr

/-- A value that is being read. -/
structure Reading where
  output : List Char := []
  strong : Bool := false
  weak : Bool := false
  escaped : Bool := false
  /-- Only blanks and a comment may follow. -/
  ended : Bool := false
  /-- The comment has begun. -/
  commented : Bool := false
  reference : Reference := .none
  name : List Char := []

namespace Reading

/-- Puts the value of the variable that was named at the end. -/
def substitute (value : String → String) (r : Reading) : Reading :=
  { r with output := r.output ++ (value (String.ofList r.name)).toList, name := [] }

/-- Reads one character; none where it is out of place. -/
def step (value : String → String) (r : Reading) (c : Char) : Option Reading :=
  if r.commented then some r
  else if r.ended then
    if c = ' ' ∨ c = '\t' then some r
    else if c = '#' then some { r with commented := true }
    else none
  else if r.escaped then
    if c = '\\' ∨ c = '\'' ∨ c = '"' ∨ c = '$' ∨ c = ' ' then
      some { r with escaped := false, output := r.output ++ [c] }
    else if c = 'n' then some { r with escaped := false, output := r.output ++ ['\n'] }
    else none
  else if r.strong then
    some (if c = '\'' then { r with strong := false } else { r with output := r.output ++ [c] })
  else if r.reference ≠ .none then
    if isNameChar c then some { r with name := r.name ++ [c] }
    else if r.reference = .braced then
      some (if c.toNat = 0x7D then { r.substitute value with reference := .none }
        else { r with name := r.name ++ [c] })
    else if c.toNat = 0x7B ∧ r.name = [] then some { r with reference := .braced }
    else
      let s := r.substitute value
      some (if c = '$' then s
        else { s with reference := .none, output := s.output ++ [c] })
  else if c = '$' then some { r with reference := .plain }
  else if r.weak then
    some (if c = '"' then { r with weak := false }
      else if c = '\\' then { r with escaped := true }
      else { r with output := r.output ++ [c] })
  else
    some (if c = '\'' then { r with strong := true }
      else if c = '"' then { r with weak := true }
      else if c = '\\' then { r with escaped := true }
      else if c = ' ' ∨ c = '\t' then { r with ended := true }
      else { r with output := r.output ++ [c] })

/-- The value once everything is read; open quotes and braces have none. -/
def finish (value : String → String) (r : Reading) : Option String :=
  if r.reference = .braced ∨ r.strong ∨ r.weak then none
  else some (String.ofList (r.substitute value).output)

end Reading

def readValue (value : String → String) (cs : List Char) : Option String :=
  (cs.foldlM (Reading.step value) {}).bind (Reading.finish value)

def isKeyStart (c : Char) : Bool := c.isAlpha || c == '_'

def isKeyChar (c : Char) : Bool := c.isAlphanum || c == '_' || c == '.'

def takeKey (cs : List Char) : Option (String × List Char) :=
  match cs with
  | c :: _ =>
    if isKeyStart c then
      some (String.ofList (cs.takeWhile isKeyChar), trimLeft (cs.dropWhile isKeyChar))
    else none
  | [] => none

def takeEquals : List Char → Option (List Char)
  | '=' :: rest => some rest
  | _ => none

/-- The name on a line and what stands behind its equals sign; the word `export` may stand in
front of the name. -/
def takeName (cs : List Char) : Option (String × List Char) := do
  let (key, rest) ← takeKey cs
  match takeEquals rest with
  | some rest => return (key, rest)
  | none =>
    if key = "export" then
      let (key, rest) ← takeKey rest
      return (key, ← takeEquals rest)
    else none

/-- The variables of the process and those that the file has set so far. -/
structure Scope where
  process : Variables
  file : Variables := []

/-- A reference gives the process variable, else the latest one of the file, else nothing. -/
def Scope.value (s : Scope) (name : String) : String :=
  ((s.process.lookup name).or (s.file.lookup name)).getD ""

/-- Takes one line into account; none when it is malformed. -/
def Scope.line (s : Scope) (line : List Char) : Option Scope :=
  match trimLeft (trimRight line) with
  | [] => some s
  | '#' :: _ => some s
  | cs => do
    let (key, rest) ← takeName cs
    let rest := trimLeft rest
    let value ← if rest.isEmpty ∨ rest.head? = some '#' then some "" else readValue s.value rest
    return {
      process := if (s.process.lookup key).isSome then s.process else (key, value) :: s.process
      file := (key, value) :: s.file }

/-- The variables after a file; a byte order mark in front of it is passed over. -/
def load (text : String) (process : Variables) : Option Variables := do
  let cs := match text.toList with
    | c :: rest => if c.toNat = 0xFEFF then rest else c :: rest
    | [] => []
  let lines ← logicalLines (physicalLines cs) [] .complete
  let s ← lines.foldlM Scope.line { process := process }
  return s.process

end LaneQueue.EnvFile
