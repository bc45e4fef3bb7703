import LaneQueue.Text.Bytes
/-!
# Paths

Paths as byte strings: their components, the name at their end and its extension, and joining.
-/
namespace LaneQueue

namespace Path

def slash : UInt8 := 0x2F

def dot : UInt8 := 0x2E

def isAbsolute (p : Bytes) : Bool := p.head? == some slash

/-- The parts between slashes that are not empty. -/
def parts (p : Bytes) : List Bytes := (p.splitOn slash).filter (fun c => !c.isEmpty)

/-- Whether the last part of a path is a dot or two. -/
def endsInDots (p : Bytes) : Bool :=
  (parts p).getLast? == some [dot] || (parts p).getLast? == some [dot, dot]

/-- The components that matter when paths are compared: a dot counts only in front of a relative
path. -/
def components (p : Bytes) : Bool × List Bytes :=
  let ps := parts p
  if isAbsolute p then (true, ps.filter (· != [dot]))
  else
    match ps with
    | [] => (false, [])
    | c :: cs => (false, c :: cs.filter (· != [dot]))

/-- Whether two paths are the same component by component. -/
def same (p q : Bytes) : Bool := components p == components q

/-- The last component, when it names an entry of a directory. -/
def fileName? (p : Bytes) : Option Bytes :=
  match (components p).2.getLast? with
  | some c => if c = [dot, dot] ∨ c = [dot] then none else some c
  | none => none

/-- What follows the last dot of a name, unless the name begins there. -/
def extensionOf? (name : Bytes) : Option Bytes :=
  let tail := name.reverse.takeWhile (· != dot)
  if tail.length + 1 < name.length then some tail.reverse else none

def extension? (p : Bytes) : Option Bytes := (fileName? p).bind extensionOf?

/-- A name without its extension. -/
def stemOf (name : Bytes) : Bytes :=
  match extensionOf? name with
  | some e => name.take (name.length - (e.length + 1))
  | none => name

/-- An entry of a directory; an absolute entry stands for itself. -/
def join (dir entry : Bytes) : Bytes :=
  if isAbsolute entry then entry
  else if dir.isEmpty || dir.getLast? == some slash then dir ++ entry
  else dir ++ slash :: entry

/-- The path with some components. -/
def ofComponents (absolute : Bool) (names : List Bytes) : Bytes :=
  (if absolute then [slash] else []) ++ [slash].intercalate names

/-- The path before the last component. -/
def parent? (p : Bytes) : Option Bytes :=
  let (absolute, names) := components p
  if names.isEmpty then none else some (ofComponents absolute names.dropLast)

/-- The path with another extension for the name at its end. -/
def withExtension (p ext : Bytes) : Bytes :=
  match fileName? p, parent? p with
  | some name, some dir => join dir (stemOf name ++ dot :: ext)
  | _, _ => p

end Path

end LaneQueue
