import LaneQueue.Error
import LaneQueue.Text.Blank
/-!
# Lanes

The three serial queues, their names and stored indices, and the lane each kind of work goes to.
Reading a name ignores blanks around it and the case of its ASCII letters.
-/
namespace LaneQueue

/-- A queue whose commands run one at a time. -/
inductive Lane where
  /-- Metadata lookups and bookkeeping. -/
  | general
  /-- Reading whole files. -/
  | hasher
  /-- Artwork downloads. -/
  | images
  deriving DecidableEq, Repr, Inhabited

namespace Lane

/-- Every lane, by index. -/
def all : List Lane := [general, hasher, images]

theorem mem_all (l : Lane) : l ∈ all := by cases l <;> decide

/-- The number stored for a lane. -/
def index : Lane → Nat
  | general => 0
  | hasher => 1
  | images => 2

def name : Lane → String
  | general => "general"
  | hasher => "hasher"
  | images => "images"

def ofName? (s : String) : Option Lane := all.find? (fun l => l.name == s)

def ofIndex? (i : Int) : Option Lane := all.find? (fun l => (l.index : Int) == i)

/-- The lane stored under a number. -/
def ofIndex (i : Int) : Except QueueError Lane :=
  match ofIndex? i with
  | some l => .ok l
  | none => .error (.invalidLane ("lane index " ++ toString i))

@[simp] theorem ofIndex?_index (l : Lane) : ofIndex? l.index = some l := by cases l <;> rfl

theorem ofIndex?_eq_some_iff (i : Int) (l : Lane) : ofIndex? i = some l ↔ i = l.index := by
  constructor
  · intro h
    have hi := List.find?_some h
    simp only [beq_iff_eq] at hi
    exact hi.symm
  · rintro rfl; simp

/-- Lower case for the ASCII letters; every other character is kept. -/
def lowerAscii (s : String) : String := String.ofList (s.toList.map Char.toLower)

/-- The lane meant by a name, a short name or an index, as people type them. -/
def parse (s : String) : Except QueueError Lane :=
  let key := lowerAscii (trim s)
  if key = "general" ∨ key = "0" then .ok general
  else if key = "hasher" ∨ key = "hash" ∨ key = "1" then .ok hasher
  else if key = "images" ∨ key = "image" ∨ key = "2" then .ok images
  else .error (.invalidLane key)

end Lane

/-- One value per lane. -/
structure PerLane (α : Type) where
  general : α
  hasher : α
  images : α
  deriving DecidableEq, Repr

namespace PerLane

variable {α : Type}

def get (t : PerLane α) : Lane → α
  | .general => t.general
  | .hasher => t.hasher
  | .images => t.images

def set (t : PerLane α) (l : Lane) (a : α) : PerLane α :=
  match l with
  | .general => { t with general := a }
  | .hasher => { t with hasher := a }
  | .images => { t with images := a }

def ofFn (f : Lane → α) : PerLane α := ⟨f .general, f .hasher, f .images⟩

def modify (t : PerLane α) (l : Lane) (f : α → α) : PerLane α := t.set l (f (t.get l))

@[simp] theorem get_ofFn (f : Lane → α) (l : Lane) : (ofFn f).get l = f l := by cases l <;> rfl

theorem get_set (t : PerLane α) (l m : Lane) (a : α) :
    (t.set l a).get m = if l = m then a else t.get m := by
  cases l <;> cases m <;> rfl

@[simp] theorem get_set_self (t : PerLane α) (l : Lane) (a : α) : (t.set l a).get l = a := by
  simp [get_set]

@[simp] theorem get_set_ne (t : PerLane α) {l m : Lane} (a : α) (h : l ≠ m) :
    (t.set l a).get m = t.get m := by simp [get_set, h]

theorem get_modify (t : PerLane α) (l m : Lane) (f : α → α) :
    (t.modify l f).get m = if l = m then f (t.get m) else t.get m := by
  cases l <;> cases m <;> rfl

end PerLane

/-- What a command class spends most of its time on. -/
inductive Resource where
  | metadata
  | database
  | fileHash
  | imageFetch
  deriving DecidableEq, Repr

namespace Resource

def all : List Resource := [metadata, database, fileHash, imageFetch]

def name : Resource → String
  | metadata => "Metadata"
  | database => "Database"
  | fileHash => "FileHash"
  | imageFetch => "ImageFetch"

def ofName? (s : String) : Option Resource := all.find? (fun r => r.name == s)

/-- The lane that a kind of work runs on. -/
def lane : Resource → Lane
  | fileHash => .hasher
  | imageFetch => .images
  | metadata | database => .general

end Resource

end LaneQueue
