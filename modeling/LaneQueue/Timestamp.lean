import LaneQueue.Text.Blank
import LaneQueue.Text.Digits
/-!
# Timestamps

A moment of the UTC calendar to the nanosecond. Its written form is that of RFC 3339 with a `Z`
and as many groups of three fraction digits as it needs. Reading is lenient: blanks are allowed
before the parts, months and days may have one digit, the separator of date and time may be a
blank, and any offset below a day is converted to UTC.
-/
namespace LaneQueue

/-- Days of the proleptic Gregorian calendar. -/
structure Date where
  year : Int
  month : Nat
  day : Nat
  deriving DecidableEq, Repr

namespace Date

def isLeap (year : Int) : Bool := (year % 4 == 0 && year % 100 != 0) || year % 400 == 0

def daysInMonth (year : Int) (month : Nat) : Nat :=
  if month = 2 then (if isLeap year then 29 else 28)
  else if month = 4 ∨ month = 6 ∨ month = 9 ∨ month = 11 then 30
  else 31

def isValid (d : Date) : Bool :=
  1 ≤ d.month && d.month ≤ 12 && 1 ≤ d.day && d.day ≤ daysInMonth d.year d.month

def next (d : Date) : Date :=
  if d.day < daysInMonth d.year d.month then { d with day := d.day + 1 }
  else if d.month < 12 then ⟨d.year, d.month + 1, 1⟩
  else ⟨d.year + 1, 1, 1⟩

def previous (d : Date) : Date :=
  if 1 < d.day then { d with day := d.day - 1 }
  else if 1 < d.month then ⟨d.year, d.month - 1, daysInMonth d.year (d.month - 1)⟩
  else ⟨d.year - 1, 12, 31⟩

/-- The date a number of days after 1970-01-01. Years run from March here, so that the leap day
is their last. -/
def ofDays (days : Int) : Date :=
  let z := days + 719468
  let era := Int.fdiv z 146097
  let doe := z - era * 146097
  let yoe := (doe - doe / 1460 + doe / 36524 - doe / 146096) / 365
  let doy := doe - (365 * yoe + yoe / 4 - yoe / 100)
  let mp := (5 * doy + 2) / 153
  let day := (doy - (153 * mp + 2) / 5 + 1).toNat
  let month := (if mp < 10 then mp + 3 else mp - 9).toNat
  ⟨yoe + era * 400 + (if month ≤ 2 then 1 else 0), month, day⟩

end Date

structure Timestamp where
  date : Date
  /-- Minutes since midnight. -/
  minute : Nat
  /-- Seconds of the minute; sixty is a leap second. -/
  second : Nat
  nano : Nat
  deriving DecidableEq, Repr

namespace Timestamp

/-- The years a timestamp may lie in. -/
def minYear : Int := -262143

def maxYear : Int := 262142

/-- The moment a number of milliseconds after the start of 1970. -/
def ofMillis (ms : Int) : Timestamp :=
  let dayMs : Int := 86400000
  let days := Int.fdiv ms dayMs
  let rest := (ms - days * dayMs).toNat
  ⟨Date.ofDays days, rest / 60000, rest / 1000 % 60, rest % 1000 * 1000000⟩

/-- A year of four digits, or signed with four digits at least outside 0 to 9999. -/
def renderYear (year : Int) : List Char :=
  if 0 ≤ year ∧ year ≤ 9999 then padded 4 year.toNat
  else
    let n := year.natAbs
    (if year < 0 then '-' else '+') :: (if n < 10000 then padded 4 n else (toString n).toList)

/-- The fraction of a second in groups of three digits, as few as it needs. -/
def renderFraction (nano : Nat) : List Char :=
  if nano = 0 then []
  else if nano % 1000000 = 0 then '.' :: padded 3 (nano / 1000000)
  else if nano % 1000 = 0 then '.' :: padded 6 (nano / 1000)
  else '.' :: padded 9 nano

def render (t : Timestamp) : String :=
  String.ofList (renderYear t.date.year ++ '-' :: padded 2 t.date.month ++ '-' ::
    padded 2 t.date.day ++ 'T' :: padded 2 (t.minute / 60) ++ ':' :: padded 2 (t.minute % 60) ++
    ':' :: padded 2 t.second ++ renderFraction t.nano ++ ['Z'])

/-- A number of one to `most` digits after blanks. -/
def takeField (most : Nat) (cs : List Char) : Option (Nat × List Char) :=
  match takeNumber most (trimLeft cs) with
  | ((n, k), rest) => if k = 0 then none else some (n, rest)

/-- A year: with a sign it has any number of digits, without one four at most. -/
def takeYear (cs : List Char) : Option (Int × List Char) :=
  match trimLeft cs with
  | '-' :: rest => (unsigned rest).map fun (n, r) => (-(n : Int), r)
  | '+' :: rest => (unsigned rest).map fun (n, r) => ((n : Int), r)
  | rest => (takeField 4 rest).map fun (n, r) => ((n : Int), r)
where
  unsigned (cs : List Char) : Option (Nat × List Char) :=
    match takeNumber cs.length cs with
    | ((n, k), rest) => if k = 0 then none else some (n, rest)

/-- A given character after blanks. -/
def takeMark (mark : Char) (cs : List Char) : Option (List Char) :=
  match trimLeft cs with
  | c :: rest => if c = mark then some rest else none
  | [] => none

/-- The nanoseconds of a fraction; digits after the ninth are dropped. -/
def takeFraction : List Char → Option (Nat × List Char)
  | '.' :: rest =>
    match takeNumber 9 rest with
    | ((n, k), rest) =>
      if k = 0 then none
      else some (n * Nat.pow 10 (9 - k), rest.dropWhile fun c => (digitValue? c).isSome)
  | cs => some (0, cs)

/-- Two digits exactly. -/
def takePair : List Char → Option (Nat × List Char)
  | a :: b :: rest =>
    match digitValue? a, digitValue? b with
    | some a, some b => some (a * 10 + b, rest)
    | _, _ => none
  | _ => none

/-- An offset from UTC in minutes. -/
def takeOffset (cs : List Char) : Option (Int × List Char) :=
  match cs with
  | 'Z' :: rest => some (0, rest)
  | 'z' :: rest => some (0, rest)
  | '+' :: rest => amount rest
  | '-' :: rest => (amount rest).map fun (n, r) => (-n, r)
  | '−' :: rest => (amount rest).map fun (n, r) => (-n, r)
  | u :: t :: c :: rest =>
    if u.toLower = 'u' ∧ t.toLower = 't' ∧ c.toLower = 'c' then some (0, rest) else none
  | _ => none
where
  amount (cs : List Char) : Option (Int × List Char) := do
    let (hours, cs) ← takePair cs
    let (minutes, cs) ← takePair (cs.dropWhile fun c => c = ':' ∨ isBlank c)
    if minutes < 60 then some (hours * 60 + minutes, cs) else none

/-- The moment that a local time stands for, `offset` minutes east of UTC. -/
def shift (t : Timestamp) (offset : Int) : Timestamp :=
  let m : Int := t.minute - offset
  if m < 0 then { t with date := t.date.previous, minute := (m + 1440).toNat }
  else if 1440 ≤ m then { t with date := t.date.next, minute := (m - 1440).toNat }
  else { t with minute := m.toNat }

def inRange (t : Timestamp) : Bool := minYear ≤ t.date.year && t.date.year ≤ maxYear

/-- The moment that a text writes. -/
def parse? (s : String) : Option Timestamp := do
  let (year, cs) ← takeYear s.toList
  let cs ← takeMark '-' cs
  let (month, cs) ← takeField 2 cs
  let cs ← takeMark '-' cs
  let (day, cs) ← takeField 2 cs
  let cs ← match cs with
    | c :: rest => if c = 'T' ∨ c = 't' ∨ c = ' ' then some rest else none
    | [] => none
  let (hour, cs) ← takeField 2 cs
  let cs ← takeMark ':' cs
  let (minute, cs) ← takeField 2 cs
  let cs ← takeMark ':' cs
  let (second, cs) ← takeField 2 cs
  let (nano, cs) ← takeFraction cs
  let (offset, cs) ← takeOffset (trimLeft cs)
  let date : Date := ⟨year, month, day⟩
  let t : Timestamp := ⟨date, hour * 60 + minute, second, nano⟩
  if date.isValid && hour < 24 && minute < 60 && second ≤ 60 && offset.natAbs < 1440 &&
      t.inRange && (t.shift offset).inRange && cs.all isBlank then
    some (t.shift offset)
  else none

end Timestamp

end LaneQueue
