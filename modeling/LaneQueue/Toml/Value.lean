import LaneQueue.Number.Decimal
import LaneQueue.Text.Digits
import LaneQueue.Timestamp
/-!
# Values of a TOML text

The values, and the reading of the words that stand without quotes: numbers, truth values and
moments. Integers have up to 128 bits, with or without a sign; numbers with a point or an exponent
are rounded to double precision and must be finite unless they are written `inf`.
-/
namespace LaneQueue.Toml

inductive Value where
  | text (s : String)
  | integer (i : Int)
  | finite (negative : Bool) (magnitude : Rat)
  | infinite (negative : Bool)
  | nan
  | bool (b : Bool)
  /-- A date, a time or both. -/
  | moment
  | array (items : List Value)
  | table (entries : List (String × Value))
  deriving Inhabited

/-- The digits of a number; an underscore stands between two of them. -/
def digits? (isDigit : Char → Bool) : List Char → Option (List Char)
  | [] => none
  | [c] => if isDigit c then some [c] else none
  | c :: '_' :: rest => if isDigit c then (digits? isDigit rest).map (c :: ·) else none
  | c :: rest => if isDigit c then (digits? isDigit rest).map (c :: ·) else none

def isDecimal (c : Char) : Bool := (digitValue? c).isSome

def hexValue? (c : Char) : Option Nat :=
  match digitValue? c with
  | some d => some d
  | none =>
    let n := c.toLower.toNat
    if 97 ≤ n ∧ n ≤ 102 then some (n - 87) else none

def ofDigits (base : Nat) (cs : List Char) : Nat :=
  cs.foldl (fun n c => n * base + (hexValue? c).getD 0) 0

/-- Decimal digits without a leading zero. -/
def plainDigits? (cs : List Char) : Option (List Char) :=
  match digits? isDecimal cs with
  | some ('0' :: _ :: _) => none
  | r => r

/-- The integer has at most so many bits, counted without a sign or with one. -/
def hasBits (bits : Nat) (i : Int) : Bool :=
  -(Nat.pow 2 (bits - 1) : Int) ≤ i && i < (Nat.pow 2 bits : Int)

def integerOf (i : Int) : Option Value := if hasBits 128 i then some (.integer i) else none

/-- An integer in another base, after its two-letter mark. -/
def based (base : Nat) (cs : List Char) : Option Value :=
  (digits? (fun c => match hexValue? c with
    | some d => d < base
    | none => false) cs).bind fun ds => integerOf (ofDigits base ds)

/-- A sign in front. -/
def takeSign : List Char → Bool × List Char
  | '-' :: rest => (true, rest)
  | '+' :: rest => (false, rest)
  | cs => (false, cs)

/-- The exponent of a number, zero when there is none. -/
def exponent? : List Char → Option Int
  | [] => some 0
  | c :: rest =>
    if c = 'e' ∨ c = 'E' then
      let (negative, ds) := takeSign rest
      (digits? isDecimal ds).map fun ds =>
        let n : Int := ofDigits 10 ds
        if negative then -n else n
    else none

def isNumberChar (c : Char) : Bool := isDecimal c || c == '_'

/-- A number with a point or an exponent. -/
def floatOf (negative : Bool) (cs : List Char) : Option Value := do
  let whole ← plainDigits? (cs.takeWhile isNumberChar)
  let rest := cs.dropWhile isNumberChar
  let (fraction, rest) ← match rest with
    | '.' :: rest =>
      (digits? isDecimal (rest.takeWhile isNumberChar)).map (·, rest.dropWhile isNumberChar)
    | rest => some ([], rest)
  let exponent ← exponent? rest
  let d : Decimal := ⟨ofDigits 10 (whole ++ fraction), exponent - fraction.length⟩
  return .finite negative (← d.toDouble?)

/-- The number that a word writes. -/
def number? (word : List Char) : Option Value :=
  match word with
  | '0' :: 'x' :: rest => based 16 rest
  | '0' :: 'o' :: rest => based 8 rest
  | '0' :: 'b' :: rest => based 2 rest
  | _ =>
    let (negative, cs) := takeSign word
    if cs = "inf".toList then some (.infinite negative)
    else if cs = "nan".toList then some .nan
    else if cs.all isNumberChar then
      (plainDigits? cs).bind fun ds =>
        let n : Int := ofDigits 10 ds
        integerOf (if negative then -n else n)
    else floatOf negative cs

/-- A number of exactly `width` digits. -/
def fixed? (width : Nat) (cs : List Char) : Option (Nat × List Char) :=
  match takeNumber width cs with
  | ((n, k), rest) => if k = width then some (n, rest) else none

def mark? (c : Char) : List Char → Option (List Char)
  | d :: rest => if c = d then some rest else none
  | [] => none

def takeDate (cs : List Char) : Option (List Char) := do
  let (year, cs) ← fixed? 4 cs
  let cs ← mark? '-' cs
  let (month, cs) ← fixed? 2 cs
  let cs ← mark? '-' cs
  let (day, cs) ← fixed? 2 cs
  if (Date.mk year month day).isValid then some cs else none

/-- A time of day; seconds and their fraction may be left out. -/
def takeTime (cs : List Char) : Option (List Char) := do
  let (hour, cs) ← fixed? 2 cs
  let cs ← mark? ':' cs
  let (minute, cs) ← fixed? 2 cs
  let (second, cs) ← match cs with
    | ':' :: rest => fixed? 2 rest
    | _ => some (0, cs)
  let cs ← match cs with
    | '.' :: rest =>
      if (rest.takeWhile isDecimal).isEmpty then none else some (rest.dropWhile isDecimal)
    | _ => some cs
  if hour < 24 ∧ minute < 60 ∧ second ≤ 60 then some cs else none

/-- The offset behind a date and a time. -/
def takeZone : List Char → Option (List Char)
  | [] => some []
  | c :: rest =>
    if c = 'Z' ∨ c = 'z' then some rest
    else if c = '+' ∨ c = '-' then do
      let (hour, cs) ← fixed? 2 rest
      let cs ← mark? ':' cs
      let (minute, cs) ← fixed? 2 cs
      if hour < 24 ∧ minute < 60 then some cs else none
    else none

def isMoment (word : List Char) : Bool :=
  match takeDate word with
  | some [] => true
  | some (c :: rest) =>
    (c == 'T' || c == 't' || c == ' ') && (takeTime rest).bind takeZone == some []
  | none => takeTime word == some []

/-- The value of a word without quotes. -/
def word? (word : List Char) : Option Value :=
  if word = "true".toList then some (.bool true)
  else if word = "false".toList then some (.bool false)
  else if isMoment word then some .moment
  else number? word

end LaneQueue.Toml
