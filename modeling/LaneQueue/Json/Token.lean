import LaneQueue.Number.Decimal
/-!
# The words of a JSON text

`Token.scan` cuts a byte string into tokens from left to right. Bytes that begin no token end the
scan with `Token.broken`, so a reader of the tokens meets the faults of the text in its order.
-/
namespace LaneQueue.Json

/-- A number as it is written. -/
structure Numeral where
  negative : Bool
  /-- The digits before the point. -/
  whole : List Nat
  /-- The digits after the point, none without a point. -/
  fraction : List Nat
  /-- The exponent, if one is written. -/
  exponent : Option Int
  deriving DecidableEq, Repr

namespace Numeral

/-- The number that a list of decimal digits writes. -/
def ofDigits (ds : List Nat) : Nat := ds.foldl (fun n d => n * 10 + d) 0

/-- Neither a point nor an exponent is written. -/
def isWhole (n : Numeral) : Bool := n.fraction.isEmpty && n.exponent.isNone

/-- The integer, when the numeral writes one; a negative zero does not count as an integer. -/
def toInt? (n : Numeral) : Option Int :=
  let v := ofDigits n.whole
  if !n.isWhole then none
  else if n.negative then (if v = 0 then none else some (-(v : Int)))
  else some v

/-- Digits gathered while they fit a 64-bit word, and how many digits were left out. Once a digit
is left out all later ones are. -/
def gather (start : Nat) : List Nat → Nat × Nat
  | [] => (start, 0)
  | d :: ds =>
    if start * 10 + d < UInt64.size then gather (start * 10 + d) ds else (start, (d :: ds).length)

/-- The magnitude as at most a word of digits and a power of ten. -/
def toDecimal (n : Numeral) : Decimal :=
  let (whole, skipped) := gather 0 n.whole
  let (digits, dropped) := gather whole n.fraction
  ⟨digits, (skipped : Int) - ((n.fraction.length : Int) - dropped) + n.exponent.getD 0⟩

/-- The double-precision magnitude, none when it is too great. -/
def toDouble? (n : Numeral) : Option Rat := n.toDecimal.quickDouble?

end Numeral

/-- A part of a string literal: a byte of the text, or an escaped UTF-16 unit. -/
inductive Piece where
  | byte (b : UInt8)
  | unit (u : Nat)
  deriving DecidableEq, Repr

/-- The bytes of a code point. -/
def encodePoint (n : Nat) : List UInt8 := (String.singleton (Char.ofNat n)).toUTF8.toList

/-- The bytes that the pieces stand for; a surrogate unit outside a pair has none. -/
def Piece.bytes? : List Piece → Option (List UInt8)
  | [] => some []
  | .byte b :: rest => (Piece.bytes? rest).map (b :: ·)
  | .unit h :: .unit l :: rest =>
    if 0xD800 ≤ h ∧ h ≤ 0xDBFF then
      if 0xDC00 ≤ l ∧ l ≤ 0xDFFF then
        (Piece.bytes? rest).map
          (encodePoint (0x10000 + (h - 0xD800) * 0x400 + (l - 0xDC00)) ++ ·)
      else none
    else if 0xDC00 ≤ h ∧ h ≤ 0xDFFF then none
    else (Piece.bytes? (.unit l :: rest)).map (encodePoint h ++ ·)
  | .unit h :: rest =>
    if 0xD800 ≤ h ∧ h ≤ 0xDFFF then none
    else (Piece.bytes? rest).map (encodePoint h ++ ·)

/-- A UTF-8 byte string as text. -/
def textOfBytes? (bs : List UInt8) : Option String := String.fromUTF8? ⟨bs.toArray⟩

/-- The text of a literal, none when its bytes are no UTF-8 or its surrogates are not paired. -/
def Piece.text? (ps : List Piece) : Option String := (Piece.bytes? ps).bind textOfBytes?

inductive Token where
  | beginArray
  | endArray
  | beginObject
  | endObject
  | comma
  | colon
  | null
  | bool (b : Bool)
  | number (n : Numeral)
  /-- A string literal, without a text when its bytes make none. -/
  | text (s : Option String)
  /-- Bytes that begin no token. -/
  | broken
  deriving DecidableEq, Repr

namespace Token

def isSpace (b : UInt8) : Bool := b == 0x20 || b == 0x0A || b == 0x09 || b == 0x0D

def digit? (b : UInt8) : Option Nat :=
  if 0x30 ≤ b ∧ b ≤ 0x39 then some (b.toNat - 0x30) else none

def hexDigit? (b : UInt8) : Option Nat :=
  if 0x30 ≤ b ∧ b ≤ 0x39 then some (b.toNat - 0x30)
  else if 0x41 ≤ b ∧ b ≤ 0x46 then some (b.toNat - 0x41 + 10)
  else if 0x61 ≤ b ∧ b ≤ 0x66 then some (b.toNat - 0x61 + 10)
  else none

/-- The digits in front, and what follows them. -/
def takeDigits : List UInt8 → List Nat × List UInt8
  | [] => ([], [])
  | b :: bs =>
    match digit? b with
    | some d => let (ds, rest) := takeDigits bs; (d :: ds, rest)
    | none => ([], b :: bs)

/-- The byte of a one-letter escape. -/
def shortEscape? (b : UInt8) : Option UInt8 :=
  if b = 0x22 ∨ b = 0x5C ∨ b = 0x2F then some b
  else if b = 0x62 then some 0x08
  else if b = 0x66 then some 0x0C
  else if b = 0x6E then some 0x0A
  else if b = 0x72 then some 0x0D
  else if b = 0x74 then some 0x09
  else none

/-- The pieces of a literal up to its closing quote, and what follows the quote. Control
characters and unknown escapes are refused. -/
def takeText : List UInt8 → Option (List Piece × List UInt8)
  | [] => none
  | 0x22 :: rest => some ([], rest)
  | 0x5C :: 0x75 :: a :: b :: c :: d :: rest =>
    match hexDigit? a, hexDigit? b, hexDigit? c, hexDigit? d with
    | some a, some b, some c, some d =>
      (takeText rest).map fun (ps, r) => (.unit (((a * 16 + b) * 16 + c) * 16 + d) :: ps, r)
    | _, _, _, _ => none
  | 0x5C :: e :: rest =>
    match shortEscape? e with
    | some b => (takeText rest).map fun (ps, r) => (.byte b :: ps, r)
    | none => none
  | b :: rest =>
    if b = 0x5C ∨ b < 0x20 then none
    else (takeText rest).map fun (ps, r) => (.byte b :: ps, r)

/-- The part of a number after its sign. -/
def takeUnsigned (negative : Bool) (bs : List UInt8) : Option (Numeral × List UInt8) :=
  match takeDigits bs with
  | ([], _) => none
  | (0 :: _ :: _, _) => none
  | (whole, rest) =>
    match takeFraction rest with
    | none => none
    | some (fraction, rest) =>
      match takeExponent rest with
      | none => none
      | some (exponent, rest) => some (⟨negative, whole, fraction, exponent⟩, rest)
where
  /-- A point is followed by a digit. -/
  takeFraction : List UInt8 → Option (List Nat × List UInt8)
    | 0x2E :: rest =>
      match takeDigits rest with
      | ([], _) => none
      | found => some found
    | rest => some ([], rest)
  /-- The letter of an exponent is followed by a sign or a digit. -/
  takeExponent : List UInt8 → Option (Option Int × List UInt8)
    | e :: rest =>
      if e = 0x65 ∨ e = 0x45 then
        let (negative, rest) :=
          match rest with
          | 0x2B :: r => (false, r)
          | 0x2D :: r => (true, r)
          | r => (false, r)
        match takeDigits rest with
        | ([], _) => none
        | (ds, rest) =>
          let n : Int := Numeral.ofDigits ds
          some (some (if negative then -n else n), rest)
      else some (none, e :: rest)
    | [] => some (none, [])

/-- The word in front of a byte string that is not blank there. -/
def takeWord : List UInt8 → Option (Token × List UInt8)
  | 0x5B :: rest => some (.beginArray, rest)
  | 0x5D :: rest => some (.endArray, rest)
  | 0x7B :: rest => some (.beginObject, rest)
  | 0x7D :: rest => some (.endObject, rest)
  | 0x2C :: rest => some (.comma, rest)
  | 0x3A :: rest => some (.colon, rest)
  | 0x22 :: rest => (takeText rest).map fun (ps, r) => (.text (Piece.text? ps), r)
  | 0x2D :: rest => (takeUnsigned true rest).map fun (n, r) => (.number n, r)
  | 0x6E :: 0x75 :: 0x6C :: 0x6C :: rest => some (.null, rest)
  | 0x74 :: 0x72 :: 0x75 :: 0x65 :: rest => some (.bool true, rest)
  | 0x66 :: 0x61 :: 0x6C :: 0x73 :: 0x65 :: rest => some (.bool false, rest)
  | bs => (takeUnsigned false bs).map fun (n, r) => (.number n, r)

/-- Tokens from left to right, `fuel` words at most. -/
def scanUpTo : Nat → List UInt8 → List Token
  | 0, _ => []
  | fuel + 1, bs =>
    match bs.dropWhile isSpace with
    | [] => []
    | rest =>
      match takeWord rest with
      | some (t, rest) => t :: scanUpTo fuel rest
      | none => [.broken]

/-- The tokens of a text; every token takes a byte at least. -/
def scan (bs : List UInt8) : List Token := scanUpTo bs.length bs

end Token

end LaneQueue.Json
