/-!
# Byte strings

Byte strings as lists, their texts, and percent encoding undone.
-/
namespace LaneQueue

abbrev Bytes := List UInt8

namespace Bytes

/-- The UTF-8 bytes of a text. -/
def ofText (s : String) : Bytes := s.toUTF8.toList

/-- The text that a byte string encodes. -/
def text? (b : Bytes) : Option String := String.fromUTF8? ⟨b.toArray⟩

/-- How a byte string is shown: as its text, or with a mark for every byte that is no ASCII
character. -/
def shown (b : Bytes) : String :=
  match b.text? with
  | some s => s
  | none => String.ofList (b.map fun x => if x < 128 then Char.ofNat x.toNat else '\ufffd')

def hexValue? (b : UInt8) : Option UInt8 :=
  if 0x30 ≤ b ∧ b ≤ 0x39 then some (b - 0x30)
  else if 0x41 ≤ b ∧ b ≤ 0x46 then some (b - 0x41 + 10)
  else if 0x61 ≤ b ∧ b ≤ 0x66 then some (b - 0x61 + 10)
  else none

/-- Replaces a percent sign and two hexadecimal digits by their byte; other percent signs stand
for themselves. -/
def percentDecode : Bytes → Bytes
  | 0x25 :: a :: b :: rest =>
    match hexValue? a, hexValue? b with
    | some x, some y => (x * 16 + y) :: percentDecode rest
    | _, _ => 0x25 :: percentDecode (a :: b :: rest)
  | b :: rest => b :: percentDecode rest
  | [] => []

/-- Lower-case hexadecimal text. -/
def hex (b : Bytes) : String :=
  let digit (n : Nat) : Char := Char.ofNat (if n < 10 then 48 + n else 87 + n)
  String.ofList (b.flatMap fun x => [digit (x.toNat / 16), digit (x.toNat % 16)])

end Bytes

end LaneQueue
