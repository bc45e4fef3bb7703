import LaneQueue.Text.Unprintable
/-!
# Quoted text for messages

A text between double quotes in which every character can be told apart: quotes and backslashes
are escaped, common controls have short names, and what has no picture is given by its number.
-/
namespace LaneQueue

/-- The digits of a number in lower-case hexadecimal, without leading zeros. -/
def hexDigits (n : Nat) : List Char := Nat.toDigits 16 n

/-- A character by its number. -/
def numbered (c : Char) : List Char :=
  ['\\', 'u', Char.ofNat 0x7B] ++ hexDigits c.toNat ++ [Char.ofNat 0x7D]

/-- The form of one character between quotes. -/
def quotedChar (c : Char) : List Char :=
  if c = '"' then ['\\', '"']
  else if c = '\\' then ['\\', '\\']
  else if c = '\n' then ['\\', 'n']
  else if c = '\r' then ['\\', 'r']
  else if c = '\t' then ['\\', 't']
  else if c.toNat = 0 then ['\\', '0']
  else if c.toNat < 32 ∨ c.toNat = 127 then numbered c
  else if c.toNat < 127 then [c]
  else if isUnprintable c then numbered c
  else [c]

/-- A text between quotes. -/
def quoted (s : String) : String :=
  String.ofList ('"' :: s.toList.flatMap quotedChar ++ ['"'])

end LaneQueue
