/-!
# SipHash-1-3

The keyed 64-bit hash with one round per word and three at the end, under the all-zero key. It
only has to be the same on every run, so that retry delays are.
-/
namespace LaneQueue.Sip

/-- The four words of the state. -/
structure State where
  v0 : UInt64
  v1 : UInt64
  v2 : UInt64
  v3 : UInt64

def rotl (x : UInt64) (n : UInt64) : UInt64 := (x <<< n) ||| (x >>> (64 - n))

def State.round (s : State) : State :=
  let v0 := s.v0 + s.v1
  let v1 := rotl s.v1 13 ^^^ v0
  let v0 := rotl v0 32
  let v2 := s.v2 + s.v3
  let v3 := rotl s.v3 16 ^^^ v2
  let v0 := v0 + v3
  let v3 := rotl v3 21 ^^^ v0
  let v2 := v2 + v1
  let v1 := rotl v1 17 ^^^ v2
  let v2 := rotl v2 32
  ⟨v0, v1, v2, v3⟩

/-- Mixes one word in. -/
def State.absorb (s : State) (m : UInt64) : State :=
  let t := State.round { s with v3 := s.v3 ^^^ m }
  { t with v0 := t.v0 ^^^ m }

/-- The state before any input, under the zero key. -/
def State.start : State :=
  ⟨0x736f6d6570736575, 0x646f72616e646f6d, 0x6c7967656e657261, 0x7465646279746573⟩

/-- Up to eight bytes as a word, the first byte lowest. -/
def word (bytes : List UInt8) : UInt64 :=
  bytes.foldr (fun b acc => (acc <<< 8) ||| b.toUInt64) 0

/-- Absorbs whole words and returns what is left over with the state. -/
def absorbAll (s : State) : List UInt8 → State × List UInt8
  | a :: b :: c :: d :: e :: f :: g :: h :: rest =>
    absorbAll (s.absorb (word [a, b, c, d, e, f, g, h])) rest
  | rest => (s, rest)

/-- The hash of a byte string. -/
def hash (bytes : List UInt8) : UInt64 :=
  let (s, rest) := absorbAll .start bytes
  let last := word rest ||| (UInt64.ofNat (bytes.length % 256) <<< 56)
  let s := s.absorb last
  let s := { s with v2 := s.v2 ^^^ 0xff }
  let s := s.round.round.round
  s.v0 ^^^ s.v1 ^^^ s.v2 ^^^ s.v3

end LaneQueue.Sip
