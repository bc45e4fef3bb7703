/-!
# Blank characters

The characters that count as white space at the ends of a name or a setting, and trimming by
them. `trimLeft_eq_nil_iff` says when nothing but blanks was there.
-/
namespace LaneQueue

/-- The Unicode `White_Space` property. -/
def isBlank (c : Char) : Bool :=
  let n := c.toNat
  (9 ≤ n && n ≤ 13) || n == 0x20 || n == 0x85 || n == 0xA0 || n == 0x1680 ||
  (0x2000 ≤ n && n ≤ 0x200A) || n == 0x2028 || n == 0x2029 || n == 0x202F || n == 0x205F ||
  n == 0x3000

/-- The characters of `cs` after its leading blanks. -/
def trimLeft (cs : List Char) : List Char := cs.dropWhile isBlank

/-- The characters of `cs` before its trailing blanks. -/
def trimRight (cs : List Char) : List Char := (cs.reverse.dropWhile isBlank).reverse

/-- The text without the blanks at its ends. -/
def trim (s : String) : String := String.ofList (trimRight (trimLeft s.toList))

/-- Nothing but blanks, or nothing at all. -/
def isBlankText (s : String) : Bool := s.toList.all isBlank

theorem trimLeft_eq_nil_iff (cs : List Char) : trimLeft cs = [] ↔ cs.all isBlank = true := by
  induction cs with
  | nil => simp [trimLeft]
  | cons c cs ih => by_cases h : isBlank c <;> simp_all [trimLeft]

theorem trimRight_eq_nil_iff (cs : List Char) : trimRight cs = [] ↔ cs.all isBlank = true := by
  have h := trimLeft_eq_nil_iff cs.reverse
  unfold trimLeft at h
  simp only [trimRight, List.reverse_eq_nil_iff, h, List.all_reverse]

end LaneQueue
