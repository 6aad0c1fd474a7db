/-! # Blank characters and blank text -/

namespace SearchCriteria.Text

/-- Closed ranges of code points, in increasing order. -/
abbrev Ranges := List (Nat × Nat)

def Ranges.contains (ranges : Ranges) (c : Char) : Bool :=
  ranges.any fun r => r.1 ≤ c.toNat && c.toNat ≤ r.2

/-- White space of the Unicode standard, the four information separators included. -/
def blankRanges : Ranges :=
  [(0x09, 0x0D), (0x1C, 0x20), (0x85, 0x85), (0xA0, 0xA0), (0x1680, 0x1680), (0x2000, 0x200A),
   (0x2028, 0x2029), (0x202F, 0x202F), (0x205F, 0x205F), (0x3000, 0x3000)]

def isBlankChar (c : Char) : Bool := blankRanges.contains c

/-- Text is blank when it is empty or holds blank characters only. -/
def isBlank (s : String) : Bool := s.toList.all isBlankChar

/-- Drop the blank characters at both ends. -/
def strip (cs : List Char) : List Char :=
  ((cs.dropWhile isBlankChar).reverse.dropWhile isBlankChar).reverse

@[simp] theorem isBlank_empty : isBlank "" = true := by simp [isBlank]

@[simp] theorem strip_nil : strip [] = [] := rfl

end SearchCriteria.Text
