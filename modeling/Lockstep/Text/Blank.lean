/-!
# Blank characters

The characters with the Unicode property White_Space, and the removal of blanks
around a text.
-/

namespace Lockstep

/-- Code points with the property White_Space, as inclusive ranges. -/
def blankRanges : List (Nat × Nat) :=
  [(0x0009, 0x000D), (0x0020, 0x0020), (0x0085, 0x0085), (0x00A0, 0x00A0), (0x1680, 0x1680),
   (0x2000, 0x200A), (0x2028, 0x2029), (0x202F, 0x202F), (0x205F, 0x205F), (0x3000, 0x3000)]

def isBlank (c : Char) : Bool :=
  blankRanges.any fun r => decide (r.1 ≤ c.toNat ∧ c.toNat ≤ r.2)

/-- The characters without the blanks before the first and after the last other
one. -/
def trimBlanks (cs : List Char) : List Char :=
  ((cs.dropWhile isBlank).reverse.dropWhile isBlank).reverse

def trimText (s : String) : String :=
  String.ofList (trimBlanks s.toList)

/-- The text with the letters `A` to `Z` in lower case; other letters keep
theirs. -/
def lowerText (s : String) : String :=
  String.ofList (s.toList.map Char.toLower)

end Lockstep
