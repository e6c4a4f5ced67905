/-!
# Numerals and splitting

Decimal numerals of machine words, and the division of a text at a separator.
-/

namespace Lockstep

def isNumeral (cs : List Char) : Bool :=
  !cs.isEmpty && cs.all Char.isDigit

/-- One more than the largest machine word. -/
def wordLimit : Nat := 0x10000000000000000

/-- Digits, after at most one plus sign, of a number that fits a word. -/
def readWord? (cs : List Char) : Option Nat :=
  let ds := match cs with
    | '+' :: r => r
    | _ => cs
  if isNumeral ds && decide (Nat.ofDigitChars 10 ds 0 < wordLimit) then
    some (Nat.ofDigitChars 10 ds 0)
  else none

/-- The parts before and after the first separator. -/
def splitFirst? (sep : Char) : List Char → Option (List Char × List Char)
  | [] => none
  | c :: r =>
    if c = sep then some ([], r)
    else (splitFirst? sep r).map fun p => (c :: p.1, p.2)

/-- The parts before and after the last separator. -/
def splitLast? (sep : Char) : List Char → Option (List Char × List Char)
  | [] => none
  | c :: r =>
    match splitLast? sep r with
    | some p => some (c :: p.1, p.2)
    | none => if c = sep then some ([], r) else none

end Lockstep
