import Lockstep.Binary.Binary64

/-!
# Shortest decimals

The decimal with the fewest digits that reads back as a given double. The reals
that round to a double form an interval; the digits are searched on grids of
falling width, by exact arithmetic on naturals.
-/

namespace Lockstep

/-- The number `digits * 10 ^ exponent`. -/
structure Decimal where
  digits : Nat
  exponent : Int
  deriving DecidableEq

namespace Decimal

/-- Moves trailing zeros of the digits into the exponent. -/
def trimZeros (digits : Nat) (exponent : Int) : Decimal :=
  if h : digits ≠ 0 ∧ digits % 10 = 0 then trimZeros (digits / 10) (exponent + 1)
  else ⟨digits, exponent⟩
  termination_by digits
  decreasing_by omega

/-- An interval around a value, over one common denominator. -/
structure Neighbourhood where
  low : Nat
  value : Nat
  high : Nat
  denominator : Nat
  /-- the ends belong to the interval -/
  closed : Bool

namespace Neighbourhood

/-- The reals that round to the positive number `m * 2 ^ e`: halfway to either
neighbour, and half as far below at the foot of a binade. -/
def ofFinite (m : Nat) (e : Int) : Neighbourhood :=
  let narrow := m = 0x10000000000000 ∧ BinaryFormat.double.minExponent < e
  let scale := Nat.pow 2 (e - 2).toNat
  { low := (if narrow then 4 * m - 1 else 4 * m - 2) * scale
    value := 4 * m * scale
    high := (4 * m + 2) * scale
    denominator := Nat.pow 2 (2 - e).toNat
    closed := m % 2 == 0 }

/-- The same interval in units of `10 ^ k`. -/
def inUnits (n : Neighbourhood) (k : Int) : Neighbourhood :=
  let up := Nat.pow 10 (-k).toNat
  { n with
    low := n.low * up
    value := n.value * up
    high := n.high * up
    denominator := n.denominator * Nat.pow 10 k.toNat }

def contains (n : Neighbourhood) (c : Nat) : Bool :=
  let x := c * n.denominator
  if n.closed then decide (n.low ≤ x ∧ x ≤ n.high) else decide (n.low < x ∧ x < n.high)

/-- The integer of the interval nearest to its value, an exact tie upward. -/
def nearest? (n : Neighbourhood) : Option Nat :=
  let a := n.value / n.denominator
  match n.contains a, n.contains (a + 1) with
  | true, true =>
    some (if 2 * n.value < (2 * a + 1) * n.denominator then a else a + 1)
  | true, false => some a
  | false, true => some (a + 1)
  | false, false => none

end Neighbourhood

/-- Searches the grids `10 ^ k`, `10 ^ (k - 1)`, … -/
def search (n : Neighbourhood) (k : Int) : Nat → Option Decimal
  | 0 => none
  | fuel + 1 =>
    match (n.inUnits k).nearest? with
    | some c => some (trimZeros c k)
    | none => search n (k - 1) fuel

/-- A power of ten that is at least the number `m * 2 ^ e`. -/
def scale (m : Nat) (e : Int) : Int :=
  (e + m.log2 + 1) * 30103 / 100000 + 1

/-- The exact decimal of `m * 2 ^ e`. -/
def exact (m : Nat) (e : Int) : Decimal :=
  trimZeros (m * Nat.pow 2 e.toNat * Nat.pow 5 (-e).toNat) (min e 0)

/-- The fewest digits that read back as the number `m * 2 ^ e`. Seventeen
digits tell any two doubles apart, and the search starts at most two grids
early. -/
def shortest (m : Nat) (e : Int) : Decimal :=
  if m = 0 then ⟨0, 0⟩
  else (search (.ofFinite m e) (scale m e) 20).getD (exact m e)

end Decimal

end Lockstep
