import Lockstep.Decimal.Shortest

/-!
# Doubles from decimals

The double nearest to a decimal, a tie to the even neighbour. A decimal with a
negative exponent is a quotient; it is cut off far behind the last bit of a
double, with a last bit of its own that says whether anything was cut off.
-/

namespace Lockstep.Decimal

/-- The quotient with at least 64 significant bits. Its last bit is set when the
division leaves a remainder. -/
def quotient (m d : Nat) : Nat × Int :=
  let places := d.log2 + 65 - m.log2
  let n := m * Nat.pow 2 places
  (2 * (n / d) + (if n % d = 0 then 0 else 1), -(places : Int) - 1)

/-- Orders that no double reaches. -/
def isHuge (d : Decimal) : Bool := decide (400 < d.exponent)

/-- Orders below that of the least double. -/
def isTiny (d : Decimal) : Bool :=
  decide (d.exponent + (d.digits.log2 + 1) * 30103 / 100000 < -400)

/-- The exact number, or one that rounds to the same double. -/
def datum (negative : Bool) (d : Decimal) : Datum :=
  if d.digits = 0 || d.isTiny then .finite negative 0 0
  else if d.isHuge then .infinite negative
  else if 0 ≤ d.exponent then .finite negative (d.digits * Nat.pow 10 d.exponent.toNat) 0
  else
    let (m, e) := quotient d.digits (Nat.pow 10 (-d.exponent).toNat)
    .finite negative m e

/-- The double nearest to a decimal with a sign. -/
def nearest (negative : Bool) (d : Decimal) : Binary64 :=
  .ofDatum (d.datum negative)

end Lockstep.Decimal
