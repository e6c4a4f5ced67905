/-!
# Binary interchange formats

A floating-point format is given by the widths of its exponent and fraction
fields. `decode` reads a word as the exact datum it stands for; `encode` writes
the word nearest to a datum, ties to even.
-/

namespace Lockstep

/-- Widths of the two magnitude fields of a floating-point word. -/
structure BinaryFormat where
  exponentBits : Nat
  fractionBits : Nat
  deriving DecidableEq

/-- What a floating-point word stands for. A finite datum is `m * 2 ^ e` with
the given sign. The payload of a NaN is its fraction field aligned to 52 bits. -/
inductive Datum where
  | finite (negative : Bool) (m : Nat) (e : Int)
  | infinite (negative : Bool)
  | nan (negative : Bool) (payload : Nat)
  deriving DecidableEq

namespace Datum

def negative : Datum → Bool
  | finite s _ _ => s
  | infinite s => s
  | nan s _ => s

end Datum

/-- The quotient of `m` by `2 ^ s`, to nearest, a half to the even neighbour. -/
def roundShift (m s : Nat) : Nat :=
  let q := m / Nat.pow 2 s
  let r := m % Nat.pow 2 s
  if 2 * r < Nat.pow 2 s then q
  else if Nat.pow 2 s < 2 * r then q + 1
  else q + q % 2

namespace BinaryFormat

def half : BinaryFormat := ⟨5, 10⟩
def single : BinaryFormat := ⟨8, 23⟩
def double : BinaryFormat := ⟨11, 52⟩

variable (f : BinaryFormat)

/-- Exponent of the unit in the last place of the subnormal numbers. -/
def minExponent : Int :=
  2 - Nat.pow 2 (f.exponentBits - 1) - f.fractionBits

/-- The magnitude word of infinity. NaNs lie above it, finite numbers below. -/
def infinity : Nat :=
  (Nat.pow 2 f.exponentBits - 1) * Nat.pow 2 f.fractionBits

/-- The word of a sign bit alone. -/
def signBit : Nat :=
  Nat.pow 2 (f.exponentBits + f.fractionBits)

/-- The fraction bit that marks a NaN as quiet. -/
def quietBit : Nat :=
  Nat.pow 2 (f.fractionBits - 1)

/-- Magnitude word nearest to `m * 2 ^ e`. The unit in the last place is that
of the binade of `m * 2 ^ e`, or of the subnormal numbers; a significand that
rounds up to the next binade carries into the exponent field. -/
def magnitude (m : Nat) (e : Int) : Nat :=
  if m = 0 then 0
  else
    let unit := max (e + m.log2 - f.fractionBits) f.minExponent
    let n := if unit ≤ e then m * Nat.pow 2 (e - unit).toNat else roundShift m (unit - e).toNat
    min ((unit - f.minExponent).toNat * Nat.pow 2 f.fractionBits + n) f.infinity

/-- The word nearest to a datum. A NaN keeps the leading bits of its payload
and becomes quiet. -/
def encode (d : Datum) : Nat :=
  (if d.negative then f.signBit else 0) +
    match d with
    | .finite _ m e => f.magnitude m e
    | .infinite _ => f.infinity
    | .nan _ payload =>
      f.infinity + (payload % 0x10000000000000 / Nat.pow 2 (52 - f.fractionBits) ||| f.quietBit)

/-- The exact datum of a word. -/
def decode (w : Nat) : Datum :=
  let fraction := w % Nat.pow 2 f.fractionBits
  let exponent := w / Nat.pow 2 f.fractionBits % Nat.pow 2 f.exponentBits
  let negative := w / f.signBit % 2 == 1
  if exponent = Nat.pow 2 f.exponentBits - 1 then
    if fraction = 0 then .infinite negative
    else .nan negative (fraction * Nat.pow 2 (52 - f.fractionBits))
  else if exponent = 0 then .finite negative fraction f.minExponent
  else .finite negative (Nat.pow 2 f.fractionBits + fraction) (f.minExponent + exponent - 1)

end BinaryFormat

end Lockstep
