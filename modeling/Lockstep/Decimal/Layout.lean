import Lockstep.Decimal.Shortest

/-!
# Layout of decimals

How the digits of a number are written: a `Layout` says which numbers are
written positionally and whether a whole number keeps a point.
-/

namespace Lockstep

namespace Decimal

/-- The decimal digits of a natural number. -/
def digitText (n : Nat) : List Char :=
  Nat.toDigits 10 n

/-- The place of the leading digit is `10 ^ order`. -/
def order (d : Decimal) : Int :=
  d.exponent + (digitText d.digits).length - 1

end Decimal

/-- How a decimal is laid out as text. -/
structure Layout where
  /-- the orders written positionally; all others get an exponent -/
  positional : Int → Bool
  /-- a whole number written positionally ends in `.0` -/
  keepsPoint : Bool

namespace Layout

/-- Positional, whatever the size. -/
def plain : Layout := ⟨fun _ => true, false⟩

/-- Positional from `0.0001` to below `10 ^ 16`, with a point that marks the
number as a float. -/
def marked : Layout := ⟨fun k => decide (-4 ≤ k ∧ k < 16), true⟩

variable (l : Layout)

def positionalText (d : Decimal) : List Char :=
  let ds := Decimal.digitText d.digits
  if 0 ≤ d.exponent then
    ds ++ List.replicate d.exponent.toNat '0' ++ (if l.keepsPoint then ['.', '0'] else [])
  else
    let places := (-d.exponent).toNat
    if places < ds.length then
      ds.take (ds.length - places) ++ '.' :: ds.drop (ds.length - places)
    else '0' :: '.' :: List.replicate (places - ds.length) '0' ++ ds

def exponentText (d : Decimal) : List Char :=
  let fraction := (Decimal.digitText d.digits).tail
  (Decimal.digitText d.digits).take 1 ++
    (if fraction.isEmpty then [] else '.' :: fraction) ++
    'e' :: (toString d.order).toList

def unsigned (d : Decimal) : List Char :=
  if d.digits = 0 ∨ l.positional d.order then l.positionalText d else exponentText d

/-- The text of a double. Its digits are the fewest that read back. -/
def text (x : Binary64) : String :=
  String.ofList <|
    match x.datum with
    | .finite s m e => (if s then ['-'] else []) ++ l.unsigned (Decimal.shortest m e)
    | .infinite s => (if s then ['-'] else []) ++ ['i', 'n', 'f']
    | .nan _ _ => ['N', 'a', 'N']

end Layout

end Lockstep
