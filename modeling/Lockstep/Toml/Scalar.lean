import Lockstep.ScalarType
import Lockstep.Toml.Basic
import Lockstep.Toml.Scan

/-!
# TOML numbers, dates and truth values

Everything that is written without quotes or brackets is one token: the longest
run of letters, digits and the signs of numbers and dates. The token as a whole
is an integer, a float, a date-time or a truth value, or it is nothing.
-/

namespace Lockstep.Toml

def isTokenChar (c : Char) : Bool :=
  c.isAlphanum || c == '+' || c == '-' || c == '_' || c == '.' || c == ':'

/-- The digits of a number, in which single underscores may stand between two
digits. -/
def ungroup? (isDigit : Char → Bool) : List Char → Option (List Char)
  | [] => none
  | [c] => if isDigit c then some [c] else none
  | c :: '_' :: r => if isDigit c then (ungroup? isDigit r).map (c :: ·) else none
  | c :: r => if isDigit c then (ungroup? isDigit r).map (c :: ·) else none

/-- Decimal digits without a leading zero. -/
def decimal? (cs : List Char) : Option (List Char) :=
  match ungroup? Char.isDigit cs with
  | some ('0' :: _ :: _) => none
  | ds => ds

/-- A sign, if there is one, and what follows it. -/
def splitSign : List Char → Bool × List Char
  | '-' :: r => (true, r)
  | '+' :: r => (false, r)
  | cs => (false, cs)

def digitValue (c : Char) : Nat :=
  if c.isDigit then c.toNat - '0'.toNat else c.toLower.toNat - 'a'.toNat + 10

def isDigitOf (base : Nat) (c : Char) : Bool :=
  c.isAlphanum && decide (digitValue c < base)

def digitsValue (base : Nat) (ds : List Char) : Nat :=
  ds.foldl (fun n c => n * base + digitValue c) 0

/-- Digits of a base after its mark; a sign is not allowed. -/
def based? (base : Nat) (cs : List Char) : Option Int :=
  (ungroup? (isDigitOf base) cs).map fun ds => (digitsValue base ds : Int)

/-- An integer of 64 bits. -/
def int? (token : List Char) : Option Int := do
  let i ← match token with
    | '0' :: 'x' :: r => based? 16 r
    | '0' :: 'o' :: r => based? 8 r
    | '0' :: 'b' :: r => based? 2 r
    | _ =>
      let (negative, r) := splitSign token
      (decimal? r).map fun ds => if negative then -(digitsValue 10 ds : Int) else digitsValue 10 ds
  if IntType.int64.contains i then some i else none

/-- The exponent of a float. -/
def exponent? (cs : List Char) : Option Int :=
  let (negative, r) := splitSign cs
  (ungroup? Char.isDigit r).map fun ds =>
    if negative then -(digitsValue 10 ds : Int) else digitsValue 10 ds

/-- The parts of a text around the first character of a class. -/
def splitAt? (p : Char → Bool) (cs : List Char) : Option (List Char × List Char) :=
  match cs.span (!p ·) with
  | (_, []) => none
  | (before, _ :: after) => some (before, after)

/-- A number without a sign that has a fraction or an exponent. -/
def decimalFloat? (cs : List Char) : Option Decimal := do
  let (mantissa, exponent) ← match splitAt? (fun c => c == 'e' || c == 'E') cs with
    | some (m, e) => (exponent? e).map fun e => (m, some e)
    | none => some (cs, none)
  match splitAt? (· == '.') mantissa with
  | some (whole, fraction) =>
    let whole ← decimal? whole
    let fraction ← ungroup? Char.isDigit fraction
    return ⟨digitsValue 10 (whole ++ fraction), exponent.getD 0 - fraction.length⟩
  | none =>
    let whole ← decimal? mantissa
    return ⟨digitsValue 10 whole, ← exponent⟩

/-- A float. A number so large that it has no double is none, unless it is
negative. -/
def float? (token : List Char) : Option Binary64 :=
  let (negative, r) := splitSign token
  if r = ['i', 'n', 'f'] then some (.ofDatum (.infinite negative))
  else if r = ['n', 'a', 'n'] then some (if negative then Binary64.undefined.neg else .undefined)
  else
    match decimalFloat? r with
    | none => none
    | some d =>
      let x := d.nearest negative
      if x.isFinite || negative then some x else none

/-! ## Dates and times -/

def isLeapYear (y : Nat) : Bool :=
  y % 4 == 0 && (y % 100 != 0 || y % 400 == 0)

def daysInMonth (y : Nat) : Nat → Nat
  | 2 => if isLeapYear y then 29 else 28
  | 4 | 6 | 9 | 11 => 30
  | _ => 31

/-- The value of exactly so many decimal digits. -/
def fixed? (width : Nat) (cs : List Char) : Option Nat :=
  if cs.length = width ∧ cs.all Char.isDigit then some (digitsValue 10 cs) else none

/-- A date, written `YYYY-MM-DD`. -/
def isDate (cs : List Char) : Bool :=
  match fixed? 4 (cs.take 4), fixed? 2 ((cs.drop 5).take 2), fixed? 2 (cs.drop 8) with
  | some y, some m, some d =>
    cs[4]? == some '-' && cs[7]? == some '-' &&
      decide (1 ≤ m ∧ m ≤ 12 ∧ 1 ≤ d ∧ d ≤ daysInMonth y m)
  | _, _, _ => false

/-- A time `HH:MM` with an hour below 24 and a minute below 60. -/
def isMinute (cs : List Char) : Bool :=
  match fixed? 2 (cs.take 2), fixed? 2 (cs.drop 3) with
  | some h, some m => cs[2]? == some ':' && decide (h < 24 ∧ m < 60)
  | _, _ => false

/-- An offset from universal time: `Z`, or a sign and `HH:MM`. -/
def isOffset : List Char → Bool
  | [c] => c == 'Z' || c == 'z'
  | '+' :: r => isMinute r
  | '-' :: r => isMinute r
  | _ => false

/-- A time `HH:MM:SS`, where a minute may have a leap second, then perhaps a
fraction, and for a time with a date perhaps an offset. -/
def isTime (dated : Bool) (cs : List Char) : Bool :=
  let ending (r : List Char) : Bool := r.isEmpty || (dated && isOffset r)
  match fixed? 2 ((cs.drop 6).take 2) with
  | none => false
  | some s =>
    isMinute (cs.take 5) && cs[5]? == some ':' && decide (s ≤ 60) &&
      match cs.drop 8 with
      | '.' :: r =>
        let (fraction, r) := r.span Char.isDigit
        !fraction.isEmpty && ending r
      | r => ending r

/-- A date, a time, or a date with a time after a `T`. -/
def isDateTime (token : List Char) : Bool :=
  isDate token || isTime false token ||
    (isDate (token.take 10) && (token[10]? == some 'T' || token[10]? == some 't') &&
      isTime true (token.drop 11))

/-- The value of a token. -/
def Node.ofToken? (token : List Char) : Option Node :=
  if token = ['t', 'r', 'u', 'e'] then some (.bool true)
  else if token = ['f', 'a', 'l', 's', 'e'] then some (.bool false)
  else if isDateTime token then some .dateTime
  else
    match int? token with
    | some i => some (.int i)
    | none => (float? token).map .float

namespace Scan

/-- A value without quotes or brackets. A space may stand between a date and its
time. -/
def token : Scan Node := do
  let t ← span isTokenChar
  if isDate t then
    match ← peek with
    | some ' ' => fun cs =>
      match cs.tail.span isTokenChar with
      | ([], _) => some (.dateTime, cs)
      | (time, r) => if isTime true time then some (.dateTime, r) else none
    | _ => return .dateTime
  else fun cs => (Node.ofToken? t).map (·, cs)

end Scan

end Lockstep.Toml
